import SiteBroker.Proofs.Instant
import SiteBroker.Proofs.Listing
import SiteBroker.TaskList

/-! What a task list holds under each name after tasks were put into it. -/

namespace SiteBroker

namespace TaskRecord

/-- What is held of a task after a record of it arrived: the newer of the two, the one that was
there if they are of one time. -/
def overlay (t : TaskRecord) : Option TaskRecord → TaskRecord
  | some old => if t.timestamp ≤ old.timestamp then old else t
  | none => t

@[simp] theorem overlay_none (t : TaskRecord) : t.overlay none = t := rfl

theorem overlay_eq_or (t : TaskRecord) (old : Option TaskRecord) :
    t.overlay old = t ∨ old = some (t.overlay old) := by
  cases old with
  | none => exact .inl rfl
  | some u =>
    by_cases h : t.timestamp ≤ u.timestamp
    · exact .inr (by simp [overlay, h])
    · exact .inl (by simp [overlay, h])

@[simp] theorem overlay_self (t : TaskRecord) : t.overlay (some t) = t := by
  simp [overlay]

end TaskRecord

namespace TaskList

@[simp] theorem get?_empty (n : String) : (∅ : TaskList).get? n = none := by
  show (∅ : Std.ExtTreeMap String TaskRecord)[n]? = none
  simp

theorem name_eq {l : TaskList} {n : String} {t : TaskRecord} (h : l.get? n = some t) :
    t.name = n := l.named h

@[ext] theorem ext {l l' : TaskList} (h : ∀ n, l.get? n = l'.get? n) : l = l' := by
  obtain ⟨m, hm⟩ := l
  obtain ⟨m', hm'⟩ := l'
  have : m = m' := Std.ExtTreeMap.ext_getElem? fun {n} => h n
  subst this
  rfl

theorem covers_iff {l : TaskList} {t : TaskRecord} :
    l.covers t = true ↔ ∃ old, l.get? t.name = some old ∧ t.timestamp ≤ old.timestamp := by
  cases h : l.get? t.name <;> simp [covers, h]

theorem get?_put (l : TaskList) (t : TaskRecord) (n : String) :
    (l.put t).get? n = if n = t.name then some (t.overlay (l.get? n)) else l.get? n := by
  by_cases hc : l.covers t = true
  · obtain ⟨old, hold, ht⟩ := covers_iff.mp hc
    have hp : l.put t = l := by simp [put, hc]
    rw [hp]
    split
    · next hn =>
      subst hn
      simp [hold, TaskRecord.overlay, ht]
    · rfl
  · have hp : (l.put t).get? n = (l.byName.insert t.name t)[n]? := by simp [put, hc, get?]
    rw [hp, Std.ExtTreeMap.getElem?_insert]
    simp only [Std.LawfulEqCmp.compare_eq_iff_eq]
    by_cases hn : t.name = n
    · subst hn
      have ho : t.overlay (l.get? t.name) = t := by
        cases hold : l.get? t.name with
        | none => rfl
        | some old =>
          have ht : ¬ t.timestamp ≤ old.timestamp := fun ht => hc (covers_iff.mpr ⟨old, hold, ht⟩)
          simp [TaskRecord.overlay, ht]
      simp [ho]
    · simp [hn, Ne.symm hn, get?]

theorem putAll_fst (l : TaskList) (ts : List TaskRecord) : (l.putAll ts).1 = ts.foldl put l := by
  unfold putAll
  generalize false = changed
  induction ts generalizing l changed with
  | nil => rfl
  | cons t ts ih => exact ih (l.put t) _

theorem lists_toList (l : TaskList) : Lists l.get? l.toList := Lists.ofTreeMap l.byName

theorem mem_toList {l : TaskList} {t : TaskRecord} : t ∈ l.toList ↔ l.get? t.name = some t := by
  rw [l.lists_toList.mem_iff]
  constructor
  · rintro ⟨n, h⟩
    rwa [name_eq h]
  · exact fun h => ⟨_, h⟩

/-- Putting records that another list holds into one that holds no others adds just these. -/
theorem get?_foldl_put {l acc : TaskList} {ts : List TaskRecord}
    (hts : ∀ t ∈ ts, l.get? t.name = some t) (hacc : ∀ n u, acc.get? n = some u → l.get? n = some u)
    (n : String) :
    (ts.foldl put acc).get? n = if n ∈ ts.map (·.name) then l.get? n else acc.get? n := by
  induction ts generalizing acc with
  | nil => simp
  | cons t ts ih =>
    have ht := hts t (by simp)
    have hput_same : t.overlay (acc.get? t.name) = t := by
      cases h : acc.get? t.name with
      | none => rfl
      | some u =>
        have hu := hacc _ _ h
        rw [ht] at hu
        cases hu
        simp
    have hput : ∀ m, (acc.put t).get? m = if m = t.name then some t else acc.get? m := by
      intro m
      rw [get?_put]
      split
      · next hm => rw [hm, hput_same]
      · rfl
    have hacc' : ∀ m u, (acc.put t).get? m = some u → l.get? m = some u := by
      intro m u hm
      rw [hput] at hm
      split at hm
      · next he => rw [he, ht, hm]
      · exact hacc m u hm
    rw [List.foldl_cons, ih (fun u hu => hts u (by simp [hu])) hacc', hput]
    by_cases hn : n = t.name
    · simp [hn, ht]
    · simp [hn]

@[simp] theorem putAll_empty_toList (l : TaskList) : ((∅ : TaskList).putAll l.toList).1 = l := by
  ext1 n
  rw [putAll_fst, get?_foldl_put (l := l) (fun t ht => mem_toList.mp ht) (by simp)]
  cases h : l.get? n with
  | none => simp
  | some t =>
    have hn := name_eq h
    have hm : n ∈ l.toList.map (·.name) :=
      List.mem_map.mpr ⟨t, mem_toList.mpr (hn ▸ h), hn⟩
    rw [if_pos hm]

theorem isEmpty_iff {l : TaskList} : l.isEmpty = true ↔ ∀ n, l.get? n = none := by
  show l.byName.isEmpty = true ↔ _
  rw [Std.ExtTreeMap.isEmpty_iff]
  constructor
  · intro h n
    simp [get?, h]
  · intro h
    exact Std.ExtTreeMap.ext_getElem? fun {n} => by simpa [get?] using h n

theorem latest?_eq_some_iff {l : TaskList} {m : Instant} :
    l.latest? = some m ↔
      (∃ n t, l.get? n = some t ∧ t.timestamp = m) ∧
        ∀ n t, l.get? n = some t → t.timestamp ≤ m := by
  have hmem : ∀ t, t ∈ l.toList ↔ ∃ n, l.get? n = some t := fun t => l.lists_toList.mem_iff
  simp only [latest?, List.max?_eq_some_iff, List.mem_map, hmem, forall_exists_index, and_imp]
  constructor
  · rintro ⟨⟨t, ⟨n, hn⟩, ht⟩, hle⟩
    exact ⟨⟨n, t, hn, ht⟩, fun n u hu => hle _ u n hu rfl⟩
  · rintro ⟨⟨n, t, hn, ht⟩, hle⟩
    exact ⟨⟨t, ⟨n, hn⟩, ht⟩, fun _ u k hu he => he ▸ hle k u hu⟩

theorem latest?_eq_none_iff {l : TaskList} : l.latest? = none ↔ ∀ n, l.get? n = none := by
  rw [latest?, List.max?_eq_none_iff, List.map_eq_nil_iff, List.eq_nil_iff_forall_not_mem]
  simp only [l.lists_toList.mem_iff, not_exists, Option.eq_none_iff_forall_ne_some]
  exact ⟨fun h n t => h t n, fun h t n => h n t⟩

theorem timestamp_le_of_news {l : TaskList} {t old : TaskRecord} (h : l.covers t = false)
    (hold : l.get? t.name = some old) : old.timestamp ≤ t.timestamp := by
  refine Std.le_total.resolve_right fun hle => ?_
  rw [covers_iff.mpr ⟨old, hold, hle⟩] at h
  cases h

theorem get?_put_of_news {l : TaskList} {t : TaskRecord} (h : l.covers t = false) (n : String) :
    (l.put t).get? n = if t.name = n then some t else l.get? n := by
  have hput : (l.put t).get? n = (l.byName.insert t.name t)[n]? := by simp [put, h, get?]
  rw [hput, Std.ExtTreeMap.getElem?_insert]
  simp only [Std.LawfulEqCmp.compare_eq_iff_eq, get?]

theorem eq_or_mem_of_mem_put {l : TaskList} {t u : TaskRecord} (h : u ∈ (l.put t).toList) :
    u = t ∨ u ∈ l.toList := by
  cases hc : l.covers t with
  | true =>
    rw [put, if_pos hc] at h
    exact .inr h
  | false =>
    rw [mem_toList, get?_put_of_news hc] at h
    split at h
    · exact .inl (Option.some.inj h).symm
    · exact .inr (mem_toList.mpr h)

/-- A task that is news replaces at most an older record, so that no later time is lost. -/
theorem latest?_put {l : TaskList} {t : TaskRecord} (h : l.covers t = false) :
    (l.put t).latest? = some (l.latest?.elim t.timestamp (max · t.timestamp)) := by
  have hput := get?_put_of_news h
  have hself : (l.put t).get? t.name = some t := by rw [hput, if_pos rfl]
  rw [latest?_eq_some_iff]
  cases hl : l.latest? with
  | none =>
    refine ⟨⟨t.name, t, hself, rfl⟩, fun n u hu => ?_⟩
    rw [hput, latest?_eq_none_iff.mp hl, Option.ite_none_right_eq_some] at hu
    obtain ⟨-, ⟨⟩⟩ := hu
    exact Std.le_refl _
  | some m =>
    obtain ⟨⟨n, u, hn, hu⟩, hle⟩ := latest?_eq_some_iff.mp hl
    refine ⟨?_, fun k v hv => ?_⟩
    · by_cases hmt : m ≤ t.timestamp
      · exact ⟨t.name, t, hself, by simp [Instant.max_def, hmt]⟩
      · refine ⟨n, u, ?_, by simp [Instant.max_def, hmt, hu]⟩
        rw [hput, if_neg, hn]
        rintro rfl
        exact hmt (hu ▸ timestamp_le_of_news h hn)
    · rw [hput] at hv
      split at hv
      · obtain ⟨⟩ := hv
        exact Std.right_le_max
      · exact Std.le_trans (hle k v hv) Std.left_le_max

theorem isEmpty_put (l : TaskList) (t : TaskRecord) : (l.put t).isEmpty = false := by
  refine Bool.eq_false_iff.mpr fun he => ?_
  have hnone := isEmpty_iff.mp he t.name
  rw [get?_put, if_pos rfl] at hnone
  cases hnone

theorem eq_empty {l : TaskList} (h : l.isEmpty = true) : l = ∅ := by
  ext1 n
  rw [isEmpty_iff.mp h, get?_empty]

end TaskList

end SiteBroker
