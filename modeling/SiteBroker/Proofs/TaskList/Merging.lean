import Mathlib.Data.List.Induction
import SiteBroker.Proofs.Sorting
import SiteBroker.Proofs.TaskList

/-! What a task list has come to after records of tasks arrived, in whatever order and however many
of them at a time. -/

namespace SiteBroker

namespace TaskRecord

/-- The first of the latest records of its task among those that arrived. -/
def Latest (arrived : List TaskRecord) (t : TaskRecord) : Prop :=
  ∃ before after, arrived = before ++ t :: after ∧
    (∀ u ∈ before, u.name = t.name → u.timestamp < t.timestamp) ∧
    ∀ u ∈ after, u.name = t.name → u.timestamp ≤ t.timestamp

/-- One record comes before another by its time, then by the name of its task. -/
def Earlier (a b : TaskRecord) : Prop :=
  a.timestamp < b.timestamp ∨ a.timestamp = b.timestamp ∧ a.name < b.name

namespace Latest

variable {arrived : List TaskRecord} {t u : TaskRecord}

theorem mem (h : Latest arrived t) : t ∈ arrived := by
  obtain ⟨before, after, rfl, -, -⟩ := h
  simp

theorem timestamp_le (h : Latest arrived t) (hu : u ∈ arrived) (hname : u.name = t.name) :
    u.timestamp ≤ t.timestamp := by
  obtain ⟨before, after, rfl, hbefore, hafter⟩ := h
  rcases List.mem_append.mp hu with hu | hu
  · exact Std.le_of_lt (hbefore u hu hname)
  · rcases List.mem_cons.mp hu with rfl | hu
    · exact Std.le_refl _
    · exact hafter u hu hname

/-- It stays the latest while nothing newer arrives of its task. -/
theorem concat (h : Latest arrived t) (hu : u.name = t.name → u.timestamp ≤ t.timestamp) :
    Latest (arrived ++ [u]) t := by
  obtain ⟨before, after, rfl, hbefore, hafter⟩ := h
  refine ⟨before, after ++ [u], by simp, hbefore, fun v hv hname => ?_⟩
  rcases List.mem_append.mp hv with hv | hv
  · exact hafter v hv hname
  · obtain rfl := List.mem_singleton.mp hv
    exact hu hname

theorem of_newest (h : ∀ u ∈ arrived, u.name = t.name → u.timestamp < t.timestamp) :
    Latest (arrived ++ [t]) t := ⟨arrived, [], rfl, h, by simp⟩

/-- Of each task one record at most is the latest. -/
theorem unique (ht : Latest arrived t) (hu : Latest arrived u) (hname : t.name = u.name) :
    t = u := by
  have hle := ht.timestamp_le hu.mem hname.symm
  have hle' := hu.timestamp_le ht.mem hname
  obtain ⟨before, after, hsplit, hbefore, -⟩ := ht
  obtain ⟨before', after', hsplit', hbefore', -⟩ := hu
  -- Each of the two would have to be older than the other one that comes after it.
  rcases List.append_eq_append_iff.mp (hsplit.symm.trans hsplit') with
    ⟨between, rfl, hrest⟩ | ⟨between, rfl, hrest⟩
  · cases between with
    | nil => exact (List.cons.inj hrest).1
    | cons v between =>
      obtain ⟨rfl, -⟩ := List.cons.inj hrest
      have hlt := hbefore' t (by simp) hname
      exact absurd hlt (Instant.not_lt.mpr hle)
  · cases between with
    | nil => exact (List.cons.inj hrest).1.symm
    | cons v between =>
      obtain ⟨rfl, -⟩ := List.cons.inj hrest
      have hlt := hbefore u (by simp) hname.symm
      exact absurd hlt (Instant.not_lt.mpr hle')

end Latest

end TaskRecord

namespace TaskList

open TaskRecord

variable {l l' : TaskList} {n : String} {t : TaskRecord}

/-- A list holds, of each task, the first of the latest records that arrived. -/
theorem get?_foldl_put_latest (arrived : List TaskRecord) (n : String) :
    (∀ t, (arrived.foldl put ∅).get? n = some t → Latest arrived t) ∧
      ((arrived.foldl put ∅).get? n = none → ∀ u ∈ arrived, u.name ≠ n) := by
  induction arrived using List.reverseRecOn with
  | nil => simp
  | append_singleton arrived a ih =>
    obtain ⟨hsome, hnone⟩ := ih
    rw [List.foldl_concat, get?_put]
    by_cases hn : n = a.name
    · subst hn
      rw [if_pos rfl]
      refine ⟨fun t ht => ?_, fun h => nomatch h⟩
      obtain rfl := Option.some.inj ht
      cases hold : (arrived.foldl put ∅).get? a.name with
      | none => exact .of_newest fun u hu hname => absurd hname (hnone hold u hu)
      | some old =>
        have hlatest := hsome old hold
        have hname : old.name = a.name := name_eq hold
        by_cases hle : a.timestamp ≤ old.timestamp
        · rw [overlay, if_pos hle]
          exact hlatest.concat fun _ => hle
        · rw [overlay, if_neg hle]
          refine .of_newest fun u hu hu' => ?_
          have hle' := hlatest.timestamp_le hu (hu'.trans hname.symm)
          exact Std.lt_of_le_of_lt hle' (Instant.not_le.mp hle)
    · rw [if_neg hn]
      refine ⟨fun t ht => (hsome t ht).concat fun hname => ?_, fun h u hu => ?_⟩
      · exact absurd ((name_eq ht).symm.trans hname.symm) hn
      · rcases List.mem_append.mp hu with hu | hu
        · exact hnone h u hu
        · obtain rfl := List.mem_singleton.mp hu
          exact Ne.symm hn

theorem isSome_get?_foldl_put {arrived : List TaskRecord} :
    ((arrived.foldl put ∅).get? n).isSome = true ↔ ∃ t ∈ arrived, t.name = n := by
  obtain ⟨hsome, hnone⟩ := get?_foldl_put_latest arrived n
  cases h : (arrived.foldl put ∅).get? n with
  | none => simpa using hnone h
  | some t => simpa using ⟨t, (hsome t h).mem, name_eq h⟩

theorem get?_foldl_put_iff {arrived : List TaskRecord} :
    (arrived.foldl put ∅).get? n = some t ↔ Latest arrived t ∧ t.name = n := by
  constructor
  · exact fun h => ⟨(get?_foldl_put_latest arrived n).1 t h, name_eq h⟩
  · rintro ⟨ht, rfl⟩
    obtain ⟨u, hu⟩ := Option.isSome_iff_exists.mp
      (isSome_get?_foldl_put.mpr ⟨t, ht.mem, rfl⟩)
    have hlatest := (get?_foldl_put_latest arrived t.name).1 u hu
    rw [hu, hlatest.unique ht (name_eq hu)]

/-- The order of arrival does not matter as far as records of one task and one time are alike. -/
theorem rel_get?_of_perm {R : TaskRecord → TaskRecord → Prop} {arrived arrived' : List TaskRecord}
    (hperm : arrived'.Perm arrived) (halike : ∀ t ∈ arrived, ∀ u ∈ arrived, t.name = u.name →
      t.timestamp = u.timestamp → R t u) (n : String) :
    Option.Rel R ((arrived'.foldl put ∅).get? n) ((arrived.foldl put ∅).get? n) := by
  have hsome : ((arrived'.foldl put ∅).get? n).isSome = ((arrived.foldl put ∅).get? n).isSome := by
    rw [Bool.eq_iff_iff, isSome_get?_foldl_put, isSome_get?_foldl_put]
    simp only [hperm.mem_iff]
  cases h' : (arrived'.foldl put ∅).get? n with
  | none =>
    cases h : (arrived.foldl put ∅).get? n with
    | none => exact .none
    | some u => simp [h, h'] at hsome
  | some t =>
    cases h : (arrived.foldl put ∅).get? n with
    | none => simp [h, h'] at hsome
    | some u =>
      obtain ⟨ht, hname⟩ := get?_foldl_put_iff.mp h'
      obtain ⟨hu, rfl⟩ := get?_foldl_put_iff.mp h
      have htm := hperm.mem_iff.mp ht.mem
      have hum := hperm.mem_iff.mpr hu.mem
      have htime := Std.le_antisymm (hu.timestamp_le htm hname) (ht.timestamp_le hum hname.symm)
      exact .some (halike t htm u hu.mem hname htime)

/-- A list holds a newer record of some task than another one does. -/
def Outdates (l' l : TaskList) : Prop :=
  ∃ t, l'.get? t.name = some t ∧ ∀ u, l.get? t.name = some u → u.timestamp < t.timestamp

theorem Outdates.ne (h : Outdates l' l) : l' ≠ l := by
  rintro rfl
  obtain ⟨t, ht, hnewer⟩ := h
  exact absurd (hnewer t ht) (Instant.not_lt.mpr (Std.le_refl _))

theorem lt_of_news {u : TaskRecord} (h : l.covers t = false) (hu : l.get? t.name = some u) :
    u.timestamp < t.timestamp := by
  refine Instant.not_le.mp fun hle => ?_
  rw [covers_iff.mpr ⟨u, hu, hle⟩] at h
  cases h

theorem outdates_put_of_news (h : l.covers t = false) : Outdates (l.put t) l :=
  ⟨t, by rw [get?_put_of_news h, if_pos rfl], fun _ hu => lt_of_news h hu⟩

theorem Outdates.put (h : Outdates l' l) (hnews : l'.covers t = false) :
    Outdates (l'.put t) l := by
  obtain ⟨v, hv, hnewer⟩ := h
  by_cases hname : t.name = v.name
  · refine ⟨t, by rw [get?_put_of_news hnews, if_pos rfl], fun u hu => ?_⟩
    rw [hname] at hu
    exact Std.lt_trans (hnewer u hu) (lt_of_news hnews (hname ▸ hv))
  · exact ⟨v, by rw [get?_put_of_news hnews, if_neg hname, hv], hnewer⟩

theorem putAll_concat (l : TaskList) (ts : List TaskRecord) (t : TaskRecord) :
    l.putAll (ts ++ [t]) =
      ((l.putAll ts).1.put t, (l.putAll ts).2 || !(l.putAll ts).1.covers t) := by
  simp only [putAll, List.foldl_concat]

/-- A later record that is not news does not take back that an earlier one was. -/
theorem putAll_cases (l : TaskList) (ts : List TaskRecord) :
    (l.putAll ts).2 = false ∧ (l.putAll ts).1 = l ∨
      (l.putAll ts).2 = true ∧ Outdates (l.putAll ts).1 l := by
  induction ts using List.reverseRecOn with
  | nil => exact .inl ⟨rfl, rfl⟩
  | append_singleton ts t ih =>
    rw [putAll_concat]
    cases hc : (l.putAll ts).1.covers t with
    | true => simpa [TaskList.put, hc] using ih
    | false =>
      refine .inr ⟨by simp, ?_⟩
      rcases ih with ⟨-, hsame⟩ | ⟨-, hnewer⟩
      · rw [hsame] at hc ⊢
        exact outdates_put_of_news hc
      · exact hnewer.put hc

/-- What arrives at a time: one record, or several. -/
inductive Portion where
  | one (t : TaskRecord)
  | many (ts : List TaskRecord)

def Portion.records : Portion → List TaskRecord
  | .one t => [t]
  | .many ts => ts

/-- Puts a portion, and tells whether that changed the list. -/
def take (l : TaskList) : Portion → TaskList × Bool
  | .one t => (l.put t, !l.covers t)
  | .many ts => l.putAll ts

def takeAll (ps : List Portion) : TaskList := ps.foldl (fun l p => (l.take p).1) ∅

theorem take_eq (l : TaskList) (p : Portion) : l.take p = l.putAll p.records := by
  cases p <;> simp [take, Portion.records, putAll]

theorem take_changed_iff (l : TaskList) (p : Portion) :
    (l.take p).2 = true ↔ (l.take p).1 ≠ l := by
  rw [take_eq]
  rcases l.putAll_cases p.records with ⟨hflag, hsame⟩ | ⟨hflag, hnewer⟩
  · simp [hflag, hsame]
  · simp [hflag, hnewer.ne]

theorem takeAll_eq (ps : List Portion) :
    takeAll ps = (ps.flatMap Portion.records).foldl put ∅ := by
  simp only [takeAll, List.foldl_flatMap, take_eq, putAll_fst]

theorem sortsBy_precedes : SortsBy TaskRecord.timestamp TaskRecord.name precedes := by
  simp [SortsBy, precedes]

theorem pairwise_inOrder (l : TaskList) : l.inOrder.Pairwise Earlier := by
  have hnames := l.lists_toList.nodup_map fun _ _ => name_eq
  refine (sortsBy_precedes.pairwise_mergeSort hnames).imp fun h => ?_
  exact h.imp id fun ⟨htime, hname⟩ => ⟨htime, compareOfLessAndEq_eq_lt.mp hname⟩

theorem active?_eq_some_iff (l : TaskList) : l.active? = some t ↔
    ∃ before after, l.inOrder = before ++ t :: after ∧ t.isActive = true ∧
      ∀ u ∈ after, u.state.isTerminal = true := by
  rw [active?, List.find?_eq_some_iff_append]
  constructor
  · rintro ⟨hactive, before, after, hsplit, hbefore⟩
    refine ⟨after.reverse, before.reverse, ?_, hactive, fun u hu => ?_⟩
    · simpa using congrArg List.reverse hsplit
    · simpa [isActive] using hbefore u (List.mem_reverse.mp hu)
  · rintro ⟨before, after, hsplit, hactive, hafter⟩
    refine ⟨hactive, after.reverse, before.reverse, by simp [hsplit], fun u hu => ?_⟩
    simpa [isActive] using hafter u (List.mem_reverse.mp hu)

theorem active?_eq_none_iff (l : TaskList) :
    l.active? = none ↔ ∀ t ∈ l.toList, t.state.isTerminal = true := by
  simp [active?, inOrder, isActive]

/-- What a list shows of the records that arrived. -/
structure Merges (l : TaskList) (arrived : List TaskRecord) : Prop where
  held : ∀ n t, l.get? n = some t ↔ Latest arrived t ∧ t.name = n
  known : ∀ n, (l.get? n).isSome = true ↔ ∃ t ∈ arrived, t.name = n
  listed : ∀ t, t ∈ l.toList ↔ l.get? t.name = some t
  sorted : l.inOrder.Perm l.toList ∧ l.inOrder.Pairwise Earlier
  active : ∀ t, l.active? = some t ↔ ∃ before after, l.inOrder = before ++ t :: after ∧
    t.isActive = true ∧ ∀ u ∈ after, u.state.isTerminal = true
  idle : l.active? = none ↔ ∀ t ∈ l.toList, t.state.isTerminal = true
  latest : ∀ m, l.latest? = some m ↔
    (∃ t ∈ l.toList, t.timestamp = m) ∧ ∀ t ∈ l.toList, t.timestamp ≤ m
  vacant : l.latest? = none ↔ l.toList = []

theorem merges_foldl_put (arrived : List TaskRecord) : (arrived.foldl put ∅).Merges arrived where
  held _ _ := get?_foldl_put_iff
  known _ := isSome_get?_foldl_put
  listed _ := mem_toList
  sorted := ⟨List.mergeSort_perm _ _, pairwise_inOrder _⟩
  active _ := active?_eq_some_iff _
  idle := active?_eq_none_iff _
  latest m := by
    simp only [latest?, List.max?_eq_some_iff, List.mem_map, forall_exists_index, and_imp,
      forall_apply_eq_imp_iff₂]
  vacant := by simp [latest?]

/-- However many records arrive at a time, a list holds of each task the first of the latest ones,
and it is told to have changed exactly when it did. The order of arrival does not matter as far as
records of one task and one time are alike, whatever likeness is meant: numbers that are equal, such
as the two zeros, need not be the same. -/
theorem takeAll_merges (ps : List Portion) :
    let arrived := ps.flatMap Portion.records
    (takeAll ps).Merges arrived ∧
      (∀ p, ((takeAll ps).take p).2 = true ↔ ((takeAll ps).take p).1 ≠ takeAll ps) ∧
      ∀ ps' : List Portion, (ps'.flatMap Portion.records).Perm arrived →
        (∀ R : TaskRecord → TaskRecord → Prop,
          (∀ t ∈ arrived, ∀ u ∈ arrived, t.name = u.name → t.timestamp = u.timestamp → R t u) →
          ∀ n, Option.Rel R ((takeAll ps').get? n) ((takeAll ps).get? n)) ∧
        ((∀ t ∈ arrived, ∀ u ∈ arrived, t.name = u.name → t.timestamp = u.timestamp → t = u) →
          takeAll ps' = takeAll ps) := by
  intro arrived
  have hrel : ∀ ps' : List Portion, (ps'.flatMap Portion.records).Perm arrived →
      ∀ R : TaskRecord → TaskRecord → Prop,
        (∀ t ∈ arrived, ∀ u ∈ arrived, t.name = u.name → t.timestamp = u.timestamp → R t u) →
        ∀ n, Option.Rel R ((takeAll ps').get? n) ((takeAll ps).get? n) := by
    intro ps' hperm R halike n
    rw [takeAll_eq, takeAll_eq]
    exact rel_get?_of_perm hperm halike n
  refine ⟨?_, take_changed_iff _, fun ps' hperm => ⟨hrel ps' hperm, fun hsame => ?_⟩⟩
  · rw [takeAll_eq]
    exact merges_foldl_put arrived
  · ext1 n
    have h := hrel ps' hperm Eq hsame n
    generalize (takeAll ps').get? n = x, (takeAll ps).get? n = y at h
    cases h with
    | some h => rw [h]
    | none => rfl

/-- A task that is taken up, done and reported once more as taken up, and another one beside it. -/
theorem takeAll_merges_repeated :
    let keys : TaskKeys := ⟨"100", ⟨"ORIG", "REMOTE", "LOCAL", "42"⟩, "5", "request_account_create"⟩
    let queued : TaskRecord := ⟨keys, "create_account", .queued, .ofMillis 10, []⟩
    let done : TaskRecord := ⟨keys, "create_account", .successful, .ofMillis 20, []⟩
    let other : TaskRecord := ⟨keys, "notify_user", .nascent, .ofMillis 20, []⟩
    let arrived := [queued, done, other, queued]
    arrived.reverse.Perm arrived ∧
      (∀ t ∈ arrived, ∀ u ∈ arrived, t.name = u.name → t.timestamp = u.timestamp → t = u) ∧
      takeAll [.many [queued, other, done], .one queued] =
        takeAll [.one queued, .many [done, other, queued]] := by
  intro keys queued done other arrived
  have hperm : arrived.reverse.Perm arrived := List.reverse_perm _
  have hsame : ∀ t ∈ arrived, ∀ u ∈ arrived, t.name = u.name → t.timestamp = u.timestamp →
      t = u := by
    have hqueued : queued.name ≠ other.name := by decide
    have hdone : done.name ≠ other.name := by decide
    have htimes : queued.timestamp ≠ done.timestamp := by decide
    simp [arrived, hqueued, hqueued.symm, hdone, hdone.symm, htimes, htimes.symm]
  exact ⟨hperm, hsame,
    ((takeAll_merges [.one queued, .many [done, other, queued]]).2.2
      [.many [queued, other, done], .one queued] hperm).2 hsame⟩

end TaskList

end SiteBroker
