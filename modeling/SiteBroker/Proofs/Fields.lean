import Mathlib.Data.List.Nodup
import SiteBroker.Fields

/-! Equality of JSON values, and what named values hold under each name. -/

namespace SiteBroker

theorem Double.same_iff {x y : Double} : x.same y = true ↔
    x.isNaN = false ∧ y.isNaN = false ∧ (x = y ∨ x.isZero = true ∧ y.isZero = true) := by
  simp [same, and_assoc]

theorem Double.same_symm {x y : Double} (h : x.same y = true) : y.same x = true := by
  obtain ⟨hx, hy, h⟩ := same_iff.mp h
  exact same_iff.mpr ⟨hy, hx, h.imp Eq.symm And.symm⟩

theorem Double.same_trans {x y z : Double} (h : x.same y = true) (h' : y.same z = true) :
    x.same z = true := by
  obtain ⟨hx, -, h⟩ := same_iff.mp h
  obtain ⟨-, hz, h'⟩ := same_iff.mp h'
  refine same_iff.mpr ⟨hx, hz, ?_⟩
  rcases h with rfl | ⟨hx, hy⟩
  · exact h'
  · rcases h' with rfl | ⟨-, hz⟩
    · exact .inr ⟨hx, hy⟩
    · exact .inr ⟨hx, hz⟩

namespace Json

mutual

theorem same_symm {a b : Json} (h : a.same b = true) : b.same a = true := by
  cases a <;> cases b <;> simp only [same, Bool.false_eq_true] at h ⊢
  case bool.bool | int.int | str.str => simpa using Eq.symm (by simpa using h)
  case float.float => exact Double.same_symm h
  case arr.arr => exact sameItems_symm h
  case obj.obj => exact sameEntries_symm h

theorem sameItems_symm {as bs : List Json} (h : sameItems as bs = true) :
    sameItems bs as = true := by
  cases as <;> cases bs <;> simp only [sameItems, Bool.and_eq_true, Bool.false_eq_true] at h ⊢
  exact ⟨same_symm h.1, sameItems_symm h.2⟩

theorem sameEntries_symm {as bs : List (String × Json)} (h : sameEntries as bs = true) :
    sameEntries bs as = true := by
  cases as <;> cases bs <;>
    simp only [sameEntries, Bool.and_eq_true, Bool.false_eq_true, beq_iff_eq] at h ⊢
  exact ⟨⟨h.1.1.symm, same_symm h.1.2⟩, sameEntries_symm h.2⟩

end

mutual

theorem same_trans {a b c : Json} (h : a.same b = true) (h' : b.same c = true) :
    a.same c = true := by
  cases a <;> cases b <;> simp only [same, Bool.false_eq_true] at h <;> cases c <;>
    simp only [same, Bool.false_eq_true, beq_iff_eq] at h h' ⊢
  case bool.bool.bool | int.int.int | str.str.str => exact h.trans h'
  case float.float.float => exact Double.same_trans h h'
  case arr.arr.arr => exact sameItems_trans h h'
  case obj.obj.obj => exact sameEntries_trans h h'
termination_by structural a

theorem sameItems_trans {as bs cs : List Json} (h : sameItems as bs = true)
    (h' : sameItems bs cs = true) : sameItems as cs = true := by
  cases as <;> cases bs <;> simp only [sameItems, Bool.false_eq_true] at h <;> cases cs <;>
    simp only [sameItems, Bool.and_eq_true, Bool.false_eq_true] at h h' ⊢
  exact ⟨same_trans h.1 h'.1, sameItems_trans h.2 h'.2⟩
termination_by structural as

theorem sameEntries_trans {as bs cs : List (String × Json)} (h : sameEntries as bs = true)
    (h' : sameEntries bs cs = true) : sameEntries as cs = true := by
  cases as <;> cases bs <;> simp only [sameEntries, Bool.false_eq_true] at h <;> cases cs <;>
    simp only [sameEntries, Bool.and_eq_true, Bool.false_eq_true, beq_iff_eq] at h h' ⊢
  exact ⟨⟨h.1.1.trans h'.1.1, same_trans h.1.2 h'.1.2⟩, sameEntries_trans h.2 h'.2⟩
termination_by structural as

end

/-- Two values are both missing, or they are equal. -/
abbrev Alike : Option Json → Option Json → Prop := Option.Rel fun a b => a.same b = true

theorem Alike.symm {a b : Option Json} (h : Alike a b) : Alike b a := by
  cases h with
  | some h => exact .some (same_symm h)
  | none => exact .none

theorem Alike.trans {a b c : Option Json} (h : Alike a b) (h' : Alike b c) : Alike a c := by
  cases h with
  | some h =>
    cases h' with
    | some h' => exact .some (same_trans h h')
  | none => exact h'

/-- Whatever is equal to something is equal to itself, which not every number is. -/
theorem Alike.left {a b : Option Json} (h : Alike a b) : Alike a a := h.trans h.symm

theorem exists_same_of_mem {as bs : List (String × Json)} (h : sameEntries as bs = true)
    {name : String} {a : Json} (hm : (name, a) ∈ as) :
    ∃ b, (name, b) ∈ bs ∧ a.same b = true := by
  induction as generalizing bs with
  | nil => cases hm
  | cons e as ih =>
    cases bs with
    | nil => simp [sameEntries] at h
    | cons e' bs =>
      simp only [sameEntries, Bool.and_eq_true, beq_iff_eq] at h
      obtain ⟨⟨hk, hs⟩, hrest⟩ := h
      rcases List.mem_cons.mp hm with rfl | hm
      · exact ⟨e'.2, by rw [show name = e'.1 from hk]; exact List.mem_cons_self, hs⟩
      · obtain ⟨b, hb, hs⟩ := ih hrest hm
        exact ⟨b, List.mem_cons_of_mem _ hb, hs⟩

/-- Sorted entries are equal if each of them has an equal one on the other side. -/
theorem sameEntries_of_mem {as bs : List (String × Json)}
    (ha : as.Pairwise fun e e' => compare e.1 e'.1 = .lt)
    (hb : bs.Pairwise fun e e' => compare e.1 e'.1 = .lt)
    (h : ∀ name a, (name, a) ∈ as → ∃ b, (name, b) ∈ bs ∧ a.same b = true)
    (h' : ∀ name b, (name, b) ∈ bs → ∃ a, (name, a) ∈ as) : sameEntries as bs = true := by
  induction as generalizing bs with
  | nil =>
    cases bs with
    | nil => rfl
    | cons e bs =>
      obtain ⟨a, hm⟩ := h' e.1 e.2 List.mem_cons_self
      cases hm
  | cons e as ih =>
    obtain ⟨k, x⟩ := e
    obtain ⟨hfirst, hrest⟩ := List.pairwise_cons.mp ha
    obtain ⟨y, hy, hs⟩ := h k x List.mem_cons_self
    cases bs with
    | nil => cases hy
    | cons e bs =>
      obtain ⟨k', y'⟩ := e
      obtain ⟨hfirst', hrest'⟩ := List.pairwise_cons.mp hb
      obtain ⟨x', hx'⟩ := h' k' y' List.mem_cons_self
      -- If the first names were not the same, each would come before the other.
      obtain rfl : k = k' := by
        rcases List.mem_cons.mp hy with he | hy
        · exact congrArg Prod.fst he
        · rcases List.mem_cons.mp hx' with he | hx'
          · exact (congrArg Prod.fst he).symm
          · exact absurd (hfirst' _ hy) (Std.OrientedCmp.not_lt_of_lt (hfirst (k', x') hx'))
      have hnew : ∀ {a}, (k, a) ∉ as := fun hm => by
        simpa [Std.ReflCmp.compare_self] using hfirst _ hm
      have hnew' : ∀ {b}, (k, b) ∉ bs := fun hm => by
        simpa [Std.ReflCmp.compare_self] using hfirst' _ hm
      obtain rfl : y = y' := by
        rcases List.mem_cons.mp hy with he | hy
        · exact congrArg Prod.snd he
        · exact absurd hy hnew'
      have htail : sameEntries as bs = true := by
        refine ih hrest hrest' (fun name a hm => ?_) fun name b hm => ?_
        · obtain ⟨b, hb, hs⟩ := h name a (List.mem_cons_of_mem _ hm)
          rcases List.mem_cons.mp hb with he | hb
          · obtain ⟨rfl, -⟩ := Prod.mk.inj he
            exact absurd hm hnew
          · exact ⟨b, hb, hs⟩
        · obtain ⟨a, ha⟩ := h' name b (List.mem_cons_of_mem _ hm)
          rcases List.mem_cons.mp ha with he | ha
          · obtain ⟨rfl, -⟩ := Prod.mk.inj he
            exact absurd hm hnew'
          · exact ⟨a, ha⟩
      simp [sameEntries, hs, htail]

end Json

namespace Fields

open Json

variable {a b c : Fields}

/-- Two sets of fields have the same names, and under each of them equal values. -/
theorem same_iff : a.same b = true ↔ ∀ name : String, Alike a[name]? b[name]? := by
  constructor
  · intro h name
    cases ha : a[name]? with
    | some x =>
      obtain ⟨y, hm, hs⟩ := exists_same_of_mem h
        (Std.ExtTreeMap.mem_toList_iff_getElem?_eq_some.mpr ha)
      rw [Std.ExtTreeMap.mem_toList_iff_getElem?_eq_some.mp hm]
      exact .some hs
    | none =>
      cases hb : b[name]? with
      | none => exact .none
      | some y =>
        obtain ⟨x, hm, -⟩ := exists_same_of_mem (sameEntries_symm h)
          (Std.ExtTreeMap.mem_toList_iff_getElem?_eq_some.mpr hb)
        rw [Std.ExtTreeMap.mem_toList_iff_getElem?_eq_some, ha] at hm
        cases hm
  · intro h
    refine sameEntries_of_mem Std.ExtTreeMap.ordered_keys_toList
      Std.ExtTreeMap.ordered_keys_toList (fun name x hm => ?_) fun name y hm => ?_
    · have hx := Std.ExtTreeMap.mem_toList_iff_getElem?_eq_some.mp hm
      have hname := h name
      rw [hx] at hname
      cases hy : b[name]? with
      | none =>
        rw [hy] at hname
        cases hname
      | some y =>
        rw [hy] at hname
        cases hname with
        | some hs => exact ⟨y, Std.ExtTreeMap.mem_toList_iff_getElem?_eq_some.mpr hy, hs⟩
    · have hy := Std.ExtTreeMap.mem_toList_iff_getElem?_eq_some.mp hm
      have hname := h name
      rw [hy] at hname
      cases hx : a[name]? with
      | none =>
        rw [hx] at hname
        cases hname
      | some x => exact ⟨x, Std.ExtTreeMap.mem_toList_iff_getElem?_eq_some.mpr hx⟩

theorem same_symm (h : a.same b = true) : b.same a = true := sameEntries_symm h

/-- The upper fields count, and those below where there is none. -/
theorem getElem?_overlay (fields upper : Fields) (name : String) :
    (fields.overlay upper)[name]? = upper[name]?.or fields[name]? := by
  have hmany : ∀ (l : List (String × Json)) (t : Fields),
      l.foldl (fun t e => t.insert e.1 e.2) t = t.insertMany l := by
    intro l
    induction l with
    | nil => exact fun t => Std.ExtTreeMap.insertMany_nil.symm
    | cons e l ih => exact fun t => (ih _).trans Std.ExtTreeMap.insertMany_cons.symm
  rw [overlay, Std.ExtTreeMap.foldl_eq_foldl_toList, hmany]
  cases h : upper[name]? with
  | some x =>
    have hm := Std.ExtTreeMap.mem_toList_iff_getElem?_eq_some.mpr h
    exact Std.ExtTreeMap.getElem?_insertMany_list_of_mem Std.ReflCmp.compare_self
      Std.ExtTreeMap.distinct_keys_toList hm
  | none =>
    refine Std.ExtTreeMap.getElem?_insertMany_list_of_contains_eq_false ?_
    simpa using h

theorem empty_overlay (fields : Fields) : (∅ : Fields).overlay fields = fields :=
  Std.ExtTreeMap.ext_getElem? fun name => by
    rw [getElem?_overlay, Std.ExtTreeMap.getElem?_empty, Option.or_none]

section

variable {fields : Fields} {entries : List (String × Json)} {name : String} {a : Json}

/-- Of the entries of one name the last counts. -/
theorem getElem?_ofList_eq_some_iff : (ofList entries)[name]? = some a ↔
    ∃ before after, entries = before ++ (name, a) :: after ∧ ∀ e ∈ after, e.1 ≠ name := by
  rw [ofList, Std.ExtTreeMap.ofList_eq_insertMany_empty, Std.ExtTreeMap.getElem?_insertMany_list,
    Std.ExtTreeMap.getElem?_empty, Option.or_none, List.findSomeRev?_eq_findSome?_reverse,
    List.findSome?_eq_some_iff]
  simp only [Std.LawfulEqCmp.compare_eq_iff_eq, Option.ite_none_right_eq_some,
    ite_eq_right_iff, reduceCtorEq, imp_false]
  constructor
  · rintro ⟨after, ⟨key, b⟩, before, hsplit, ⟨rfl, hb⟩, hafter⟩
    obtain rfl := Option.some.inj hb
    refine ⟨before.reverse, after.reverse, ?_, by simpa using hafter⟩
    rw [← List.reverse_inj, hsplit]
    simp
  · rintro ⟨before, after, rfl, hafter⟩
    exact ⟨after.reverse, (name, a), before.reverse, by simp, ⟨rfl, rfl⟩, by simpa using hafter⟩

theorem mem_of_getElem?_ofList (h : (ofList entries)[name]? = some a) : (name, a) ∈ entries := by
  obtain ⟨before, after, rfl, -⟩ := getElem?_ofList_eq_some_iff.mp h
  simp

/-- After a field come the fields with later names. -/
theorem mem_after_iff {earlier later : List (String × Json)} {key other : String} {b : Json}
    (h : fields.toList = earlier ++ (key, a) :: later) :
    (other, b) ∈ later ↔ fields[other]? = some b ∧ compare key other = .lt := by
  have hsorted := Std.ExtTreeMap.ordered_keys_toList (t := fields)
  rw [h, List.pairwise_append, List.pairwise_cons] at hsorted
  obtain ⟨-, ⟨hlater, -⟩, hearlier⟩ := hsorted
  rw [← Std.ExtTreeMap.mem_toList_iff_getElem?_eq_some, h, List.mem_append, List.mem_cons]
  constructor
  · exact fun hm => ⟨.inr (.inr hm), hlater _ hm⟩
  · rintro ⟨hm | he | hm, hlt⟩
    · exact absurd hlt (Std.OrientedCmp.not_lt_of_lt (hearlier _ hm _ List.mem_cons_self))
    · obtain ⟨rfl, rfl⟩ := Prod.mk.inj he
      simp [Std.ReflCmp.compare_self] at hlt
    · exact hm

/-- Where several fields are given one name, the last of them in the order of their old names
counts. -/
theorem getElem?_rename_eq_some_iff {f : String → Option String} :
    (ofList (fields.toList.filterMap fun (k, b) => (f k).map (·, b)))[name]? = some a ↔
      ∃ key, fields[key]? = some a ∧ f key = some name ∧
        ∀ other ∈ fields, compare key other = .lt → f other ≠ some name := by
  rw [getElem?_ofList_eq_some_iff]
  constructor
  · rintro ⟨before, after, hsplit, hafter⟩
    obtain ⟨earlier, rest, hlist, -, hrest⟩ := List.filterMap_eq_append_iff.mp hsplit
    obtain ⟨skipped, ⟨key, b⟩, later, rfl, -, hkey, rfl⟩ := List.filterMap_eq_cons_iff.mp hrest
    obtain ⟨name, hname, he⟩ := Option.map_eq_some_iff.mp hkey
    obtain ⟨rfl, rfl⟩ := Prod.mk.inj he
    rw [← List.append_assoc] at hlist
    refine ⟨key, ?_, hname, fun other hother hlt hrenamed => ?_⟩
    · rw [← Std.ExtTreeMap.mem_toList_iff_getElem?_eq_some, hlist]
      simp
    · obtain ⟨c, hc⟩ := Option.isSome_iff_exists.mp
        (Std.ExtTreeMap.mem_iff_isSome_getElem?.mp hother)
      have hm := (mem_after_iff hlist).mpr ⟨hc, hlt⟩
      exact hafter (name, c) (List.mem_filterMap.mpr ⟨_, hm, by simp [hrenamed]⟩) rfl
  · rintro ⟨key, hkey, hname, hlast⟩
    obtain ⟨earlier, later, hlist⟩ := List.append_of_mem
      (Std.ExtTreeMap.mem_toList_iff_getElem?_eq_some.mpr hkey)
    rw [hlist, List.filterMap_append, List.filterMap_cons]
    simp only [hname, Option.map_some]
    refine ⟨_, _, rfl, ?_⟩
    rintro _ he rfl
    obtain ⟨⟨other, c⟩, hm, hrenamed⟩ := List.mem_filterMap.mp he
    obtain ⟨_, hother, rfl⟩ := Option.map_eq_some_iff.mp hrenamed
    obtain ⟨hc, hlt⟩ := (mem_after_iff hlist).mp hm
    exact hlast other (Std.ExtTreeMap.mem_iff_isSome_getElem?.mpr (by simp [hc])) hlt hother

end

theorem ofList_toList (fields : Fields) : ofList fields.toList = fields := by
  refine Std.ExtTreeMap.ext_getElem? fun name => ?_
  cases h : fields[name]? with
  | some a =>
    exact Std.ExtTreeMap.getElem?_ofList_of_mem Std.ReflCmp.compare_self
      Std.ExtTreeMap.distinct_keys_toList (Std.ExtTreeMap.mem_toList_iff_getElem?_eq_some.mpr h)
  | none =>
    refine Std.ExtTreeMap.getElem?_ofList_of_contains_eq_false ?_
    simpa using h

section

variable {entries : List (String × Option Json)} {name : String} {x : Option Json}

theorem getElem?_ofOptions_of_notMem (h : ∀ a, (name, some a) ∉ entries) :
    (ofOptions entries)[name]? = none := by
  refine Std.ExtTreeMap.getElem?_ofList_of_contains_eq_false ?_
  simpa using h

theorem getElem?_ofOptions_of_mem (hd : (entries.map (·.1)).Nodup) (h : (name, x) ∈ entries) :
    (ofOptions entries)[name]? = x := by
  cases x with
  | none =>
    refine getElem?_ofOptions_of_notMem fun a hm => ?_
    have he := List.inj_on_of_nodup_map hd h hm rfl
    cases he
  | some a =>
    refine Std.ExtTreeMap.getElem?_ofList_of_mem Std.ReflCmp.compare_self ?_
      (List.mem_filterMap.mpr ⟨_, h, rfl⟩)
    refine List.Pairwise.filterMap _ (fun e e' hne u hu v hv => ?_) (List.pairwise_map.mp hd)
    obtain ⟨x, -, rfl⟩ := Option.map_eq_some_iff.mp hu
    obtain ⟨y, -, rfl⟩ := Option.map_eq_some_iff.mp hv
    simpa using hne

end

end Fields

end SiteBroker
