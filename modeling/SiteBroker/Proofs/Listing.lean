import Mathlib.Data.List.Nodup
import Mathlib.Tactic.Choose
import Std.Data.ExtTreeMap

/-! Lists that hold the values of a keyed view, each of them once. -/

namespace SiteBroker

/-- The list holds the value of every key that has one, at one place for each key. -/
def Lists {κ α : Type} (view : κ → Option α) (l : List α) : Prop :=
  ∃ keys : List κ, keys.Nodup ∧ (∀ k, k ∈ keys ↔ (view k).isSome) ∧ keys.map view = l.map some

theorem values_eq_map_toList {κ α : Type} {cmp : κ → κ → Ordering} [Std.TransCmp cmp]
    (m : Std.ExtTreeMap κ α cmp) : m.values = m.toList.map Prod.snd := by
  have h : m.values = m.foldr (fun _ a l => a :: l) [] := by
    obtain ⟨⟨q⟩⟩ := m
    induction q using Quotient.inductionOn with
    | h t => rfl
  rw [h, Std.ExtTreeMap.foldr_eq_foldr_toList]
  induction m.toList with
  | nil => rfl
  | cons e l ih => simp [ih]

namespace Lists

variable {κ α : Type} {view : κ → Option α} {l : List α}

theorem mem_iff (h : Lists view l) {a : α} : a ∈ l ↔ ∃ k, view k = some a := by
  obtain ⟨keys, -, hmem, hmap⟩ := h
  have ha : a ∈ l ↔ some a ∈ keys.map view := by rw [hmap]; simp
  rw [ha, List.mem_map]
  constructor
  · rintro ⟨k, -, hk⟩
    exact ⟨k, hk⟩
  · rintro ⟨k, hk⟩
    exact ⟨k, (hmem k).mpr (by simp [hk]), hk⟩

theorem nil : Lists (fun _ : κ => (none : Option α)) [] := ⟨[], by simp⟩

theorem ofTreeMap {cmp : κ → κ → Ordering} [Std.TransCmp cmp] [Std.LawfulEqCmp cmp]
    (m : Std.ExtTreeMap κ α cmp) : Lists (fun k : κ => m[k]?) m.values := by
  refine ⟨m.keys, m.nodup_keys, fun k => by simp, ?_⟩
  rw [← m.map_fst_toList_eq_keys, values_eq_map_toList, List.map_map, List.map_map]
  refine List.map_congr_left fun e he => ?_
  exact Std.ExtTreeMap.mem_toList_iff_getElem?_eq_some.mp he

theorem filterMap (h : Lists view l) {β : Type} (f : α → Option β) :
    Lists (fun k => (view k).bind f) (l.filterMap f) := by
  obtain ⟨keys, hnd, hmem, hmap⟩ := h
  refine ⟨keys.filter fun k => ((view k).bind f).isSome, hnd.filter _, fun k => ?_, ?_⟩
  · rw [List.mem_filter, hmem, and_iff_right_iff_imp]
    intro hk
    cases hv : view k with
    | none => simp [hv] at hk
    | some a => rfl
  · clear hnd hmem
    induction keys generalizing l with
    | nil =>
      obtain rfl : l = [] := by simpa using hmap.symm
      rfl
    | cons k keys ih =>
      cases l with
      | nil => cases hmap
      | cons a l =>
        obtain ⟨hk, hrest⟩ := List.cons.inj hmap
        cases hf : f a with
        | none => simp [hk, hf, ih hrest]
        | some b => simp [hk, hf, ih hrest]

/-- Where a value tells its key, no two values have the same. -/
theorem nodup_map (h : Lists view l) {key : α → κ} (hkey : ∀ k a, view k = some a → key a = k) :
    (l.map key).Nodup := by
  obtain ⟨keys, hnd, hmem, hmap⟩ := h
  have hkeys : keys.map some = (l.map key).map some := by
    have htold : keys.map (fun k => (view k).map key) = keys.map some := by
      refine List.map_congr_left fun k hk => ?_
      obtain ⟨a, ha⟩ := Option.isSome_iff_exists.mp ((hmem k).mp hk)
      rw [ha, Option.map_some, hkey k a ha]
    have hmapped := congrArg (List.map (Option.map key)) hmap
    rw [List.map_map, List.map_map] at hmapped
    rw [← htold, List.map_map]
    exact hmapped
  have hinj : Function.Injective (some : κ → Option κ) := fun _ _ => Option.some.inj
  rwa [← List.map_injective_iff.mpr hinj hkeys]

/-- Lists of the parts of a view, one after the other, list the whole. -/
theorem flatMap {ι κ' : Type} {index : List ι} {part : ι → List α} (place : ι → κ' → κ)
    (hnd : index.Nodup)
    (hinj : ∀ {i j i' j'}, place i j = place i' j' → i = i' ∧ j = j')
    (hcover : ∀ k, (view k).isSome → ∃ i ∈ index, ∃ j, place i j = k)
    (hparts : ∀ i, Lists (fun j => view (place i j)) (part i)) :
    Lists view (index.flatMap part) := by
  choose keys hkeys hmem hmap using hparts
  refine ⟨index.flatMap fun i => (keys i).map (place i), ?_, ?_, ?_⟩
  · rw [List.nodup_flatMap]
    refine ⟨fun i _ => (hkeys i).map fun j j' h => (hinj h).2, hnd.imp fun {i i'} hne => ?_⟩
    intro k hk hk'
    obtain ⟨j, -, rfl⟩ := List.mem_map.mp hk
    obtain ⟨j', -, he⟩ := List.mem_map.mp hk'
    exact hne (hinj he).1.symm
  · intro k
    simp only [List.mem_flatMap, List.mem_map]
    constructor
    · rintro ⟨i, -, j, hj, rfl⟩
      exact (hmem i j).mp hj
    · intro hk
      obtain ⟨i, hi, j, rfl⟩ := hcover k hk
      exact ⟨i, hi, j, (hmem i j).mpr hk, rfl⟩
  · rw [List.map_flatMap, List.map_flatMap]
    refine List.flatMap_congr fun i _ => ?_
    rw [List.map_map]
    exact hmap i

end Lists

end SiteBroker
