import SiteBroker.Proofs.Instant

/-! What is sorted by time, and at one time by a key. -/

namespace SiteBroker

variable {α κ : Type} [Ord κ] {time : α → Instant} {key : α → κ} {le : α → α → Bool}

/-- The order that a list is sorted by: earlier ones first, those of one time by their keys. -/
def SortsBy (time : α → Instant) (key : α → κ) (le : α → α → Bool) : Prop :=
  ∀ a b, le a b = true ↔
    time a < time b ∨ time a = time b ∧ (compare (key a) (key b)).isLE = true

namespace SortsBy

theorem trans [Std.TransOrd κ] (h : SortsBy time key le) (a b c : α) (hab : le a b = true)
    (hbc : le b c = true) : le a c = true := by
  rw [h] at *
  rcases hab with hab | ⟨hab, hab'⟩ <;> rcases hbc with hbc | ⟨hbc, hbc'⟩
  · exact .inl (Std.lt_trans hab hbc)
  · exact .inl (hbc ▸ hab)
  · exact .inl (hab ▸ hbc)
  · exact .inr ⟨hab.trans hbc, Std.TransCmp.isLE_trans hab' hbc'⟩

theorem total [Std.OrientedOrd κ] (h : SortsBy time key le) (a b : α) :
    (le a b || le b a) = true := by
  rw [Bool.or_eq_true, h, h]
  rcases Std.lt_trichotomy (time a) (time b) with hlt | heq | hlt
  · exact .inl (.inl hlt)
  · have hswap : compare (key b) (key a) = (compare (key a) (key b)).swap :=
      Std.OrientedCmp.eq_swap
    rw [hswap]
    cases compare (key a) (key b) <;> simp [heq]
  · exact .inr (.inl hlt)

/-- Where no two keys are the same, none of two neighbours can stand for the other. -/
theorem pairwise_mergeSort [Std.TransOrd κ] [Std.LawfulEqOrd κ] (h : SortsBy time key le)
    {l : List α} (hkeys : (l.map key).Nodup) : (l.mergeSort le).Pairwise fun a b =>
      time a < time b ∨ time a = time b ∧ compare (key a) (key b) = .lt := by
  have hsorted := List.pairwise_mergeSort h.trans h.total l
  have hperm := (List.mergeSort_perm l le).map key
  have hdistinct := List.pairwise_map.mp (hperm.nodup_iff.mpr hkeys)
  refine (hsorted.and hdistinct).imp fun {a b} ⟨hle, hne⟩ => ?_
  rcases (h a b).mp hle with hlt | ⟨heq, hcompare⟩
  · exact .inl hlt
  · refine .inr ⟨heq, ?_⟩
    cases hc : compare (key a) (key b) with
    | lt => rfl
    | eq => exact absurd (Std.LawfulEqOrd.eq_of_compare hc) hne
    | gt => simp [hc] at hcompare

end SortsBy

end SiteBroker
