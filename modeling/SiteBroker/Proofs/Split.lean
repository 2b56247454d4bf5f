import Mathlib.Data.List.Induction

/-! Runs that are split at one of their steps, and texts that are split at a mark. -/

namespace SiteBroker

variable {α : Type} {before before' after after' l : List α} {a b : α}

/-- A run with one more step is split at that step, or before it. -/
theorem split_concat (h : l ++ [b] = before ++ a :: after) :
    before = l ∧ a = b ∨ ∃ rest, l = before ++ a :: rest := by
  rcases List.eq_nil_or_concat after with rfl | ⟨rest, c, rfl⟩
  · obtain ⟨hbefore, hlast⟩ := List.append_inj' h rfl
    exact .inl ⟨hbefore.symm, (List.singleton_inj.mp hlast).symm⟩
  · have hsplit : l ++ [b] = (before ++ a :: rest) ++ [c] := by simpa using h
    exact .inr ⟨rest, (List.append_inj' hsplit rfl).1⟩

/-- What stands before the first mark, and what comes after it, can be told from the whole. -/
theorem split_first (hbefore : a ∉ before) (hbefore' : a ∉ before')
    (h : before ++ a :: after = before' ++ a :: after') : before = before' ∧ after = after' := by
  rcases List.append_eq_append_iff.mp h with ⟨between, rfl, hrest⟩ | ⟨between, rfl, hrest⟩
  · cases between with
    | nil => simpa using hrest
    | cons c between =>
      obtain ⟨rfl, -⟩ := List.cons.inj hrest
      simp at hbefore'
  · cases between with
    | nil => simpa [eq_comm] using hrest
    | cons c between =>
      obtain ⟨rfl, -⟩ := List.cons.inj hrest
      simp at hbefore

theorem split_last (hafter : a ∉ after) (hafter' : a ∉ after')
    (h : before ++ a :: after = before' ++ a :: after') : before = before' ∧ after = after' := by
  have hreverse : after.reverse ++ a :: before.reverse = after'.reverse ++ a :: before'.reverse := by
    simpa using congrArg List.reverse h
  have hparts := split_first (by simpa using hafter) (by simpa using hafter') hreverse
  simpa [and_comm] using hparts

end SiteBroker
