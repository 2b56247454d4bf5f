import Mathlib.Algebra.Group.Nat.Defs
import SiteBroker.Text.Blank
import SiteBroker.Text.Digits

/-! Whole numbers read from the digits that they are written in. -/

namespace SiteBroker.Text

theorem toNat_of_isDigit {c : Char} (h : c.isDigit = true) : 48 ≤ c.toNat ∧ c.toNat ≤ 57 := by
  simp only [Char.isDigit, Bool.and_eq_true, decide_eq_true_eq] at h
  exact ⟨h.1, h.2⟩

theorem isBlank_of_isDigit {c : Char} (h : c.isDigit = true) : isBlank c = false := by
  obtain ⟨hlow, hhigh⟩ := toNat_of_isDigit h
  simp only [isBlank, Bool.or_eq_false_iff, Bool.and_eq_false_iff, decide_eq_false_iff_not,
    beq_eq_false_iff_ne]
  omega

theorem digit?_of_isDigit {c : Char} (h : c.isDigit = true) :
    digit? 10 c = some (c.toNat - '0'.toNat) := by
  obtain ⟨hlow, hhigh⟩ := toNat_of_isDigit h
  have hvalue : c.toNat - 48 < 10 := by omega
  simp only [digit?, h, if_true]
  rw [if_pos hvalue]
  rfl

theorem ofDigits?_of_isDigit {cs : List Char} (h : ∀ c ∈ cs, c.isDigit = true) :
    ofDigits? 10 cs = some (Nat.ofDigitChars 10 cs 0) := by
  unfold ofDigits?
  generalize 0 = n
  induction cs generalizing n with
  | nil => rfl
  | cons c cs ih =>
    rw [List.foldlM_cons, digit?_of_isDigit (h c (by simp)), Nat.ofDigitChars_cons]
    exact ih (fun c hc => h c (by simp [hc])) _

theorem ofDigitChars_lt {cs : List Char} (h : ∀ c ∈ cs, c.isDigit = true) :
    Nat.ofDigitChars 10 cs 0 < 10 ^ cs.length := by
  induction cs with
  | nil => decide
  | cons c cs ih =>
    have hrest := ih fun c hc => h c (List.mem_cons_of_mem _ hc)
    obtain ⟨hlow, hhigh⟩ := toNat_of_isDigit (h c List.mem_cons_self)
    have hvalue : c.toNat - '0'.toNat ≤ 9 := by
      show c.toNat - 48 ≤ 9
      omega
    rw [Nat.ofDigitChars_cons, Nat.ofDigitChars_eq_ofDigitChars_zero, Nat.mul_zero, Nat.zero_add,
      List.length_cons, Nat.pow_succ]
    have hmul := Nat.mul_le_mul_left (10 ^ cs.length) hvalue
    omega

theorem isDigit_of_mem_repr {n : Nat} {c : Char} (h : c ∈ (Nat.repr n).toList) :
    c.isDigit = true := by
  rw [Nat.toList_repr] at h
  exact Nat.isDigit_of_mem_toDigits (by decide) (by decide) h

theorem digits?_repr (n : Nat) : digits? 10 (Nat.repr n).toList = some n := by
  have hne : (Nat.repr n).toList.isEmpty = false := by
    rw [Nat.toList_repr, List.isEmpty_eq_false_iff]
    exact Nat.toDigits_ne_nil
  rw [digits?, hne, if_neg Bool.false_ne_true,
    ofDigits?_of_isDigit fun c => isDigit_of_mem_repr, Nat.toList_repr,
    Nat.ofDigitChars_ten_toDigits]

theorem natural64?_repr (n : Nat) :
    natural64? (Nat.repr n) = if n < UInt64.size then some n else none := by
  unfold natural64?
  split
  · next cs hcs =>
    have hplus := isDigit_of_mem_repr (n := n) (c := '+') (by rw [hcs]; exact List.mem_cons_self)
    cases hplus
  · rw [digits?_repr, Option.filter_some]
    simp only [decide_eq_true_eq]

theorem natural64?_lt {s : String} {n : Nat} (h : natural64? s = some n) : n < UInt64.size := by
  simpa using (Option.filter_eq_some_iff.mp h).2

theorem trim_repr (n : Nat) : trim (Nat.repr n) = Nat.repr n := by
  have hkept : ∀ cs : List Char, (∀ c ∈ cs, c.isDigit = true) → cs.dropWhile isBlank = cs := by
    intro cs h
    cases cs with
    | nil => rfl
    | cons c cs => rw [List.dropWhile_cons, if_neg (by simp [isBlank_of_isDigit (h c (by simp))])]
  have hdigits : ∀ c ∈ (Nat.repr n).toList, c.isDigit = true := fun c => isDigit_of_mem_repr
  rw [trim, trimChars, hkept _ hdigits, hkept _ (by simpa using hdigits), List.reverse_reverse,
    String.ofList_toList]

end SiteBroker.Text
