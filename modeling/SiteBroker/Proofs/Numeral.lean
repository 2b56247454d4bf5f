import SiteBroker.Json.Number

/-! Numbers read at the start of a text as they are read alone, and whole numbers read as they were
written. -/

namespace SiteBroker

namespace Json

/-- What follows a value in a text: nothing, or the next item or line. -/
def Ends (rest : List Char) : Prop := ∀ c ∈ rest.head?, c = ',' ∨ c = '\n'

section

variable {cs rest cs' : List Char} {negative : Bool} {m : Nat} {e : Int} {a : Json}

theorem Ends.not_isDigit (h : Ends rest) : ∀ c ∈ rest.head?, c.isDigit = false := by
  intro c hc
  rcases h c hc with rfl | rfl <;> decide

/-- What begins before the end of a text is not affected by what follows. -/
theorem Ends.exists_cons (h : Ends rest) {c : Char} (hc : c ≠ ',' ∧ c ≠ '\n') {tail : List Char}
    (he : cs ++ rest = c :: tail) : ∃ tail', cs = c :: tail' := by
  rcases cs with _ | ⟨d, cs⟩
  · rcases h c (by rw [← List.nil_append rest, he]; rfl) with rfl | rfl <;> simp at hc
  · exact ⟨cs, by rw [(List.cons.inj he).1]⟩

theorem takeWhile_append (h : Ends rest) (cs : List Char) :
    (cs ++ rest).takeWhile Char.isDigit = cs.takeWhile Char.isDigit := by
  induction cs with
  | nil =>
    cases rest with
    | nil => rfl
    | cons c rest => simp [h.not_isDigit c rfl]
  | cons c cs ih => simp [List.takeWhile_cons, ih]

theorem dropWhile_append (h : Ends rest) (cs : List Char) :
    (cs ++ rest).dropWhile Char.isDigit = cs.dropWhile Char.isDigit ++ rest := by
  induction cs with
  | nil =>
    cases rest with
    | nil => rfl
    | cons c rest => simp [h.not_isDigit c rfl]
  | cons c cs ih =>
    rw [List.cons_append, List.dropWhile_cons, List.dropWhile_cons]
    split
    · exact ih
    · rfl

theorem readSignificand_append (h : Ends rest) (cs : List Char) (m taken : Nat) :
    readSignificand m taken (cs ++ rest) = ((readSignificand m taken cs).1,
      (readSignificand m taken cs).2.1, (readSignificand m taken cs).2.2 ++ rest) := by
  induction cs generalizing m taken with
  | nil =>
    cases rest with
    | nil => rfl
    | cons c rest => simp [readSignificand, h.not_isDigit c rfl]
  | cons c cs ih =>
    rw [List.cons_append, readSignificand, readSignificand]
    split
    · exact ih _ _
    · rfl

theorem map_append {v : Option Json} {cs : List Char}
    (h : v.map (·, cs) = some (a, cs')) (rest : List Char) :
    v.map (·, cs ++ rest) = some (a, cs' ++ rest) := by
  cases v with
  | none => simp at h
  | some v =>
    simp only [Option.map_some, Option.some.injEq, Prod.mk.injEq] at h ⊢
    exact ⟨h.1, by rw [h.2]⟩

/-- Reads an exponent after its sign. -/
def readPower (negative : Bool) (m : Nat) (e : Int) (down : Bool) (digits : List Char) :
    Option (Json × List Char) :=
  let text := digits.takeWhile Char.isDigit
  if text.isEmpty then none
  else
    let size : Int := text.foldl (fun n c => 10 * n + digitValue c) 0
    let total := if down then e - size else e + size
    (floatOfParts negative m total).map (·, digits.dropWhile Char.isDigit)

theorem readExponent_eq_readPower (negative : Bool) (m : Nat) (e : Int) (c : Char)
    (cs : List Char) : ∃ down digits, ∀ rest,
      readExponent negative m e (c :: cs ++ rest) =
        readPower negative m e down (digits ++ rest) := by
  by_cases hm : c = '-'
  · exact ⟨true, cs, fun rest => by subst hm; rfl⟩
  · by_cases hp : c = '+'
    · exact ⟨false, cs, fun rest => by subst hp; rfl⟩
    · refine ⟨false, c :: cs, fun rest => ?_⟩
      simp [readExponent, readPower, hm, hp]

theorem readExponent_append (h : Ends rest) (hr : readExponent negative m e cs = some (a, cs')) :
    readExponent negative m e (cs ++ rest) = some (a, cs' ++ rest) := by
  rcases cs with _ | ⟨c, cs⟩
  · simp [readExponent] at hr
  · obtain ⟨down, digits, hpower⟩ := readExponent_eq_readPower negative m e c cs
    have hr' : readPower negative m e down digits = some (a, cs') := by
      simpa [hr] using (hpower []).symm
    rw [hpower]
    unfold readPower at hr' ⊢
    simp only [takeWhile_append h, dropWhile_append h] at hr' ⊢
    by_cases ht : (digits.takeWhile Char.isDigit).isEmpty = true
    · simp [ht] at hr'
    · rw [if_neg ht] at hr' ⊢
      exact map_append hr' rest

theorem readScaled_append (h : Ends rest) (hr : readScaled negative m e cs = some (a, cs')) :
    readScaled negative m e (cs ++ rest) = some (a, cs' ++ rest) := by
  unfold readScaled at hr
  split at hr
  · exact readExponent_append h hr
  · exact readExponent_append h hr
  · next hn hn' =>
    rw [← map_append hr rest]
    unfold readScaled
    split
    · next he => exact ((h.exists_cons (by decide) he).elim hn).elim
    · next he => exact ((h.exists_cons (by decide) he).elim hn').elim
    · rfl

theorem readFraction_append (h : Ends rest) (hr : readFraction negative m e cs = some (a, cs')) :
    readFraction negative m e (cs ++ rest) = some (a, cs' ++ rest) := by
  unfold readFraction at hr ⊢
  simp only [readSignificand_append h, List.length_append, Nat.add_right_cancel_iff,
    dropWhile_append h] at hr ⊢
  split at hr
  · cases hr
  · next hn =>
    rw [if_neg]
    · exact readScaled_append h hr
    · rcases cs with _ | ⟨c, cs⟩
      · simp [readSignificand] at hn
      · exact hn

theorem readUnsigned_append (h : Ends rest) (hr : readUnsigned negative cs = some (a, cs')) :
    readUnsigned negative (cs ++ rest) = some (a, cs' ++ rest) := by
  rcases cs with _ | ⟨c, cs⟩
  · simp [readUnsigned] at hr
  · rw [List.cons_append]
    simp only [readUnsigned] at hr ⊢
    split at hr
    · cases hr
    · next hd =>
      rw [if_neg hd]
      have hfirst : ∃ m taken tail, ∀ rest, Ends rest → (if c == '0' then (0, 1, cs ++ rest)
          else readSignificand 0 0 (c :: (cs ++ rest))) = (m, taken, tail ++ rest) := by
        by_cases hc : (c == '0') = true
        · exact ⟨0, 1, cs, fun rest _ => by rw [if_pos hc]⟩
        · refine ⟨(readSignificand 0 0 (c :: cs)).1, (readSignificand 0 0 (c :: cs)).2.1,
            (readSignificand 0 0 (c :: cs)).2.2, fun rest h => ?_⟩
          rw [if_neg hc, ← List.cons_append]
          exact readSignificand_append h (c :: cs) 0 0
      obtain ⟨m, taken, tail, hfirst⟩ := hfirst
      have hfirst' := hfirst [] (by simp [Ends])
      rw [List.append_nil, List.append_nil] at hfirst'
      rw [hfirst rest h]
      rw [hfirst'] at hr
      simp only [takeWhile_append h, dropWhile_append h] at hr ⊢
      split at hr
      · cases hr
      · next hz =>
        rw [if_neg hz]
        split at hr
        · next he =>
          rw [he]
          exact readFraction_append h hr
        · next he =>
          rw [he]
          exact readScaled_append h hr
        · next he =>
          rw [he]
          exact readScaled_append h hr
        · next hdot hexp hexp' =>
          split
          · next he => exact ((h.exists_cons (by decide) he).elim hdot).elim
          · next he => exact ((h.exists_cons (by decide) he).elim hexp).elim
          · next he => exact ((h.exists_cons (by decide) he).elim hexp').elim
          · split at hr
            · next hb =>
              rw [if_pos hb]
              exact map_append (v := some _) hr rest
            · next hb =>
              rw [if_neg hb]
              exact map_append hr rest

theorem readNumber_cons {c : Char} (hm : c ≠ '-') (cs : List Char) :
    readNumber (c :: cs) = readUnsigned false (c :: cs) := by
  unfold readNumber
  split
  · next he => exact absurd (List.cons.inj he).1 hm
  · rfl

theorem readNumber_append (h : Ends rest) (hr : readNumber cs = some (a, cs')) :
    readNumber (cs ++ rest) = some (a, cs' ++ rest) := by
  rcases cs with _ | ⟨c, cs⟩
  · simp [readNumber, readUnsigned] at hr
  · by_cases hm : c = '-'
    · subst hm
      exact readUnsigned_append h hr
    · rw [readNumber_cons hm] at hr
      rw [List.cons_append, readNumber_cons hm]
      exact readUnsigned_append h hr

end

theorem le_ofDigitChars (cs : List Char) (m : Nat) : m ≤ Nat.ofDigitChars 10 cs m := by
  induction cs generalizing m with
  | nil => simp
  | cons c cs ih =>
    rw [Nat.ofDigitChars_cons]
    exact Nat.le_trans (by omega) (ih _)

theorem readSignificand_digits {cs : List Char} (h : ∀ c ∈ cs, c.isDigit = true) {m : Nat}
    (hm : Nat.ofDigitChars 10 cs m ≤ significandLimit) (taken : Nat) :
    readSignificand m taken cs = (Nat.ofDigitChars 10 cs m, taken + cs.length, []) := by
  induction cs generalizing m taken with
  | nil => simp [readSignificand]
  | cons c cs ih =>
    rw [Nat.ofDigitChars_cons] at hm ⊢
    have hc : 10 * m + digitValue c ≤ significandLimit := Nat.le_trans (le_ofDigitChars cs _) hm
    rw [readSignificand, if_pos (by simp [h c (by simp), hc])]
    rw [digitValue, ih (fun c hc => h c (by simp [hc])) hm, List.length_cons]
    simp only [Nat.add_assoc, Nat.add_comm 1]

theorem head?_toDigits {n : Nat} (h : 0 < n) : ∀ c ∈ (Nat.toDigits 10 n).head?, c ≠ '0' := by
  induction n using Nat.strongRecOn with
  | ind n ih =>
    by_cases hn : n < 10
    · rw [Nat.toDigits_of_lt_base hn]
      have hdigit : ∀ d < 10, 0 < d → Nat.digitChar d ≠ '0' := by decide
      simpa using hdigit n hn h
    · have hlower := ih (n / 10) (by omega) (by omega)
      rw [Nat.toDigits_of_base_le (by decide) (by omega)]
      rcases hcs : Nat.toDigits 10 (n / 10) with _ | ⟨c, cs⟩
      · exact absurd hcs Nat.toDigits_ne_nil
      · rw [hcs] at hlower
        exact hlower

theorem readUnsigned_toDigits (negative : Bool) {n : Nat} (h : n ≤ significandLimit) :
    readUnsigned negative (Nat.toDigits 10 n) = some (wholeNumber negative n, []) := by
  rcases Nat.eq_zero_or_pos n with rfl | hpos
  · rw [Nat.toDigits_zero]
    rfl
  · have hdigits : ∀ c ∈ Nat.toDigits 10 n, c.isDigit = true := fun c hc =>
      Nat.isDigit_of_mem_toDigits (by decide) (by decide) hc
    have hread := readSignificand_digits hdigits (m := 0)
      (by rwa [Nat.ofDigitChars_ten_toDigits]) 0
    have hhead := head?_toDigits hpos
    rcases hcs : Nat.toDigits 10 n with _ | ⟨c, cs⟩
    · exact absurd hcs Nat.toDigits_ne_nil
    · rw [hcs] at hdigits hread hhead
      have hc : (c == '0') = false := by simpa using hhead c rfl
      rw [← hcs, Nat.ofDigitChars_ten_toDigits, hcs] at hread
      simp [readUnsigned, hdigits c (by simp), hc, hread]

/-- A whole number of 64 bits reads back. -/
theorem readNumber_int {i : Int} (h : Int64.minValue.toInt ≤ i ∧ i < UInt64.size) :
    readNumber (toString i).toList = some (.int i, []) := by
  have hlimit : significandLimit = 0xffffffffffffffff := rfl
  have hmax : UInt64.size = 0x10000000000000000 := rfl
  have hmin : Int64.minValue.toInt = -0x8000000000000000 := rfl
  rw [Int.toString_eq_repr, Int.repr_eq_if]
  split
  · next hn =>
    rw [Nat.toList_repr]
    have hread := readUnsigned_toDigits false (n := i.toNat) (by omega)
    have hpositive : readNumber (Nat.toDigits 10 i.toNat) =
        readUnsigned false (Nat.toDigits 10 i.toNat) := by
      rcases hcs : Nat.toDigits 10 i.toNat with _ | ⟨c, cs⟩
      · rfl
      · refine readNumber_cons (fun hm => ?_) cs
        have hdigit : c.isDigit = true :=
          Nat.isDigit_of_mem_toDigits (by decide) (by decide) (hcs ▸ List.mem_cons_self)
        simp [hm] at hdigit
    rw [hpositive, hread, wholeNumber]
    simp only [Bool.not_false, if_true, Int.toNat_of_nonneg hn]
  · next hn =>
    rw [String.toList_append, Nat.toList_repr]
    have hread := readUnsigned_toDigits true (n := (-i).toNat) (by omega)
    have hnegative : readNumber ("-".toList ++ Nat.toDigits 10 (-i).toNat) =
        readUnsigned true (Nat.toDigits 10 (-i).toNat) := rfl
    rw [hnegative, hread, wholeNumber]
    rw [if_neg (by decide), if_neg (by omega)]
    have hback : -((-i).toNat : Int) = i := by omega
    rw [hback]

end Json
end SiteBroker
