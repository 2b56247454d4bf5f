import SiteBroker.Instant.Text
import SiteBroker.Proofs.Digits
import SiteBroker.Proofs.Instant.Calendar

/-! The text of an instant is read as that instant, and whatever is read has a text. -/

namespace SiteBroker.Instant

open Text

/-- Digits and nothing else, at least one. -/
structure Digits (cs : List Char) : Prop where
  nonempty : cs ≠ []
  isDigit : ∀ c ∈ cs, c.isDigit = true

/-- What follows digits: nothing, or something that is not one of them. -/
def Stops (rest : List Char) : Prop := ∀ c ∈ rest.head?, c.isDigit = false

theorem digits_padLeft (width n : Nat) : Digits (padLeft width n) := by
  refine ⟨fun h => ?_, fun c hc => ?_⟩
  · rw [padLeft, List.append_eq_nil_iff, Nat.toList_repr] at h
    exact Nat.toDigits_ne_nil h.2
  · rcases List.mem_append.mp hc with hc | hc
    · rw [(List.mem_replicate.mp hc).2]
      rfl
    · exact isDigit_of_mem_repr hc

theorem ofDigitChars_padLeft (width n : Nat) : Nat.ofDigitChars 10 (padLeft width n) 0 = n := by
  rw [padLeft, Nat.ofDigitChars_append, Nat.ofDigitChars_replicate_zero, Nat.mul_zero,
    Nat.toList_repr, Nat.ofDigitChars_ten_toDigits]

theorem foldl_digits (cs : List Char) :
    cs.foldl (fun n c => 10 * n + (c.toNat - 48)) 0 = Nat.ofDigitChars 10 cs 0 := rfl

theorem length_padLeft {width n : Nat} (hw : 0 < width) (h : n < 10 ^ width) :
    (padLeft width n).length = width := by
  have hle : (Nat.repr n).toList.length ≤ width := by
    rw [Nat.toList_repr]
    exact (Nat.length_toDigits_le_iff (by decide) hw).mpr h
  simp only [padLeft, List.length_append, List.length_replicate]
  omega

namespace Digits

variable {cs rest : List Char}

theorem takeWhile (h : Digits cs) (hr : Stops rest) :
    (cs ++ rest).takeWhile Char.isDigit = cs := by
  rw [List.takeWhile_append_of_pos h.isDigit]
  cases rest with
  | nil => simp
  | cons c rest => simp [hr c rfl]

theorem dropWhile (h : Digits cs) (hr : Stops rest) :
    (cs ++ rest).dropWhile Char.isDigit = rest := by
  rw [List.dropWhile_append_of_pos h.isDigit]
  cases rest with
  | nil => rfl
  | cons c rest => simp [hr c rfl]

theorem skipBlank (h : Digits cs) (rest : List Char) : skipBlank (cs ++ rest) = cs ++ rest := by
  cases cs with
  | nil => exact absurd rfl h.nonempty
  | cons c cs =>
    have hc := isBlank_of_isDigit (h.isDigit c List.mem_cons_self)
    simp [Instant.skipBlank, hc]

theorem isDigit_of_eq_cons {c : Char} {rest' : List Char} (h : Digits cs)
    (he : cs ++ rest = c :: rest') : c.isDigit = true := by
  cases cs with
  | nil => exact absurd rfl h.nonempty
  | cons d cs =>
    obtain ⟨rfl, -⟩ := List.cons.inj he
    exact h.isDigit _ List.mem_cons_self

end Digits

section

variable {cs rest : List Char} {width n : Nat}

/-- Digits are read up to where they stop, or as many as there may be. -/
theorem readNumber_digits (h : Digits cs) (hw : cs.length ≤ width)
    (hr : cs.length = width ∨ Stops rest) :
    readNumber width (cs ++ rest) = some (Nat.ofDigitChars 10 cs 0, rest) := by
  have hstop : Stops (rest.take (width - cs.length)) := by
    intro c hc
    rcases hr with hr | hr
    · rw [hr, Nat.sub_self, List.take_zero] at hc
      cases hc
    · cases rest with
      | nil => simp at hc
      | cons d rest =>
        cases hk : width - cs.length with
        | zero => simp [hk] at hc
        | succ k =>
          rw [hk, List.take_succ_cons] at hc
          exact hr c hc
  have htake : ((cs ++ rest).take width).takeWhile Char.isDigit = cs := by
    rw [List.take_append, List.take_of_length_le hw, h.takeWhile hstop]
  have hne : cs.isEmpty = false := List.isEmpty_eq_false_iff.mpr h.nonempty
  simp only [readNumber, htake, hne, foldl_digits, Bool.false_eq_true, if_false, List.drop_left]

theorem readPart_padLeft (hw : 0 < width) (h : n < 10 ^ width) (rest : List Char) :
    readPart width (padLeft width n ++ rest) = some (n, rest) := by
  have hlength := length_padLeft hw h
  have hread : readNumber width (padLeft width n ++ rest) = _ :=
    readNumber_digits (digits_padLeft width n) (Nat.le_of_eq hlength) (.inl hlength)
  rw [readPart, (digits_padLeft width n).skipBlank, hread, ofDigitChars_padLeft]

theorem readMark_cons {mark : Char} (h : isBlank mark = false) (rest : List Char) :
    readMark mark (mark :: rest) = some rest := by
  simp [readMark, skipBlank, h]

theorem readYear_minus (cs : List Char) : readYear ('-' :: cs) =
    (readNumber cs.length cs).map fun (n, rest) => (-(n : Int), rest) := rfl

theorem readYear_plus (cs : List Char) : readYear ('+' :: cs) =
    (readNumber cs.length cs).map fun (n, rest) => ((n : Int), rest) := rfl

theorem readYear_yearText (year : Int) (hr : Stops rest) :
    readYear (yearText year ++ rest) = some (year, rest) := by
  by_cases hfour : 0 ≤ year ∧ year ≤ 9999
  · have hd := digits_padLeft 4 year.toNat
    have hlength : (padLeft 4 year.toNat).length = 4 := length_padLeft (by decide) (by omega)
    have hread := readNumber_digits hd (Nat.le_of_eq hlength) (.inr hr)
    have hyear : (year.toNat : Int) = year := by omega
    unfold readYear
    rw [yearText, if_pos hfour, hd.skipBlank]
    split
    · next he => cases hd.isDigit_of_eq_cons he
    · next he => cases hd.isDigit_of_eq_cons he
    · simp only [hread, Option.map_some, ofDigitChars_padLeft, hyear]
  · have hlength : (padLeft 4 year.natAbs).length ≤ (padLeft 4 year.natAbs ++ rest).length := by
      rw [List.length_append]
      omega
    have hread := readNumber_digits (digits_padLeft 4 year.natAbs) hlength (.inr hr)
    rw [ofDigitChars_padLeft] at hread
    rw [yearText, if_neg hfour, List.cons_append]
    by_cases hneg : year < 0
    · have hyear : -(year.natAbs : Int) = year := by omega
      rw [if_pos hneg, readYear_minus]
      simp only [hread, Option.map_some, hyear]
    · have hyear : (year.natAbs : Int) = year := by omega
      rw [if_neg hneg, readYear_plus]
      simp only [hread, Option.map_some, hyear]

theorem readDate_eq {date : Date} (hm : date.month < 100) (hd : date.day < 100)
    (rest : List Char) :
    readDate (yearText date.year ++ '-' :: (padLeft 2 date.month ++
      '-' :: (padLeft 2 date.day ++ rest))) = some (date, rest) := by
  have hstops : Stops ('-' :: (padLeft 2 date.month ++ '-' :: (padLeft 2 date.day ++ rest))) :=
    fun c hc => by cases hc; rfl
  have hyear := readYear_yearText date.year hstops
  have hmark : isBlank '-' = false := rfl
  simp only [readDate, hyear, Option.bind_eq_bind, Option.bind_some, readMark_cons hmark,
    readPart_padLeft (by decide : 0 < 2) hm, readPart_padLeft (by decide : 0 < 2) hd]

/-- Digits after a point are read as nanoseconds, of which those not written are none. -/
theorem readFraction_padLeft {places : Nat} (hp : 0 < places) (hp' : places ≤ 9)
    (h : n < 10 ^ places) (hr : Stops rest) :
    readFraction ('.' :: padLeft places n ++ rest) = some (n * 10 ^ (9 - places), rest) := by
  have hd := digits_padLeft places n
  have hlength := length_padLeft hp h
  have hne : (padLeft places n).isEmpty = false := List.isEmpty_eq_false_iff.mpr hd.nonempty
  have hnine : (padLeft places n ++ List.replicate 9 '0').take 9 =
      padLeft places n ++ List.replicate (9 - places) '0' := by
    rw [List.take_append, List.take_of_length_le (by omega), hlength, List.take_replicate,
      Nat.min_eq_left (by omega)]
  have hvalue : Nat.ofDigitChars 10 (padLeft places n ++ List.replicate (9 - places) '0') 0 =
      n * 10 ^ (9 - places) := by
    rw [Nat.ofDigitChars_append, ofDigitChars_padLeft, Nat.ofDigitChars_replicate_zero,
      Nat.mul_comm]
  rw [List.cons_append, readFraction]
  simp only [hd.takeWhile hr, hd.dropWhile hr, hne, hnine, Bool.false_eq_true, if_false]
  rw [foldl_digits, hvalue]

theorem readFraction_fractionText (h : n < 1000000000) (hr : Stops rest)
    (hdot : rest.head? ≠ some '.') : readFraction (fractionText n ++ rest) = some (n, rest) := by
  unfold fractionText
  split
  · next hn =>
    rw [List.nil_append, hn]
    cases rest with
    | nil => rfl
    | cons c rest =>
      rw [readFraction]
      rintro cs ⟨⟩
      exact hdot rfl
  · split
    · rw [readFraction_padLeft (by decide) (by decide) (by omega) hr]
      exact congrArg (fun n => some (n, rest)) (by omega)
    · split
      · rw [readFraction_padLeft (by decide) (by decide) (by omega) hr]
        exact congrArg (fun n => some (n, rest)) (by omega)
      · rw [readFraction_padLeft (by decide) (by decide) h hr]
        exact congrArg (fun n => some (n, rest)) (by omega)

/-- The time of day is read again; a leap second is told by the second sixty. -/
theorem readTime_eq {inDay nanos : Nat} (hd : inDay < 86400) (hn : nanos < 2000000000)
    (hleap : 1000000000 ≤ nanos → inDay % 60 = 59) (hr : Stops rest)
    (hdot : rest.head? ≠ some '.') :
    readTime (padLeft 2 (inDay / 3600) ++ ':' :: (padLeft 2 (inDay / 60 % 60) ++
      ':' :: (padLeft 2 (inDay % 60 + nanos / 1000000000) ++
        (fractionText (nanos % 1000000000) ++ rest)))) = some ((inDay, nanos), rest) := by
  have hmark : isBlank ':' = false := rfl
  have htwo : 0 < 2 := by decide
  have hhour : inDay / 3600 < 24 := by omega
  have hminute : inDay / 60 % 60 < 60 := by omega
  have hsecond : inDay % 60 + nanos / 1000000000 ≤ 60 := by omega
  have hfraction : nanos % 1000000000 < 1000000000 := Nat.mod_lt _ (by decide)
  simp only [readTime, Option.bind_eq_bind, Option.bind_some, readMark_cons hmark,
    readPart_padLeft htwo (show inDay / 3600 < 10 ^ 2 by omega),
    readPart_padLeft htwo (show inDay / 60 % 60 < 10 ^ 2 by omega),
    readPart_padLeft htwo (show inDay % 60 + nanos / 1000000000 < 10 ^ 2 by omega),
    readFraction_fractionText hfraction hr hdot]
  rw [if_pos ⟨hhour, hminute, hsecond⟩]
  by_cases hsixty : inDay % 60 + nanos / 1000000000 = 60
  · have htime : 3600 * (inDay / 3600) + 60 * (inDay / 60 % 60) + 59 = inDay := by omega
    have hnanos : nanos % 1000000000 + 1000000000 = nanos := by omega
    rw [if_pos hsixty, htime, hnanos]
  · have htime : 3600 * (inDay / 3600) + 60 * (inDay / 60 % 60) +
        (inDay % 60 + nanos / 1000000000) = inDay := by omega
    have hnanos : nanos % 1000000000 = nanos := by omega
    rw [if_neg hsixty, htime, hnanos]

end

/-- An instant that can be told: one in range, and within a leap second only where a minute ends. -/
structure Supported (t : Instant) : Prop where
  first_le : first ≤ t
  le_last : t.seconds ≤ last.seconds
  leap : 1000000000 ≤ t.nanos → t.seconds % 60 = 59

theorem parse?_text {t : Instant} (h : t.Supported) : parse? t.text = some t := by
  have hfirst : -8334601228800 ≤ t.seconds := by
    have hle := h.first_le
    rw [le_iff] at hle
    simp only [first] at hle
    omega
  have hlast : t.seconds ≤ 8210266876799 := h.le_last
  have hleap := h.leap
  have hnanos := t.nanos_lt
  obtain ⟨date, hdate⟩ : ∃ date, Date.ofDays (t.seconds / 86400) = date := ⟨_, rfl⟩
  obtain ⟨inDay, hin⟩ : ∃ inDay, (t.seconds % 86400).toNat = inDay := ⟨_, rfl⟩
  have hvalid : date.Valid := hdate ▸ Date.valid_ofDays _
  have hdays : date.toDays = t.seconds / 86400 := hdate ▸ Date.toDays_ofDays _
  have hyear : YearInRange date.year := hdate ▸ Date.year_ofDays (by omega) (by omega)
  have hmonth : date.month < 100 := by
    have hm := hvalid.2.1
    omega
  have hday : date.day < 100 := by
    have hd := hvalid.2.2.2
    have hle := Date.daysInMonth_le date.year date.month
    omega
  have htext : t.text.toList = yearText date.year ++ '-' :: (padLeft 2 date.month ++
      '-' :: (padLeft 2 date.day ++ 'T' :: (padLeft 2 (inDay / 3600) ++
        ':' :: (padLeft 2 (inDay / 60 % 60) ++ ':' ::
          (padLeft 2 (inDay % 60 + t.nanos / 1000000000) ++
            (fractionText (t.nanos % 1000000000) ++ ['Z'])))))) := by
    simp only [text, textWith, wholeText, hdate, hin, String.toList_ofList, List.append_assoc,
      List.cons_append]
    rfl
  have hstops : Stops ['Z'] := fun c hc => by cases hc; rfl
  have htime := readTime_eq (show inDay < 86400 by omega) t.nanos_lt (by omega) hstops (by decide)
  have hblank : skipBlank ['Z'] = ['Z'] := rfl
  have hempty : skipBlank [] = [] := rfl
  have hseconds : 86400 * date.toDays + inDay - 0 = t.seconds := by
    rw [hdays]
    omega
  unfold parse?
  rw [htext, readDate_eq hmonth hday]
  simp only [Option.bind_eq_bind, Option.bind_some, htime, hblank, readOffset, hempty, hseconds]
  rw [if_neg (by simp [hvalid, hyear]), dif_pos t.nanos_lt, if_pos ⟨h.first_le, h.le_last⟩]

theorem readFraction_lt {cs rest : List Char} {n : Nat} (h : readFraction cs = some (n, rest)) :
    n < 1000000000 := by
  cases cs with
  | nil => cases h; decide
  | cons c cs =>
    by_cases hc : c = '.'
    · subst hc
      rw [readFraction] at h
      simp only [foldl_digits] at h
      split at h
      · cases h
      · obtain ⟨rfl, -⟩ := Prod.mk.inj (Option.some.inj h)
        refine Nat.lt_of_lt_of_le (ofDigitChars_lt fun c hc => ?_)
          (Nat.pow_le_pow_right (by decide) (List.length_take_le 9 _))
        rcases List.mem_append.mp (List.mem_of_mem_take hc) with hc | hc
        · exact List.all_eq_true.mp List.all_takeWhile c hc
        · rw [(List.mem_replicate.mp hc).2]
          rfl
    · rw [readFraction] at h
      · cases h
        decide
      · rintro cs ⟨⟩
        exact hc rfl

/-- A time of day is within a leap second only if it is the last of its minute. -/
theorem leap_of_readTime {cs rest : List Char} {time nanos : Nat}
    (h : readTime cs = some ((time, nanos), rest)) (hn : 1000000000 ≤ nanos) : time % 60 = 59 := by
  simp only [readTime, Option.bind_eq_bind, Option.bind_eq_some_iff] at h
  obtain ⟨⟨hour, c₁⟩, -, c₂, -, ⟨minute, c₃⟩, -, c₄, -, ⟨second, c₅⟩, -, ⟨n, c₆⟩, hfraction, h⟩ := h
  have hlt := readFraction_lt hfraction
  split at h
  · split at h
    · cases h
      omega
    · cases h
      omega
  · cases h

theorem readOffsetSize_mod {cs rest : List Char} {n : Nat}
    (h : readOffsetSize cs = some (n, rest)) : n % 60 = 0 := by
  simp only [readOffsetSize, Option.bind_eq_bind] at h
  split at h
  · simp only [Option.bind_eq_some_iff] at h
    obtain ⟨⟨hours, c₁⟩, -, ⟨minutes, c₂⟩, -, h⟩ := h
    split at h
    · cases h
      omega
    · cases h
  · cases h

theorem readOffset_mod {cs rest : List Char} {offset : Int}
    (h : readOffset cs = some (offset, rest)) : offset % 60 = 0 := by
  unfold readOffset at h
  split at h
  · cases h; rfl
  · cases h; rfl
  · obtain ⟨⟨n, rest⟩, hn, h⟩ := Option.map_eq_some_iff.mp h
    cases h
    have hmod := readOffsetSize_mod hn
    omega
  · obtain ⟨⟨n, rest⟩, hn, h⟩ := Option.map_eq_some_iff.mp h
    cases h
    have hmod := readOffsetSize_mod hn
    omega
  · obtain ⟨⟨n, rest⟩, hn, h⟩ := Option.map_eq_some_iff.mp h
    cases h
    have hmod := readOffsetSize_mod hn
    omega
  · split at h
    · cases h; rfl
    · cases h
  · cases h

theorem supported_of_parse? {s : String} {t : Instant} (h : parse? s = some t) : t.Supported := by
  obtain ⟨⟨date, c₁⟩, -, h⟩ := Option.bind_eq_some_iff.mp h
  dsimp only at h
  split at h
  case h_4 => cases h
  all_goals
    simp only [Option.bind_eq_bind, Option.bind_some, Option.bind_eq_some_iff] at h
    obtain ⟨⟨⟨time, nanos⟩, c₂⟩, htime, ⟨offset, c₃⟩, hoffset, h⟩ := h
    have hmod := readOffset_mod hoffset
    split at h
    · cases h
    · split at h
      · obtain ⟨hrange, h⟩ := Option.ite_none_right_eq_some.mp h
        cases h
        refine ⟨hrange.1, hrange.2, fun hn => ?_⟩
        have hleap := leap_of_readTime htime hn
        dsimp only
        omega
      · cases h

end SiteBroker.Instant
