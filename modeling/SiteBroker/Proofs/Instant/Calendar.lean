import SiteBroker.Instant.Calendar

/-! The days of the calendar and their numbers: each number is that of the day found for it, and
that day is in the calendar. -/

namespace SiteBroker.Date

/-- The parts of a number of days: groups of 400 years, centuries, groups of four years, years from
March to February, and days. The last century and the last year of a group are a day longer. -/
structure Parts (n : Int) where
  era : Int
  century : Int
  four : Int
  one : Int
  inYear : Int
  century_range : 0 ≤ century ∧ century ≤ 3
  four_range : 0 ≤ four ∧ four ≤ 24
  one_range : 0 ≤ one ∧ one ≤ 3
  inYear_range : 0 ≤ inYear ∧ inYear ≤ 365
  leap : inYear = 365 → one = 3 ∧ (four = 24 → century = 3)
  sum : n = 146097 * era + 36524 * century + 1461 * four + 365 * one + inYear

def parts (n : Int) : Parts n :=
  let century := min (n % 146097 / 36524) 3
  let inCentury := n % 146097 - 36524 * century
  let one := min (inCentury % 1461 / 365) 3
  { era := n / 146097
    century
    four := inCentury / 1461
    one
    inYear := inCentury % 1461 - 365 * one
    century_range := by omega
    four_range := by omega
    one_range := by omega
    inYear_range := by omega
    leap := by omega
    sum := by omega }

namespace Parts

variable {n : Int} (p : Parts n)

/-- The year, counted from March. -/
def year : Int := 400 * p.era + 100 * p.century + 4 * p.four + p.one

/-- The month, where March is none. -/
def month : Int := (5 * p.inYear + 2) / 153

/-- The day of the month, where the first is none. -/
def inMonth : Int := p.inYear - (153 * p.month + 2) / 5

theorem month_range : 0 ≤ p.month ∧ p.month ≤ 11 := by
  have h := p.inYear_range
  unfold month
  omega

theorem inMonth_range : 0 ≤ p.inMonth ∧ p.inMonth ≤ 30 := by
  have h := p.inYear_range
  unfold inMonth month
  omega

theorem days_of_year :
    365 * p.year + p.year / 4 - p.year / 100 + p.year / 400 + p.inYear = n := by
  have hc := p.century_range
  have hf := p.four_range
  have ho := p.one_range
  have hs := p.sum
  have hfours : p.year / 4 = 100 * p.era + 25 * p.century + p.four := by unfold year; omega
  have hcenturies : p.year / 100 = 4 * p.era + p.century := by unfold year; omega
  have heras : p.year / 400 = p.era := by unfold year; omega
  rw [hfours, hcenturies, heras]
  unfold year
  omega

/-- The day that a leap year adds is the last of its year. -/
theorem isLeap_of_inYear (h : p.inYear = 365) : isLeap (p.year + 1) = true := by
  have hc := p.century_range
  have hf := p.four_range
  obtain ⟨hone, hfour⟩ := p.leap h
  simp only [isLeap, year, Bool.and_eq_true, Bool.or_eq_true, beq_iff_eq, bne_iff_ne]
  omega

end Parts

theorem ofDays_eq (days : Int) :
    let p := parts (days + 719468)
    ofDays days = ⟨if p.month < 10 then p.year else p.year + 1,
      (if p.month < 10 then p.month + 3 else p.month - 9).toNat, (p.inMonth + 1).toNat⟩ := rfl

theorem toDays_ofDays (days : Int) : (ofDays days).toDays = days := by
  rw [ofDays_eq]
  generalize parts (days + 719468) = p
  have hm := p.month_range
  have hd := p.inMonth_range
  have hyear := p.days_of_year
  have hinYear : p.inYear = (153 * p.month + 2) / 5 + p.inMonth := by unfold Parts.inMonth; omega
  have hday : ((p.inMonth + 1).toNat : Int) = p.inMonth + 1 := by omega
  unfold toDays
  dsimp only
  by_cases hlate : p.month < 10
  · have hmonth : ((p.month + 3).toNat : Int) = p.month + 3 := by omega
    simp only [if_pos hlate, hday, hmonth]
    rw [if_neg (by omega), if_neg (by omega)]
    omega
  · have hmonth : ((p.month - 9).toNat : Int) = p.month - 9 := by omega
    simp only [if_neg hlate, hday, hmonth]
    rw [if_pos (by omega), if_pos (by omega)]
    omega

theorem daysInMonth_le (year : Int) (month : Nat) : daysInMonth year month ≤ 31 := by
  unfold daysInMonth
  repeat' split
  all_goals decide

theorem valid_ofDays (days : Int) : (ofDays days).Valid := by
  rw [ofDays_eq]
  generalize parts (days + 719468) = p
  have hm := p.month_range
  have hd := p.inMonth_range
  have hr := p.inYear_range
  have hinYear : p.inYear = (153 * p.month + 2) / 5 + p.inMonth := by unfold Parts.inMonth; omega
  have hmonth : p.month = (5 * p.inYear + 2) / 153 := rfl
  unfold Valid
  dsimp only
  by_cases hlate : p.month < 10
  · simp only [if_pos hlate, daysInMonth]
    refine ⟨by omega, by omega, by omega, ?_⟩
    rw [if_neg (by omega)]
    split <;> omega
  · simp only [if_neg hlate, daysInMonth]
    refine ⟨by omega, by omega, by omega, ?_⟩
    by_cases hfeb : p.month = 11
    · have hlast : p.inYear = 365 → isLeap (p.year + 1) = true := p.isLeap_of_inYear
      rw [if_pos (by omega)]
      split
      · omega
      · next hcommon =>
        have hshort : p.inYear ≠ 365 := fun h => hcommon (hlast h)
        omega
    · rw [if_neg (by omega)]
      split <;> omega

/-- The days from the first of the year -262143 to the last of the year 262142. -/
theorem year_ofDays {days : Int} (h : -96465292 ≤ days) (h' : days ≤ 95026236) :
    -262143 ≤ (ofDays days).year ∧ (ofDays days).year ≤ 262142 := by
  rw [ofDays_eq]
  generalize parts (days + 719468) = p
  have hm := p.month_range
  have hr := p.inYear_range
  have hmonth : p.month = (5 * p.inYear + 2) / 153 := rfl
  have hc := p.century_range
  have hf := p.four_range
  have ho := p.one_range
  have hs := p.sum
  have hyear : p.year = 400 * p.era + 100 * p.century + 4 * p.four + p.one := rfl
  -- Where the last day lies: its group of 400 years, the century in that, the four years in that.
  have hera : p.era ≤ 655 := by omega
  have hcentury : p.era = 655 → p.century ≤ 1 := by omega
  have hfour : p.era = 655 → p.century = 1 → p.four ≤ 10 := by omega
  dsimp only
  split <;> omega

end SiteBroker.Date
