/-! Points in time, and how far one lies after another. -/

namespace SiteBroker

/-- A length of time in milliseconds. These are enough: delays and limits are set in whole seconds,
which doubling and clipping them keeps whole, waits are counted in seconds, and the only shorter
length is the quarter of a second between two looks at the snapshots. -/
abbrev Duration := Nat

/-- Seconds since 1970 UTC and the nanoseconds past them. A leap second belongs to the second
before it, whose nanoseconds then go on to two thousand million. -/
structure Instant where
  seconds : Int
  nanos : Nat
  nanos_lt : nanos < 2000000000 := by decide
  deriving DecidableEq

namespace Instant

/-- One instant is before another by its seconds, then by its nanoseconds. -/
instance : LT Instant where
  lt a b := a.seconds < b.seconds ∨ (a.seconds = b.seconds ∧ a.nanos < b.nanos)

instance : LE Instant where
  le a b := a.seconds < b.seconds ∨ (a.seconds = b.seconds ∧ a.nanos ≤ b.nanos)

instance : DecidableLT Instant := fun a b =>
  inferInstanceAs (Decidable (a.seconds < b.seconds ∨ (a.seconds = b.seconds ∧ a.nanos < b.nanos)))

instance : DecidableLE Instant := fun a b =>
  inferInstanceAs (Decidable (a.seconds < b.seconds ∨ (a.seconds = b.seconds ∧ a.nanos ≤ b.nanos)))

instance : Max Instant := maxOfLe

instance : Min Instant := minOfLe

theorem le_iff {a b : Instant} :
    a ≤ b ↔ a.seconds < b.seconds ∨ (a.seconds = b.seconds ∧ a.nanos ≤ b.nanos) := Iff.rfl

theorem lt_iff {a b : Instant} :
    a < b ↔ a.seconds < b.seconds ∨ (a.seconds = b.seconds ∧ a.nanos < b.nanos) := Iff.rfl

theorem ext_iff' {a b : Instant} : a = b ↔ a.seconds = b.seconds ∧ a.nanos = b.nanos := by
  cases a; cases b; simp

theorem not_le {a b : Instant} : ¬ a ≤ b ↔ b < a := by
  rw [le_iff, lt_iff]; omega

theorem not_lt {a b : Instant} : ¬ a < b ↔ b ≤ a := by
  rw [le_iff, lt_iff]; omega

theorem le_refl (a : Instant) : a ≤ a := by
  rw [le_iff]; omega

theorem le_trans {a b c : Instant} (hab : a ≤ b) (hbc : b ≤ c) : a ≤ c := by
  rw [le_iff] at *; omega

theorem le_antisymm {a b : Instant} (hab : a ≤ b) (hba : b ≤ a) : a = b := by
  rw [le_iff] at *; rw [ext_iff']; omega

def epoch : Instant := ⟨0, 0, by decide⟩

/-- The first instant of the year -262143. -/
def first : Instant := ⟨-8334601228800, 0, by decide⟩

/-- The last nanosecond of the year 262142. -/
def last : Instant := ⟨8210266876799, 999999999, by decide⟩

/-- The instant a number of milliseconds after 1970. -/
def ofMillis (ms : Int) : Instant :=
  ⟨ms / 1000, (ms % 1000).toNat * 1000000, by omega⟩

/-- Milliseconds since 1970, rounded down. -/
def millis (t : Instant) : Int := t.seconds * 1000 + t.nanos / 1000000

/-- The instant a number of milliseconds after 1970, if it is one of those that can be told. -/
def ofMillis? (ms : Int) : Option Instant :=
  let t := ofMillis ms
  if first ≤ t ∧ t ≤ last then some t else none

/-- The instant so many nanoseconds after the start of a second. -/
def ofNanos (seconds : Int) (nanos : Nat) : Instant :=
  ⟨seconds + nanos / 1000000000, nanos % 1000000000,
    Nat.lt_trans (Nat.mod_lt _ (by decide)) (by decide)⟩

/-- The instant a duration later, or the last one if that lies beyond it. A sum that stays within
a leap second is within it, too. -/
def after (t : Instant) (d : Duration) : Instant :=
  let nanos := t.nanos + d * 1000000
  let sum :=
    if t.nanos < 1000000000 then ofNanos t.seconds nanos
    else if h : nanos < 2000000000 then ⟨t.seconds, nanos, h⟩
    else ofNanos t.seconds (nanos - 1000000000)
  if sum ≤ last then sum else last

/-- Seconds since the day began. -/
def secondOfDay (t : Instant) : Int := t.seconds % 86400

/-- What a leap second adds to the seconds between two instants, if one of them is within it and the
other one has a later time of day. -/
def leapBetween (now target : Instant) : Int :=
  if now.secondOfDay < target.secondOfDay ∧ 1000000000 ≤ now.nanos then 1
  else if target.secondOfDay < now.secondOfDay ∧ 1000000000 ≤ target.nanos then -1
  else 0

/-- The whole seconds from one instant until a later one, none if it is not later. -/
def secondsUntil (now target : Instant) : Nat :=
  (((target.seconds - now.seconds + now.leapBetween target) * 1000000000 +
    (target.nanos - now.nanos)) / 1000000000).toNat

end Instant

end SiteBroker
