import SiteBroker.Double

/-! The fewest decimal digits that read back as a given binary64 number. -/

namespace SiteBroker.Double

/-- The decimal `digits * 10 ^ exponent`. -/
structure Decimal where
  digits : Nat
  exponent : Int
  deriving DecidableEq

/-- The real numbers that round to a positive binary64 number, as numerators over one
denominator; the two ends belong to it iff `closed`. -/
structure Interval where
  low : Nat
  value : Nat
  high : Nat
  denominator : Nat
  closed : Bool

/-- Below a power of two the neighbours lie half as far apart as above it. -/
def interval (x : Double) : Interval :=
  let m := x.significand
  let q := x.scale - 2
  let below := if m = fractions ∧ 1 < x.exponentField then 1 else 2
  let unit := Nat.pow 2 q.toNat
  ⟨(4 * m - below) * unit, 4 * m * unit, (4 * m + 2) * unit, Nat.pow 2 (-q).toNat, m % 2 = 0⟩

/-- The `p` with `10 ^ (p - 1) ≤ num / den < 10 ^ p`. -/
def decimalPlace (num den : Nat) : Int :=
  if den ≤ num then decimalLength (num / den) else 1 - decimalLength ((den - 1) / num)

/-- Whether the decimal `c * 10 ^ e` lies in the interval. -/
def Interval.holds (i : Interval) (c : Nat) (e : Int) : Bool :=
  let point := c * Nat.pow 10 e.toNat * i.denominator
  let unit := Nat.pow 10 (-e).toNat
  if i.closed then i.low * unit ≤ point && point ≤ i.high * unit
  else i.low * unit < point && point < i.high * unit

/-- The nearer to the value of the two neighbours on the grid of `10 ^ e` that lie in the
interval, the even one at equal distance. -/
def Interval.onGrid (i : Interval) (e : Int) : Option Nat :=
  let unit := Nat.pow 10 (-e).toNat
  let step := Nat.pow 10 e.toNat * i.denominator
  let c := i.value * unit / step
  match i.holds c e, i.holds (c + 1) e with
  | true, true => some (roundHalfEven (i.value * unit) step)
  | true, false => some c
  | false, true => some (c + 1)
  | false, false => none

/-- The coarsest of the grids with `count`, `count + 1`, … digits that has a point in the
interval. -/
def Interval.coarsest (i : Interval) (place : Int) : (fuel count : Nat) → Decimal
  | 0, count => ⟨i.value * Nat.pow 10 (count - place).toNat / i.denominator, place - count⟩
  | fuel + 1, count =>
    match i.onGrid (place - count) with
    | some c => ⟨c, place - count⟩
    | none => i.coarsest place fuel (count + 1)

/-- The shortest decimal that rounds to a positive finite number. Seventeen digits always
suffice; the upper neighbour on a grid can be the power of ten that ends it. -/
def shortest (x : Double) : Decimal :=
  let i := x.interval
  let d := i.coarsest (decimalPlace i.value i.denominator) 17 1
  if d.digits % 10 = 0 then ⟨d.digits / 10, d.exponent + 1⟩ else d

end SiteBroker.Double
