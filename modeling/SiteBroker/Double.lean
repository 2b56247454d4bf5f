/-! Numbers of the IEEE 754 binary64 format, kept as their 64 bits and computed with exactly. -/

namespace SiteBroker

/-- A binary64 number: sign, exponent field and fraction packed into 64 bits. -/
structure Double where
  bits : UInt64
  deriving DecidableEq

/-- The integer nearest to `n / d`, the even one of two at the same distance. -/
def roundHalfEven (n d : Nat) : Nat :=
  let q := n / d
  let twice := 2 * (n % d)
  if twice < d then q else if d < twice then q + 1 else q + q % 2

namespace Double

/-- The number of fractions, two to the power of 52. -/
def fractions : Nat := 0x10000000000000

/-- The value of the bit for the sign. -/
def signBit : Nat := 0x8000000000000000

def exponentField (x : Double) : Nat := x.bits.toNat / fractions % 2048

def fraction (x : Double) : Nat := x.bits.toNat % fractions

def negative (x : Double) : Bool := signBit ≤ x.bits.toNat

def isFinite (x : Double) : Bool := x.exponentField != 2047

def isNaN (x : Double) : Bool := x.exponentField == 2047 && x.fraction != 0

/-- The absolute value of a finite number is `significand * 2 ^ scale`. -/
def significand (x : Double) : Nat :=
  if x.exponentField = 0 then x.fraction else fractions + x.fraction

def scale (x : Double) : Int := max 1 x.exponentField - 1075

/-- Whether a number is one of the two zeros. -/
def isZero (x : Double) : Bool := x.exponentField == 0 && x.fraction == 0

/-- The number with the given sign whose other 63 bits are `magnitude`. -/
def ofMagnitude (negative : Bool) (magnitude : Nat) : Double :=
  ⟨UInt64.ofNat (if negative then signBit + magnitude else magnitude)⟩

def zero (negative : Bool) : Double := ofMagnitude negative 0

def infinity (negative : Bool) : Double := ofMagnitude negative (2047 * fractions)

def nan : Double := ofMagnitude false (2047 * fractions + fractions / 2)

/-- The number nearest to `num / den` among those of scale `q` or the least one above it. -/
def ofRatioAt (negative : Bool) (num den : Nat) (q : Int) : Double :=
  let m := if 0 ≤ q then roundHalfEven num (den * Nat.pow 2 q.toNat)
    else roundHalfEven (num * Nat.pow 2 (-q).toNat) den
  let (m, q) := if m = 2 * fractions then (fractions, q + 1) else (m, q)
  if m < fractions then ofMagnitude negative m
  else if 972 ≤ q then infinity negative
  else ofMagnitude negative ((q + 1075).toNat * fractions + (m - fractions))

/-- The number nearest to `num / den`, the one with the even significand of two at the same
distance, and infinity past the largest. -/
def ofRatio (negative : Bool) (num den : Nat) : Double :=
  if num = 0 then zero negative
  else
    let q : Int := (num.log2 : Int) - den.log2 - 53
    let large := if 0 ≤ q then den * Nat.pow 2 (q.toNat + 53) ≤ num
      else den * (2 * fractions) ≤ num * Nat.pow 2 (-q).toNat
    ofRatioAt negative num den (max (if large then q + 1 else q) (-1074))

/-- The number nearest to `m * 2 ^ q`. -/
def ofScaled (negative : Bool) (m : Nat) (q : Int) : Double :=
  if 0 ≤ q then ofRatio negative (m * Nat.pow 2 q.toNat) 1
  else ofRatio negative m (Nat.pow 2 (-q).toNat)

def ofInt (i : Int) : Double := ofRatio (i < 0) i.natAbs 1

/-- How many decimal digits a number has. -/
def decimalLength (n : Nat) : Nat := (Nat.toDigits 10 n).length

/-- The number nearest to `digits * 10 ^ exponent`. Beyond `10 ^ 310` and below `10 ^ -330` the
answer no longer depends on the digits. -/
def ofDecimal (negative : Bool) (digits : Nat) (exponent : Int) : Double :=
  let place := exponent + decimalLength digits
  if digits = 0 ∨ place < -330 then zero negative
  else if 310 < place then infinity negative
  else if 0 ≤ exponent then ofRatio negative (digits * Nat.pow 10 exponent.toNat) 1
  else ofRatio negative digits (Nat.pow 10 (-exponent).toNat)

/-- The product of two finite numbers, rounded once. -/
def mul (x y : Double) : Double :=
  ofScaled (x.negative != y.negative) (x.significand * y.significand) (x.scale + y.scale)

/-- The quotient of two finite numbers, the second not zero, rounded once. -/
def div (x y : Double) : Double :=
  let shift := x.scale - y.scale
  if 0 ≤ shift then
    ofRatio (x.negative != y.negative) (x.significand * Nat.pow 2 shift.toNat) y.significand
  else
    ofRatio (x.negative != y.negative) x.significand (y.significand * Nat.pow 2 (-shift).toNat)

def neg (x : Double) : Double := ⟨x.bits ^^^ UInt64.ofNat signBit⟩

/-- Equality of numbers: the two zeros are equal and a NaN equals nothing. -/
def same (x y : Double) : Bool :=
  !x.isNaN && !y.isNaN && (x == y || x.isZero && y.isZero)

end Double

end SiteBroker
