import SiteBroker.Double.Shortest
import SiteBroker.Json

/-! Number text: how the numbers of JSON are written and how their text is read. -/

namespace SiteBroker.Json

/-- The text of a positive decimal: positional with a fraction digit from `1e-5` up to `1e16`,
else with an exponent and its sign. -/
def decimalText (d : Double.Decimal) : String :=
  let digits := (Nat.repr d.digits).toList
  let place := d.exponent + digits.length
  if 0 ≤ d.exponent && place ≤ 16 then
    String.ofList (digits ++ List.replicate d.exponent.toNat '0') ++ ".0"
  else if 0 < place && place ≤ 16 then
    String.ofList (digits.take place.toNat) ++ "." ++ String.ofList (digits.drop place.toNat)
  else if -5 < place && place ≤ 0 then
    "0." ++ String.ofList (List.replicate (-place).toNat '0' ++ digits)
  else
    let mantissa := match digits with
      | first :: rest@(_ :: _) => String.ofList (first :: '.' :: rest)
      | digits => String.ofList digits
    mantissa ++ (if 0 < place then "e+" else "e-") ++ Nat.repr (place - 1).natAbs

/-- The text of a finite number: the fewest digits that read back the same. -/
def floatText (x : Double) : String :=
  (if x.negative then "-" else "") ++ (if x.isZero then "0.0" else decimalText x.shortest)

/-- The largest whole number a significand can hold while it is read. -/
def significandLimit : Nat := UInt64.size - 1

def digitValue (c : Char) : Nat := c.toNat - '0'.toNat

/-- Reads digits while the significand has room for them, and returns how many it took. -/
def readSignificand (significand taken : Nat) : List Char → Nat × Nat × List Char
  | [] => (significand, taken, [])
  | c :: cs =>
    if c.isDigit && 10 * significand + digitValue c ≤ significandLimit then
      readSignificand (10 * significand + digitValue c) (taken + 1) cs
    else (significand, taken, c :: cs)

/-- Scales a significand by a power of ten in steps that binary64 can hold, rounding at each. -/
def scaleByTen (x : Double) : (steps : Nat) → (exponent : Int) → Option Double
  | 0, _ => some x
  | steps + 1, exponent =>
    if exponent.natAbs ≤ 308 then
      let power := Double.ofDecimal false 1 exponent.natAbs
      if 0 ≤ exponent then
        let y := x.mul power
        if y.isFinite then some y else none
      else some (x.div power)
    else if x.isZero then some x
    else if 0 ≤ exponent then none
    else scaleByTen (x.div (Double.ofDecimal false 1 308)) steps (exponent + 308)

/-- The number with the given significand and decimal exponent, or nothing if it is too large. -/
def floatOfParts (negative : Bool) (significand : Nat) (exponent : Int) : Option Json :=
  (scaleByTen (Double.ofInt significand) 5 exponent).map fun x =>
    .float (if negative then x.neg else x)

/-- Reads an exponent after its letter and scales the significand by it. -/
def readExponent (negative : Bool) (significand : Nat) (exponent : Int) (cs : List Char) :
    Option (Json × List Char) :=
  let (down, digits) := match cs with
    | '-' :: rest => (true, rest)
    | '+' :: rest => (false, rest)
    | rest => (false, rest)
  let text := digits.takeWhile Char.isDigit
  if text.isEmpty then none
  else
    let size : Int := text.foldl (fun n c => 10 * n + digitValue c) 0
    let total := if down then exponent - size else exponent + size
    (floatOfParts negative significand total).map (·, digits.dropWhile Char.isDigit)

/-- What may follow the digits of a number: an exponent or nothing of it. -/
def readScaled (negative : Bool) (significand : Nat) (exponent : Int) :
    List Char → Option (Json × List Char)
  | 'e' :: cs | 'E' :: cs => readExponent negative significand exponent cs
  | cs => (floatOfParts negative significand exponent).map (·, cs)

/-- Reads the digits after a point; those for which the significand has no room are dropped. -/
def readFraction (negative : Bool) (significand : Nat) (exponent : Int) (cs : List Char) :
    Option (Json × List Char) :=
  let (significand', taken, rest) := readSignificand significand 0 cs
  if rest.length = cs.length && !(cs.head?.any Char.isDigit) then none
  else readScaled negative significand' (exponent - taken) (rest.dropWhile Char.isDigit)

/-- A number without fraction and exponent, whole if it fits in 64 bits with its sign. -/
def wholeNumber (negative : Bool) (significand : Nat) : Json :=
  if !negative then .int significand
  else if significand = 0 ∨ -(significand : Int) < Int64.minValue.toInt then
    .float (Double.ofInt significand).neg
  else .int (-significand)

/-- Reads a number from its first digit on. -/
def readUnsigned (negative : Bool) : List Char → Option (Json × List Char)
  | [] => none
  | c :: cs =>
    if !c.isDigit then none
    else
      let (significand, _, rest) :=
        if c == '0' then (0, 1, cs) else readSignificand 0 0 (c :: cs)
      let beyond := rest.takeWhile Char.isDigit
      if c == '0' && !beyond.isEmpty then none
      else
        match rest.dropWhile Char.isDigit with
        | '.' :: tail => readFraction negative significand beyond.length tail
        | tail@('e' :: _) | tail@('E' :: _) =>
          readScaled negative significand beyond.length tail
        | tail =>
          if beyond.isEmpty then some (wholeNumber negative significand, tail)
          else (floatOfParts negative significand beyond.length).map (·, tail)

/-- Reads a number at the start of a text. -/
def readNumber : List Char → Option (Json × List Char)
  | '-' :: cs => readUnsigned true cs
  | cs => readUnsigned false cs

end SiteBroker.Json
