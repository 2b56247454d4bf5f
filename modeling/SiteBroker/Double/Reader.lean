import SiteBroker.Double

/-! Reading a binary64 number from decimal text. -/

namespace SiteBroker.Double

/-- The number written by a list of decimal digits, continuing from `acc`. -/
def readDigits (acc : Nat) (cs : List Char) : Nat :=
  cs.foldl (fun n c => 10 * n + (c.toNat - '0'.toNat)) acc

/-- A sign, a plus when it is left out, and what follows it. -/
def takeSign : List Char → Bool × List Char
  | '-' :: cs => (true, cs)
  | '+' :: cs => (false, cs)
  | cs => (false, cs)

/-- The exponent at the end of a decimal; nothing else may follow it. -/
def readExponent : List Char → Option Int
  | [] => some 0
  | c :: cs =>
    if c == 'e' || c == 'E' then
      let (negative, digits) := takeSign cs
      if !digits.isEmpty && digits.all Char.isDigit then
        let n : Int := readDigits 0 digits
        some (if negative then -n else n)
      else none
    else none

/-- Digits with at most one point among them, at least one digit in all, then an exponent. -/
def readDecimal (negative : Bool) (cs : List Char) : Option Double :=
  let whole := cs.takeWhile Char.isDigit
  let rest := cs.dropWhile Char.isDigit
  let (part, rest) := match rest with
    | '.' :: rest => (rest.takeWhile Char.isDigit, rest.dropWhile Char.isDigit)
    | rest => ([], rest)
  if whole.isEmpty && part.isEmpty then none
  else
    (readExponent rest).map fun e =>
      ofDecimal negative (readDigits (readDigits 0 whole) part) (e - part.length)

/-- A signed decimal, or `inf`, `infinity` or `nan` in any case of letters. -/
def ofText? (s : String) : Option Double :=
  let (negative, cs) := takeSign s.toList
  match (String.ofList cs).toLower with
  | "inf" | "infinity" => some (infinity negative)
  | "nan" => some nan
  | _ => readDecimal negative cs

end SiteBroker.Double
