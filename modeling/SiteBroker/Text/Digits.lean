/-! Whole numbers written in digits of some base. -/

namespace SiteBroker.Text

/-- The value of a digit in a base up to 16. -/
def digit? (base : Nat) (c : Char) : Option Nat :=
  let value :=
    if c.isDigit then c.toNat - 48
    else if 'a' ≤ c && c ≤ 'f' then c.toNat - 87
    else if 'A' ≤ c && c ≤ 'F' then c.toNat - 55
    else base
  if value < base then some value else none

/-- The number that digits stand for. -/
def ofDigits? (base : Nat) (cs : List Char) : Option Nat :=
  cs.foldlM (fun n c => (digit? base c).map (base * n + ·)) 0

/-- The number that at least one digit and nothing else stands for. -/
def digits? (base : Nat) (cs : List Char) : Option Nat :=
  if cs.isEmpty then none else ofDigits? base cs

/-- A whole number of 64 bits in decimal digits, with or without a plus sign before it. -/
def natural64? (s : String) : Option Nat :=
  (match s.toList with
    | '+' :: cs => digits? 10 cs
    | cs => digits? 10 cs).filter (· < UInt64.size)

end SiteBroker.Text
