import SiteBroker.Text.Digits

/-! YAML nodes as far as settings need them, and what plain texts stand for. -/

namespace SiteBroker

/-- A YAML node. A plain scalar is one that stands without quotes; one without a text stands
where nothing is written. -/
inductive Yaml where
  | scalar (plain : Bool) (text : String)
  | sequence (items : List Yaml)
  | mapping (entries : List (String × Yaml))

namespace Yaml

/-- What stands where nothing is written. -/
def empty : Yaml := .scalar true ""

/-- The text of a scalar, whatever it may stand for. -/
def text? : Yaml → Option String
  | .scalar _ text => some text
  | _ => none

/-- Whether a node stands for nothing. -/
def isNull : Yaml → Bool
  | .scalar true text => ["", "~", "null", "Null", "NULL"].contains text
  | _ => false

/-- The items of a sequence; where nothing is written there are none. -/
def items? : Yaml → Option (List Yaml)
  | .sequence items => some items
  | .scalar true "" => some []
  | _ => none

/-- The entries of a mapping; where nothing is written there are none. -/
def entries? : Yaml → Option (List (String × Yaml))
  | .mapping entries => some entries
  | .scalar true "" => some []
  | _ => none

/-- The number a plain text without its plus sign stands for. A decimal number has no zeros in
front. -/
def magnitude? : List Char → Option Nat
  | '0' :: 'x' :: cs => Text.digits? 16 cs
  | '0' :: 'o' :: cs => Text.digits? 8 cs
  | '0' :: 'b' :: cs => Text.digits? 2 cs
  | '0' :: _ :: _ => none
  | cs => Text.digits? 10 cs

/-- A whole number of 64 bits without a sign. -/
def natural64? : Yaml → Option Nat
  | .scalar true text =>
    let value := match text.toList with
      | '+' :: cs => magnitude? cs
      | cs => magnitude? cs
    value.filter (· < UInt64.size)
  | _ => none

end Yaml

end SiteBroker
