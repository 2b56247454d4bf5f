import SiteBroker.Json

/-! Reading typed values out of JSON. -/

namespace SiteBroker.Json

def str? : Json → Option String
  | .str s => some s
  | _ => none

def bool? : Json → Option Bool
  | .bool b => some b
  | _ => none

def int? : Json → Option Int
  | .int i => some i
  | _ => none

/-- A whole number of 64 bits with a sign. -/
def int64? : Json → Option Int64
  | .int i =>
    if Int64.minValue.toInt ≤ i ∧ i ≤ Int64.maxValue.toInt then some (Int64.ofInt i) else none
  | _ => none

/-- A whole number of 64 bits without a sign. -/
def natural64? : Json → Option Nat
  | .int i => if 0 ≤ i ∧ i < UInt64.size then some i.toNat else none
  | _ => none

def items? : Json → Option (List Json)
  | .arr items => some items
  | _ => none

/-- The items of a list, if each of them can be read. -/
def listOf? {α : Type} (read : Json → Option α) (a : Json) : Option (List α) :=
  a.items?.bind (·.mapM read)

/-- Where the fields of a record are found: by name in an object, by position in a list that has
no more items than the record has fields. -/
def record? (names : List String) : Json → Option (String → Option Json)
  | .obj entries => some fun name => field? name (.obj entries)
  | .arr items =>
    if items.length ≤ names.length then
      some fun name => ((names.zip items).find? (·.1 == name)).map (·.2)
    else none
  | _ => none

/-- A field that may be left out or null. -/
def optional? {α : Type} (read : Json → Option α) : Option Json → Option (Option α)
  | none | some .null => some none
  | some a => (read a).map some

end SiteBroker.Json
