import SiteBroker.Error
import SiteBroker.Fields

/-! Which fields a request may carry and which it must carry. -/

namespace SiteBroker

/-- A demand on the fields of a request: one field, or at least one of several. -/
inductive FieldRule where
  | one (name : String)
  | anyOf (names : List String)
  deriving DecidableEq

namespace FieldRule

/-- Whether a field has a value: null and the empty text are none. -/
def hasValue (fields : Fields) (name : String) : Bool :=
  match fields[name]? with
  | none | some .null => false
  | some (.str s) => !s.isEmpty
  | some _ => true

def isSatisfied (fields : Fields) : FieldRule → Bool
  | one name => hasValue fields name
  | anyOf names => names.any (hasValue fields)

def describe : FieldRule → String
  | one name => name
  | anyOf names => "|".intercalate names

end FieldRule

/-- The fields that a kind of request accepts, and its demands on them. -/
structure FieldTable where
  allowed : List String
  required : List FieldRule

namespace FieldTable

/-- The demands that fields do not meet, in the order of the table. -/
def unmet (table : FieldTable) (fields : Fields) : List String :=
  (table.required.filter fun rule => !rule.isSatisfied fields).map (·.describe)

/-- The names of fields that are not accepted, sorted. -/
def refused (table : FieldTable) (fields : Fields) : List String :=
  fields.keys.filter fun name => !table.allowed.contains name

/-- Checks fields against the table and reports all that is wrong with them at once. -/
def check (table : FieldTable) (fields : Fields) : Except ValidationError Unit :=
  match ValidationError.ofFields? (table.unmet fields) (table.refused fields) with
  | some e => .error e
  | none => .ok ()

/-- The fields that are accepted. -/
def project (table : FieldTable) (fields : Fields) : Fields := fields.restrict table.allowed

end FieldTable

end SiteBroker
