import SiteBroker.Double

/-! JSON values. Whole numbers and binary64 numbers are kept apart, because they are written
differently. -/

namespace SiteBroker

/-- A JSON value. The entries of an object are sorted by name and no name occurs twice. -/
inductive Json where
  | null
  | bool (b : Bool)
  | int (i : Int)
  | float (x : Double)
  | str (s : String)
  | arr (items : List Json)
  | obj (entries : List (String × Json))

namespace Json

instance : Inhabited Json := ⟨.null⟩

mutual

/-- Equality of values: a whole number never equals a binary64 number, and the two zeros of the
latter are equal. -/
def same : Json → Json → Bool
  | .null, .null => true
  | .bool a, .bool b => a == b
  | .int a, .int b => a == b
  | .float a, .float b => a.same b
  | .str a, .str b => a == b
  | .arr a, .arr b => sameItems a b
  | .obj a, .obj b => sameEntries a b
  | _, _ => false

def sameItems : List Json → List Json → Bool
  | [], [] => true
  | a :: as, b :: bs => same a b && sameItems as bs
  | _, _ => false

def sameEntries : List (String × Json) → List (String × Json) → Bool
  | [], [] => true
  | (k, a) :: as, (l, b) :: bs => k == l && same a b && sameEntries as bs
  | _, _ => false

end

instance : BEq Json := ⟨same⟩

def isNull : Json → Bool
  | .null => true
  | _ => false

/-- A binary64 number as JSON, which has no text for infinities and NaN. -/
def ofDouble (x : Double) : Json :=
  if x.isFinite then .float x else .null

/-- The entry of an object under a name. -/
def field? (name : String) : Json → Option Json
  | .obj entries => (entries.find? (·.1 == name)).map (·.2)
  | _ => none

def ofOption {α : Type} (f : α → Json) : Option α → Json
  | none => .null
  | some a => f a

end Json

end SiteBroker
