import SiteBroker.Fields
import SiteBroker.Text.Lowercase

/-! Fields of a packet that describe one of the people in it, named by a prefix. -/

namespace SiteBroker

/-- Whose fields a request is made from: the user's or the principal investigator's. -/
inductive Role where
  | user
  | pi
  deriving DecidableEq

namespace Role

/-- What the names of the person's fields begin with. -/
def camel : Role → String
  | user => "User"
  | pi => "Pi"

/-- What the names begin with where words are joined by underscores. -/
def snake : Role → String
  | user => "user_"
  | pi => "pi_"

/-- What follows the given start of a name. -/
def after? (start name : String) : Option (List Char) :=
  if start.toList.isPrefixOf name.toList then some (name.toList.drop start.length) else none

/-- The name of a field without the prefix of a role. A name stays whole if nothing or the rest of
a word follows the prefix. -/
def bareName? (role : Role) (name : String) : Option String :=
  match after? role.camel name with
  | some rest =>
    if rest.isEmpty || rest.head?.any Text.isLowercase then none else some (.ofList rest)
  | none =>
    match after? role.snake name with
    | some rest => if rest.isEmpty then none else some (.ofList rest)
    | none => none

/-- The fields with the prefix of a role taken off their names. A name that had the prefix counts
before one that never had it. -/
def strip (role : Role) (fields : Fields) : Fields :=
  Fields.overlay (fields.filter fun k _ => (role.bareName? k).isNone)
    (Fields.ofList (fields.toList.filterMap fun (k, a) => (role.bareName? k).map (·, a)))

end Role

end SiteBroker
