import Std.Data.ExtTreeMap
import SiteBroker.Json.Printer

/-! Named JSON values: the body of a packet, the fields of a request, the record of a snapshot. -/

namespace SiteBroker

/-- Values by name. Two of them are equal as soon as they have the same value under each name. -/
abbrev Fields := Std.ExtTreeMap String Json

namespace Fields

def toJson (fields : Fields) : Json := .obj fields.toList

def ofList (entries : List (String × Json)) : Fields := Std.ExtTreeMap.ofList entries

/-- The entries of an object; other values have none. -/
def ofJson? : Json → Option Fields
  | .obj entries => some (ofList entries)
  | _ => none

/-- Whether two sets of fields have the same names and equal values. -/
def same (a b : Fields) : Bool := Json.sameEntries a.toList b.toList

/-- The value under a name, if it is not null. -/
def present? (fields : Fields) (name : String) : Option Json :=
  fields[name]?.filter (!·.isNull)

/-- The fields with those of `upper` put over them. -/
def overlay (fields upper : Fields) : Fields := upper.foldl (fun fs k a => fs.insert k a) fields

/-- The fields with the given names. -/
def restrict (fields : Fields) (names : List String) : Fields :=
  fields.filter fun k _ => names.contains k

/-- Fields under the names that have a value. -/
def ofOptions (entries : List (String × Option Json)) : Fields :=
  ofList (entries.filterMap fun (k, a) => a.map (k, ·))

end Fields

namespace Json

/-- A value as plain text: a string stands for itself, null has no text, and any other value has
its JSON text. -/
def text? : Json → Option String
  | .null => none
  | .str s => some s
  | a => some a.compact

end Json

end SiteBroker
