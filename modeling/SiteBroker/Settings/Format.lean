import Std.Data.ExtTreeMap
import SiteBroker.Json.Decode
import SiteBroker.Yaml.Reader

/-! The kinds of values that settings are made of, and how two formats write them. -/

namespace SiteBroker

/-- How settings are found in values of some format. -/
structure SettingsFormat (α : Type) where
  /-- Where the fields of a record of the given names are found. -/
  record : (names : List String) → α → Option (String → Option α)
  text : α → Option String
  /-- A text that may be missing. -/
  optionalText : α → Option (Option String)
  natural : α → Option Nat
  items : α → Option (List α)
  entries : α → Option (List (String × α))

namespace SettingsFormat

variable {α : Type} (format : SettingsFormat α)

/-- A field that keeps its default if it is left out. -/
def orDefault {β : Type} (read : α → Option β) (fallback : β) : Option α → Option β
  | none => some fallback
  | some a => read a

def texts (a : α) : Option (List String) := do (← format.items a).mapM format.text

/-- Texts by name; of those under one name the last counts. -/
def textsByName (a : α) : Option (Std.ExtTreeMap String String) := do
  let entries ← (← format.entries a).mapM fun (k, a) => (format.text a).map (k, ·)
  some (Std.ExtTreeMap.ofList entries)

end SettingsFormat

/-- YAML, where any scalar is a text too, and where a field that is given twice is refused. -/
def Yaml.settingsFormat : SettingsFormat Yaml where
  record := fun names a => do
    let entries ← a.entries?
    if names.any fun name => 1 < (entries.filter (·.1 == name)).length then none
    else some fun name => entries.lookup name
  text := Yaml.text?
  optionalText := fun a => if a.isNull then some none else a.text?.map some
  natural := Yaml.natural64?
  items := Yaml.items?
  entries := Yaml.entries?

/-- JSON, where only strings are texts. -/
def Json.settingsFormat : SettingsFormat Json where
  record := Json.record?
  text := Json.str?
  optionalText := fun a => Json.optional? Json.str? (some a)
  natural := Json.natural64?
  items := Json.items?
  entries := fun
    | .obj entries => some entries
    | _ => none

end SiteBroker
