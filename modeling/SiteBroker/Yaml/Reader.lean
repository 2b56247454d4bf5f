import SiteBroker.Yaml
import SiteBroker.Yaml.Token

/-! Reading YAML text: blocks, whose columns show what belongs together, and collections in
brackets. Anchors, tags, block scalars and keys that are collections are refused. -/

namespace SiteBroker.Yaml

/-- Whether the tokens begin with a colon on a line. -/
def startsWithColon (line : Nat) : List Token → Bool
  | t :: _ => t.kind = .colon ∧ t.line = line
  | [] => false

/-- Joins the further lines of a plain scalar, which start at a column or right of it. -/
def continuePlain (column line : Nat) (text : String) : List Token → String × List Token
  | [] => (text, [])
  | t :: rest =>
    match t.kind with
    | .scalar true more =>
      if line < t.line ∧ column ≤ t.column ∧ !startsWithColon t.line rest then
        let gap := if t.line = line + 1 then " "
          else String.ofList (List.replicate (t.line - line - 1) '\n')
        continuePlain column t.line (text ++ gap ++ more) rest
      else (text, t :: rest)
    | _ => (text, t :: rest)

mutual

/-- Reads a node inside brackets. -/
def readBracketed : (fuel : Nat) → List Token → Option (Yaml × List Token)
  | 0, _ => none
  | _, [] => none
  | fuel + 1, t :: rest =>
    match t.kind with
    | .scalar plain text => some (.scalar plain text, rest)
    | .openList => (readListed fuel rest).map fun (items, rest) => (.sequence items, rest)
    | .openMap => (readPaired fuel rest).map fun (entries, rest) => (.mapping entries, rest)
    | _ => none

/-- Reads the items of a list up to its bracket. -/
def readListed : (fuel : Nat) → List Token → Option (List Yaml × List Token)
  | 0, _ => none
  | _, [] => none
  | fuel + 1, t :: rest =>
    if t.kind = .closeList then some ([], rest)
    else
      match readBracketed fuel (t :: rest) with
      | none => none
      | some (item, rest) =>
        match rest with
        | [] => none
        | t :: rest =>
          if t.kind = .closeList then some ([item], rest)
          else if t.kind = .comma then
            (readListed fuel rest).map fun (items, rest) => (item :: items, rest)
          else none

/-- Reads the entries of a mapping up to its brace. -/
def readPaired : (fuel : Nat) → List Token → Option (List (String × Yaml) × List Token)
  | 0, _ => none
  | _, [] => none
  | fuel + 1, t :: rest =>
    match t.kind with
    | .closeMap => some ([], rest)
    | .scalar _ key =>
      let value :=
        if startsWithColon t.line rest then
          match rest.drop 1 with
          | [] => none
          | u :: more =>
            if u.kind = .comma ∨ u.kind = .closeMap then some (empty, u :: more)
            else readBracketed fuel (u :: more)
        else some (empty, rest)
      match value with
      | some (a, t :: rest) =>
        if t.kind = .closeMap then some ([(key, a)], rest)
        else if t.kind = .comma then
          (readPaired fuel rest).map fun (entries, rest) => ((key, a) :: entries, rest)
        else none
      | _ => none
    | _ => none

end

/-- Reads a node that starts where a key or a dash left off on its line. -/
def readInline (column : Nat) : List Token → Option (Yaml × List Token)
  | [] => none
  | t :: rest =>
    match t.kind with
    | .scalar plain text =>
      if startsWithColon t.line rest then none
      else if plain then
        let (text, rest) := continuePlain column t.line text rest
        some (.scalar true text, rest)
      else some (.scalar false text, rest)
    | .openList | .openMap => readBracketed (rest.length + 2) (t :: rest)
    | _ => none

mutual

/-- Reads a node whose tokens start at a column or right of it; there may be none. -/
def readBlock : (fuel column : Nat) → List Token → Option (Yaml × List Token)
  | 0, _, _ => none
  | _, _, [] => some (empty, [])
  | fuel + 1, column, t :: rest =>
    if t.column < column then some (empty, t :: rest)
    else
      match t.kind with
      | .dash => (readItems fuel t.column (t :: rest)).map fun (items, rest) =>
          (.sequence items, rest)
      | .scalar .. =>
        if startsWithColon t.line rest then
          (readEntries fuel t.column (t :: rest)).map fun (entries, rest) =>
            (.mapping entries, rest)
        else readInline column (t :: rest)
      | _ => readInline column (t :: rest)

/-- Reads the items of a sequence whose dashes stand in a column. -/
def readItems : (fuel column : Nat) → List Token → Option (List Yaml × List Token)
  | 0, _, _ => none
  | _, _, [] => some ([], [])
  | fuel + 1, column, t :: rest =>
    if t.kind = .dash ∧ t.column = column then
      match readBlock fuel (column + 1) rest with
      | none => none
      | some (item, rest) =>
        (readItems fuel column rest).map fun (items, rest) => (item :: items, rest)
    else some ([], t :: rest)

/-- Reads the entries of a mapping whose keys start in a column. The dashes of a sequence may
stand in the column of its key. -/
def readEntries : (fuel column : Nat) → List Token → Option (List (String × Yaml) × List Token)
  | 0, _, _ => none
  | _, _, [] => some ([], [])
  | fuel + 1, column, t :: rest =>
    match t.kind with
    | .scalar _ key =>
      if t.column = column ∧ startsWithColon t.line rest then
        let value :=
          match rest.drop 1 with
          | [] => some (empty, [])
          | u :: more =>
            if u.line = t.line then readInline (column + 1) (u :: more)
            else if u.column = column ∧ u.kind = .dash then
              (readItems fuel column (u :: more)).map fun (items, rest) =>
                (.sequence items, rest)
            else readBlock fuel (column + 1) (u :: more)
        match value with
        | none => none
        | some (a, rest) =>
          (readEntries fuel column rest).map fun (entries, rest) => ((key, a) :: entries, rest)
      else some ([], t :: rest)
    | _ => some ([], t :: rest)

end

/-- The node that a whole text stands for. -/
def parse? (s : String) : Option Yaml :=
  match tokens? s with
  | none => none
  | some tokens =>
    match readBlock (3 * tokens.length + 3) 0 tokens with
    | some (node, []) => some node
    | _ => none

end SiteBroker.Yaml
