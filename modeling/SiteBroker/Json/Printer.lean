import SiteBroker.Json.Number

/-! JSON values as text: compact on one line, or indented by two blanks a level. -/

namespace SiteBroker.Json

def hexDigit (n : Nat) : Char :=
  if n < 10 then Char.ofNat (48 + n) else Char.ofNat (87 + n)

/-- A character inside a string: quotes, backslashes and control characters are escaped. -/
def escapeChar (c : Char) : List Char :=
  if c == '"' then ['\\', '"']
  else if c == '\\' then ['\\', '\\']
  else if c == '\n' then ['\\', 'n']
  else if c == '\r' then ['\\', 'r']
  else if c == '\t' then ['\\', 't']
  else if c.toNat == 8 then ['\\', 'b']
  else if c.toNat == 12 then ['\\', 'f']
  else if c.toNat < 32 then
    ['\\', 'u', '0', '0', hexDigit (c.toNat / 16), hexDigit (c.toNat % 16)]
  else [c]

def quote (s : String) : String :=
  "\"" ++ String.ofList (s.toList.flatMap escapeChar) ++ "\""

mutual

/-- The text of a value without blanks. -/
def compact : Json → String
  | .null => "null"
  | .bool b => if b then "true" else "false"
  | .int i => toString i
  | .float x => floatText x
  | .str s => quote s
  | .arr [] => "[]"
  | .arr (a :: as) => "[" ++ compact a ++ compactItems as
  | .obj [] => "\x7b\x7d"
  | .obj ((k, a) :: es) => "\x7b" ++ quote k ++ ":" ++ compact a ++ compactEntries es

def compactItems : List Json → String
  | [] => "]"
  | a :: as => "," ++ compact a ++ compactItems as

def compactEntries : List (String × Json) → String
  | [] => "\x7d"
  | (k, a) :: es => "," ++ quote k ++ ":" ++ compact a ++ compactEntries es

end

/-- A line break and the indentation of a level. -/
def newLine (level : Nat) : String :=
  "\n" ++ String.ofList (List.replicate (2 * level) ' ')

mutual

/-- The text of a value with one item or entry a line, inside `level` containers. -/
def pretty (level : Nat) : Json → String
  | .arr [] => "[]"
  | .arr (a :: as) =>
    "[" ++ newLine (level + 1) ++ pretty (level + 1) a ++ prettyItems level as
  | .obj [] => "\x7b\x7d"
  | .obj ((k, a) :: es) =>
    "\x7b" ++ newLine (level + 1) ++ quote k ++ ": " ++ pretty (level + 1) a ++
      prettyEntries level es
  | .null => compact .null
  | .bool b => compact (.bool b)
  | .int i => compact (.int i)
  | .float x => compact (.float x)
  | .str s => compact (.str s)

def prettyItems (level : Nat) : List Json → String
  | [] => newLine level ++ "]"
  | a :: as => "," ++ newLine (level + 1) ++ pretty (level + 1) a ++ prettyItems level as

def prettyEntries (level : Nat) : List (String × Json) → String
  | [] => newLine level ++ "\x7d"
  | (k, a) :: es =>
    "," ++ newLine (level + 1) ++ quote k ++ ": " ++ pretty (level + 1) a ++ prettyEntries level es

end

end SiteBroker.Json
