import SiteBroker.Json.Number
import SiteBroker.Text.Digits

/-! Reading JSON text. Of entries with one name the last counts, and entries end up sorted. -/

namespace SiteBroker.Json

def isSpace (c : Char) : Bool := c == ' ' || c == '\n' || c == '\t' || c == '\r'

def skipSpace (cs : List Char) : List Char := cs.dropWhile isSpace

/-- Reads four hexadecimal digits. -/
def readHex : List Char → Option (Nat × List Char)
  | a :: b :: c :: d :: rest => (Text.ofDigits? 16 [a, b, c, d]).map (·, rest)
  | _ => none

/-- The character named by four hexadecimal digits, or by two such units if the first is half of
a pair. -/
def readUnicode (cs : List Char) : Option (Char × List Char) :=
  match readHex cs with
  | none => none
  | some (w, rest) =>
    if w < 0xD800 || 0xE000 ≤ w then some (Char.ofNat w, rest)
    else if 0xDC00 ≤ w then none
    else
      match rest with
      | '\\' :: 'u' :: rest =>
        match readHex rest with
        | none => none
        | some (v, rest) =>
          if 0xDC00 ≤ v && v < 0xE000 then
            some (Char.ofNat (0x10000 + (w - 0xD800) * 1024 + (v - 0xDC00)), rest)
          else none
      | _ => none

/-- The character meant by an escape, after its backslash. -/
def readEscape : List Char → Option (Char × List Char)
  | '"' :: cs => some ('"', cs)
  | '\\' :: cs => some ('\\', cs)
  | '/' :: cs => some ('/', cs)
  | 'b' :: cs => some (Char.ofNat 8, cs)
  | 'f' :: cs => some (Char.ofNat 12, cs)
  | 'n' :: cs => some ('\n', cs)
  | 'r' :: cs => some ('\r', cs)
  | 't' :: cs => some ('\t', cs)
  | 'u' :: cs => readUnicode cs
  | _ => none

/-- Reads a string after its opening quote; `done` holds its characters backwards. -/
def readString : (fuel : Nat) → (done : List Char) → List Char → Option (String × List Char)
  | 0, _, _ => none
  | _, _, [] => none
  | fuel + 1, done, c :: cs =>
    if c == '"' then some (String.ofList done.reverse, cs)
    else if c == '\\' then
      match readEscape cs with
      | none => none
      | some (e, rest) => readString fuel (e :: done) rest
    else if c.toNat < 32 then none
    else readString fuel (c :: done) cs

/-- Reads the items of an array after the first, each after a comma, up to the bracket. -/
def readItems (item : List Char → Option (Json × List Char)) :
    (fuel : Nat) → (done : List Json) → List Char → Option (List Json × List Char)
  | 0, _, _ => none
  | fuel + 1, done, cs =>
    match skipSpace cs with
    | ']' :: rest => some (done.reverse, rest)
    | ',' :: rest =>
      match item (skipSpace rest) with
      | none => none
      | some (a, rest) => readItems item fuel (a :: done) rest
    | _ => none

/-- Reads the name of an entry, the colon and its value. -/
def readEntry (item : List Char → Option (Json × List Char)) :
    List Char → Option ((String × Json) × List Char)
  | '"' :: cs =>
    match readString (cs.length + 1) [] cs with
    | none => none
    | some (name, rest) =>
      match skipSpace rest with
      | ':' :: rest => (item (skipSpace rest)).map fun (a, rest) => ((name, a), rest)
      | _ => none
  | _ => none

/-- Reads the entries of an object after the first, each after a comma, up to the brace. -/
def readEntries (item : List Char → Option (Json × List Char)) :
    (fuel : Nat) → (done : List (String × Json)) → List Char →
      Option (List (String × Json) × List Char)
  | 0, _, _ => none
  | fuel + 1, done, cs =>
    match skipSpace cs with
    | '\x7d' :: rest => some (done.reverse, rest)
    | ',' :: rest =>
      match readEntry item (skipSpace rest) with
      | none => none
      | some (e, rest) => readEntries item fuel (e :: done) rest
    | _ => none

/-- Puts an entry in its place by name, over one that is there. -/
def putEntry (name : String) (a : Json) : List (String × Json) → List (String × Json)
  | [] => [(name, a)]
  | (k, b) :: es =>
    if name < k then (name, a) :: (k, b) :: es
    else if name = k then (name, a) :: es
    else (k, b) :: putEntry name a es

/-- An object of the given entries, of which the last under a name counts. -/
def object (entries : List (String × Json)) : Json :=
  .obj (entries.foldl (fun es (k, a) => putEntry k a es) [])

/-- Reads a value with at most `depth` containers around one another. -/
def readValue : (depth : Nat) → List Char → Option (Json × List Char)
  | depth, cs =>
    match cs with
    | 'n' :: 'u' :: 'l' :: 'l' :: rest => some (.null, rest)
    | 't' :: 'r' :: 'u' :: 'e' :: rest => some (.bool true, rest)
    | 'f' :: 'a' :: 'l' :: 's' :: 'e' :: rest => some (.bool false, rest)
    | '"' :: rest => (readString (rest.length + 1) [] rest).map fun (s, rest) => (.str s, rest)
    | '[' :: rest =>
      match depth with
      | 0 => none
      | depth + 1 =>
        match skipSpace rest with
        | ']' :: rest => some (.arr [], rest)
        | rest =>
          match readValue depth rest with
          | none => none
          | some (a, rest) =>
            (readItems (readValue depth) (rest.length + 1) [a] rest).map fun (items, rest) =>
              (.arr items, rest)
    | '\x7b' :: rest =>
      match depth with
      | 0 => none
      | depth + 1 =>
        match skipSpace rest with
        | '\x7d' :: rest => some (.obj [], rest)
        | rest =>
          match readEntry (readValue depth) rest with
          | none => none
          | some (e, rest) =>
            (readEntries (readValue depth) (rest.length + 1) [e] rest).map fun (entries, rest) =>
              (object entries, rest)
    | cs => readNumber cs

/-- How many containers may stand inside one another in a text. -/
def depthLimit : Nat := 127

/-- The value that a whole text stands for. -/
def parse? (s : String) : Option Json :=
  match readValue depthLimit (skipSpace s.toList) with
  | some (a, rest) => if (skipSpace rest).isEmpty then some a else none
  | none => none

end SiteBroker.Json
