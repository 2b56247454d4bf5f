/-! Addresses of the services: how a text becomes a URL, and how names and values are put into its
query. -/

namespace SiteBroker.Http

/-- The bytes of characters that are written as they are, and the others as percent signs with
two hexadecimal digits. -/
def percentEncode (plain : Char → Bool) (cs : List Char) : List Char :=
  cs.flatMap fun c =>
    if plain c then [c]
    else (String.singleton c).toUTF8.toList.flatMap fun b =>
      let digit := fun n : Nat => if n < 10 then Char.ofNat (48 + n) else Char.ofNat (55 + n)
      ['%', digit (b.toNat / 16), digit (b.toNat % 16)]

def isVisibleAscii (c : Char) : Bool := 0x21 ≤ c.toNat && c.toNat ≤ 0x7E

def plainInFragment (c : Char) : Bool :=
  isVisibleAscii c && !(['"', '<', '>', Char.ofNat 0x60].contains c)

def plainInPath (c : Char) : Bool :=
  plainInFragment c && !(['#', '?', '\x7b', '\x7d'].contains c)

def plainInQuery (c : Char) : Bool :=
  isVisibleAscii c && !(['"', '#', '<', '>', '\''].contains c)

/-- What is written as it is in the names and values of a form. -/
def plainInForm (c : Char) : Bool := c.isAlphanum || ['*', '-', '.', '_', ' '].contains c

/-- A name or value in the manner of forms, where a plus sign stands for a blank. -/
def formEncode (s : String) : List Char :=
  (percentEncode plainInForm s.toList).map fun c => if c == ' ' then '+' else c

/-- An address of the HTTP schemes. Its parts are encoded. -/
structure Url where
  scheme : String
  /-- The host, and the port if one is given. -/
  authority : String
  path : String
  query : Option String := none
  fragment : Option String := none
  deriving DecidableEq

namespace Url

/-- The parts of a path between its slashes. -/
def segments (cs : List Char) : List (List Char) :=
  cs.splitOnP fun c => c == '/' || c == '\\'

def lower (cs : List Char) : List Char := cs.map Char.toLower

/-- Whether a part of a path means the same place. -/
def isHere (segment : List Char) : Bool :=
  lower segment == ['.'] || lower segment == ['%', '2', 'e']

/-- Whether a part of a path means the place above. -/
def isAbove (segment : List Char) : Bool :=
  [['.', '.'], ['.', '%', '2', 'e'], ['%', '2', 'e', '.'],
    ['%', '2', 'e', '%', '2', 'e']].contains (lower segment)

/-- Follows the parts of a path; `done` holds those before, the nearest first. A path that ends in
a dot part ends in a slash. -/
def follow : (done : List (List Char)) → List (List Char) → List (List Char)
  | done, [] => done.reverse
  | done, segment :: rest =>
    if isAbove segment then
      if rest.isEmpty then ([] :: done.drop 1).reverse else follow (done.drop 1) rest
    else if isHere segment then
      if rest.isEmpty then ([] :: done).reverse else follow done rest
    else follow (percentEncode plainInPath segment :: done) rest

/-- The path that a text after the authority stands for. -/
def pathOf (cs : List Char) : String :=
  let parts := match cs with
    | [] => []
    | _ :: rest => segments rest
  let parts := if parts.isEmpty then [[]] else parts
  String.ofList ((follow [] parts).flatMap ('/' :: ·))

/-- Splits a text before the first character that is a mark; the rest is without it. -/
def splitAtMark (mark : Char) (cs : List Char) : List Char × Option (List Char) :=
  match cs.dropWhile (· != mark) with
  | [] => (cs, none)
  | _ :: rest => (cs.takeWhile (· != mark), some rest)

/-- The characters of a text that count in an address: none of the line breaks and tabs in it,
and none of the blanks and control characters around it. -/
def counted (s : String) : List Char :=
  let isOuter := fun c : Char => c.toNat ≤ 0x20
  let cs := ((s.toList.dropWhile isOuter).reverse.dropWhile isOuter).reverse
  cs.filter fun c => c != '\t' && c != '\n' && c != '\r'

/-- Whether a character may stand in a host or a port. -/
def isAuthorityChar (c : Char) : Bool := c.isAlphanum || ['.', '-', '_', '~', ':'].contains c

/-- The address that a text stands for. -/
def parse? (s : String) : Option Url := do
  let (scheme, rest) := splitAtMark ':' (counted s)
  let scheme := lower scheme
  if scheme != ['h', 't', 't', 'p'] && scheme != ['h', 't', 't', 'p', 's'] then none
  let rest := (← rest).dropWhile fun c => c == '/' || c == '\\'
  let isEnd := fun c => ['/', '\\', '?', '#'].contains c
  let authority := rest.takeWhile fun c => !isEnd c
  if authority.isEmpty || !authority.all isAuthorityChar then none
  let (rest, fragment) := splitAtMark '#' (rest.dropWhile fun c => !isEnd c)
  let (path, query) := splitAtMark '?' rest
  some {
    scheme := String.ofList scheme
    authority := String.ofList authority
    path := pathOf path
    query := query.map fun cs => String.ofList (percentEncode plainInQuery cs)
    fragment := fragment.map fun cs => String.ofList (percentEncode plainInFragment cs) }

/-- The address with names and values added to its query. -/
def withQuery (url : Url) (entries : List (String × String)) : Url :=
  let entryText := fun (name, value) =>
    String.ofList (formEncode name ++ '=' :: formEncode value)
  let before := match url.query with
    | none | some "" => []
    | some q => [q]
  { url with query := some ("&".intercalate (before ++ entries.map entryText)) }

/-- What a request asks its host for: the path and the query. -/
def target (url : Url) : String :=
  url.path ++ match url.query with
    | none => ""
    | some q => "?" ++ q

def text (url : Url) : String :=
  url.scheme ++ "://" ++ url.authority ++ url.target ++ match url.fragment with
    | none => ""
    | some f => "#" ++ f

end Url

end SiteBroker.Http
