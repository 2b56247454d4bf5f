import SiteBroker.Text.Digits

/-! The tokens of YAML text: scalars, and the marks of blocks and of bracketed collections. Each
token has the line and the column it starts at. -/

namespace SiteBroker.Yaml

inductive TokenKind where
  | scalar (plain : Bool) (text : String)
  /-- The mark before an item of a block. -/
  | dash
  /-- The mark between a key and its value. -/
  | colon
  | comma
  | openList
  | closeList
  | openMap
  | closeMap
  deriving DecidableEq

structure Token where
  kind : TokenKind
  line : Nat
  column : Nat

/-- Whether a character may occur in a text. -/
def isPrintable (c : Char) : Bool :=
  let n := c.toNat
  n == 9 || n == 10 || n == 13 || (0x20 ≤ n && n ≤ 0x7E) || n == 0x85 ||
    (0xA0 ≤ n && n ≤ 0xFFFD && n != 0xFEFF) || 0x10000 ≤ n

def isSpace (c : Char) : Bool := c == ' ' || c == '\t'

def isBreak (c : Char) : Bool :=
  c == '\n' || c == Char.ofNat 0x2028 || c == Char.ofNat 0x2029

/-- Whether nothing, a blank or a line break follows. -/
def endsWord : List Char → Bool
  | [] => true
  | c :: _ => isSpace c || isBreak c

/-- A text with one character for each way to end a line. -/
def normalizeBreaks : List Char → List Char
  | '\r' :: '\n' :: cs => '\n' :: normalizeBreaks cs
  | c :: cs => (if c == '\r' || c == Char.ofNat 0x85 then '\n' else c) :: normalizeBreaks cs
  | [] => []

/-- What line breaks inside a scalar stand for: a single one for a blank, the first of several
for nothing. -/
def fold : List Char → List Char
  | ['\n'] => [' ']
  | '\n' :: more => more
  | breaks => breaks

/-- What a run of blanks and line breaks inside quotes stands for. -/
def foldRun (run : List Char) : List Char :=
  if run.any isBreak then fold (run.filter isBreak) else run

def isSpaceOrBreak (c : Char) : Bool := isSpace c || isBreak c

/-- The character with the code that so many hexadecimal digits give. -/
def readCode (width : Nat) (cs : List Char) : Option (Char × List Char) :=
  if cs.length < width then none
  else
    match Text.ofDigits? 16 (cs.take width) with
    | some n => if n.isValidChar then some (Char.ofNat n, cs.drop width) else none
    | none => none

/-- The character meant by an escape, after its backslash. -/
def readEscape : List Char → Option (Char × List Char)
  | '0' :: cs => some (Char.ofNat 0, cs)
  | 'a' :: cs => some (Char.ofNat 7, cs)
  | 'b' :: cs => some (Char.ofNat 8, cs)
  | 't' :: cs => some ('\t', cs)
  | '\t' :: cs => some ('\t', cs)
  | 'n' :: cs => some ('\n', cs)
  | 'v' :: cs => some (Char.ofNat 11, cs)
  | 'f' :: cs => some (Char.ofNat 12, cs)
  | 'r' :: cs => some ('\r', cs)
  | 'e' :: cs => some (Char.ofNat 27, cs)
  | ' ' :: cs => some (' ', cs)
  | '"' :: cs => some ('"', cs)
  | '/' :: cs => some ('/', cs)
  | '\\' :: cs => some ('\\', cs)
  | 'N' :: cs => some (Char.ofNat 0x85, cs)
  | '_' :: cs => some (Char.ofNat 0xA0, cs)
  | 'L' :: cs => some (Char.ofNat 0x2028, cs)
  | 'P' :: cs => some (Char.ofNat 0x2029, cs)
  | 'x' :: cs => readCode 2 cs
  | 'u' :: cs => readCode 4 cs
  | 'U' :: cs => readCode 8 cs
  | _ => none

/-- Reads a scalar in double quotes after the first of them; `done` holds its characters
backwards. -/
def readDouble : (fuel : Nat) → (done : List Char) → List Char → Option (String × List Char)
  | 0, _, _ => none
  | _, _, [] => none
  | fuel + 1, done, c :: cs =>
    if c == '"' then some (String.ofList done.reverse, cs)
    else if isSpaceOrBreak c then
      let run := (c :: cs).takeWhile isSpaceOrBreak
      readDouble fuel ((foldRun run).reverse ++ done) ((c :: cs).dropWhile isSpaceOrBreak)
    else if c == '\\' then
      if cs.head?.any isBreak then
        let breaks := ((cs.drop 1).takeWhile isSpaceOrBreak).filter isBreak
        readDouble fuel (breaks.reverse ++ done) ((cs.drop 1).dropWhile isSpaceOrBreak)
      else
        match readEscape cs with
        | none => none
        | some (e, rest) => readDouble fuel (e :: done) rest
    else readDouble fuel (c :: done) cs

/-- Reads a scalar in single quotes after the first of them. A quote inside it is written
twice. -/
def readSingle : (fuel : Nat) → (done : List Char) → List Char → Option (String × List Char)
  | 0, _, _ => none
  | _, _, [] => none
  | fuel + 1, done, c :: cs =>
    if c == '\'' then
      match cs with
      | '\'' :: rest => readSingle fuel ('\'' :: done) rest
      | _ => some (String.ofList done.reverse, cs)
    else if isSpaceOrBreak c then
      let run := (c :: cs).takeWhile isSpaceOrBreak
      readSingle fuel ((foldRun run).reverse ++ done) ((c :: cs).dropWhile isSpaceOrBreak)
    else readSingle fuel (c :: done) cs

/-- The characters that have a meaning of their own at the start of a word. -/
def indicators : List Char :=
  ['-', '?', ':', ',', '[', ']', '\x7b', '\x7d', '#', '&', '*', '!', '|', '>', '\'', '"', '%',
    '@', Char.ofNat 0x60]

/-- Whether a plain scalar may start with a character, with others after it. -/
def startsPlain (inBrackets : Bool) (c : Char) (cs : List Char) : Bool :=
  !indicators.contains c || (c == '-' && !endsWord cs) ||
    (!inBrackets && (c == '?' || c == ':') && !endsWord cs)

/-- Whether a plain scalar ends before a character, with others after it. -/
def endsPlain (inBrackets : Bool) (c : Char) (cs : List Char) : Bool :=
  isBreak c || (c == ':' && endsWord cs) ||
    (inBrackets && [',', '[', ']', '\x7b', '\x7d'].contains c)

/-- The characters of a plain scalar on its line, with the blanks after it. A number sign after a
blank starts a comment. -/
def plainRun (inBrackets : Bool) : (afterSpace : Bool) → List Char → List Char
  | _, [] => []
  | afterSpace, c :: cs =>
    if endsPlain inBrackets c cs || (afterSpace && c == '#') then []
    else c :: plainRun inBrackets (isSpace c) cs

/-- A place in a text. -/
structure Position where
  line : Nat
  column : Nat

/-- The place after some more characters. -/
def Position.after (p : Position) (cs : List Char) : Position :=
  cs.foldl (fun p c => if isBreak c then ⟨p.line + 1, 0⟩ else ⟨p.line, p.column + 1⟩) p

/-- The token of a bracket or comma, and how it changes the number of open brackets. -/
def bracket? (depth : Nat) : Char → Option (TokenKind × Nat)
  | '[' => some (.openList, depth + 1)
  | ']' => some (.closeList, depth - 1)
  | '\x7b' => some (.openMap, depth + 1)
  | '\x7d' => some (.closeMap, depth - 1)
  | ',' => some (.comma, depth)
  | _ => none

/-- The tokens of a text inside `depth` brackets. Blanks at the start of a line are spaces unless
there are brackets around. -/
def scan : (fuel depth : Nat) → (lineStart : Bool) → Position → List Char → Option (List Token)
  | 0, _, _, _, _ => none
  | _, _, _, _, [] => some []
  | fuel + 1, depth, lineStart, p, c :: cs =>
    let token := fun (kind : TokenKind) (depth : Nat) (rest : List Char) =>
      let p' := p.after ((c :: cs).take (cs.length + 1 - rest.length))
      (scan fuel depth false p' rest).map (⟨kind, p.line, p.column⟩ :: ·)
    if isBreak c then scan fuel depth true ⟨p.line + 1, 0⟩ cs
    else if c == '\t' && lineStart && depth == 0 then none
    else if isSpace c then scan fuel depth lineStart (p.after [c]) cs
    else if c == '#' then
      let rest := cs.dropWhile fun c => !isBreak c
      scan fuel depth false p rest
    else if p.column == 0 && depth == 0 && ((c :: cs).take 3 == ['-', '-', '-'] ||
        (c :: cs).take 3 == ['.', '.', '.'] || c == '%') then none
    else if c == '-' && endsWord cs then token .dash depth cs
    else if c == ':' && (depth != 0 || endsWord cs) then token .colon depth cs
    else if c == '"' then
      match readDouble (cs.length + 1) [] cs with
      | none => none
      | some (text, rest) => token (.scalar false text) depth rest
    else if c == '\'' then
      match readSingle (cs.length + 1) [] cs with
      | none => none
      | some (text, rest) => token (.scalar false text) depth rest
    else
      match bracket? depth c with
      | some (kind, depth) => token kind depth cs
      | none =>
        if startsPlain (depth != 0) c cs then
          let run := c :: plainRun (depth != 0) false cs
          let text := (run.reverse.dropWhile isSpace).reverse
          token (.scalar true (String.ofList text)) depth ((c :: cs).drop run.length)
        else none

/-- The characters after a mark at the start that tells how a document begins. -/
def dropStart (cs : List Char) : List Char :=
  let cs := if cs.head? == some (Char.ofNat 0xFEFF) then cs.drop 1 else cs
  if cs.take 3 == ['-', '-', '-'] && endsWord (cs.drop 3) then cs.drop 3 else cs

/-- The tokens of a text that holds a single document. -/
def tokens? (s : String) : Option (List Token) :=
  let cs := dropStart s.toList
  if cs.all isPrintable then
    let cs := normalizeBreaks cs
    scan (cs.length + 1) 0 true ⟨0, 0⟩ cs
  else none

end SiteBroker.Yaml
