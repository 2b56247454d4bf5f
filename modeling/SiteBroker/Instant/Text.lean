import SiteBroker.Instant
import SiteBroker.Instant.Calendar
import SiteBroker.Text.Blank

/-! Instants as RFC 3339 text. Reading allows blanks around the parts, short parts and offsets
without a colon; writing has one form only. -/

namespace SiteBroker.Instant

open Text (isBlank)

def padLeft (width : Nat) (n : Nat) : List Char :=
  let digits := (Nat.repr n).toList
  List.replicate (width - digits.length) '0' ++ digits

/-- A year has four digits, and a sign outside of 0 to 9999. -/
def yearText (year : Int) : List Char :=
  if 0 ≤ year ∧ year ≤ 9999 then padLeft 4 year.toNat
  else (if year < 0 then '-' else '+') :: padLeft 4 year.natAbs

/-- No fraction, or the fewest of three, six and nine digits that lose nothing. -/
def fractionText (nanos : Nat) : List Char :=
  if nanos = 0 then []
  else if nanos % 1000000 = 0 then '.' :: padLeft 3 (nanos / 1000000)
  else if nanos % 1000 = 0 then '.' :: padLeft 6 (nanos / 1000)
  else '.' :: padLeft 9 nanos

/-- The text of an instant up to its fraction; a leap second is written as second 60. -/
def wholeText (t : Instant) : List Char :=
  let date := Date.ofDays (t.seconds / 86400)
  let inDay := (t.seconds % 86400).toNat
  let second := inDay % 60 + t.nanos / 1000000000
  yearText date.year ++ '-' :: padLeft 2 date.month ++ '-' :: padLeft 2 date.day ++
    'T' :: padLeft 2 (inDay / 3600) ++ ':' :: padLeft 2 (inDay / 60 % 60) ++
    ':' :: padLeft 2 second

/-- The text of an instant with the given name of the offset. -/
def textWith (offset : String) (t : Instant) : String :=
  String.ofList (t.wholeText ++ fractionText (t.nanos % 1000000000) ++ offset.toList)

/-- The text of an instant, with `Z` for the offset. -/
def text (t : Instant) : String := textWith "Z" t

/-- The text of an instant without its fraction. -/
def secondText (t : Instant) : String := String.ofList (t.wholeText ++ ['Z'])

def skipBlank (cs : List Char) : List Char := cs.dropWhile isBlank

/-- Reads a number of one to `width` digits. -/
def readNumber (width : Nat) (cs : List Char) : Option (Nat × List Char) :=
  let digits := (cs.take width).takeWhile Char.isDigit
  if digits.isEmpty then none
  else some (digits.foldl (fun n c => 10 * n + (c.toNat - 48)) 0, cs.drop digits.length)

/-- Reads a number after blanks. -/
def readPart (width : Nat) (cs : List Char) : Option (Nat × List Char) :=
  readNumber width (skipBlank cs)

/-- Reads a year after blanks: up to four digits, or a sign and any number of them. -/
def readYear (cs : List Char) : Option (Int × List Char) :=
  match skipBlank cs with
  | '-' :: rest => (readNumber rest.length rest).map fun (n, rest) => (-(n : Int), rest)
  | '+' :: rest => (readNumber rest.length rest).map fun (n, rest) => ((n : Int), rest)
  | rest => (readNumber 4 rest).map fun (n, rest) => ((n : Int), rest)

/-- Reads one character after blanks. -/
def readMark (mark : Char) (cs : List Char) : Option (List Char) :=
  match skipBlank cs with
  | c :: rest => if c = mark then some rest else none
  | [] => none

def readDate (cs : List Char) : Option (Date × List Char) := do
  let (year, cs) ← readYear cs
  let cs ← readMark '-' cs
  let (month, cs) ← readPart 2 cs
  let cs ← readMark '-' cs
  let (day, cs) ← readPart 2 cs
  some (⟨year, month, day⟩, cs)

/-- The nanoseconds of a fraction, of which digits past the ninth do not count. -/
def readFraction : List Char → Option (Nat × List Char)
  | '.' :: cs =>
    let digits := cs.takeWhile Char.isDigit
    if digits.isEmpty then none
    else
      let nine := (digits ++ List.replicate 9 '0').take 9
      some (nine.foldl (fun n c => 10 * n + (c.toNat - 48)) 0, cs.dropWhile Char.isDigit)
  | cs => some (0, cs)

/-- A time of day in seconds, and its nanoseconds. The second may be a leap second. -/
def readTime (cs : List Char) : Option ((Nat × Nat) × List Char) := do
  let (hour, cs) ← readPart 2 cs
  let cs ← readMark ':' cs
  let (minute, cs) ← readPart 2 cs
  let cs ← readMark ':' cs
  let (second, cs) ← readPart 2 cs
  let (nanos, cs) ← readFraction cs
  if hour < 24 ∧ minute < 60 ∧ second ≤ 60 then
    let time := 3600 * hour + 60 * minute
    if second = 60 then some ((time + 59, nanos + 1000000000), cs)
    else some ((time + second, nanos), cs)
  else none

/-- The hours and minutes of an offset after its sign, in seconds. -/
def readOffsetSize (cs : List Char) : Option (Nat × List Char) := do
  let hours := cs.take 2
  let rest := (cs.drop 2).dropWhile fun c => c == ':' || isBlank c
  let minutes := rest.take 2
  if hours.length = 2 ∧ hours.all Char.isDigit ∧ minutes.length = 2 ∧ minutes.all Char.isDigit then
    let (h, _) ← readNumber 2 hours
    let (m, _) ← readNumber 2 minutes
    if m < 60 ∧ h < 24 then some (3600 * h + 60 * m, rest.drop 2) else none
  else none

/-- An offset from UTC in seconds. -/
def readOffset (cs : List Char) : Option (Int × List Char) :=
  match cs with
  | 'Z' :: rest | 'z' :: rest => some (0, rest)
  | '+' :: rest => (readOffsetSize rest).map fun (n, rest) => ((n : Int), rest)
  | '-' :: rest | '\u2212' :: rest => (readOffsetSize rest).map fun (n, rest) => (-(n : Int), rest)
  | a :: b :: c :: rest =>
    if [a, b, c].map Char.toUpper = ['U', 'T', 'C'] then some (0, rest) else none
  | _ => none

/-- The years that dates are read in, those of the first and the last instant. An offset does not
bring a date of another year into range. -/
def YearInRange (year : Int) : Prop := -262143 ≤ year ∧ year ≤ 262142

instance (year : Int) : Decidable (YearInRange year) :=
  inferInstanceAs (Decidable (_ ∧ _))

/-- The instant that a text stands for. -/
def parse? (s : String) : Option Instant := do
  let (date, cs) ← readDate s.toList
  let cs ← match cs with
    | 'T' :: rest | 't' :: rest | ' ' :: rest => some rest
    | _ => none
  let ((time, nanos), cs) ← readTime cs
  let (offset, cs) ← readOffset (skipBlank cs)
  if ¬ (skipBlank cs).isEmpty ∨ ¬ date.Valid ∨ ¬ YearInRange date.year then none
  else if h : nanos < 2000000000 then
    let t : Instant := ⟨86400 * date.toDays + time - offset, nanos, h⟩
    if first ≤ t ∧ t.seconds ≤ last.seconds then some t else none
  else none

end SiteBroker.Instant
