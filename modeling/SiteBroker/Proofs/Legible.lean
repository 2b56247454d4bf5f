import Mathlib.Data.String.Basic
import SiteBroker.Proofs.Fields
import SiteBroker.Proofs.Numeral
import SiteBroker.Json.Parser

/-! JSON values that are written down and read again: all that came out of a text, but for some
numbers with a fraction or an exponent, whose text is read as a neighbour of theirs. -/

namespace SiteBroker

namespace Json

def quoteChars (s : String) : List Char := '"' :: (s.toList.flatMap escapeChar ++ ['"'])

def newLineChars (level : Nat) : List Char := '\n' :: List.replicate (2 * level) ' '

mutual

def prettyChars (level : Nat) : Json → List Char
  | .arr [] => ['[', ']']
  | .arr (a :: as) =>
    '[' :: (newLineChars (level + 1) ++ (prettyChars (level + 1) a ++ prettyItemsChars level as))
  | .obj [] => ['\x7b', '\x7d']
  | .obj ((k, a) :: es) =>
    '\x7b' :: (newLineChars (level + 1) ++ (quoteChars k ++
      ':' :: ' ' :: (prettyChars (level + 1) a ++ prettyEntriesChars level es)))
  | .str s => quoteChars s
  | .null => (compact .null).toList
  | .bool b => (compact (.bool b)).toList
  | .int i => (compact (.int i)).toList
  | .float x => (compact (.float x)).toList

def prettyItemsChars (level : Nat) : List Json → List Char
  | [] => newLineChars level ++ [']']
  | a :: as =>
    ',' :: (newLineChars (level + 1) ++ (prettyChars (level + 1) a ++ prettyItemsChars level as))

def prettyEntriesChars (level : Nat) : List (String × Json) → List Char
  | [] => newLineChars level ++ ['\x7d']
  | (k, a) :: es =>
    ',' :: (newLineChars (level + 1) ++ (quoteChars k ++
      ':' :: ' ' :: (prettyChars (level + 1) a ++ prettyEntriesChars level es)))

end

theorem toList_quote (s : String) : (quote s).toList = quoteChars s := by
  simp [quote, quoteChars]

theorem toList_newLine (level : Nat) : (newLine level).toList = newLineChars level := by
  simp [newLine, newLineChars]

mutual

theorem toList_pretty (level : Nat) (a : Json) : (pretty level a).toList = prettyChars level a := by
  cases a with
  | arr items =>
    cases items with
    | nil => simp [pretty, prettyChars]
    | cons a as =>
      simp [pretty, prettyChars, toList_newLine, toList_pretty (level + 1) a,
        toList_prettyItems level as]
  | obj entries =>
    cases entries with
    | nil => simp [pretty, prettyChars]
    | cons e es =>
      simp [pretty, prettyChars, toList_newLine, toList_quote, toList_pretty (level + 1) e.2,
        toList_prettyEntries level es]
  | str s => simp only [pretty, prettyChars, compact, toList_quote]
  | null | bool | int | float => simp only [pretty, prettyChars]

theorem toList_prettyItems (level : Nat) (items : List Json) :
    (prettyItems level items).toList = prettyItemsChars level items := by
  cases items with
  | nil => simp [prettyItems, prettyItemsChars, toList_newLine]
  | cons a as =>
    simp [prettyItems, prettyItemsChars, toList_newLine, toList_pretty (level + 1) a,
      toList_prettyItems level as]

theorem toList_prettyEntries (level : Nat) (entries : List (String × Json)) :
    (prettyEntries level entries).toList = prettyEntriesChars level entries := by
  cases entries with
  | nil => simp [prettyEntries, prettyEntriesChars, toList_newLine]
  | cons e es =>
    simp [prettyEntries, prettyEntriesChars, toList_newLine, toList_quote,
      toList_pretty (level + 1) e.2, toList_prettyEntries level es]

end

/-- Whether the text of a number is read as that number. -/
def isLegibleFloat (x : Double) : Bool :=
  !x.isNaN && match readNumber (floatText x).toList with
    | some (.float y, []) => y == x
    | _ => false

mutual

/-- Whether the text of a value is read as that value, inside at most so many containers: whole
numbers have 64 bits, and the entries of an object are sorted. -/
def isLegible : Nat → Json → Bool
  | _, .null | _, .bool _ | _, .str _ => true
  | _, .int i => Int64.minValue.toInt ≤ i && i < UInt64.size
  | _, .float x => isLegibleFloat x
  | 0, .arr _ | 0, .obj _ => false
  | depth + 1, .arr items => areLegible depth items
  | depth + 1, .obj entries => areEntriesLegible depth entries

def areLegible (depth : Nat) : List Json → Bool
  | [] => true
  | a :: as => isLegible depth a && areLegible depth as

def areEntriesLegible (depth : Nat) : List (String × Json) → Bool
  | [] => true
  | (k, a) :: es =>
    isLegible depth a && es.all (k < ·.1) && areEntriesLegible depth es

end

section

variable {depth fuel : Nat} {cs rest : List Char}

/-- A text that begins with a value. -/
def Opens (cs : List Char) : Prop := ∃ c ∈ cs.head?, isSpace c = false ∧ c ≠ ']' ∧ c ≠ '\x7d'

theorem Opens.skipSpace (h : Opens cs) : skipSpace cs = cs := by
  obtain ⟨c, hc, hs, -⟩ := h
  cases cs with
  | nil => rfl
  | cons d cs =>
    obtain rfl : d = c := Option.some.inj hc
    simp [Json.skipSpace, hs]

theorem skipSpace_newLine (level : Nat) (cs : List Char) :
    skipSpace (newLineChars level ++ cs) = skipSpace cs := by
  have hblanks : ∀ n, skipSpace (List.replicate n ' ' ++ cs) = skipSpace cs := by
    intro n
    induction n with
    | zero => rfl
    | succ n ih => exact ih
  exact hblanks (2 * level)

theorem readUnicode_control {n : Nat} (h : n < 32) (rest : List Char) :
    readUnicode ('0' :: '0' :: hexDigit (n / 16) :: hexDigit (n % 16) :: rest) =
      some (Char.ofNat n, rest) := by
  have hdigits : ∀ n < 32,
      Text.ofDigits? 16 ['0', '0', hexDigit (n / 16), hexDigit (n % 16)] = some n := by decide
  have hlow : n < 0xD800 := by omega
  simp [readUnicode, readHex, hdigits n h, hlow]

theorem readString_escape (c : Char) (done rest : List Char) :
    readString (fuel + 1) done (escapeChar c ++ rest) = readString fuel (c :: done) rest := by
  have hcode : ∀ n, c.toNat == n → c = Char.ofNat n := fun n h => by
    rw [← beq_iff_eq.mp h, Char.ofNat_toNat]
  unfold escapeChar
  split
  · next h => simp_all [readString, readEscape]
  split
  · next h => simp_all [readString, readEscape]
  split
  · next h => simp_all [readString, readEscape]
  split
  · next h => simp_all [readString, readEscape]
  split
  · next h => simp_all [readString, readEscape]
  split
  · next h => simp [readString, readEscape, hcode 8 h]
  split
  · next h => simp [readString, readEscape, hcode 12 h]
  split
  · next h => simp [readString, readEscape, readUnicode_control h, Char.ofNat_toNat]
  · next hq hb _ _ _ _ _ hc => simp [readString, hq, hb, hc]

theorem length_le_flatMap (s : List Char) : s.length ≤ (s.flatMap escapeChar).length := by
  induction s with
  | nil => simp
  | cons c s ih =>
    have hc : 0 < (escapeChar c).length := by
      unfold escapeChar
      repeat' split
      all_goals simp
    rw [List.flatMap_cons, List.length_append, List.length_cons]
    omega

theorem readString_quoted (s rest : List Char) (done : List Char) (hf : s.length < fuel) :
    readString fuel done (s.flatMap escapeChar ++ '"' :: rest) =
      some (String.ofList (done.reverse ++ s), rest) := by
  induction s generalizing fuel done with
  | nil =>
    obtain ⟨n, rfl⟩ := Nat.exists_eq_add_of_lt hf
    simp [readString]
  | cons c s ih =>
    obtain ⟨n, rfl⟩ := Nat.exists_eq_add_of_lt hf
    rw [List.flatMap_cons, List.append_assoc, readString_escape, ih _ (by simp at hf ⊢; omega)]
    simp

/-- A text is read up to its closing quote. -/
theorem readString_text (s : String) (rest : List Char) :
    readString ((s.toList.flatMap escapeChar ++ '"' :: rest).length + 1) []
      (s.toList.flatMap escapeChar ++ '"' :: rest) = some (s, rest) := by
  have hlength := length_le_flatMap s.toList
  rw [readString_quoted s.toList rest [] (by rw [List.length_append]; omega), List.reverse_nil,
    List.nil_append, String.ofList_toList]

/-- Whatever is read as a value begins as one. -/
theorem opens_of_readValue {p : Json × List Char} (h : readValue depth cs = some p) : Opens cs := by
  rcases cs with _ | ⟨c, cs⟩
  · simp [readValue, readNumber, readUnsigned] at h
  · refine ⟨c, rfl, Bool.eq_false_iff.mpr fun hs => ?_, ?_, ?_⟩
    · simp only [isSpace, Bool.or_eq_true, beq_iff_eq] at hs
      rcases hs with ((rfl | rfl) | rfl) | rfl <;>
        simp [readValue, readNumber, readUnsigned] at h
    · rintro rfl
      simp [readValue, readNumber, readUnsigned] at h
    · rintro rfl
      simp [readValue, readNumber, readUnsigned] at h

theorem readValue_of_readNumber {a : Json} {cs' : List Char} (h : readNumber cs = some (a, cs'))
    (hr : Ends rest) (depth : Nat) : readValue depth (cs ++ rest) = some (a, cs' ++ rest) := by
  rw [← readNumber_append hr h]
  -- A number begins with a sign or a digit, and no other value does.
  rcases cs with _ | ⟨c, cs⟩
  · simp [readNumber, readUnsigned] at h
  · have hc : c = '-' ∨ c.isDigit = true := by
      by_contra hn
      rw [not_or] at hn
      rw [readNumber_cons hn.1] at h
      simp [readUnsigned, hn.2] at h
    have hne : c ≠ 'n' ∧ c ≠ 't' ∧ c ≠ 'f' ∧ c ≠ '"' ∧ c ≠ '[' ∧ c ≠ '\x7b' := by
      refine ⟨?_, ?_, ?_, ?_, ?_, ?_⟩ <;> (rintro rfl; revert hc; decide)
    obtain ⟨hn, ht, hf, hq, ha, ho⟩ := hne
    rw [List.cons_append]
    unfold readValue
    split <;> simp_all

theorem readNumber_float {x : Double} (h : isLegibleFloat x = true) :
    x.isNaN = false ∧ readNumber (floatText x).toList = some (.float x, []) := by
  simp only [isLegibleFloat, Bool.and_eq_true, Bool.not_eq_true'] at h
  refine ⟨h.1, ?_⟩
  obtain ⟨-, h⟩ := h
  split at h
  · next y hy => rw [hy, beq_iff_eq.mp h]
  · cases h

theorem ends_items (level : Nat) (items : List Json) (rest : List Char) :
    Ends (prettyItemsChars level items ++ rest) := by
  cases items <;> simp [prettyItemsChars, newLineChars, Ends]

theorem ends_entries (level : Nat) (entries : List (String × Json)) (rest : List Char) :
    Ends (prettyEntriesChars level entries ++ rest) := by
  rcases entries with _ | ⟨⟨k, a⟩, es⟩ <;> simp [prettyEntriesChars, newLineChars, Ends]

theorem length_le_items (level : Nat) (items : List Json) :
    items.length ≤ (prettyItemsChars level items).length := by
  induction items with
  | nil => simp
  | cons a as ih =>
    simp only [prettyItemsChars, List.length_cons, List.length_append]
    omega

theorem length_le_entries (level : Nat) (entries : List (String × Json)) :
    entries.length ≤ (prettyEntriesChars level entries).length := by
  induction entries with
  | nil => simp
  | cons e es ih =>
    simp only [prettyEntriesChars, List.length_cons, List.length_append]
    omega

theorem putEntry_of_lt {name : String} {a : Json} {es : List (String × Json)}
    (h : ∀ e ∈ es, e.1 < name) : putEntry name a es = es ++ [(name, a)] := by
  induction es with
  | nil => rfl
  | cons e es ih =>
    have he := h e (by simp)
    rw [putEntry, if_neg (lt_asymm he), if_neg (ne_of_gt he), ih fun e hm => h e (by simp [hm])]
    rfl

theorem object_of_legible {entries : List (String × Json)}
    (h : areEntriesLegible depth entries = true) : object entries = .obj entries := by
  have hput : ∀ es es' : List (String × Json), areEntriesLegible depth es = true →
      (∀ e' ∈ es', ∀ e ∈ es, e'.1 < e.1) →
      es.foldl (fun es e => putEntry e.1 e.2 es) es' = es' ++ es := by
    intro es
    induction es with
    | nil => simp
    | cons entry es ih =>
      obtain ⟨k, a⟩ := entry
      intro es' h hlt
      simp only [areEntriesLegible, Bool.and_eq_true, List.all_eq_true, decide_eq_true_eq] at h
      have hlast : putEntry k a es' = es' ++ [(k, a)] :=
        putEntry_of_lt fun e' hm => hlt e' hm (k, a) (by simp)
      rw [List.foldl_cons]
      dsimp only
      rw [hlast, ih _ h.2]
      · simp
      · intro e' he' e'' he''
        rcases List.mem_append.mp he' with hm | hm
        · exact hlt e' hm e'' (by simp [he''])
        · obtain rfl := List.mem_singleton.mp hm
          exact h.1.2 e'' he''
  have hsorted := hput entries [] h (by simp)
  exact congrArg Json.obj hsorted

theorem readValue_arr {a : Json} {cs' : List Char} (h : readValue depth cs = some (a, cs'))
    (level : Nat) : readValue (depth + 1) ('[' :: (newLineChars level ++ cs)) =
      (readItems (readValue depth) (cs'.length + 1) [a] cs').map fun p => (.arr p.1, p.2) := by
  have ho := opens_of_readValue h
  rw [readValue]
  simp only [skipSpace_newLine, ho.skipSpace]
  split
  · obtain ⟨c, hc, -, hn, -⟩ := ho
    exact absurd (Option.some.inj hc).symm hn
  · rw [h]

theorem readEntry_pretty {a : Json} {cs' : List Char} (h : readValue depth cs = some (a, cs'))
    (k : String) : readEntry (readValue depth) (quoteChars k ++ ':' :: ' ' :: cs) =
      some ((k, a), cs') := by
  have ho := opens_of_readValue h
  have hname := readString_text k (':' :: ' ' :: cs)
  have hblank : skipSpace (' ' :: cs) = cs := ho.skipSpace
  have hcolon : skipSpace (':' :: ' ' :: cs) = ':' :: ' ' :: cs := rfl
  simp only [quoteChars, List.cons_append, List.append_assoc, List.nil_append, readEntry, hname,
    hcolon, hblank, h, Option.map_some]

theorem readValue_obj {a : Json} {cs' : List Char} (h : readValue depth cs = some (a, cs'))
    (level : Nat) (k : String) :
    readValue (depth + 1) ('\x7b' :: (newLineChars level ++ (quoteChars k ++ ':' :: ' ' :: cs))) =
      (readEntries (readValue depth) (cs'.length + 1) [(k, a)] cs').map fun p =>
        (object p.1, p.2) := by
  have hentry := readEntry_pretty h k
  have hopen : ∀ cs, skipSpace (quoteChars k ++ cs) = quoteChars k ++ cs := fun _ => rfl
  rw [readValue]
  simp only [skipSpace_newLine, hopen]
  split
  · next he => simp [quoteChars] at he
  · rw [hentry]

-- By the structure of the value. Of all values only a number could run on into what follows it.
mutual

theorem readValue_pretty {depth : Nat} (a : Json) (h : a.isLegible depth = true) (level : Nat)
    {rest : List Char} (hr : Ends rest) :
    readValue depth (prettyChars level a ++ rest) = some (a, rest) := by
  cases a with
  | null => simp [prettyChars, compact, readValue]
  | bool b => cases b <;> simp [prettyChars, compact, readValue]
  | int i =>
    simp only [isLegible, Bool.and_eq_true, decide_eq_true_eq] at h
    simp only [prettyChars, compact]
    exact readValue_of_readNumber (readNumber_int h) hr depth
  | float x =>
    simp only [prettyChars, compact]
    exact readValue_of_readNumber (readNumber_float h).2 hr depth
  | str s =>
    have hread := readString_text s rest
    simp only [prettyChars, quoteChars, List.cons_append, List.append_assoc, List.nil_append,
      readValue, hread, Option.map_some]
  | arr items =>
    rcases depth with _ | depth
    · simp [isLegible] at h
    · rcases items with _ | ⟨a, as⟩
      · simp [prettyChars, readValue, skipSpace, isSpace]
      · simp only [isLegible, areLegible, Bool.and_eq_true] at h
        have ha := readValue_pretty a h.1 (level + 1) (ends_items level as rest)
        have hlength := length_le_items level as
        rw [prettyChars, List.cons_append, List.append_assoc, List.append_assoc, readValue_arr ha,
          readItems_pretty as h.2 level rest [a] (by rw [List.length_append]; omega)]
        rfl
  | obj entries =>
    rcases depth with _ | depth
    · simp [isLegible] at h
    · rcases entries with _ | ⟨⟨k, a⟩, es⟩
      · simp [prettyChars, readValue, skipSpace, isSpace]
      · have hsorted : object ((k, a) :: es) = .obj ((k, a) :: es) := object_of_legible h
        simp only [isLegible, areEntriesLegible, Bool.and_eq_true] at h
        have ha := readValue_pretty a h.1.1 (level + 1) (ends_entries level es rest)
        have hlength := length_le_entries level es
        rw [prettyChars, List.cons_append, List.append_assoc, List.append_assoc, List.cons_append,
          List.cons_append, List.append_assoc, readValue_obj ha,
          readEntries_pretty es h.2 level rest [(k, a)] (by rw [List.length_append]; omega),
          Option.map_some, ← hsorted]
        rfl

theorem readItems_pretty {depth fuel : Nat} (items : List Json)
    (h : areLegible depth items = true) (level : Nat) (rest : List Char) (done : List Json)
    (hf : items.length < fuel) : readItems (readValue depth) fuel done
      (prettyItemsChars level items ++ rest) = some (done.reverse ++ items, rest) := by
  obtain ⟨n, rfl⟩ := Nat.exists_eq_add_of_lt hf
  cases items with
  | nil =>
    rw [prettyItemsChars, List.append_assoc]
    rw [readItems, skipSpace_newLine]
    simp [skipSpace, isSpace]
  | cons a as =>
    simp only [areLegible, Bool.and_eq_true] at h
    have ha := readValue_pretty a h.1 (level + 1) (ends_items level as rest)
    have ho := opens_of_readValue ha
    have has : readItems (readValue depth) (as.length + 1 + n) (a :: done) _ = _ :=
      readItems_pretty as h.2 level rest (a :: done) (by omega)
    have hcomma : ∀ cs, skipSpace (',' :: cs) = ',' :: cs := fun _ => rfl
    rw [prettyItemsChars, List.cons_append, List.append_assoc, List.append_assoc, List.length_cons,
      readItems, hcomma]
    simp only [skipSpace_newLine, ho.skipSpace, ha, has]
    simp

theorem readEntries_pretty {depth fuel : Nat} (entries : List (String × Json))
    (h : areEntriesLegible depth entries = true) (level : Nat) (rest : List Char)
    (done : List (String × Json)) (hf : entries.length < fuel) :
    readEntries (readValue depth) fuel done (prettyEntriesChars level entries ++ rest) =
      some (done.reverse ++ entries, rest) := by
  obtain ⟨n, rfl⟩ := Nat.exists_eq_add_of_lt hf
  rcases entries with _ | ⟨⟨k, a⟩, es⟩
  · rw [prettyEntriesChars, List.append_assoc]
    rw [readEntries, skipSpace_newLine]
    simp [skipSpace, isSpace]
  · simp only [areEntriesLegible, Bool.and_eq_true] at h
    have ha := readValue_pretty a h.1.1 (level + 1) (ends_entries level es rest)
    have hentry := readEntry_pretty ha k
    have hes : readEntries (readValue depth) (es.length + 1 + n) ((k, a) :: done) _ = _ :=
      readEntries_pretty es h.2 level rest ((k, a) :: done) (by omega)
    have hcomma : ∀ cs, skipSpace (',' :: cs) = ',' :: cs := fun _ => rfl
    have hopen : ∀ cs, skipSpace (quoteChars k ++ cs) = quoteChars k ++ cs := fun _ => rfl
    rw [prettyEntriesChars, List.cons_append, List.append_assoc, List.append_assoc,
      List.cons_append, List.cons_append, List.append_assoc, List.length_cons, readEntries, hcomma]
    simp only [skipSpace_newLine, hopen, hentry, hes]
    simp

end

end

mutual

theorem isLegible_succ {depth : Nat} (a : Json) (h : a.isLegible depth = true) :
    a.isLegible (depth + 1) = true := by
  cases a with
  | null | bool | str => rfl
  | int | float => simpa only [isLegible] using h
  | arr items =>
    rcases depth with _ | depth
    · simp [isLegible] at h
    · exact areLegible_succ items h
  | obj entries =>
    rcases depth with _ | depth
    · simp [isLegible] at h
    · exact areEntriesLegible_succ entries h

theorem areLegible_succ {depth : Nat} (items : List Json) (h : areLegible depth items = true) :
    areLegible (depth + 1) items = true := by
  cases items with
  | nil => rfl
  | cons a as =>
    simp only [areLegible, Bool.and_eq_true] at h ⊢
    exact ⟨isLegible_succ a h.1, areLegible_succ as h.2⟩

theorem areEntriesLegible_succ {depth : Nat} (entries : List (String × Json))
    (h : areEntriesLegible depth entries = true) :
    areEntriesLegible (depth + 1) entries = true := by
  rcases entries with _ | ⟨⟨k, a⟩, es⟩
  · rfl
  · simp only [areEntriesLegible, Bool.and_eq_true] at h ⊢
    exact ⟨⟨isLegible_succ a h.1.1, h.1.2⟩, areEntriesLegible_succ es h.2⟩

end

theorem areLegible_iff {depth : Nat} {items : List Json} :
    areLegible depth items = true ↔ ∀ a ∈ items, a.isLegible depth = true := by
  induction items with
  | nil => simp [areLegible]
  | cons a as ih => rw [areLegible, Bool.and_eq_true, ih, List.forall_mem_cons]

theorem areEntriesLegible_iff {depth : Nat} {entries : List (String × Json)}
    (h : (entries.map (·.1)).Pairwise fun k l => compare k l = .lt) :
    areEntriesLegible depth entries = true ↔ ∀ e ∈ entries, e.2.isLegible depth = true := by
  induction entries with
  | nil => simp [areEntriesLegible]
  | cons entry es ih =>
    obtain ⟨k, a⟩ := entry
    obtain ⟨hk, hes⟩ := List.pairwise_cons.mp h
    have hsorted : es.all (k < ·.1) = true := by
      rw [List.all_eq_true]
      exact fun e he => decide_eq_true (compareOfLessAndEq_eq_lt.mp (hk _ (List.mem_map_of_mem he)))
    rw [areEntriesLegible, hsorted, Bool.and_true, Bool.and_eq_true, ih hes, List.forall_mem_cons]

theorem parse?_pretty {a : Json} (h : a.isLegible depthLimit = true) :
    parse? (pretty 0 a) = some a := by
  have hread : readValue depthLimit (prettyChars 0 a ++ []) = some (a, []) :=
    readValue_pretty a h 0 (by simp [Ends])
  rw [List.append_nil] at hread
  rw [parse?, toList_pretty, (opens_of_readValue hread).skipSpace, hread]
  rfl

/-- The text of a number may be read as its neighbour. -/
example : (parse? (pretty 0 (.float ⟨0x3e0ca442fbef2ec6⟩))).any
    (·.same (.float ⟨0x3e0ca442fbef2ec5⟩)) = true := by decide +kernel

mutual

/-- What can be read again is equal to itself, which not every number is. -/
theorem same_self {depth : Nat} (a : Json) (h : a.isLegible depth = true) : a.same a = true := by
  cases a with
  | null => rfl
  | bool b | int i | str s => simp [same]
  | float x => simp [same, Double.same, (readNumber_float h).1]
  | arr items =>
    rcases depth with _ | depth
    · simp [isLegible] at h
    · exact sameItems_self items h
  | obj entries =>
    rcases depth with _ | depth
    · simp [isLegible] at h
    · exact sameEntries_self entries h

theorem sameItems_self {depth : Nat} (items : List Json) (h : areLegible depth items = true) :
    sameItems items items = true := by
  cases items with
  | nil => rfl
  | cons a as =>
    simp only [areLegible, Bool.and_eq_true] at h
    simp [sameItems, same_self a h.1, sameItems_self as h.2]

theorem sameEntries_self {depth : Nat} (entries : List (String × Json))
    (h : areEntriesLegible depth entries = true) : sameEntries entries entries = true := by
  rcases entries with _ | ⟨⟨k, a⟩, es⟩
  · rfl
  · simp only [areEntriesLegible, Bool.and_eq_true] at h
    simp [sameEntries, same_self a h.1.1, sameEntries_self es h.2]

end

end Json

namespace Fields

variable {record : Fields}

/-- Whether the text of a record is read as that record. -/
def isLegible (record : Fields) : Bool := record.toJson.isLegible Json.depthLimit

/-- A record can be read again if each of its values can. -/
theorem isLegible_iff : record.isLegible = true ↔
    ∀ (name : String) a, record[name]? = some a → a.isLegible 126 = true := by
  have hentries : record.isLegible = true ↔ ∀ e ∈ record.toList, e.2.isLegible 126 = true :=
    Json.areEntriesLegible_iff (List.pairwise_map.mpr Std.ExtTreeMap.ordered_keys_toList)
  rw [hentries]
  constructor
  · exact fun h name a ha => h (name, a) (Std.ExtTreeMap.mem_toList_iff_getElem?_eq_some.mpr ha)
  · exact fun h e he => h e.1 e.2 (Std.ExtTreeMap.mem_toList_iff_getElem?_eq_some.mp he)

theorem ofJson?_parse?_pretty (h : record.isLegible = true) :
    (Json.parse? (Json.pretty 0 record.toJson)).bind ofJson? = some record := by
  rw [Json.parse?_pretty h, Option.bind_some, toJson, ofJson?, ofList_toList]

theorem same_self (h : record.isLegible = true) : record.same record = true :=
  Json.sameEntries_self record.toList h

theorem isLegible_overlay {upper : Fields} (h : record.isLegible = true)
    (hu : upper.isLegible = true) : (record.overlay upper).isLegible = true := by
  rw [isLegible_iff] at h hu ⊢
  intro name a ha
  rw [getElem?_overlay] at ha
  rcases Option.or_eq_some_iff.mp ha with ha | ⟨-, ha⟩
  · exact hu name a ha
  · exact h name a ha

end Fields

end SiteBroker
