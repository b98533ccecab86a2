import RustyClaw.Library.Glyph
import Mathlib.Tactic.Set

/-!
# JSON texts

JSON values, the compact text of a value and a parser.  Texts are lists over any glyph type, so
that the labels of the characters of a string can be followed into a JSON text and out of it
again: an escape keeps the label of the character it stands for.

`parse_render` is the round trip: the text of a value that nests less deeply than the parser's
limit parses to this value.  It holds for every glyph type, so labels survive it too.

A number is kept as it is written (`NumLit`); an object keeps its fields in the order in which
they are written, and `Json.normalize` is the map that a parser into a sorted map makes of it.
-/

namespace Json

open Glyph

variable {χ : Type}

/-! ## Numbers

The grammar of numbers as an automaton; a number is read as far as the automaton goes. -/

inductive NumState where
  | start | minus | zero | int | dot | fraction | exponent | exponentSign | exponentDigits
  deriving DecidableEq

def NumState.next : NumState → Char → Option NumState
  | .start, c => if c = '-' then some .minus else if c = '0' then some .zero
      else if c.isDigit then some .int else none
  | .minus, c => if c = '0' then some .zero else if c.isDigit then some .int else none
  | .zero, c => if c = '.' then some .dot else if c = 'e' || c = 'E' then some .exponent else none
  | .int, c => if c.isDigit then some .int else if c = '.' then some .dot
      else if c = 'e' || c = 'E' then some .exponent else none
  | .dot, c => if c.isDigit then some .fraction else none
  | .fraction, c => if c.isDigit then some .fraction
      else if c = 'e' || c = 'E' then some .exponent else none
  | .exponent, c => if c = '+' || c = '-' then some .exponentSign
      else if c.isDigit then some .exponentDigits else none
  | .exponentSign, c => if c.isDigit then some .exponentDigits else none
  | .exponentDigits, c => if c.isDigit then some .exponentDigits else none

def NumState.accepting : NumState → Bool
  | .zero | .int | .fraction | .exponentDigits => true
  | _ => false

/-- The characters that can continue a number. -/
def isNumberChar (c : Char) : Bool :=
  c.isDigit || c = '-' || c = '+' || c = '.' || c = 'e' || c = 'E'

lemma NumState.next_eq_none {st : NumState} {c : Char} (hc : isNumberChar c = false) :
    st.next c = none := by
  simp only [isNumberChar, Bool.or_eq_false_iff, decide_eq_false_iff_not] at hc
  obtain ⟨⟨⟨⟨⟨hdigit, hminus⟩, hplus⟩, hdot⟩, he⟩, hE⟩ := hc
  have hzero : c ≠ '0' := by
    rintro rfl
    simp at hdigit
  cases st <;> simp [NumState.next, hdigit, hminus, hplus, hdot, he, hE, hzero]

section Glyphs

variable [Glyph χ]

def takeNumber : NumState → List χ → Option (List χ × List χ)
  | st, [] => if st.accepting then some ([], []) else none
  | st, g :: s =>
    match st.next (chr g) with
    | some st' => (takeNumber st' s).map fun p => (g :: p.1, p.2)
    | none => if st.accepting then some ([], g :: s) else none

/-- The rest of a text after a value: it does not continue a number. -/
def Ends (rest : List χ) : Prop :=
  ∀ g ∈ rest.head?, isNumberChar (chr g) = false

lemma takeNumber_append {st : NumState} {s rest : List χ} (h : takeNumber st s = some (s, []))
    (hrest : Ends rest) : takeNumber st (s ++ rest) = some (s, rest) := by
  induction s generalizing st with
  | nil =>
    have haccept : st.accepting = true := by
      by_contra hst
      simp [takeNumber, hst] at h
    cases rest with
    | nil => simpa [takeNumber] using haccept
    | cons g rest =>
      have hnone : st.next (chr g) = none := NumState.next_eq_none (hrest g rfl)
      simp [takeNumber, hnone, haccept]
  | cons g s ih =>
    rw [List.cons_append]
    simp only [takeNumber] at h ⊢
    split at h
    · rename_i st' hnext
      rw [Option.map_eq_some_iff] at h
      obtain ⟨⟨taken, left⟩, htaken, heq⟩ := h
      simp only [Prod.mk.injEq, List.cons.injEq, true_and] at heq
      obtain ⟨rfl, rfl⟩ := heq
      simp [ih htaken]
    · split at h <;> simp at h

/-- What is read as a number is a number on its own. -/
lemma takeNumber_taken {st : NumState} {s taken rest : List χ}
    (h : takeNumber st s = some (taken, rest)) : takeNumber st taken = some (taken, []) := by
  induction s generalizing st taken with
  | nil =>
    simp only [takeNumber] at h
    split at h
    · rename_i haccept
      cases h
      simp [takeNumber, haccept]
    · simp at h
  | cons g s ih =>
    simp only [takeNumber] at h
    split at h
    · rename_i st' hnext
      rw [Option.map_eq_some_iff] at h
      obtain ⟨⟨taken', left⟩, htaken, heq⟩ := h
      cases heq
      simp [takeNumber, hnext, ih htaken]
    · split at h
      · rename_i haccept
        cases h
        simp [takeNumber, haccept]
      · simp at h

end Glyphs

/-- A number as it is written. -/
structure NumLit (χ : Type) [Glyph χ] where
  lexeme : List χ
  valid : takeNumber .start lexeme = some (lexeme, [])

/-! ## Values and their texts -/

end Json

/-- JSON values over a glyph type. -/
inductive Json (χ : Type) [Glyph χ] where
  | null
  | bool (value : Bool)
  | num (value : Json.NumLit χ)
  | str (value : List χ)
  | arr (items : List (Json χ))
  | obj (fields : List (List χ × Json χ))

namespace Json

open Glyph

variable {χ : Type} [Glyph χ]

/-- The field of an object; of several fields with this key the last one. -/
def get (key : List Char) : Json χ → Option (Json χ)
  | .obj fields => (fields.reverse.find? fun field => chars field.1 = key).map Prod.snd
  | _ => none

def asStr : Json χ → Option (List χ)
  | .str s => some s
  | _ => none

/-- `BTreeMap::insert` into fields in the order of their keys. -/
def insertField (key : List χ) (value : Json χ) :
    List (List χ × Json χ) → List (List χ × Json χ)
  | [] => [(key, value)]
  | (key', value') :: fields =>
    if chars key < chars key' then (key, value) :: (key', value') :: fields
    else if chars key = chars key' then (key', value) :: fields
    else (key', value') :: insertField key value fields

mutual

/-- The value with its objects as sorted maps. -/
def normalize : Json χ → Json χ
  | .arr items => .arr (normalizeItems items)
  | .obj fields => .obj (normalizeFields [] fields)
  | value => value

def normalizeItems : List (Json χ) → List (Json χ)
  | [] => []
  | item :: items => normalize item :: normalizeItems items

def normalizeFields (sorted : List (List χ × Json χ)) :
    List (List χ × Json χ) → List (List χ × Json χ)
  | [] => sorted
  | (key, value) :: fields => normalizeFields (insertField key (normalize value) sorted) fields

end

def hexDigit (n : Nat) : Char :=
  ['0', '1', '2', '3', '4', '5', '6', '7', '8', '9', 'a', 'b', 'c', 'd', 'e', 'f'].getD n '0'

/-- The characters a character of a string is written as. -/
def escapeChar (c : Char) : List Char :=
  if c = '"' then ['\\', '"']
  else if c = '\\' then ['\\', '\\']
  else if c = '\x08' then ['\\', 'b']
  else if c = '\x0c' then ['\\', 'f']
  else if c = '\n' then ['\\', 'n']
  else if c = '\r' then ['\\', 'r']
  else if c = '\t' then ['\\', 't']
  else if c.toNat < 0x20 then
    ['\\', 'u', '0', '0', hexDigit (c.toNat / 16), hexDigit (c.toNat % 16)]
  else [c]

def escape (g : χ) : List χ := (escapeChar (chr g)).map (withChr g)

def quote (s : List χ) : List χ := lit '"' :: s.flatMap escape ++ [lit '"']

mutual

/-- The compact text of a value. -/
def render : Json χ → List χ
  | .null => Glyph.str "null"
  | .bool true => Glyph.str "true"
  | .bool false => Glyph.str "false"
  | .num n => n.lexeme
  | .str s => quote s
  | .arr items => lit '[' :: renderItems items ++ [lit ']']
  | .obj fields => lit '\x7b' :: renderFields fields ++ [lit '\x7d']

def renderItems : List (Json χ) → List χ
  | [] => []
  | [item] => render item
  | item :: items => render item ++ lit ',' :: renderItems items

def renderFields : List (List χ × Json χ) → List χ
  | [] => []
  | [(key, value)] => quote key ++ lit ':' :: render value
  | (key, value) :: fields => quote key ++ lit ':' :: render value ++ lit ',' :: renderFields fields

end

mutual

/-- How many arrays and objects are open at once in the text of a value. -/
def depth : Json χ → Nat
  | .arr items => depthItems items + 1
  | .obj fields => depthFields fields + 1
  | _ => 0

def depthItems : List (Json χ) → Nat
  | [] => 0
  | item :: items => max (depth item) (depthItems items)

def depthFields : List (List χ × Json χ) → Nat
  | [] => 0
  | (_, value) :: fields => max (depth value) (depthFields fields)

end

/-! ## The parser -/

def isSpace (c : Char) : Bool := c = ' ' || c = '\n' || c = '\t' || c = '\r'

def skipSpace (s : List χ) : List χ := s.dropWhile fun g => isSpace (chr g)

def hexValue (c : Char) : Option Nat :=
  if '0' ≤ c ∧ c ≤ '9' then some (c.toNat - '0'.toNat)
  else if 'a' ≤ c ∧ c ≤ 'f' then some (c.toNat - 'a'.toNat + 10)
  else if 'A' ≤ c ∧ c ≤ 'F' then some (c.toNat - 'A'.toNat + 10)
  else none

/-- Four hexadecimal digits. -/
def takeHex4 : List χ → Option (Nat × χ × List χ)
  | a :: b :: c :: d :: s => do
    let a ← hexValue (chr a)
    let b ← hexValue (chr b)
    let c ← hexValue (chr c)
    let low ← hexValue (chr d)
    return (((a * 16 + b) * 16 + c) * 16 + low, d, s)
  | _ => none

/-- What follows `\u`: a code point, or the two halves of a surrogate pair. -/
def takeUnicode (s : List χ) : Option (χ × List χ) := do
  let (high, g, s) ← takeHex4 s
  if 0xDC00 ≤ high ∧ high ≤ 0xDFFF then none
  else if 0xD800 ≤ high ∧ high ≤ 0xDBFF then
    match s with
    | b :: u :: s =>
      if chr b = '\\' ∧ chr u = 'u' then
        let (low, g, s) ← takeHex4 s
        if 0xDC00 ≤ low ∧ low ≤ 0xDFFF then
          some (withChr g (Char.ofNat ((high - 0xD800) * 0x400 + (low - 0xDC00) + 0x10000)), s)
        else none
      else none
    | _ => none
  else some (withChr g (Char.ofNat high), s)

/-- What follows a backslash. -/
def takeEscape : List χ → Option (χ × List χ)
  | [] => none
  | g :: s =>
    match chr g with
    | '"' => some (withChr g '"', s)
    | '\\' => some (withChr g '\\', s)
    | '/' => some (withChr g '/', s)
    | 'b' => some (withChr g '\x08', s)
    | 'f' => some (withChr g '\x0c', s)
    | 'n' => some (withChr g '\n', s)
    | 'r' => some (withChr g '\r', s)
    | 't' => some (withChr g '\t', s)
    | 'u' => takeUnicode s
    | _ => none

/-- A string after its opening quote; every round takes one character of the string. -/
def takeString : Nat → List χ → Option (List χ × List χ)
  | 0, _ => none
  | _, [] => none
  | fuel + 1, g :: s =>
    if chr g = '"' then some ([], s)
    else if chr g = '\\' then
      match takeEscape s with
      | some (c, s) => (takeString fuel s).map fun p => (c :: p.1, p.2)
      | none => none
    else if (chr g).toNat < 0x20 then none
    else (takeString fuel s).map fun p => (g :: p.1, p.2)

def takeLiteral (literal : String) (s : List χ) : Option (List χ) :=
  if chars (s.take literal.toList.length) = literal.toList then
    some (s.drop literal.toList.length)
  else none

abbrev Parser (χ : Type) [Glyph χ] := List χ → Option (Json χ × List χ)

/-- The items of an array from its first item on. -/
def takeItems (value : Parser χ) : Nat → List χ → Option (List (Json χ) × List χ)
  | 0, _ => none
  | fuel + 1, s => do
    let (item, s) ← value s
    match skipSpace s with
    | [] => none
    | g :: s =>
      if chr g = ',' then (takeItems value fuel s).map fun p => (item :: p.1, p.2)
      else if chr g = ']' then some ([item], s)
      else none

/-- The fields of an object from its first key on. -/
def takeFields (value : Parser χ) : Nat → List χ → Option (List (List χ × Json χ) × List χ)
  | 0, _ => none
  | fuel + 1, s =>
    match skipSpace s with
    | [] => none
    | q :: s =>
      if chr q = '"' then do
        let (key, s) ← takeString (s.length + 1) s
        match skipSpace s with
        | [] => none
        | colon :: s =>
          if chr colon = ':' then do
            let (item, s) ← value s
            match skipSpace s with
            | [] => none
            | g :: s =>
              if chr g = ',' then
                (takeFields value fuel s).map fun p => ((key, item) :: p.1, p.2)
              else if chr g = '\x7d' then some ([(key, item)], s)
              else none
          else none
      else none

/-- The items of an array after its opening bracket. -/
def takeArray (value : Parser χ) (s : List χ) : Option (Json χ × List χ) :=
  match skipSpace s with
  | [] => none
  | g :: rest =>
    if chr g = ']' then some (.arr [], rest)
    else (takeItems value (s.length + 1) s).map fun p => (.arr p.1, p.2)

/-- The fields of an object after its opening brace. -/
def takeObject (value : Parser χ) (s : List χ) : Option (Json χ × List χ) :=
  match skipSpace s with
  | [] => none
  | g :: rest =>
    if chr g = '\x7d' then some (.obj [], rest)
    else (takeFields value (s.length + 1) s).map fun p => (.obj p.1, p.2)

def takeNumLit (s : List χ) : Option (Json χ × List χ) :=
  match h : takeNumber .start s with
  | none => none
  | some (lexeme, rest) => some (.num ⟨lexeme, takeNumber_taken h⟩, rest)

/-- A value after white space; `nested` reads the values inside an array or an object and is
missing where none may be opened any more. -/
def takeValue (nested : Option (Parser χ)) (s : List χ) : Option (Json χ × List χ) :=
  match skipSpace s with
  | [] => none
  | g :: s =>
    match chr g with
    | 'n' => (takeLiteral "ull" s).map fun s => (.null, s)
    | 't' => (takeLiteral "rue" s).map fun s => (.bool true, s)
    | 'f' => (takeLiteral "alse" s).map fun s => (.bool false, s)
    | '"' => (takeString (s.length + 1) s).map fun p => (.str p.1, p.2)
    | '[' => nested.bind (takeArray · s)
    | '\x7b' => nested.bind (takeObject · s)
    | _ => takeNumLit (g :: s)

/-- A value in which at most `n` arrays and objects are open at once. -/
def parseValue : Nat → Parser χ
  | 0 => takeValue none
  | n + 1 => takeValue (some (parseValue n))

/-- How many arrays and objects may be open at once. -/
def recursionLimit : Nat := 127

/-- The value a whole text stands for. -/
def parse (s : List χ) : Option (Json χ) :=
  match parseValue recursionLimit s with
  | some (value, rest) => if skipSpace rest = [] then some value else none
  | none => none

/-! ## The round trip -/

lemma hexValue_hexDigit : ∀ n < 16, hexValue (hexDigit n) = some n := by decide

lemma isSpace_quote : isSpace '"' = false := by decide

lemma skipSpace_cons {g : χ} {s : List χ} (h : isSpace (chr g) = false) :
    skipSpace (g :: s) = g :: s := by
  simp [skipSpace, h]

lemma skipSpace_lit {c : Char} {s : List χ} (h : isSpace c = false) :
    skipSpace (lit c :: s) = lit c :: s :=
  skipSpace_cons (by rwa [chr_lit])

lemma ends_nil : Ends ([] : List χ) := by
  simp [Ends]

lemma ends_lit {c : Char} {s : List χ} (h : isNumberChar c = false) : Ends (lit c :: s) := by
  simp [Ends, h]

lemma takeLiteral_str (literal : String) (s : List χ) :
    takeLiteral literal (Glyph.str literal ++ s) = some s := by
  have hlen : (Glyph.str literal : List χ).length = literal.toList.length := by
    simp [Glyph.str]
  simp only [takeLiteral, ← hlen, List.take_left, List.drop_left]
  rw [if_pos]
  rw [chars_str, str_char]

/-! ### Strings -/

lemma takeHex4_control (g : χ) (n : Nat) (hn : n < 0x20) (s : List χ) :
    takeHex4 (withChr g '0' :: withChr g '0' :: withChr g (hexDigit (n / 16)) ::
      withChr g (hexDigit (n % 16)) :: s) = some (n, withChr g (hexDigit (n % 16)), s) := by
  have hzero : hexValue '0' = some 0 := by decide
  have hhigh := hexValue_hexDigit (n / 16) (by omega)
  have hlow := hexValue_hexDigit (n % 16) (by omega)
  have hn' : n / 16 * 16 + n % 16 = n := by omega
  simp [takeHex4, hzero, hhigh, hlow, hn']

/-- Reading the escape of a control character. -/
lemma takeUnicode_control (g : χ) (hg : (chr g).toNat < 0x20) (s : List χ) :
    takeUnicode (withChr g '0' :: withChr g '0' :: withChr g (hexDigit ((chr g).toNat / 16)) ::
      withChr g (hexDigit ((chr g).toNat % 16)) :: s) = some (g, s) := by
  have hlow : ¬ (0xDC00 ≤ (chr g).toNat ∧ (chr g).toNat ≤ 0xDFFF) := by omega
  have hhigh : ¬ (0xD800 ≤ (chr g).toNat ∧ (chr g).toNat ≤ 0xDBFF) := by omega
  simp only [takeUnicode, takeHex4_control g _ hg, Option.bind_eq_bind, Option.bind_some,
    if_neg hlow, if_neg hhigh, withChr_withChr, Char.ofNat_toNat, withChr_chr]

/-- The characters that are written with a letter behind a backslash, and their letters. -/
def shortEscapes : List (Char × Char) :=
  [('"', '"'), ('\\', '\\'), ('\x08', 'b'), ('\x0c', 'f'), ('\n', 'n'), ('\r', 'r'), ('\t', 't')]

lemma escapeChar_short {c d : Char} (h : (c, d) ∈ shortEscapes) : escapeChar c = ['\\', d] := by
  have hall : ∀ p ∈ shortEscapes, escapeChar p.1 = ['\\', p.2] := by decide
  exact hall _ h

lemma escapeChar_of_not_short {c : Char} (h : ∀ d, (c, d) ∉ shortEscapes) :
    escapeChar c =
      if c.toNat < 0x20 then
        ['\\', 'u', '0', '0', hexDigit (c.toNat / 16), hexDigit (c.toNat % 16)]
      else [c] := by
  have hne : ∀ p ∈ shortEscapes, c ≠ p.1 := by
    rintro ⟨c', d⟩ hp rfl
    exact h d hp
  rw [escapeChar, if_neg (hne ('"', '"') (by decide)), if_neg (hne ('\\', '\\') (by decide)),
    if_neg (hne ('\x08', 'b') (by decide)), if_neg (hne ('\x0c', 'f') (by decide)),
    if_neg (hne ('\n', 'n') (by decide)), if_neg (hne ('\r', 'r') (by decide)),
    if_neg (hne ('\t', 't') (by decide))]

/-- A character is written with a letter, with its code point, or as itself. -/
lemma escapeChar_cases (c : Char) :
    (∃ d, (c, d) ∈ shortEscapes ∧ escapeChar c = ['\\', d]) ∨
    (c.toNat < 0x20 ∧ escapeChar c =
      ['\\', 'u', '0', '0', hexDigit (c.toNat / 16), hexDigit (c.toNat % 16)]) ∨
    (c ≠ '"' ∧ c ≠ '\\' ∧ 0x20 ≤ c.toNat ∧ escapeChar c = [c]) := by
  by_cases hshort : ∃ d, (c, d) ∈ shortEscapes
  · obtain ⟨d, hd⟩ := hshort
    exact .inl ⟨d, hd, escapeChar_short hd⟩
  · have hother := escapeChar_of_not_short fun d hd => hshort ⟨d, hd⟩
    have hquote : c ≠ '"' := by
      rintro rfl
      exact hshort ⟨'"', by decide⟩
    have hslash : c ≠ '\\' := by
      rintro rfl
      exact hshort ⟨'\\', by decide⟩
    by_cases hcontrol : c.toNat < 0x20
    · rw [if_pos hcontrol] at hother
      exact .inr (.inl ⟨hcontrol, hother⟩)
    · rw [if_neg hcontrol] at hother
      exact .inr (.inr ⟨hquote, hslash, Nat.le_of_not_lt hcontrol, hother⟩)

lemma chars_flatMap_escape (s : List χ) :
    chars (s.flatMap escape) = (chars s).flatMap escapeChar := by
  rw [chars, List.map_flatMap, chars, List.flatMap_map]
  refine List.flatMap_congr fun g _ => ?_
  rw [escape, List.map_map]
  exact (List.map_congr_left fun c _ => chr_withChr g c).trans (List.map_id' _)

lemma takeEscape_short {g : χ} {d : Char} (h : (chr g, d) ∈ shortEscapes) (s : List χ) :
    takeEscape (withChr g d :: s) = some (g, s) := by
  have hall : ∀ p ∈ shortEscapes, takeEscape (withChr g p.2 :: s) = some (withChr g p.1, s) := by
    simp [shortEscapes, takeEscape]
  rw [hall _ h, withChr_chr]

/-- One character of a quoted string is read back with its label. -/
lemma takeString_escape (fuel : Nat) (g : χ) (s : List χ) :
    takeString (fuel + 1) (escape g ++ s) =
      (takeString fuel s).map fun p => (g :: p.1, p.2) := by
  rcases escapeChar_cases (chr g) with ⟨d, hd, hescape⟩ | ⟨hcontrol, hescape⟩ |
    ⟨hquote, hslash, hcontrol, hescape⟩
  · simp [escape, hescape, takeString, takeEscape_short hd]
  · have hunicode := takeUnicode_control g hcontrol s
    simp [escape, hescape, takeString, takeEscape, hunicode]
  · simp [escape, hescape, takeString, hquote, hslash, Nat.not_lt.mpr hcontrol]

lemma takeString_quote (s rest : List χ) (fuel : Nat) (hfuel : s.length < fuel) :
    takeString fuel (s.flatMap escape ++ lit '"' :: rest) = some (s, rest) := by
  induction s generalizing fuel with
  | nil =>
    obtain ⟨fuel, rfl⟩ := Nat.exists_eq_succ_of_ne_zero (by omega : fuel ≠ 0)
    simp [takeString]
  | cons g s ih =>
    obtain ⟨fuel, rfl⟩ := Nat.exists_eq_succ_of_ne_zero (by omega : fuel ≠ 0)
    rw [List.flatMap_cons, List.append_assoc, Nat.succ_eq_add_one, takeString_escape,
      ih fuel (by simpa using hfuel)]
    rfl

lemma length_le_flatMap_escape (s : List χ) : s.length ≤ (s.flatMap escape).length := by
  induction s with
  | nil => simp
  | cons g s ih =>
    have hpos : 0 < (escape g).length := by
      rw [escape, List.length_map]
      rcases escapeChar_cases (chr g) with ⟨_, _, h⟩ | ⟨_, h⟩ | ⟨_, _, _, h⟩ <;> simp [h]
    simp only [List.flatMap_cons, List.length_append, List.length_cons]
    omega

/-- A quoted string, read with as much fuel as there are characters behind its opening quote. -/
lemma takeString_text (s rest : List χ) :
    takeString ((s.flatMap escape ++ lit '"' :: rest).length + 1)
      (s.flatMap escape ++ lit '"' :: rest) = some (s, rest) := by
  refine takeString_quote s rest _ ?_
  have hle := length_le_flatMap_escape s
  simp only [List.length_append]
  omega

/-! ### Values -/

lemma NumLit.exists_cons (n : NumLit χ) :
    ∃ g s, n.lexeme = g :: s ∧ ((chr g) = '-' ∨ (chr g).isDigit) := by
  obtain ⟨lexeme, valid⟩ := n
  cases lexeme with
  | nil => simp [takeNumber, NumState.accepting] at valid
  | cons g s =>
    refine ⟨g, s, rfl, ?_⟩
    by_contra hne
    push Not at hne
    obtain ⟨hminus, hdigit⟩ := hne
    have hzero : chr g ≠ '0' := by
      intro h
      simp [h] at hdigit
    simp [takeNumber, NumState.next, hminus, hzero, hdigit, NumState.accepting] at valid

/-- The text of a value starts with a character that is neither white space nor a bracket that
closes something. -/
lemma exists_render_eq_cons (j : Json χ) :
    ∃ g s, render j = g :: s ∧ isSpace (chr g) = false ∧ chr g ≠ ']' := by
  cases j with
  | null => exact ⟨lit 'n', _, rfl, by simp [isSpace], by simp⟩
  | bool b =>
    cases b
    · exact ⟨lit 'f', _, rfl, by simp [isSpace], by simp⟩
    · exact ⟨lit 't', _, rfl, by simp [isSpace], by simp⟩
  | num n =>
    obtain ⟨g, s, hs, hg⟩ := n.exists_cons
    refine ⟨g, s, by rw [render, hs], ?_, ?_⟩
    · rcases hg with h | h
      · rw [h]; decide
      · simp only [isSpace, Bool.or_eq_false_iff, decide_eq_false_iff_not]
        refine ⟨⟨⟨?_, ?_⟩, ?_⟩, ?_⟩ <;> · intro h'; rw [h'] at h; simp at h
    · rintro h'
      rw [h'] at hg
      simp at hg
  | str s => exact ⟨_, _, rfl, by simp [isSpace], by simp⟩
  | arr items => exact ⟨_, _, by rw [render]; rfl, by simp [isSpace], by simp⟩
  | obj fields => exact ⟨_, _, by rw [render]; rfl, by simp [isSpace], by simp⟩

lemma skipSpace_render (j : Json χ) (rest : List χ) :
    skipSpace (render j ++ rest) = render j ++ rest := by
  obtain ⟨g, s, hs, hg, -⟩ := exists_render_eq_cons j
  rw [hs]
  exact skipSpace_cons hg

lemma takeNumLit_lexeme (n : NumLit χ) {rest : List χ} (hrest : Ends rest) :
    takeNumLit (n.lexeme ++ rest) = some (.num n, rest) := by
  have h := takeNumber_append n.valid hrest
  unfold takeNumLit
  split
  · rename_i hnone
    rw [hnone] at h
    cases h
  · rename_i lexeme rest' hsome
    rw [hsome] at h
    cases h
    rfl

/-- `value` reads back the text of each value that satisfies `P`. -/
def Reads (value : Parser χ) (P : Json χ → Prop) : Prop :=
  ∀ j rest, P j → Ends rest → value (render j ++ rest) = some (j, rest)

lemma takeItems_render {value : Parser χ} {items : List (Json χ)}
    (hvalue : Reads value (· ∈ items)) (hne : items ≠ []) {fuel : Nat}
    (hfuel : items.length ≤ fuel) (rest : List χ) :
    takeItems value fuel (renderItems items ++ lit ']' :: rest) = some (items, rest) := by
  induction items generalizing fuel with
  | nil => exact absurd rfl hne
  | cons item items ih =>
    obtain ⟨fuel, rfl⟩ := Nat.exists_eq_succ_of_ne_zero (by simp at hfuel; omega : fuel ≠ 0)
    cases items with
    | nil =>
      have hread := hvalue item (lit ']' :: rest) (by simp) (ends_lit (by decide))
      simp [renderItems, takeItems, hread, skipSpace_lit (c := ']') (by decide)]
    | cons item' items =>
      have hread := hvalue item (lit ',' :: (renderItems (item' :: items) ++ lit ']' :: rest))
        (by simp) (ends_lit (by decide))
      have htail := ih (fun j r hj hr => hvalue j r (List.mem_cons_of_mem _ hj) hr) (by simp)
        (show _ ≤ fuel by simpa using hfuel)
      have htext : renderItems (item :: item' :: items) ++ lit ']' :: rest =
          render item ++ lit ',' :: (renderItems (item' :: items) ++ lit ']' :: rest) := by
        simp [renderItems]
      rw [htext, Nat.succ_eq_add_one, takeItems, hread]
      simp [skipSpace_lit (c := ',') (by decide), htail]

lemma takeFields_render {value : Parser χ} {fields : List (List χ × Json χ)}
    (hvalue : Reads value (· ∈ fields.map Prod.snd)) (hne : fields ≠ []) {fuel : Nat}
    (hfuel : fields.length ≤ fuel) (rest : List χ) :
    takeFields value fuel (renderFields fields ++ lit '\x7d' :: rest) = some (fields, rest) := by
  induction fields generalizing fuel with
  | nil => exact absurd rfl hne
  | cons field fields ih =>
    obtain ⟨key, item⟩ := field
    obtain ⟨fuel, rfl⟩ := Nat.exists_eq_succ_of_ne_zero (by simp at hfuel; omega : fuel ≠ 0)
    -- The key and the colon are read in the same way whatever follows the value.
    have hkey : ∀ tail : List χ, takeFields value (fuel + 1)
        (quote key ++ lit ':' :: (render item ++ tail)) =
        (value (render item ++ tail)).bind fun p =>
          match skipSpace p.2 with
          | [] => none
          | g :: s =>
            if chr g = ',' then
              (takeFields value fuel s).map fun q => ((key, p.1) :: q.1, q.2)
            else if chr g = '\x7d' then some ([(key, p.1)], s)
            else none := by
      intro tail
      have hquote : quote key ++ lit ':' :: (render item ++ tail) =
          lit '"' :: (key.flatMap escape ++ lit '"' :: (lit ':' :: (render item ++ tail))) := by
        simp [quote]
      rw [hquote, takeFields, skipSpace_lit (by decide)]
      simp only [chr_lit, if_true, takeString_text, Option.bind_eq_bind, Option.bind_some,
        skipSpace_lit (c := ':') (by decide)]
    cases fields with
    | nil =>
      have hread := hvalue item (lit '\x7d' :: rest) (by simp) (ends_lit (by decide))
      have htext : renderFields [(key, item)] ++ lit '\x7d' :: rest =
          quote key ++ lit ':' :: (render item ++ lit '\x7d' :: rest) := by
        simp [renderFields]
      rw [htext, Nat.succ_eq_add_one, hkey, hread]
      simp [skipSpace_lit (c := '\x7d') (by decide)]
    | cons field' fields =>
      have hread := hvalue item
        (lit ',' :: (renderFields (field' :: fields) ++ lit '\x7d' :: rest)) (by simp)
        (ends_lit (by decide))
      have htail := ih (fun j r hj hr => hvalue j r (by simp at hj ⊢; tauto) hr) (by simp)
        (show _ ≤ fuel by simpa using hfuel)
      have htext : renderFields ((key, item) :: field' :: fields) ++ lit '\x7d' :: rest =
          quote key ++ lit ':' :: (render item ++
            lit ',' :: (renderFields (field' :: fields) ++ lit '\x7d' :: rest)) := by
        simp [renderFields]
      rw [htext, Nat.succ_eq_add_one, hkey, hread]
      simp [skipSpace_lit (c := ',') (by decide), htail]

lemma length_render_pos (j : Json χ) : 0 < (render j).length := by
  obtain ⟨g, s, hs, -⟩ := exists_render_eq_cons j
  simp [hs]

lemma length_le_renderItems (items : List (Json χ)) :
    items.length ≤ (renderItems items).length := by
  induction items with
  | nil => simp
  | cons item items ih =>
    have hpos := length_render_pos item
    cases items with
    | nil =>
      simp only [renderItems, List.length_cons, List.length_nil]
      omega
    | cons item' items =>
      simp only [renderItems, List.length_append, List.length_cons] at ih ⊢
      omega

lemma length_le_renderFields (fields : List (List χ × Json χ)) :
    fields.length ≤ (renderFields fields).length := by
  induction fields with
  | nil => simp
  | cons field fields ih =>
    obtain ⟨key, item⟩ := field
    cases fields with
    | nil => simp [renderFields]; omega
    | cons field' fields =>
      simp only [renderFields, List.length_append, List.length_cons] at ih ⊢
      omega

/-- The first item of an array stands at the beginning of the text of its items. -/
lemma exists_renderItems_cons (item : Json χ) (items : List (Json χ)) :
    ∃ tail, renderItems (item :: items) = render item ++ tail := by
  cases items with
  | nil => exact ⟨[], by simp [renderItems]⟩
  | cons item' items => exact ⟨_, by rw [renderItems]; simp⟩

/-- The text of a nonempty list of fields starts with the quote of its first key. -/
lemma exists_renderFields_cons (field : List χ × Json χ) (fields : List (List χ × Json χ)) :
    ∃ tail, renderFields (field :: fields) = lit '"' :: tail := by
  obtain ⟨key, item⟩ := field
  cases fields with
  | nil => exact ⟨_, by simp [renderFields, quote]; rfl⟩
  | cons field' fields => exact ⟨_, by simp [renderFields, quote]; rfl⟩

lemma takeArray_render {value : Parser χ} {items : List (Json χ)}
    (hvalue : Reads value (· ∈ items)) (rest : List χ) :
    takeArray value (renderItems items ++ lit ']' :: rest) = some (.arr items, rest) := by
  cases items with
  | nil => simp [takeArray, renderItems, skipSpace_lit (c := ']') (by decide)]
  | cons item items =>
    obtain ⟨tail, htail⟩ := exists_renderItems_cons item items
    obtain ⟨g, s, hs, hg, hclose⟩ := exists_render_eq_cons item
    have hfuel := length_le_renderItems (item :: items)
    have hitems := takeItems_render hvalue (by simp)
      (show _ ≤ (renderItems (item :: items) ++ lit ']' :: rest).length + 1 by
        simp only [List.length_append]; omega) rest
    have hcons : renderItems (item :: items) ++ lit ']' :: rest =
        g :: (s ++ tail ++ lit ']' :: rest) := by
      rw [htail, hs]
      simp
    unfold takeArray
    rw [hcons, skipSpace_cons hg]
    simp only [if_neg hclose]
    rw [← hcons, hitems]
    rfl

lemma takeObject_render {value : Parser χ} {fields : List (List χ × Json χ)}
    (hvalue : Reads value (· ∈ fields.map Prod.snd)) (rest : List χ) :
    takeObject value (renderFields fields ++ lit '\x7d' :: rest) = some (.obj fields, rest) := by
  cases fields with
  | nil => simp [takeObject, renderFields, skipSpace_lit (c := '\x7d') (by decide)]
  | cons field fields =>
    obtain ⟨tail, htail⟩ := exists_renderFields_cons field fields
    have hfuel := length_le_renderFields (field :: fields)
    have hfields := takeFields_render hvalue (by simp)
      (show _ ≤ (renderFields (field :: fields) ++ lit '\x7d' :: rest).length + 1 by
        simp only [List.length_append]; omega) rest
    have hcons : renderFields (field :: fields) ++ lit '\x7d' :: rest =
        lit '"' :: (tail ++ lit '\x7d' :: rest) := by
      rw [htail]
      simp
    unfold takeObject
    rw [hcons, skipSpace_lit isSpace_quote]
    simp only [chr_lit]
    rw [if_neg (by decide), ← hcons, hfields]
    rfl

lemma depth_le_depthItems {items : List (Json χ)} {j : Json χ} (h : j ∈ items) :
    depth j ≤ depthItems items := by
  induction items with
  | nil => simp at h
  | cons item items ih =>
    rcases List.mem_cons.mp h with rfl | h
    · exact le_max_left _ _
    · exact (ih h).trans (le_max_right _ _)

lemma depth_le_depthFields {fields : List (List χ × Json χ)} {j : Json χ}
    (h : j ∈ fields.map Prod.snd) : depth j ≤ depthFields fields := by
  induction fields with
  | nil => simp at h
  | cons field fields ih =>
    obtain ⟨key, item⟩ := field
    rcases List.mem_cons.mp h with rfl | h
    · exact le_max_left _ _
    · exact (ih h).trans (le_max_right _ _)

/-- One value, when `nested` reads back the values inside it. -/
lemma takeValue_render {nested : Option (Parser χ)} {j : Json χ} {rest : List χ}
    (hnested : ∀ n, depth j = n + 1 →
      ∃ value, nested = some value ∧ Reads value fun j => depth j ≤ n)
    (hrest : Ends rest) : takeValue nested (render j ++ rest) = some (j, rest) := by
  unfold takeValue
  rw [skipSpace_render]
  cases j with
  | null =>
    have h : (render .null : List χ) ++ rest = lit 'n' :: (Glyph.str "ull" ++ rest) := rfl
    simp [h, takeLiteral_str]
  | bool b =>
    cases b
    · have h : (render (.bool false) : List χ) ++ rest =
          lit 'f' :: (Glyph.str "alse" ++ rest) := rfl
      simp [h, takeLiteral_str]
    · have h : (render (.bool true) : List χ) ++ rest =
          lit 't' :: (Glyph.str "rue" ++ rest) := rfl
      simp [h, takeLiteral_str]
  | num n =>
    obtain ⟨g, s, hs, hg⟩ := n.exists_cons
    have hnum := takeNumLit_lexeme n hrest
    rw [hs] at hnum
    simp only [render, hs, List.cons_append] at hnum ⊢
    split
    case h_7 => exact hnum
    all_goals
      rename_i hchar
      rw [hchar] at hg
      simp at hg
  | str s =>
    have h : (render (.str s) : List χ) ++ rest =
        lit '"' :: (s.flatMap escape ++ lit '"' :: rest) := by
      simp [render, quote]
    rw [h]
    simp only [chr_lit, takeString_text, Option.map_some]
  | arr items =>
    obtain ⟨value, rfl, hvalue⟩ := hnested (depthItems items) rfl
    have h : (render (.arr items) : List χ) ++ rest =
        lit '[' :: (renderItems items ++ lit ']' :: rest) := by
      simp [render]
    rw [h]
    simp only [chr_lit, Option.bind_some]
    exact takeArray_render (fun j r hj hr => hvalue j r (depth_le_depthItems hj) hr) rest
  | obj fields =>
    obtain ⟨value, rfl, hvalue⟩ := hnested (depthFields fields) rfl
    have h : (render (.obj fields) : List χ) ++ rest =
        lit '\x7b' :: (renderFields fields ++ lit '\x7d' :: rest) := by
      simp [render]
    rw [h]
    simp only [chr_lit, Option.bind_some]
    exact takeObject_render (fun j r hj hr => hvalue j r (depth_le_depthFields hj) hr) rest

lemma parseValue_render (n : Nat) : Reads (parseValue (χ := χ) n) fun j => depth j ≤ n := by
  induction n with
  | zero =>
    intro j rest hj hrest
    exact takeValue_render (fun n hn => by omega) hrest
  | succ n ih =>
    intro j rest hj hrest
    exact takeValue_render
      (fun m hm => ⟨_, rfl, fun j r hj' hr => ih j r (by omega) hr⟩) hrest

/-- The text of a value parses to this value. -/
theorem parse_render (j : Json χ) (hj : depth j ≤ recursionLimit) :
    parse (render j) = some j := by
  have h := parseValue_render recursionLimit j [] hj ends_nil
  rw [List.append_nil] at h
  simp [parse, h, skipSpace]

end Json
