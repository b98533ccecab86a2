import Mathlib.Algebra.GroupWithZero.Nat
import RustyClaw.Library.Text

/-!
# Characters with labels

A *glyph* is a character that may carry a label.  A function on texts that only looks at the
characters and copies glyphs is written once for every glyph type; run on plain characters it
is the program, and run on labelled characters the labels tell where each character of its
output comes from.  Text that a program writes itself has the glyphs `Glyph.lit c`.

A property of glyphs that holds of everything a program writes itself and that does not depend on
the character (`Stable`) is kept by such functions: `All P s` says that it holds throughout `s`.
-/

class Glyph (χ : Type) where
  chr : χ → Char
  lit : Char → χ
  /-- Another character in the place of this one, with the same label. -/
  withChr : χ → Char → χ
  chr_lit : ∀ c, chr (lit c) = c
  chr_withChr : ∀ g c, chr (withChr g c) = c
  withChr_withChr : ∀ g c d, withChr (withChr g c) d = withChr g d
  withChr_chr : ∀ g, withChr g (chr g) = g

namespace Glyph

attribute [simp] chr_lit chr_withChr withChr_withChr withChr_chr

instance : Glyph Char where
  chr := id
  lit := id
  withChr _ c := c
  chr_lit _ := rfl
  chr_withChr _ _ := rfl
  withChr_withChr _ _ _ := rfl
  withChr_chr _ := rfl

/-- Characters labelled by a Boolean; what a program writes itself is labelled `false`. -/
instance : Glyph (Char × Bool) where
  chr := Prod.fst
  lit c := (c, false)
  withChr g c := (c, g.2)
  chr_lit _ := rfl
  chr_withChr _ _ := rfl
  withChr_withChr _ _ _ := rfl
  withChr_chr _ := rfl

section All

variable {χ : Type}

def All (P : χ → Prop) (s : List χ) : Prop := ∀ g ∈ s, P g

variable {P : χ → Prop} {s t : List χ}

@[simp] lemma all_nil : All P [] := by simp [All]

@[simp] lemma all_cons {g : χ} : All P (g :: s) ↔ P g ∧ All P s := List.forall_mem_cons

@[simp] lemma all_append : All P (s ++ t) ↔ All P s ∧ All P t := List.forall_mem_append

lemma All.sublist (h : All P s) (hst : t.Sublist s) : All P t := fun g hg => h g (hst.subset hg)

lemma All.take (h : All P s) (n : Nat) : All P (s.take n) := h.sublist (List.take_sublist n s)

lemma All.drop (h : All P s) (n : Nat) : All P (s.drop n) := h.sublist (List.drop_sublist n s)

lemma all_intercalate {texts : List (List χ)} (hs : All P s) (h : ∀ text ∈ texts, All P text) :
    All P (s.intercalate texts) := by
  induction texts with
  | nil => simp [List.intercalate]
  | cons text texts ih =>
    have htail := ih fun text' hmem => h text' (List.mem_cons_of_mem _ hmem)
    cases texts with
    | nil => simpa [List.intercalate] using h text List.mem_cons_self
    | cons text' texts =>
      rw [List.intercalate_cons_cons, all_append, all_append]
      exact ⟨⟨h text List.mem_cons_self, hs⟩, htail⟩

end All

variable {χ : Type} [Glyph χ]

/-- The characters of a text. -/
def chars (s : List χ) : List Char := s.map chr

/-- A literal of the program. -/
def str (literal : String) : List χ := literal.toList.map lit

@[simp] lemma chars_nil : chars ([] : List χ) = [] := rfl

@[simp] lemma chars_cons (g : χ) (s : List χ) : chars (g :: s) = chr g :: chars s := rfl

@[simp] lemma chars_append (s t : List χ) : chars (s ++ t) = chars s ++ chars t :=
  List.map_append

@[simp] lemma length_chars (s : List χ) : (chars s).length = s.length := List.length_map _

lemma chars_take (s : List χ) (n : Nat) : chars (s.take n) = (chars s).take n :=
  List.map_take

lemma chars_drop (s : List χ) (n : Nat) : chars (s.drop n) = (chars s).drop n :=
  List.map_drop

lemma str_char (literal : String) : (str literal : List Char) = literal.toList :=
  List.map_id _

/-- On plain characters a literal is itself. -/
@[simp] lemma chars_str (literal : String) :
    chars (str literal : List χ) = (str literal : List Char) := by
  rw [str_char]
  simp only [chars, str, List.map_map]
  exact (List.map_congr_left fun c _ => chr_lit c).trans (List.map_id _)

@[simp] lemma chars_char (s : List Char) : chars s = s := List.map_id s

lemma str_append (literal literal' : String) :
    (str (literal ++ literal') : List χ) = str literal ++ str literal' := by
  simp [str]

@[simp] lemma length_str (literal : String) : (str literal : List χ).length = literal.length := by
  rw [str, List.length_map, String.length_toList]

lemma getElem?_chars (s : List χ) (i : Nat) : (chars s)[i]? = s[i]?.map chr :=
  List.getElem?_map

/-- The digits of a number are digits. -/
lemma isDigit_of_mem_digits {n : Nat} {g : χ} (h : g ∈ (Nat.toDigits 10 n).map lit) :
    (chr g).isDigit = true := by
  obtain ⟨c, hc, rfl⟩ := List.mem_map.mp h
  rw [chr_lit]
  exact Text.isDigit_toDigits hc

/-- The characters with the Unicode property `White_Space`. -/
def isWhitespace (c : Char) : Bool :=
  (9 ≤ c.toNat && c.toNat ≤ 13) || c.toNat = 32 || c.toNat = 0x85 || c.toNat = 0xA0 ||
    c.toNat = 0x1680 || (0x2000 ≤ c.toNat && c.toNat ≤ 0x200A) || c.toNat = 0x2028 ||
    c.toNat = 0x2029 || c.toNat = 0x202F || c.toNat = 0x205F || c.toNat = 0x3000

/-- `str::trim`. -/
def trim (s : List χ) : List χ := Text.trim (fun g => isWhitespace (chr g)) s

/-- `str::len`, the length in bytes. -/
def utf8Len (s : List χ) : Nat := (s.map fun g => (chr g).utf8Size).sum

lemma utf8Len_append (s t : List χ) : utf8Len (s ++ t) = utf8Len s + utf8Len t := by
  rw [utf8Len, List.map_append, List.sum_append]
  rfl

/-- `slice::join`. -/
def join (separator : String) (texts : List (List χ)) : List χ :=
  (str separator).intercalate texts

/-- A line without the carriage return in front of its newline. -/
def dropReturn (line : List χ) : List χ :=
  match line.getLast? with
  | some g => if chr g = '\r' then line.dropLast else line
  | none => line

/-- The lines of a text of which `line` has been read already. -/
def linesFrom (line : List χ) : List χ → List (List χ)
  | [] => if line.isEmpty then [] else [line]
  | g :: s => if chr g = '\n' then dropReturn line :: linesFrom [] s else linesFrom (line ++ [g]) s

/-- `str::lines`. -/
def lines (s : List χ) : List (List χ) := linesFrom [] s

lemma linesFrom_line {line read rest : List χ} {g : χ} (hline : ∀ g' ∈ line, chr g' ≠ '\n')
    (hg : chr g = '\n') :
    linesFrom read (line ++ g :: rest) = dropReturn (read ++ line) :: linesFrom [] rest := by
  induction line generalizing read with
  | nil => rw [List.nil_append, linesFrom, if_pos hg, List.append_nil]
  | cons g' line ih =>
    rw [List.cons_append, linesFrom, if_neg (hline g' List.mem_cons_self),
      ih fun g'' hg'' => hline g'' (List.mem_cons_of_mem _ hg''), List.append_assoc]
    rfl

/-- The lines of a text that was written line by line. -/
lemma lines_flatMap {texts : List (List χ)} (h : ∀ text ∈ texts, ∀ g ∈ text, chr g ≠ '\n') :
    lines (texts.flatMap fun text => text ++ [lit '\n']) = texts.map dropReturn := by
  unfold lines
  induction texts with
  | nil => rfl
  | cons text texts ih =>
    rw [List.flatMap_cons, List.append_assoc, List.singleton_append,
      linesFrom_line (h text List.mem_cons_self) (chr_lit '\n'), List.nil_append,
      ih fun text' hmem => h text' (List.mem_cons_of_mem _ hmem), List.map_cons]

/-! ## What holds of every glyph -/

/-- `P` says nothing about the character of a glyph, and holds of what a program writes. -/
class Stable (P : χ → Prop) : Prop where
  lit : ∀ c, P (lit c)
  withChr : ∀ g c, P g → P (withChr g c)

/-- The glyphs without a label. -/
def Unlabelled (g : Char × Bool) : Prop := g.2 = false

instance : Stable Unlabelled where
  lit _ := rfl
  withChr _ _ h := h

instance : DecidablePred Unlabelled := fun g => inferInstanceAs (Decidable (g.2 = false))

variable {P : χ → Prop} {s : List χ}

lemma All.trim (h : All P s) : All P (trim s) :=
  h.sublist (Text.trim_sublist _ s)

lemma all_lit [Stable P] (c : Char) : P (lit c) := Stable.lit c

@[simp] lemma all_str [Stable P] (literal : String) : All P (str literal) := by
  simp [All, str, all_lit]

lemma all_join [Stable P] {separator : String} {texts : List (List χ)}
    (h : ∀ text ∈ texts, All P text) : All P (join separator texts) :=
  all_intercalate (all_str separator) h

lemma All.linesFrom {line : List χ} (hline : All P line) (h : All P s) :
    ∀ text ∈ linesFrom line s, All P text := by
  induction s generalizing line with
  | nil =>
    intro text hmem
    simp only [Glyph.linesFrom] at hmem
    split_ifs at hmem with hempty
    · simp at hmem
    · rw [List.mem_singleton] at hmem
      exact hmem ▸ hline
  | cons g s ih =>
    obtain ⟨hg, hs⟩ := all_cons.mp h
    intro text hmem
    simp only [Glyph.linesFrom] at hmem
    split_ifs at hmem with hnewline
    · rcases List.mem_cons.mp hmem with rfl | hmem
      · unfold dropReturn
        split
        · split_ifs
          · exact hline.sublist (List.dropLast_sublist line)
          · exact hline
        · exact hline
      · exact ih all_nil hs text hmem
    · exact ih (all_append.mpr ⟨hline, by simpa using hg⟩) hs text hmem

lemma All.lines (h : All P s) : ∀ text ∈ lines s, All P text := All.linesFrom all_nil h

end Glyph
