import RustyClaw.Library.JsonValue

/-!
# Words in texts

A *word* has none of the characters that a text is put together with, such as the quotes and the
commas of a JSON text.  So it stands in such a text only if it stands in one of its parts:
`Text.Lacks word` is kept by a separator between two texts, and by the rendering of JSON
(`Json.lacks_quote`, `Json.lacks_render_obj`, `Json.lacks_render_arr`).
-/

namespace Text

variable {α : Type*} {word front s t : List α} {c : α}

/-- The word does not stand in the text. -/
def Lacks (word s : List α) : Prop := ¬ word <:+: s

lemma Lacks.of_part (h : Lacks word s) (hts : t <:+: s) : Lacks word t := fun hword =>
  h (hword.trans hts)

/-- A text without the beginning of a word lacks the word. -/
lemma Lacks.of_front (h : Lacks front s) (hword : front <+: word) : Lacks word s := fun hs =>
  h (hword.isInfix.trans hs)

/-- A text lacks every word with a character that it does not have. -/
lemma lacks_of_not_mem (hword : c ∈ word) (hs : c ∉ s) : Lacks word s := fun h =>
  hs (h.subset hword)

/-- A word does not reach across a character that it does not have. -/
lemma Lacks.append_cons (hs : Lacks word s) (hc : c ∉ word) (ht : Lacks word t) :
    Lacks word (s ++ c :: t) := by
  intro h
  rcases List.infix_append_iff.mp h with hleft | hright | ⟨left, right, rfl, hleft, hright⟩
  · exact hs hleft
  · rcases List.infix_cons_iff.mp hright with hfirst | htail
    · rcases List.prefix_cons_iff.mp hfirst with rfl | ⟨rest, rfl, -⟩
      · exact hs List.nil_infix
      · exact hc List.mem_cons_self
    · exact ht htail
  · rcases List.prefix_cons_iff.mp hright with rfl | ⟨rest, rfl, -⟩
    · rw [List.append_nil] at hs
      exact hs hleft.isInfix
    · exact hc (List.mem_append_right _ List.mem_cons_self)

lemma Lacks.cons (hword : word ≠ []) (hc : c ∉ word) (h : Lacks word s) : Lacks word (c :: s) := by
  have hnil : Lacks word ([] : List α) := fun hempty => hword (List.infix_nil.mp hempty)
  exact hnil.append_cons hc h

lemma Lacks.concat (hword : word ≠ []) (h : Lacks word s) (hc : c ∉ word) :
    Lacks word (s ++ [c]) := by
  have hnil : Lacks word ([] : List α) := fun hempty => hword (List.infix_nil.mp hempty)
  exact h.append_cons hc hnil

/-- A word does not begin in a part without its first character. -/
lemma Lacks.append_left (hword : word ≠ []) (hs : ∀ c ∈ word.head?, c ∉ s) (h : Lacks word t) :
    Lacks word (s ++ t) := by
  induction s with
  | nil => exact h
  | cons d s ih =>
    intro hfound
    rcases List.infix_cons_iff.mp hfound with hfirst | htail
    · rcases List.prefix_cons_iff.mp hfirst with rfl | ⟨rest, rfl, -⟩
      · exact hword rfl
      · exact hs d rfl List.mem_cons_self
    · exact ih (fun c hc hmem => hs c hc (List.mem_cons_of_mem _ hmem)) htail

lemma lacks_iff_contains [DecidableEq α] (hword : word ≠ []) :
    Lacks word s ↔ contains word s = false := by
  rw [Lacks, ← contains_iff_infix hword, Bool.not_eq_true]

end Text

namespace Json

open Glyph Text

variable {word : List Char}

/-- The characters that stand around the parts of a JSON text. -/
def separators : List Char := ['"', '\\', '\x7b', '\x7d', '[', ']', ',', ':']

/-- A word that no part of a JSON text is put together with: it does not begin behind the
backslash of an escape either. -/
structure IsWord (word : List Char) : Prop where
  ne_nil : word ≠ []
  plain : ∀ c ∈ word, c ∉ separators
  first : ∀ c ∈ word.head?, ∀ d, c ∉ (escapeChar d).tail

lemma IsWord.not_mem {c : Char} (h : IsWord word) (hc : c ∈ separators) : c ∉ word := fun hmem =>
  h.plain c hmem hc

/-- A character is escaped behind a backslash, or stands for itself. -/
lemma escape_cases (c : Char) : escape c = [c] ∨ escape c = '\\' :: (escapeChar c).tail := by
  have hescape : escape c = escapeChar c := List.map_id' _
  rw [hescape]
  rcases escapeChar_cases c with ⟨d, -, h⟩ | ⟨-, h⟩ | ⟨-, -, -, h⟩
  · exact Or.inr (by rw [h]; rfl)
  · exact Or.inr (by rw [h]; rfl)
  · exact Or.inl h

/-- What begins an escaped text, and has no backslash, begins the text. -/
lemma front_of_escape {front s : List Char} (hfront : '\\' ∉ front)
    (h : front <+: s.flatMap escape) : front <+: s := by
  induction front generalizing s with
  | nil => exact List.nil_prefix
  | cons c front ih =>
    cases s with
    | nil => exact absurd (List.prefix_nil.mp h) (List.cons_ne_nil _ _)
    | cons d s =>
      rw [List.flatMap_cons] at h
      rcases escape_cases d with hd | hd
      · rw [hd] at h
        obtain ⟨rfl, hrest⟩ := List.cons_prefix_cons.mp h
        exact List.cons_prefix_cons.mpr
          ⟨rfl, ih (fun hmem => hfront (List.mem_cons_of_mem _ hmem)) hrest⟩
      · rw [hd] at h
        obtain ⟨rfl, -⟩ := List.cons_prefix_cons.mp h
        exact absurd List.mem_cons_self hfront

lemma lacks_escape (hword : IsWord word) {s : List Char} (h : Lacks word s) :
    Lacks word (s.flatMap escape) := by
  have hslash : '\\' ∉ word := hword.not_mem (by decide)
  induction s with
  | nil => exact h
  | cons d s ih =>
    have htail : Lacks word (s.flatMap escape) := ih (h.of_part (List.suffix_cons d s).isInfix)
    rw [List.flatMap_cons]
    rcases escape_cases d with hd | hd
    · intro hfound
      rw [hd] at hfound
      rcases List.infix_cons_iff.mp hfound with hfirst | hrest
      · refine h (front_of_escape hslash ?_).isInfix
        rw [List.flatMap_cons, hd]
        exact hfirst
      · exact htail hrest
    · rw [hd, List.cons_append]
      apply Lacks.cons hword.ne_nil hslash
      exact htail.append_left hword.ne_nil fun c hc => hword.first c hc d

lemma lacks_quote (hword : IsWord word) {s : List Char} (h : Lacks word s) :
    Lacks word (quote s) := by
  have hquote : '"' ∉ word := hword.not_mem (by decide)
  rw [quote, List.cons_append]
  exact Lacks.cons hword.ne_nil hquote ((lacks_escape hword h).concat hword.ne_nil hquote)

/-- The parts of an object are its keys and its values. -/
lemma lacks_render_obj (hword : IsWord word) {fields : List (List Char × Json Char)}
    (h : ∀ field ∈ fields, Lacks word field.1 ∧ Lacks word (render field.2)) :
    Lacks word (render (.obj fields)) := by
  have hnil : Lacks word ([] : List Char) := fun hempty => hword.ne_nil (List.infix_nil.mp hempty)
  have hfields : Lacks word (renderFields fields) := by
    induction fields with
    | nil => exact hnil
    | cons field fields ih =>
      obtain ⟨hkey, hvalue⟩ := h field List.mem_cons_self
      have hrest := ih fun other hother => h other (List.mem_cons_of_mem _ hother)
      have hfield : Lacks word (quote field.1 ++ ':' :: render field.2) :=
        (lacks_quote hword hkey).append_cons (hword.not_mem (by decide)) hvalue
      cases fields with
      | nil => exact hfield
      | cons other fields =>
        exact hfield.append_cons (hword.not_mem (by decide)) hrest
  rw [render, List.cons_append]
  exact Lacks.cons hword.ne_nil (hword.not_mem (by decide))
    (hfields.concat hword.ne_nil (hword.not_mem (by decide)))

lemma lacks_render_arr (hword : IsWord word) {items : List (Json Char)}
    (h : ∀ item ∈ items, Lacks word (render item)) : Lacks word (render (.arr items)) := by
  have hnil : Lacks word ([] : List Char) := fun hempty => hword.ne_nil (List.infix_nil.mp hempty)
  have hitems : Lacks word (renderItems items) := by
    induction items with
    | nil => exact hnil
    | cons item items ih =>
      have hitem := h item List.mem_cons_self
      have hrest := ih fun other hother => h other (List.mem_cons_of_mem _ hother)
      cases items with
      | nil => exact hitem
      | cons other items => exact hitem.append_cons (hword.not_mem (by decide)) hrest
  rw [render, List.cons_append]
  exact Lacks.cons hword.ne_nil (hword.not_mem (by decide))
    (hitems.concat hword.ne_nil (hword.not_mem (by decide)))

lemma lacks_render_objOf (hword : IsWord word) {fields : List (String × Json Char)}
    (h : ∀ field ∈ fields, Lacks word field.1.toList ∧ Lacks word (render field.2)) :
    Lacks word (render (objOf fields)) := by
  apply lacks_render_obj hword
  intro field hfield
  obtain ⟨other, hother, rfl⟩ := List.mem_map.mp hfield
  have hkey : (Glyph.str other.1 : List Char) = other.1.toList := str_char _
  exact ⟨hkey ▸ (h other hother).1, (h other hother).2⟩

end Json
