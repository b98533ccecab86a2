import RustyClaw.Library.JsonValue

/-!
# How long the text of a JSON value is

A text is written with at least as many characters as it has, and an object with at least as many
as any of its values.

When one field of an object is replaced, its text grows by what the new value takes more than the
old one.  This is said for every measure of texts that adds up (`measure_setField`), for a text
that goes into a string is measured by the escapes it is written with (`escapedLen`).
-/

namespace Json

open Glyph

variable {χ : Type} [Glyph χ]

lemma length_le_quote (s : List χ) : s.length ≤ (quote s).length := by
  have h := length_le_flatMap_escape s
  simp only [quote, List.length_append, List.length_cons]
  omega

lemma length_renderFields_cons (key : List χ) (value : Json χ) (fields : Fields χ) :
    (render value).length ≤ (renderFields ((key, value) :: fields)).length ∧
      (renderFields fields).length ≤ (renderFields ((key, value) :: fields)).length := by
  cases fields with
  | nil =>
    simp only [renderFields, List.length_append, List.length_cons, List.length_nil]
    omega
  | cons field fields =>
    simp only [renderFields, List.length_append, List.length_cons]
    omega

lemma length_render_le_renderFields {key : List χ} {value : Json χ} {fields : Fields χ}
    (h : (key, value) ∈ fields) : (render value).length ≤ (renderFields fields).length := by
  induction fields with
  | nil => exact absurd h List.not_mem_nil
  | cons field fields ih =>
    obtain ⟨key', value'⟩ := field
    obtain ⟨hvalue, hrest⟩ := length_renderFields_cons key' value' fields
    rcases List.mem_cons.mp h with heq | hmem
    · cases heq
      exact hvalue
    · exact (ih hmem).trans hrest

/-- An object is longer than a text in it. -/
lemma length_lt_render_obj {key text : List χ} {fields : Fields χ} (h : (key, .str text) ∈ fields) :
    text.length < (render (.obj fields)).length := by
  have hrender := length_render_le_renderFields h
  have htext := length_le_quote text
  simp only [render, List.length_append, List.length_cons] at hrender ⊢
  omega

lemma distinctKeys_map {fields : List (String × Json χ)} (h : (fields.map Prod.fst).Nodup) :
    DistinctKeys (fields.map fun field => (Glyph.str (χ := χ) field.1, field.2)) := by
  have hmap : (fields.map fun field => (Glyph.str (χ := χ) field.1, field.2)).map
      (fun field => chars field.1) = (fields.map Prod.fst).map String.toList := by
    simp [List.map_map, Function.comp_def, str_char]
  rw [DistinctKeys, hmap]
  exact List.Nodup.map (fun a b hab => String.ext hab) h

/-- What an object is made from is in it. -/
lemma mem_object {key : String} {value : Json χ} {fields : List (String × Json χ)}
    (hkeys : (fields.map Prod.fst).Nodup) (h : (key, value) ∈ fields) :
    ∃ sorted, (Value.object fields).json = .obj sorted ∧
      (Glyph.str key, normalize value) ∈ sorted := by
  refine ⟨normalizeFields [] (fields.map fun field => (Glyph.str field.1, field.2)), rfl, ?_⟩
  have hperm := normalizeFields_perm (show DistinctKeys ([] ++ _) from distinctKeys_map hkeys)
  rw [hperm.mem_iff, List.nil_append, List.map_map]
  exact List.mem_map.mpr ⟨(key, value), h, rfl⟩

/-! ## Measures that add up -/

/-- The measure of a text is the sum of the measures of its pieces. -/
def AddsUp (μ : List χ → Nat) : Prop := ∀ s t, μ (s ++ t) = μ s + μ t

/-- The bytes between the quotes of a string. -/
def escapedLen (s : List χ) : Nat := utf8Len (s.flatMap escape)

/-- The bytes of a text in a string of a text that is itself in a string. -/
def nestedLen (s : List χ) : Nat := escapedLen (s.flatMap escape)

omit [Glyph χ] in
lemma addsUp_length : AddsUp (List.length : List χ → Nat) := fun _ _ => List.length_append

lemma addsUp_utf8Len : AddsUp (utf8Len : List χ → Nat) := utf8Len_append

omit [Glyph χ] in
lemma AddsUp.flatMap {μ : List χ → Nat} (hμ : AddsUp μ) (f : χ → List χ) :
    AddsUp fun s => μ (s.flatMap f) := by
  intro s t
  dsimp only
  rw [List.flatMap_append, hμ]

lemma addsUp_escapedLen : AddsUp (escapedLen : List χ → Nat) := addsUp_utf8Len.flatMap escape

lemma addsUp_nestedLen : AddsUp (nestedLen : List χ → Nat) := addsUp_escapedLen.flatMap escape

lemma utf8Len_eq (s : List χ) : utf8Len s = ((chars s).map Char.utf8Size).sum := by
  rw [utf8Len, chars, List.map_map]
  rfl

lemma utf8Len_str (literal : String) :
    utf8Len (Glyph.str literal : List χ) = (literal.toList.map Char.utf8Size).sum := by
  rw [utf8Len_eq, chars_str, str_char]

lemma escapedLen_str (literal : String) : escapedLen (Glyph.str literal : List χ) =
    ((literal.toList.flatMap escapeChar).map Char.utf8Size).sum := by
  rw [escapedLen, utf8Len_eq, chars_flatMap_escape, chars_str, str_char]

lemma utf8Len_render_str (s : List χ) : utf8Len (render (.str s)) = escapedLen s + 2 := by
  have hquote : utf8Len ([lit '"'] : List χ) = 1 := by
    rw [utf8Len, List.map_singleton, chr_lit]
    rfl
  rw [render, quote, ← List.singleton_append, addsUp_utf8Len, addsUp_utf8Len, hquote, escapedLen]
  omega

lemma escapedLen_render_str (s : List χ) : escapedLen (render (.str s)) = nestedLen s + 4 := by
  have hquote : escapedLen ([lit '"'] : List χ) = 2 := by
    rw [escapedLen, List.flatMap_singleton, escape, chr_lit]
    simp only [escapeChar, utf8Len, List.map_map, if_true, List.map_cons, chr_withChr]
    rfl
  rw [render, quote, ← List.singleton_append, addsUp_escapedLen, addsUp_escapedLen, hquote, nestedLen]
  omega

/-! ## Replacing a field -/

lemma measure_renderFields_cons {μ : List χ → Nat} (hμ : AddsUp μ) (key : List χ) (value : Json χ)
    (fields : Fields χ) : μ (renderFields ((key, value) :: fields)) =
      μ (quote key ++ [lit ':']) + μ (render value) +
        if fields.isEmpty then 0 else μ [lit ','] + μ (renderFields fields) := by
  cases fields with
  | nil =>
    rw [renderFields, ← hμ, List.append_assoc]
    rfl
  | cons field fields =>
    rw [renderFields, ← hμ, ← hμ, List.isEmpty_cons, if_neg Bool.false_ne_true, ← hμ]
    · simp only [List.append_assoc, List.cons_append, List.nil_append]
    · exact List.cons_ne_nil _ _

lemma setField_of_filter {key : String} {fields : Fields χ} (h : fields.filter (hasKey key) = [])
    (value : Json χ) : setField key value fields = fields := by
  refine (List.map_congr_left fun field hmem => if_neg ?_).trans (List.map_id' fields)
  exact List.filter_eq_nil_iff.mp h field hmem

lemma measure_renderFields_setField {μ : List χ → Nat} (hμ : AddsUp μ) {key : String}
    {field : List χ × Json χ} {fields : Fields χ} (h : fields.filter (hasKey key) = [field])
    (value : Json χ) : μ (renderFields (setField key value fields)) + μ (render field.2) =
      μ (renderFields fields) + μ (render value) := by
  induction fields with
  | nil => cases h
  | cons field' fields ih =>
    have hempty : (setField key value fields).isEmpty = fields.isEmpty := List.isEmpty_map
    rw [setField, List.map_cons, ← setField, measure_renderFields_cons hμ field'.1 field'.2]
    by_cases hkey : hasKey key field' = true
    · rw [List.filter_cons_of_pos hkey, List.cons.injEq] at h
      obtain ⟨rfl, hrest⟩ := h
      rw [if_pos hkey, setField_of_filter hrest, measure_renderFields_cons hμ]
      omega
    · rw [List.filter_cons_of_neg hkey] at h
      have hrest := ih h
      have hsome : fields.isEmpty = false := by
        rw [List.isEmpty_eq_false_iff]
        rintro rfl
        cases h
      rw [if_neg hkey, measure_renderFields_cons hμ field'.1 field'.2, hempty, hsome,
        if_neg Bool.false_ne_true, if_neg Bool.false_ne_true]
      omega

/-- Replacing the value of a field that is there once. -/
lemma measure_setField {μ : List χ → Nat} (hμ : AddsUp μ) {key : String} {old : Json χ}
    {fields : Fields χ} (h : takeField key fields = some (some old)) (value : Json χ) :
    μ (render (.obj (setField key value fields))) + μ (render old) =
      μ (render (.obj fields)) + μ (render value) := by
  have hobj : ∀ fields : Fields χ, μ (render (.obj fields)) =
      μ [lit '\x7b'] + μ (renderFields fields) + μ [lit '\x7d'] := by
    intro fields
    rw [render, ← List.singleton_append, hμ, hμ]
  unfold takeField at h
  split at h
  · cases h
  · rename_i field hfilter
    cases h
    have hfields := measure_renderFields_setField hμ hfilter value
    rw [hobj, hobj]
    omega
  · cases h

end Json
