import RustyClaw.Library.Json

/-!
# JSON texts for people

`pretty` writes a value with one item or field on a line, each line indented by two spaces for
every array and object that is open; an empty array or object stays on its line.  The parser
does not care: `parse_pretty` is the round trip of `Json.lean` for this layout.

The layout differs from the compact one only by white space in front of an item, a field, a value
and a closing bracket, so the proofs follow those of `Json.lean`, with a parser for the nested
values that may have to skip white space first (`ReadsPretty`).
-/

namespace Json

open Glyph

variable {χ : Type} [Glyph χ]

/-! ## The layout -/

/-- The end of a line and the indentation of the next one. -/
def newline (level : Nat) : List χ := lit '\n' :: List.replicate (2 * level) (lit ' ')

/-- What stands in front of a closing bracket. -/
def closing {α : Type} (level : Nat) (items : List α) : List χ :=
  if items.isEmpty then [] else newline level

mutual

/-- The text of a value that starts inside `level` arrays and objects. -/
def pretty (level : Nat) : Json χ → List χ
  | .arr items =>
    lit '[' :: prettyItems (level + 1) items ++ closing level items ++ [lit ']']
  | .obj fields =>
    lit '\x7b' :: prettyFields (level + 1) fields ++ closing level fields ++ [lit '\x7d']
  | j => render j

def prettyItems (level : Nat) : List (Json χ) → List χ
  | [] => []
  | [item] => newline level ++ pretty level item
  | item :: items => newline level ++ pretty level item ++ lit ',' :: prettyItems level items

def prettyFields (level : Nat) : List (List χ × Json χ) → List χ
  | [] => []
  | [(key, value)] => newline level ++ quote key ++ lit ':' :: lit ' ' :: pretty level value
  | (key, value) :: fields =>
    newline level ++ quote key ++ lit ':' :: lit ' ' :: pretty level value ++
      lit ',' :: prettyFields level fields

end

/-! ## White space -/

/-- Nothing but white space. -/
def Blank (s : List χ) : Prop := ∀ g ∈ s, isSpace (chr g) = true

lemma blank_nil : Blank ([] : List χ) := by
  intro g hg
  cases hg

lemma blank_space : Blank [(lit ' ' : χ)] := by
  intro g hg
  rw [List.mem_singleton.mp hg, chr_lit]
  rfl

lemma blank_newline (level : Nat) : Blank (newline level : List χ) := by
  intro g hg
  rcases List.mem_cons.mp hg with rfl | hg
  · rw [chr_lit]
    rfl
  · rw [List.eq_of_mem_replicate hg, chr_lit]
    rfl

lemma blank_closing {α : Type} (level : Nat) (items : List α) :
    Blank (closing level items : List χ) := by
  unfold closing
  by_cases h : items.isEmpty
  · rw [if_pos h]
    exact blank_nil
  · rw [if_neg h]
    exact blank_newline level

lemma skipSpace_blank {blank : List χ} (hblank : Blank blank) (s : List χ) :
    skipSpace (blank ++ s) = skipSpace s := by
  induction blank with
  | nil => rfl
  | cons g blank ih =>
    have htail := ih fun g' hmem => hblank g' (List.mem_cons_of_mem _ hmem)
    have hg := hblank g List.mem_cons_self
    have hskip : skipSpace (g :: (blank ++ s)) = skipSpace (blank ++ s) :=
      List.dropWhile_cons_of_pos (p := fun g => isSpace (chr g)) hg
    rw [List.cons_append, hskip, htail]

lemma not_isNumberChar_of_isSpace {c : Char} (h : isSpace c = true) : isNumberChar c = false := by
  simp only [isSpace, Bool.or_eq_true, decide_eq_true_eq] at h
  rcases h with ((rfl | rfl) | rfl) | rfl <;> decide

/-- A number ends where white space or a closing bracket stands. -/
lemma ends_blank {blank : List χ} (hblank : Blank blank) {c : Char} (hc : isNumberChar c = false)
    (rest : List χ) : Ends (blank ++ lit c :: rest) := by
  cases blank with
  | nil => exact ends_lit hc
  | cons g blank => simp [Ends, not_isNumberChar_of_isSpace (hblank g List.mem_cons_self)]

/-! ## The round trip -/

/-- `value` reads back the text of each value that satisfies `P`, white space before it or
not. -/
def ReadsPretty (level : Nat) (value : Parser χ) (P : Json χ → Prop) : Prop :=
  ∀ j blank rest, P j → Blank blank → Ends rest →
    value (blank ++ (pretty level j ++ rest)) = some (j, rest)

lemma takeItems_pretty {level : Nat} {value : Parser χ} {items : List (Json χ)}
    (hvalue : ReadsPretty level value (· ∈ items)) (hne : items ≠ []) {fuel : Nat}
    (hfuel : items.length ≤ fuel) {blank : List χ} (hblank : Blank blank) (rest : List χ) :
    takeItems value fuel (prettyItems level items ++ (blank ++ lit ']' :: rest)) =
      some (items, rest) := by
  induction items generalizing fuel with
  | nil => exact absurd rfl hne
  | cons item items ih =>
    obtain ⟨fuel, rfl⟩ := Nat.exists_eq_succ_of_ne_zero (by simp at hfuel; omega : fuel ≠ 0)
    cases items with
    | nil =>
      have hread := hvalue item (newline level) (blank ++ lit ']' :: rest) (by simp)
        (blank_newline level) (ends_blank hblank (by decide) rest)
      rw [← List.append_assoc] at hread
      rw [prettyItems, Nat.succ_eq_add_one, takeItems, hread]
      simp [skipSpace_blank hblank, skipSpace_lit (c := ']') (by decide)]
    | cons item' items =>
      have hread := hvalue item (newline level)
        (lit ',' :: (prettyItems level (item' :: items) ++ (blank ++ lit ']' :: rest)))
        (by simp) (blank_newline level) (ends_lit (by decide))
      have htail := ih (fun j b r hj hb hr => hvalue j b r (List.mem_cons_of_mem _ hj) hb hr)
        (by simp) (show _ ≤ fuel by simpa using hfuel)
      have htext : prettyItems level (item :: item' :: items) ++ (blank ++ lit ']' :: rest) =
          newline level ++ (pretty level item ++
            lit ',' :: (prettyItems level (item' :: items) ++ (blank ++ lit ']' :: rest))) := by
        simp [prettyItems]
      rw [htext, Nat.succ_eq_add_one, takeItems, hread]
      simp [skipSpace_lit (c := ',') (by decide), htail]

/-- What `takeFields` does after the value of a field. -/
def takeFieldRest (value : Parser χ) (fuel : Nat) (key : List χ) (p : Json χ × List χ) :
    Option (List (List χ × Json χ) × List χ) :=
  match skipSpace p.2 with
  | [] => none
  | g :: s =>
    if chr g = ',' then (takeFields value fuel s).map fun q => ((key, p.1) :: q.1, q.2)
    else if chr g = '\x7d' then some ([(key, p.1)], s)
    else none

/-- The key, the colon and the space of a field are read in the same way whatever follows. -/
lemma takeFields_key (level : Nat) (value : Parser χ) (fuel : Nat) (key : List χ) (item : Json χ)
    (tail : List χ) :
    takeFields value (fuel + 1)
        (newline level ++ (quote key ++ lit ':' :: ([lit ' '] ++ (pretty level item ++ tail)))) =
      (value ([lit ' '] ++ (pretty level item ++ tail))).bind
        (takeFieldRest value fuel key) := by
  have hquote : quote key ++ lit ':' :: ([lit ' '] ++ (pretty level item ++ tail)) =
      lit '"' :: (key.flatMap escape ++
        lit '"' :: (lit ':' :: ([lit ' '] ++ (pretty level item ++ tail)))) := by
    simp [quote]
  rw [hquote, takeFields, skipSpace_blank (blank_newline level), skipSpace_lit (by decide)]
  simp only [chr_lit, if_true, takeString_text, Option.bind_eq_bind, Option.bind_some,
    skipSpace_lit (c := ':') (by decide)]
  rfl

lemma takeFields_pretty {level : Nat} {value : Parser χ} {fields : List (List χ × Json χ)}
    (hvalue : ReadsPretty level value (· ∈ fields.map Prod.snd)) (hne : fields ≠ []) {fuel : Nat}
    (hfuel : fields.length ≤ fuel) {blank : List χ} (hblank : Blank blank) (rest : List χ) :
    takeFields value fuel (prettyFields level fields ++ (blank ++ lit '\x7d' :: rest)) =
      some (fields, rest) := by
  induction fields generalizing fuel with
  | nil => exact absurd rfl hne
  | cons field fields ih =>
    obtain ⟨key, item⟩ := field
    obtain ⟨fuel, rfl⟩ := Nat.exists_eq_succ_of_ne_zero (by simp at hfuel; omega : fuel ≠ 0)
    cases fields with
    | nil =>
      have hread := hvalue item [lit ' '] (blank ++ lit '\x7d' :: rest) (by simp) blank_space
        (ends_blank hblank (by decide) rest)
      have htext : prettyFields level [(key, item)] ++ (blank ++ lit '\x7d' :: rest) =
          newline level ++ (quote key ++ lit ':' ::
            ([lit ' '] ++ (pretty level item ++ (blank ++ lit '\x7d' :: rest)))) := by
        simp [prettyFields]
      rw [htext, Nat.succ_eq_add_one, takeFields_key, hread]
      simp [takeFieldRest, skipSpace_blank hblank, skipSpace_lit (c := '\x7d') (by decide)]
    | cons field' fields =>
      have hread := hvalue item [lit ' ']
        (lit ',' :: (prettyFields level (field' :: fields) ++ (blank ++ lit '\x7d' :: rest)))
        (by simp) blank_space (ends_lit (by decide))
      have htail := ih
        (fun j b r hj hb hr => hvalue j b r (List.mem_cons_of_mem _ hj) hb hr) (by simp)
        (show _ ≤ fuel by simpa using hfuel)
      have htext : prettyFields level ((key, item) :: field' :: fields) ++
            (blank ++ lit '\x7d' :: rest) =
          newline level ++ (quote key ++ lit ':' :: ([lit ' '] ++ (pretty level item ++
            lit ',' :: (prettyFields level (field' :: fields) ++
              (blank ++ lit '\x7d' :: rest))))) := by
        simp [prettyFields]
      rw [htext, Nat.succ_eq_add_one, takeFields_key, hread]
      simp [takeFieldRest, skipSpace_lit (c := ',') (by decide), htail]

lemma length_le_prettyItems (level : Nat) (items : List (Json χ)) :
    items.length ≤ (prettyItems level items).length := by
  induction items with
  | nil => simp
  | cons item items ih =>
    cases items with
    | nil => simp [prettyItems, newline]
    | cons item' items =>
      simp only [prettyItems, List.length_append, List.length_cons] at ih ⊢
      omega

lemma length_le_prettyFields (level : Nat) (fields : List (List χ × Json χ)) :
    fields.length ≤ (prettyFields level fields).length := by
  induction fields with
  | nil => simp
  | cons field fields ih =>
    obtain ⟨key, item⟩ := field
    cases fields with
    | nil => simp [prettyFields, newline]
    | cons field' fields =>
      simp only [prettyFields, List.length_append, List.length_cons] at ih ⊢
      omega

/-- The text of a value starts with a character that is neither white space nor a bracket that
closes an array. -/
lemma exists_pretty_eq_cons (level : Nat) (j : Json χ) :
    ∃ g s, pretty level j = g :: s ∧ isSpace (chr g) = false ∧ chr g ≠ ']' := by
  cases j with
  | arr items => exact ⟨lit '[', _, by rw [pretty]; rfl, by simp [isSpace], by simp⟩
  | obj fields => exact ⟨lit '\x7b', _, by rw [pretty]; rfl, by simp [isSpace], by simp⟩
  | null => exact exists_render_eq_cons .null
  | bool b => exact exists_render_eq_cons (.bool b)
  | num n => exact exists_render_eq_cons (.num n)
  | str s => exact exists_render_eq_cons (.str s)

/-- The first item of an array stands on the first line of the text of its items. -/
lemma exists_prettyItems_cons (level : Nat) (item : Json χ) (items : List (Json χ)) :
    ∃ tail, prettyItems level (item :: items) = newline level ++ (pretty level item ++ tail) := by
  cases items with
  | nil => exact ⟨[], by simp [prettyItems]⟩
  | cons item' items => exact ⟨_, by rw [prettyItems, List.append_assoc]; simp⟩

/-- The text of a nonempty list of fields starts with a line that starts with a quote. -/
lemma exists_prettyFields_cons (level : Nat) (field : List χ × Json χ)
    (fields : List (List χ × Json χ)) :
    ∃ tail, prettyFields level (field :: fields) = newline level ++ lit '"' :: tail := by
  obtain ⟨key, item⟩ := field
  cases fields with
  | nil => exact ⟨_, by simp [prettyFields, quote]; rfl⟩
  | cons field' fields => exact ⟨_, by simp [prettyFields, quote]; rfl⟩

lemma takeArray_pretty {level : Nat} {value : Parser χ} {items : List (Json χ)}
    (hvalue : ReadsPretty (level + 1) value (· ∈ items)) (rest : List χ) :
    takeArray value (prettyItems (level + 1) items ++ (closing level items ++ lit ']' :: rest)) =
      some (.arr items, rest) := by
  cases items with
  | nil => simp [takeArray, prettyItems, closing, skipSpace_lit (c := ']') (by decide)]
  | cons item items =>
    obtain ⟨tail, htail⟩ := exists_prettyItems_cons (level + 1) item items
    obtain ⟨g, s, hs, hg, hclose⟩ := exists_pretty_eq_cons (level + 1) item
    have hfuel := length_le_prettyItems (level + 1) (item :: items)
    have hitems := takeItems_pretty hvalue (by simp)
      (show _ ≤ (prettyItems (level + 1) (item :: items) ++
          (closing level (item :: items) ++ lit ']' :: rest)).length + 1 by
        simp only [List.length_append]; omega) (blank_closing level (item :: items)) rest
    have hskip : skipSpace (prettyItems (level + 1) (item :: items) ++
        (closing level (item :: items) ++ lit ']' :: rest)) =
          g :: (s ++ (tail ++ (closing level (item :: items) ++ lit ']' :: rest))) := by
      rw [htail, hs, List.append_assoc, skipSpace_blank (blank_newline _)]
      simp only [List.cons_append, List.append_assoc]
      exact skipSpace_cons hg
    unfold takeArray
    rw [hskip]
    simp only [if_neg hclose]
    rw [hitems]
    rfl

lemma takeObject_pretty {level : Nat} {value : Parser χ} {fields : List (List χ × Json χ)}
    (hvalue : ReadsPretty (level + 1) value (· ∈ fields.map Prod.snd)) (rest : List χ) :
    takeObject value (prettyFields (level + 1) fields ++
      (closing level fields ++ lit '\x7d' :: rest)) = some (.obj fields, rest) := by
  cases fields with
  | nil => simp [takeObject, prettyFields, closing, skipSpace_lit (c := '\x7d') (by decide)]
  | cons field fields =>
    obtain ⟨tail, htail⟩ := exists_prettyFields_cons (level + 1) field fields
    have hfuel := length_le_prettyFields (level + 1) (field :: fields)
    have hfields := takeFields_pretty hvalue (by simp)
      (show _ ≤ (prettyFields (level + 1) (field :: fields) ++
          (closing level (field :: fields) ++ lit '\x7d' :: rest)).length + 1 by
        simp only [List.length_append]; omega) (blank_closing level (field :: fields)) rest
    have hskip : skipSpace (prettyFields (level + 1) (field :: fields) ++
        (closing level (field :: fields) ++ lit '\x7d' :: rest)) =
          lit '"' :: (tail ++ (closing level (field :: fields) ++ lit '\x7d' :: rest)) := by
      rw [htail, List.append_assoc, skipSpace_blank (blank_newline _)]
      exact skipSpace_lit isSpace_quote
    unfold takeObject
    rw [hskip]
    simp only [chr_lit]
    rw [if_neg (by decide), hfields]
    rfl

/-- Where no array or object is opened the two layouts agree. -/
lemma pretty_eq_render {level : Nat} {j : Json χ} (h : depth j = 0) : pretty level j = render j := by
  cases j with
  | arr items => simp [depth] at h
  | obj fields => simp [depth] at h
  | null => rfl
  | bool b => rfl
  | num n => rfl
  | str s => rfl

/-- One value, when `nested` reads back the values inside it. -/
lemma takeValue_pretty {level : Nat} {nested : Option (Parser χ)} {j : Json χ}
    {blank rest : List χ}
    (hnested : ∀ n, depth j = n + 1 →
      ∃ value, nested = some value ∧ ReadsPretty (level + 1) value fun j => depth j ≤ n)
    (hblank : Blank blank) (hrest : Ends rest) :
    takeValue nested (blank ++ (pretty level j ++ rest)) = some (j, rest) := by
  have hskip : takeValue nested (blank ++ (pretty level j ++ rest)) =
      takeValue nested (pretty level j ++ rest) := by
    unfold takeValue
    rw [skipSpace_blank hblank]
  rw [hskip]
  cases hdepth : depth j with
  | zero =>
    rw [pretty_eq_render hdepth]
    exact takeValue_render (fun n hn => by omega) hrest
  | succ n =>
    obtain ⟨value, rfl, hvalue⟩ := hnested n hdepth
    cases j with
    | arr items =>
      have hn : depthItems items = n := by simpa [depth] using hdepth
      have h : (pretty level (.arr items) : List χ) ++ rest = lit '[' ::
          (prettyItems (level + 1) items ++ (closing level items ++ lit ']' :: rest)) := by
        simp [pretty]
      rw [h, takeValue, skipSpace_lit (by decide)]
      simp only [chr_lit, Option.bind_some]
      exact takeArray_pretty
        (fun j b r hj hb hr => hvalue j b r (hn ▸ depth_le_depthItems hj) hb hr) rest
    | obj fields =>
      have hn : depthFields fields = n := by simpa [depth] using hdepth
      have h : (pretty level (.obj fields) : List χ) ++ rest = lit '\x7b' ::
          (prettyFields (level + 1) fields ++ (closing level fields ++ lit '\x7d' :: rest)) := by
        simp [pretty]
      rw [h, takeValue, skipSpace_lit (by decide)]
      simp only [chr_lit, Option.bind_some]
      exact takeObject_pretty
        (fun j b r hj hb hr => hvalue j b r (hn ▸ depth_le_depthFields hj) hb hr) rest
    | null => simp [depth] at hdepth
    | bool b => simp [depth] at hdepth
    | num n => simp [depth] at hdepth
    | str s => simp [depth] at hdepth

lemma parseValue_pretty (n : Nat) :
    ∀ level, ReadsPretty level (parseValue (χ := χ) n) fun j => depth j ≤ n := by
  induction n with
  | zero =>
    intro level j blank rest hj hblank hrest
    exact takeValue_pretty (fun n hn => by omega) hblank hrest
  | succ n ih =>
    intro level j blank rest hj hblank hrest
    exact takeValue_pretty
      (fun m hm => ⟨_, rfl, fun j b r hj' hb hr => ih (level + 1) j b r (by omega) hb hr⟩)
      hblank hrest

/-- The text for people of a value parses to this value. -/
theorem parse_pretty (j : Json χ) (hj : depth j ≤ recursionLimit) :
    parse (pretty 0 j) = some j := by
  have h := parseValue_pretty recursionLimit 0 j [] [] hj blank_nil ends_nil
  rw [List.nil_append, List.append_nil] at h
  simp [parse, h, skipSpace]

end Json
