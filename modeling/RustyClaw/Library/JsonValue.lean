import Mathlib.Data.Char
import Mathlib.Data.List.Lex
import RustyClaw.Library.JsonData

/-!
# JSON values in memory

A value that a program holds has its objects as sorted maps, with every key once (`Normal`);
`Value` carries this as a field.  Reading one from a parsed text sorts the objects and turns the
numbers into those the program can represent.  What the representation makes of a number is the
parameter `number`: it is not given by the grammar.

`readValue_json` is the round trip: a value is read back from what it is written as, provided that
its numbers are.
-/

namespace Json

open Glyph

variable {χ : Type} [Glyph χ]

/-! ## Sorted objects -/

/-- The keys are in order, each once. -/
def KeysAscend (fields : Fields χ) : Prop :=
  (fields.map fun field => chars field.1).Pairwise (· < ·)

mutual

/-- Every object in the value is sorted. -/
def Normal : Json χ → Prop
  | .arr items => NormalItems items
  | .obj fields => KeysAscend fields ∧ NormalFields fields
  | _ => True

def NormalItems : List (Json χ) → Prop
  | [] => True
  | item :: items => Normal item ∧ NormalItems items

def NormalFields : Fields χ → Prop
  | [] => True
  | (_, value) :: fields => Normal value ∧ NormalFields fields

end

lemma normalFields_iff {fields : Fields χ} :
    NormalFields fields ↔ ∀ field ∈ fields, Normal field.2 := by
  induction fields with
  | nil => simp [NormalFields]
  | cons field fields ih =>
    obtain ⟨key, value⟩ := field
    simp [NormalFields, ih]

lemma mem_keys_insertField {key key' : List χ} {value : Json χ} {fields : Fields χ}
    (h : chars key' ∈ (insertField key value fields).map fun field => chars field.1) :
    chars key' = chars key ∨ chars key' ∈ fields.map fun field => chars field.1 := by
  induction fields with
  | nil => exact .inl (by simpa [insertField] using h)
  | cons field fields ih =>
    obtain ⟨key₀, value₀⟩ := field
    simp only [insertField] at h
    split_ifs at h with hlt heq
    · simpa using h
    · exact .inr h
    · simp only [List.map_cons, List.mem_cons] at h ⊢
      rcases h with h | h
      · exact .inr (.inl h)
      · exact (ih h).imp_right .inr

lemma KeysAscend.insertField {key : List χ} {value : Json χ} {fields : Fields χ}
    (h : KeysAscend fields) : KeysAscend (insertField key value fields) := by
  induction fields with
  | nil => simp [Json.insertField, KeysAscend]
  | cons field fields ih =>
    obtain ⟨key₀, value₀⟩ := field
    have hall := h
    simp only [KeysAscend, List.map_cons, List.pairwise_cons] at h
    unfold Json.insertField
    split_ifs with hlt heq
    · simp only [KeysAscend, List.map_cons, List.pairwise_cons, List.mem_cons] at hall ⊢
      refine ⟨?_, hall⟩
      rintro other (rfl | hother)
      · exact hlt
      · exact lt_trans hlt (h.1 other hother)
    · exact hall
    · have hgt : chars key₀ < chars key := lt_of_le_of_ne (not_lt.mp hlt) (Ne.symm heq)
      simp only [KeysAscend, List.map_cons, List.pairwise_cons]
      refine ⟨fun other hother => ?_, ih h.2⟩
      obtain ⟨field, hfield, rfl⟩ := List.mem_map.mp hother
      rcases mem_keys_insertField (List.mem_map_of_mem hfield) with hkey | hkey
      · exact hkey ▸ hgt
      · exact h.1 _ hkey

/-- A key behind all others is inserted at the end. -/
lemma insertField_of_lt {key : List χ} {value : Json χ} {fields : Fields χ}
    (h : ∀ field ∈ fields, chars field.1 < chars key) :
    insertField key value fields = fields ++ [(key, value)] := by
  induction fields with
  | nil => rfl
  | cons field fields ih =>
    obtain ⟨key₀, value₀⟩ := field
    have hlt : chars key₀ < chars key := h _ List.mem_cons_self
    rw [insertField, if_neg (lt_asymm hlt), if_neg (ne_of_gt hlt),
      ih fun field hfield => h field (List.mem_cons_of_mem _ hfield), List.cons_append]

lemma NormalFields.insertField {key : List χ} {value : Json χ} {fields : Fields χ}
    (h : NormalFields fields) (hvalue : Normal value) :
    NormalFields (insertField key value fields) := by
  induction fields with
  | nil => exact ⟨hvalue, trivial⟩
  | cons field fields ih =>
    obtain ⟨key₀, value₀⟩ := field
    unfold Json.insertField
    split_ifs
    · exact ⟨hvalue, h⟩
    · exact ⟨hvalue, h.2⟩
    · exact ⟨h.1, ih h.2⟩

mutual

/-- Sorting makes a value sorted. -/
theorem normal_normalize : ∀ j : Json χ, Normal (normalize j)
  | .null | .bool _ | .num _ | .str _ => trivial
  | .arr _ => normalItems_normalizeItems _
  | .obj _ => normalFields_normalizeFields _ [] .nil trivial

theorem normalItems_normalizeItems : ∀ items : List (Json χ),
    NormalItems (normalizeItems items)
  | [] => trivial
  | item :: items => ⟨normal_normalize item, normalItems_normalizeItems items⟩

theorem normalFields_normalizeFields : ∀ (fields sorted : Fields χ), KeysAscend sorted →
    NormalFields sorted →
      KeysAscend (normalizeFields sorted fields) ∧ NormalFields (normalizeFields sorted fields)
  | [], _, hkeys, hvalues => ⟨hkeys, hvalues⟩
  | (_, value) :: fields, _, hkeys, hvalues =>
    normalFields_normalizeFields fields _ hkeys.insertField
      (hvalues.insertField (normal_normalize value))

end

mutual

/-- Sorting leaves a sorted value as it is. -/
theorem normalize_of_normal : ∀ {j : Json χ}, Normal j → normalize j = j
  | .null, _ | .bool _, _ | .num _, _ | .str _, _ => rfl
  | .arr _, h => congrArg Json.arr (normalizeItems_of_normal h)
  | .obj _, h => congrArg Json.obj (normalizeFields_of_normal (List.nil_append _ ▸ h.1) h.2)

theorem normalizeItems_of_normal : ∀ {items : List (Json χ)}, NormalItems items →
    normalizeItems items = items
  | [], _ => rfl
  | _ :: _, h => by
    rw [normalizeItems, normalize_of_normal h.1, normalizeItems_of_normal h.2]

theorem normalizeFields_of_normal : ∀ {fields sorted : Fields χ}, KeysAscend (sorted ++ fields) →
    NormalFields fields → normalizeFields sorted fields = sorted ++ fields
  | [], sorted, _, _ => (List.append_nil sorted).symm
  | (key, value) :: fields, sorted, hkeys, hvalues => by
    have hlt : ∀ field ∈ sorted, chars field.1 < chars key := by
      intro field hfield
      rw [KeysAscend, List.map_append, List.pairwise_append] at hkeys
      exact hkeys.2.2 _ (List.mem_map_of_mem hfield) _ List.mem_cons_self
    rw [List.append_cons] at hkeys ⊢
    rw [normalizeFields, normalize_of_normal hvalues.1, insertField_of_lt hlt,
      normalizeFields_of_normal hkeys hvalues.2]

end

/-! ## Numbers -/

section Numbers

variable (number : NumLit χ → Option (NumLit χ))

mutual

/-- The value with its numbers replaced; `none` when one of them has no replacement. -/
def mapNumbers : Json χ → Option (Json χ)
  | .num n => (number n).map .num
  | .arr items => (mapNumbersItems items).map .arr
  | .obj fields => (mapNumbersFields fields).map .obj
  | value => some value

def mapNumbersItems : List (Json χ) → Option (List (Json χ))
  | [] => some []
  | item :: items => do
    let item ← mapNumbers item
    let items ← mapNumbersItems items
    return item :: items

def mapNumbersFields : Fields χ → Option (Fields χ)
  | [] => some []
  | (key, value) :: fields => do
    let value ← mapNumbers value
    let fields ← mapNumbersFields fields
    return (key, value) :: fields

end

mutual

/-- Every number of the value is replaced by itself. -/
def KeepsNumbers : Json χ → Prop
  | .num n => number n = some n
  | .arr items => KeepsNumbersItems items
  | .obj fields => KeepsNumbersFields fields
  | _ => True

def KeepsNumbersItems : List (Json χ) → Prop
  | [] => True
  | item :: items => KeepsNumbers item ∧ KeepsNumbersItems items

def KeepsNumbersFields : Fields χ → Prop
  | [] => True
  | (_, value) :: fields => KeepsNumbers value ∧ KeepsNumbersFields fields

end

variable {number}

mutual

theorem mapNumbers_eq_self : ∀ {j : Json χ}, KeepsNumbers number j → mapNumbers number j = some j
  | .null, _ | .bool _, _ | .str _, _ => rfl
  | .num n, h => by rw [mapNumbers, show number n = some n from h, Option.map_some]
  | .arr items, h => by rw [mapNumbers, mapNumbersItems_eq_self h, Option.map_some]
  | .obj fields, h => by rw [mapNumbers, mapNumbersFields_eq_self h, Option.map_some]

theorem mapNumbersItems_eq_self : ∀ {items : List (Json χ)}, KeepsNumbersItems number items →
    mapNumbersItems number items = some items
  | [], _ => rfl
  | _ :: _, h => by
    simp [mapNumbersItems, mapNumbers_eq_self h.1, mapNumbersItems_eq_self h.2]

theorem mapNumbersFields_eq_self : ∀ {fields : Fields χ}, KeepsNumbersFields number fields →
    mapNumbersFields number fields = some fields
  | [], _ => rfl
  | (_, _) :: _, h => by
    simp [mapNumbersFields, mapNumbers_eq_self h.1, mapNumbersFields_eq_self h.2]

end

end Numbers

/-! ## Values -/

/-- A value with its objects as sorted maps. -/
structure Value (χ : Type) [Glyph χ] where
  json : Json χ
  normal : Normal json

/-- A value is read from what the parser makes of a text. -/
def readValue (number : NumLit χ → Option (NumLit χ)) (j : Json χ) : Option (Value χ) :=
  (mapNumbers number j).map fun j => ⟨normalize j, normal_normalize j⟩

theorem readValue_json {number : NumLit χ → Option (NumLit χ)} (value : Value χ)
    (h : KeepsNumbers number value.json) : readValue number value.json = some value := by
  obtain ⟨j, hnormal⟩ := value
  rw [readValue, mapNumbers_eq_self h, Option.map_some, Option.some_inj]
  simp only [normalize_of_normal hnormal]

/-! ## Changing a value -/

lemma keysAscend_setField {key : String} {value : Json χ} {fields : Fields χ}
    (h : KeysAscend fields) : KeysAscend (setField key value fields) := by
  have hkeys : (setField key value fields).map (fun field => chars field.1) =
      fields.map fun field => chars field.1 := by
    rw [setField, List.map_map]
    refine List.map_congr_left fun field _ => ?_
    rw [Function.comp_apply]
    split_ifs <;> rfl
  rwa [KeysAscend, hkeys]

lemma normalFields_setField {key : String} {value : Json χ} {fields : Fields χ}
    (h : NormalFields fields) (hvalue : Normal value) :
    NormalFields (setField key value fields) := by
  rw [normalFields_iff] at h ⊢
  intro field hmem
  obtain ⟨field', hfield', rfl⟩ := List.mem_map.mp hmem
  split_ifs
  · exact hvalue
  · exact h field' hfield'

/-- Another value for a field that is there. -/
def Value.setField (key : String) (value : Json χ) (hvalue : Normal value) : Value χ → Value χ
  | ⟨.obj fields, h⟩ =>
    ⟨.obj (Json.setField key value fields),
      keysAscend_setField h.1, normalFields_setField h.2 hvalue⟩
  | other => other

/-- `Map::remove`. -/
def Value.removeField (key : String) : Value χ → Value χ
  | ⟨.obj fields, h⟩ =>
    ⟨.obj (Json.removeField key fields),
      h.1.sublist (List.filter_sublist.map _),
      normalFields_iff.mpr fun field hmem =>
        normalFields_iff.mp h.2 field (List.mem_filter.mp hmem).1⟩
  | other => other

/-- `json!` of an object. -/
def Value.object (fields : List (String × Json χ)) : Value χ :=
  ⟨normalize (objOf fields), normal_normalize _⟩

/-- Each key of a sorted object is there once at most. -/
lemma takeField_of_get {key : String} {value : Json χ} {fields : Fields χ} (h : KeysAscend fields)
    (hget : get key.toList (.obj fields) = some value) :
    takeField key fields = some (some value) := by
  obtain ⟨field, hfound, rfl⟩ := Option.map_eq_some_iff.mp hget
  have hmem : field ∈ fields.filter (hasKey key) :=
    List.mem_filter.mpr ⟨List.mem_reverse.mp (List.mem_of_find?_eq_some hfound),
      List.find?_some hfound⟩
  have hascend : (fields.filter (hasKey key)).Pairwise fun a b => chars a.1 < chars b.1 :=
    (List.pairwise_map.mp h).filter _
  have hsame : ∀ field ∈ fields.filter (hasKey key), chars field.1 = key.toList :=
    fun field hfield => of_decide_eq_true (List.mem_filter.mp hfield).2
  unfold takeField
  match hfields : fields.filter (hasKey key) with
  | [] =>
    rw [hfields] at hmem
    exact absurd hmem List.not_mem_nil
  | [field'] =>
    rw [hfields, List.mem_singleton] at hmem
    rw [hmem]
  | field₁ :: field₂ :: rest =>
    rw [hfields] at hascend hsame
    have hlt := (List.pairwise_cons.mp hascend).1 field₂ List.mem_cons_self
    rw [hsame field₁ List.mem_cons_self,
      hsame field₂ (List.mem_cons_of_mem _ List.mem_cons_self)] at hlt
    exact absurd hlt (lt_irrefl _)

lemma insertField_cons (key : List χ) (value : Json χ) (field : List χ × Json χ)
    (fields : Fields χ) : insertField key value (field :: fields) =
      if chars key < chars field.1 then (key, value) :: field :: fields
      else if chars key = chars field.1 then (field.1, value) :: fields
      else field :: insertField key value fields := rfl

/-- A field with another value in it when it has the key. -/
def withValue (key : String) (value : Json χ) (field : List χ × Json χ) : List χ × Json χ :=
  if hasKey key field then (field.1, value) else field

lemma withValue_fst (key : String) (value : Json χ) (field : List χ × Json χ) :
    (withValue key value field).1 = field.1 := by
  unfold withValue
  split <;> rfl

lemma setField_cons (key : String) (value : Json χ) (field : List χ × Json χ)
    (fields : Fields χ) : setField key value (field :: fields) =
      withValue key value field :: setField key value fields := rfl

lemma setField_insertField (key : String) (value : Json χ) (field : List χ × Json χ)
    (fields : Fields χ) :
    setField key value (insertField field.1 field.2 fields) =
      insertField field.1 (withValue key value field).2 (setField key value fields) := by
  have hfield : withValue key value field = (field.1, (withValue key value field).2) := by
    rw [← withValue_fst key value field]
  induction fields with
  | nil => exact congrArg (· :: []) hfield
  | cons field' fields ih =>
    rw [setField_cons, insertField_cons, insertField_cons, withValue_fst]
    split_ifs with hlt heq
    · rw [setField_cons, setField_cons]
      exact congrArg (· :: _) hfield
    · have hkey : hasKey key (field'.1, field.2) = hasKey key field := by
        rw [hasKey, hasKey, heq]
      have hvalue : withValue key value (field'.1, field.2) =
          (field'.1, (withValue key value field).2) := by
        unfold withValue
        rw [hkey]
        split <;> rfl
      exact congrArg (· :: _) hvalue
    · exact congrArg (_ :: ·) ih

lemma setField_normalizeFields {value : Json χ} (hvalue : normalize value = value) (key : String)
    (sorted fields : Fields χ) :
    setField key value (normalizeFields sorted fields) =
      normalizeFields (setField key value sorted) (setField key value fields) := by
  induction fields generalizing sorted with
  | nil => rfl
  | cons field fields ih =>
    have hnormal : (withValue key value (field.1, normalize field.2)).2 =
        normalize (withValue key value field).2 := by
      unfold withValue
      rw [show hasKey key (field.1, normalize field.2) = hasKey key field from rfl]
      split
      · exact hvalue.symm
      · rfl
    show setField key value (normalizeFields (insertField field.1 (normalize field.2) sorted)
      fields) = _
    rw [ih, setField_insertField key value (field.1, normalize field.2), hnormal, setField_cons,
      ← withValue_fst key value field]
    rfl

/-- A field may be replaced before the object is sorted, or after it. -/
lemma normalizeFields_setField {value : Json χ} (hvalue : normalize value = value) (key : String)
    (fields : Fields χ) : normalizeFields [] (setField key value fields) =
      setField key value (normalizeFields [] fields) :=
  (setField_normalizeFields hvalue key [] fields).symm

/-! ## Records -/

section Records

variable {α : Type}

/-- A record is read from an object, or from an array with its fields in order. -/
def readRecord (keys : List String) (decode : Lookup χ → Option α) : Json χ → Option α
  | .obj fields => decode (fieldOf fields)
  | .arr items =>
    if items.length = keys.length then decode fun key => some ((keys.zip items).lookup key)
    else none
  | _ => none

lemma readRecord_objOf {keys : List String} {decode : Lookup χ → Option α}
    {fields : List (String × Json χ)} (h : (fields.map Prod.fst).Nodup) :
    readRecord keys decode (objOf fields) = decode fun key => some (fields.lookup key) := by
  unfold objOf
  exact congrArg decode (funext fun key => takeField_objOf fields h key)

def readList (read : Json χ → Option α) : Json χ → Option (List α)
  | .arr items => items.mapM read
  | _ => none

lemma mapM_map {β : Type} {write : α → β} {read : β → Option α} {values : List α}
    (h : ∀ value ∈ values, read (write value) = some value) :
    (values.map write).mapM read = some values := by
  induction values with
  | nil => rfl
  | cons value values ih =>
    have hvalue := h value List.mem_cons_self
    have hrest := ih fun value' hmem => h value' (List.mem_cons_of_mem _ hmem)
    simp [hvalue, hrest]

end Records

/-! ## Texts on one line -/

/-- Not a control character. -/
def Printable (g : χ) : Prop := 0x20 ≤ (chr g).toNat

lemma printable_lit {c : Char} (h : 0x20 ≤ c.toNat) : Printable (lit c : χ) := by
  rw [Printable, chr_lit]
  exact h

lemma all_str_printable {literal : String}
    (h : literal.toList.all fun c => decide (0x20 ≤ c.toNat)) :
    All Printable (Glyph.str literal : List χ) := by
  intro g hg
  obtain ⟨c, hc, rfl⟩ := List.mem_map.mp hg
  exact printable_lit (of_decide_eq_true (List.all_eq_true.mp h c hc))

lemma printable_hexDigit (n : Nat) (g : χ) : Printable (withChr g (hexDigit n)) := by
  rw [Printable, chr_withChr, hexDigit, List.getD_eq_getElem?_getD]
  rcases lt_or_ge n 16 with h | h
  · revert h n
    decide
  · rw [List.getElem?_eq_none (by simpa using h)]
    decide

/-- An escape is written without control characters. -/
lemma printable_escape (g : χ) : All Printable (escape g) := by
  intro g' hg'
  obtain ⟨c, hc, rfl⟩ := List.mem_map.mp hg'
  rcases escapeChar_cases (chr g) with ⟨d, hd, h⟩ | ⟨-, h⟩ | ⟨-, -, hle, h⟩ <;>
    simp only [h, List.mem_cons, List.not_mem_nil, or_false] at hc
  · have hletter : ∀ p ∈ shortEscapes, 0x20 ≤ p.2.toNat := by decide
    rcases hc with rfl | rfl
    · simp [Printable]
    · simpa [Printable] using hletter _ hd
  · rcases hc with rfl | rfl | rfl | rfl | rfl | rfl
    · simp [Printable]
    · simp [Printable]
    · simp [Printable]
    · simp [Printable]
    · exact printable_hexDigit _ g
    · exact printable_hexDigit _ g
  · rwa [hc, Printable, chr_withChr]

lemma printable_quote (s : List χ) : All Printable (quote s) := by
  have hquote : Printable (lit '"' : χ) := printable_lit (by decide)
  simp only [quote, all_append, all_cons, all_nil, and_true]
  refine ⟨⟨hquote, fun g hg => ?_⟩, hquote⟩
  obtain ⟨g', -, hg'⟩ := List.mem_flatMap.mp hg
  exact printable_escape g' g hg'

lemma printable_of_takeNumber {st : NumState} {s rest : List χ}
    (h : takeNumber st s = some (s, rest)) : All Printable s := by
  induction s generalizing st rest with
  | nil => exact all_nil
  | cons g s ih =>
    simp only [takeNumber] at h
    split at h
    · next st' hnext =>
      obtain ⟨⟨taken, rest'⟩, htaken, heq⟩ := Option.map_eq_some_iff.mp h
      simp only [Prod.mk.injEq, List.cons.injEq, true_and] at heq
      obtain ⟨rfl, rfl⟩ := heq
      refine all_cons.mpr ⟨?_, ih htaken⟩
      by_contra hcontrol
      have hchar : isNumberChar (chr g) = false := by
        by_contra hnumber
        rw [Bool.not_eq_false] at hnumber
        refine hcontrol ?_
        simp only [isNumberChar, Bool.or_eq_true, decide_eq_true_eq] at hnumber
        rcases hnumber with ((((hdigit | hc) | hc) | hc) | hc) | hc
        · simp only [Char.isDigit, ge_iff_le, Bool.and_eq_true, decide_eq_true_eq] at hdigit
          exact Nat.le_trans (by decide) (UInt32.le_iff_toNat_le.mp hdigit.1)
        all_goals rw [Printable, hc]; decide
      rw [NumState.next_eq_none hchar] at hnext
      cases hnext
    · split at h
      · cases h
      · cases h

mutual

/-- The compact text of a value has no control characters: it stands on one line. -/
theorem printable_render : ∀ j : Json χ, All Printable (render j)
  | .null => by rw [render]; exact all_str_printable (by decide)
  | .bool true => by rw [render]; exact all_str_printable (by decide)
  | .bool false => by rw [render]; exact all_str_printable (by decide)
  | .num n => printable_of_takeNumber n.valid
  | .str s => printable_quote s
  | .arr items => by
    rw [render]
    simp only [all_append, all_cons, all_nil, and_true]
    exact ⟨⟨printable_lit (by decide), printable_renderItems items⟩, printable_lit (by decide)⟩
  | .obj fields => by
    rw [render]
    simp only [all_append, all_cons, all_nil, and_true]
    exact ⟨⟨printable_lit (by decide), printable_renderFields fields⟩, printable_lit (by decide)⟩

theorem printable_renderItems : ∀ items : List (Json χ), All Printable (renderItems items)
  | [] => all_nil
  | [item] => printable_render item
  | item :: item' :: items => by
    rw [renderItems]
    · simp only [all_append, all_cons]
      exact ⟨printable_render item, printable_lit (by decide),
        printable_renderItems (item' :: items)⟩
    · exact List.cons_ne_nil _ _

theorem printable_renderFields : ∀ fields : Fields χ, All Printable (renderFields fields)
  | [] => all_nil
  | [(key, value)] => by
    rw [renderFields]
    simp only [all_append, all_cons]
    exact ⟨printable_quote key, printable_lit (by decide), printable_render value⟩
  | (key, value) :: field :: fields => by
    rw [renderFields]
    · simp only [all_append, all_cons]
      exact ⟨⟨printable_quote key, printable_lit (by decide), printable_render value⟩,
        printable_lit (by decide), printable_renderFields (field :: fields)⟩
    · exact List.cons_ne_nil _ _

end

end Json
