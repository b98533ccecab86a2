import RustyClaw.Library.Json
import Mathlib.Data.List.Nodup

/-!
# Working with JSON values

What programs do with parsed values: integers as numbers, objects as maps from keys to values,
and properties of all the texts in a value.

* `NumLit.toInt_ofInt`: an integer that is written into a number is read back.
* `takeField_perm`, `normalizeFields_perm`: looking up a key does not depend on the order of the
  fields, and sorting an object with distinct keys only changes that order.
* `Texts.render`: a property of texts that is closed under concatenation and escaping holds of the
  text of a value when it holds of every string, key and number in it.
* `texts_of_parse`: what holds of every glyph of a text holds of every glyph of the value that the
  text parses to.
-/

namespace Json

open Glyph

variable {χ : Type} [Glyph χ]

/-! ## Integers -/

lemma takeNumber_int (s : List χ) (hs : ∀ g ∈ s, (chr g).isDigit = true) :
    takeNumber .int s = some (s, []) := by
  induction s with
  | nil => rfl
  | cons g s ih =>
    have hg := hs g List.mem_cons_self
    have htail := ih fun g' h => hs g' (List.mem_cons_of_mem _ h)
    simp [takeNumber, NumState.next, hg, htail]

lemma digitChar_ne_zero {n : Nat} (hn : n < 10) (hpos : 0 < n) : n.digitChar ≠ '0' := by
  have h : ∀ m < 10, 0 < m → m.digitChar ≠ '0' := by decide
  exact h n hn hpos

/-- The decimal digits of a positive number do not begin with a zero. -/
lemma exists_toDigits_eq_cons (n : Nat) (hn : 0 < n) :
    ∃ c s, Nat.toDigits 10 n = c :: s ∧ c ≠ '0' := by
  induction n using Nat.strongRecOn with
  | ind n ih =>
    rcases Nat.lt_or_ge n 10 with hlt | hge
    · exact ⟨_, [], Nat.toDigits_of_lt_base hlt, digitChar_ne_zero hlt hn⟩
    · obtain ⟨c, s, h, hc⟩ := ih (n / 10) (by omega) (by omega)
      rw [Nat.toDigits_of_base_le (by omega) hge, h]
      exact ⟨c, _, rfl, hc⟩

lemma NumState.next_digit {c : Char} (hdigit : c.isDigit = true) (hzero : c ≠ '0') :
    NumState.next .start c = some .int ∧ NumState.next .minus c = some .int := by
  have hminus : c ≠ '-' := by
    rintro rfl
    simp at hdigit
  simp [NumState.next, hminus, hzero, hdigit]

lemma takeNumber_digits (n : Nat) :
    takeNumber .start ((Nat.toDigits 10 n).map lit : List χ) =
      some ((Nat.toDigits 10 n).map lit, []) ∧
    (0 < n → takeNumber .minus ((Nat.toDigits 10 n).map lit : List χ) =
      some ((Nat.toDigits 10 n).map lit, [])) := by
  rcases Nat.eq_zero_or_pos n with rfl | hn
  · simp [takeNumber, NumState.next, NumState.accepting]
  · obtain ⟨c, s, h, hc⟩ := exists_toDigits_eq_cons n hn
    have hdigits : ∀ g ∈ (Nat.toDigits 10 n).map (lit : Char → χ), (chr g).isDigit = true :=
      fun _ => isDigit_of_mem_digits
    have hnext := NumState.next_digit (Text.isDigit_toDigits (h ▸ List.mem_cons_self)) hc
    rw [h, List.map_cons] at hdigits ⊢
    have htail := takeNumber_int _ fun g hg => hdigits g (List.mem_cons_of_mem _ hg)
    simp [takeNumber, hnext, htail]

/-- The number a program writes for a natural number. -/
def NumLit.ofNat (n : Nat) : NumLit χ := ⟨(Nat.toDigits 10 n).map lit, (takeNumber_digits n).1⟩

/-- The number a program writes for an integer. -/
def NumLit.ofInt : Int → NumLit χ
  | .ofNat n => .ofNat n
  | .negSucc n =>
    ⟨lit '-' :: (Nat.toDigits 10 (n + 1)).map lit, by
      have hdigits := (takeNumber_digits (χ := χ) (n + 1)).2 (Nat.succ_pos n)
      simp [takeNumber, NumState.next, hdigits]⟩

def allDigits (s : List Char) : Bool := s.all Char.isDigit

/-- The integer that a number without fraction and exponent stands for; `-0` is not one. -/
def NumLit.toInt? (n : NumLit χ) : Option Int :=
  match chars n.lexeme with
  | '-' :: digits =>
    if allDigits digits && digits != ['0'] then some (-(Nat.ofDigitChars 10 digits 0)) else none
  | digits => if allDigits digits then some (Nat.ofDigitChars 10 digits 0) else none

/-- An unsigned integer below a bound, as `str::parse` reads it; a plus sign may stand before it. -/
def parseUnsigned (bound : Nat) (s : List Char) : Option Nat :=
  let digits := match s with
    | '+' :: digits => digits
    | digits => digits
  let n := Nat.ofDigitChars 10 digits 0
  if digits != [] && allDigits digits && decide (n < bound) then some n else none

lemma allDigits_toDigits (n : Nat) : allDigits (Nat.toDigits 10 n) = true := by
  simp only [allDigits, List.all_eq_true]
  exact fun c => Text.isDigit_toDigits

lemma parseUnsigned_digits {bound : Nat} {digits : List Char} (hne : digits ≠ [])
    (hdigits : allDigits digits = true) (hlt : Nat.ofDigitChars 10 digits 0 < bound) :
    parseUnsigned bound digits = some (Nat.ofDigitChars 10 digits 0) := by
  have hread : (digits != [] && allDigits digits &&
      decide (Nat.ofDigitChars 10 digits 0 < bound)) = true := by
    rw [hdigits, decide_eq_true hlt, Bool.and_true, Bool.and_true]
    exact bne_iff_ne.mpr hne
  unfold parseUnsigned
  split
  · have hplus := List.all_eq_true.mp hdigits '+' List.mem_cons_self
    exact absurd hplus (by decide)
  · exact if_pos hread

lemma chars_map_lit (s : List Char) : chars (s.map lit : List χ) = s := by
  simp [chars, Function.comp_def]

theorem NumLit.toInt_ofNat (n : Nat) : (NumLit.ofNat n : NumLit χ).toInt? = some (n : Int) := by
  have hvalue := Nat.ofDigitChars_ten_toDigits (n := n)
  have hall := allDigits_toDigits n
  unfold toInt? ofNat
  simp only [chars_map_lit]
  obtain ⟨c, s, h⟩ := List.exists_cons_of_ne_nil (Nat.toDigits_ne_nil (n := n) (b := 10))
  have hdigit : c.isDigit = true := Text.isDigit_toDigits (h ▸ List.mem_cons_self)
  have hminus : c ≠ '-' := by
    rintro rfl
    simp at hdigit
  simp [h, hminus] at hall hvalue ⊢
  exact ⟨hall, congrArg Nat.cast hvalue⟩

theorem NumLit.toInt_ofInt (i : Int) : (NumLit.ofInt i : NumLit χ).toInt? = some i := by
  cases i with
  | ofNat n => exact toInt_ofNat n
  | negSucc n =>
    have hzero : Nat.toDigits 10 (n + 1) ≠ ['0'] := by
      obtain ⟨c, s, h, hc⟩ := exists_toDigits_eq_cons (n + 1) (Nat.succ_pos n)
      rw [h]
      simp [hc]
    have hneg : chars (lit '-' :: (Nat.toDigits 10 (n + 1)).map lit : List χ) =
        '-' :: Nat.toDigits 10 (n + 1) := by
      rw [← chars_map_lit (χ := χ) (Nat.toDigits 10 (n + 1))]
      simp [chars]
    unfold toInt? ofInt
    simp only [hneg]
    rw [if_pos (by simp [allDigits_toDigits, hzero]), Nat.ofDigitChars_ten_toDigits]
    rfl

/-! ## Objects -/

/-- An object with these fields. -/
def objOf (fields : List (String × Json χ)) : Json χ :=
  .obj (fields.map fun field => (Glyph.str field.1, field.2))

/-- The text of a number. -/
def ofNat (n : Nat) : Json χ := .num (.ofNat n)

def asBool : Json χ → Option Bool
  | .bool b => some b
  | _ => none

/-- The integer a number stands for. -/
def asInt : Json χ → Option Int
  | .num n => n.toInt?
  | _ => none

def asArr : Json χ → Option (List (Json χ))
  | .arr items => some items
  | _ => none

abbrev Fields (χ : Type) [Glyph χ] := List (List χ × Json χ)

def hasKey (key : String) (field : List χ × Json χ) : Bool := chars field.1 = key.toList

/-- Another value for a field that is there (`*map.get_mut(key)? = value`). -/
def setField (key : String) (value : Json χ) (fields : Fields χ) : Fields χ :=
  fields.map fun field => if hasKey key field then (field.1, value) else field

/-- `Map::remove`. -/
def removeField (key : String) (fields : Fields χ) : Fields χ :=
  fields.filter fun field => !hasKey key field

/-- The value of a field that may be there once at most; `none` when it is there more often. -/
def takeField (key : String) (fields : Fields χ) : Option (Option (Json χ)) :=
  match fields.filter (hasKey key) with
  | [] => some none
  | [field] => some (some field.2)
  | _ => none

lemma takeField_perm {key : String} {fields fields' : Fields χ} (h : fields.Perm fields') :
    takeField key fields = takeField key fields' := by
  have hperm := h.filter (hasKey key)
  unfold takeField
  match hl : fields.filter (hasKey key), hl' : fields'.filter (hasKey key) with
  | [], [] => rfl
  | [field], [field'] =>
    rw [hl, hl', List.singleton_perm_singleton] at hperm
    rw [hperm]
  | _ :: _ :: _, _ :: _ :: _ => rfl
  | [], _ :: _ => exact absurd (hl ▸ hl' ▸ hperm).length_eq (by simp)
  | _ :: _, [] => exact absurd (hl ▸ hl' ▸ hperm).length_eq (by simp)
  | [_], _ :: _ :: _ => exact absurd (hl ▸ hl' ▸ hperm).length_eq (by simp)
  | _ :: _ :: _, [_] => exact absurd (hl ▸ hl' ▸ hperm).length_eq (by simp)

lemma takeField_removeField_self (key : String) (fields : Fields χ) :
    takeField key (removeField key fields) = some none := by
  simp [takeField, removeField, List.filter_filter]

lemma hasKey_inj {key key' : String} {field : List χ × Json χ} (h : hasKey key field = true)
    (h' : hasKey key' field = true) : key = key' := by
  simp only [hasKey, decide_eq_true_eq] at h h'
  exact String.ext (h.symm.trans h')

lemma takeField_removeField_of_ne {key key' : String} (hne : key ≠ key') (fields : Fields χ) :
    takeField key (removeField key' fields) = takeField key fields := by
  have hfilter : (removeField key' fields).filter (hasKey key) = fields.filter (hasKey key) := by
    rw [removeField, List.filter_filter]
    refine List.filter_congr fun field _ => ?_
    by_cases h : hasKey key field = true
    · have hkey' : hasKey key' field = false := by
        rw [Bool.eq_false_iff]
        exact fun h' => hne (hasKey_inj h h')
      simp [h, hkey']
    · simp [h]
  rw [takeField, takeField, hfilter]

/-- Several fields are removed one after the other. -/
def removeFields (keys : List String) (fields : Fields χ) : Fields χ :=
  keys.foldl (fun fields key => removeField key fields) fields

lemma takeField_removeFields (key : String) (keys : List String) (fields : Fields χ) :
    takeField key (removeFields keys fields) =
      if key ∈ keys then some none else takeField key fields := by
  induction keys generalizing fields with
  | nil => rfl
  | cons key' keys ih =>
    rw [removeFields, List.foldl_cons, ← removeFields, ih]
    by_cases hmem : key ∈ keys
    · rw [if_pos hmem, if_pos (List.mem_cons_of_mem key' hmem)]
    · rw [if_neg hmem]
      by_cases hkey : key = key'
      · rw [hkey, if_pos List.mem_cons_self, takeField_removeField_self]
      · rw [if_neg (by simp [hkey, hmem]), takeField_removeField_of_ne hkey]

lemma hasKey_ite (key key' : String) (field : List χ × Json χ) (value : Json χ) :
    hasKey key (if hasKey key' field then (field.1, value) else field) = hasKey key field := by
  split <;> rfl

lemma removeField_setField (key key' : String) (value : Json χ) (fields : Fields χ) :
    removeField key (setField key' value fields) = setField key' value (removeField key fields) := by
  rw [removeField, setField, List.filter_map, setField, removeField]
  refine congrArg (List.map _) (List.filter_congr fun field _ => ?_)
  rw [Function.comp_apply, hasKey_ite]

lemma removeFields_setField (keys : List String) (key : String) (value : Json χ)
    (fields : Fields χ) :
    removeFields keys (setField key value fields) = setField key value (removeFields keys fields) := by
  induction keys generalizing fields with
  | nil => rfl
  | cons key' keys ih =>
    exact (congrArg (removeFields keys) (removeField_setField key' key value fields)).trans (ih _)

@[simp] lemma hasKey_str (key key' : String) (value : Json χ) :
    hasKey key (Glyph.str key', value) = decide (key' = key) := by
  simp only [hasKey, chars_str, str_char, decide_eq_decide]
  exact ⟨fun h => String.ext h, fun h => h ▸ rfl⟩

/-- The fields that an object is written from have distinct keys. -/
def DistinctKeys (fields : Fields χ) : Prop := (fields.map fun field => chars field.1).Nodup

lemma insertField_perm {key : List χ} {value : Json χ} {fields : Fields χ}
    (h : chars key ∉ fields.map fun field => chars field.1) :
    (insertField key value fields).Perm ((key, value) :: fields) := by
  induction fields with
  | nil => rfl
  | cons field fields ih =>
    obtain ⟨key', value'⟩ := field
    simp only [List.map_cons, List.mem_cons, not_or] at h
    simp only [insertField, if_neg h.1]
    split_ifs with hlt
    · rfl
    · exact ((ih h.2).cons _).trans (.swap _ _ _)

/-- Sorting an object with distinct keys rearranges its fields. -/
lemma normalizeFields_perm {sorted fields : Fields χ} (h : DistinctKeys (sorted ++ fields)) :
    (normalizeFields sorted fields).Perm
      (sorted ++ fields.map fun field => (field.1, normalize field.2)) := by
  induction fields generalizing sorted with
  | nil => simp [normalizeFields]
  | cons field fields ih =>
    obtain ⟨key, value⟩ := field
    have hperm : (insertField key (normalize value) sorted).Perm
        ((key, normalize value) :: sorted) := by
      refine insertField_perm fun hmem => ?_
      simp only [DistinctKeys, List.map_append, List.map_cons] at h
      exact (List.nodup_append.mp h).2.2 _ hmem _ List.mem_cons_self rfl
    have hkeys : DistinctKeys (insertField key (normalize value) sorted ++ fields) := by
      have hmap := (hperm.append_right fields).map fun field => chars field.1
      refine hmap.nodup_iff.mpr ?_
      simp only [DistinctKeys, List.map_append, List.map_cons] at h ⊢
      exact (List.perm_middle.nodup_iff).mp h
    refine (ih hkeys).trans ((hperm.append_right _).trans ?_)
    simpa using List.perm_middle.symm

/-! ### Reading structures -/

section Reading

variable {α : Type}

/-- What a key stands for in an object; `none` when the key is there twice. -/
abbrev Lookup (χ : Type) [Glyph χ] := String → Option (Option (Json χ))

def fieldOf (fields : Fields χ) : Lookup χ := fun key => takeField key fields

/-- A field with a default. -/
def readField (field : Lookup χ) (key : String) (default : α) (read : Json χ → Option α) :
    Option α :=
  match field key with
  | none => none
  | some none => some default
  | some (some value) => read value

/-- A field that must be there. -/
def requireField (field : Lookup χ) (key : String) (read : Json χ → Option α) : Option α :=
  match field key with
  | some (some value) => read value
  | _ => none

def readOption (read : Json χ → Option α) : Json χ → Option (Option α)
  | .null => some none
  | value => (read value).map some

end Reading

lemma takeField_objOf (fields : List (String × Json χ)) (h : (fields.map Prod.fst).Nodup)
    (key : String) :
    takeField key (fields.map fun field => (Glyph.str field.1, field.2)) =
      some (fields.lookup key) := by
  have hfilter : ∀ fs : List (String × Json χ), (fs.map Prod.fst).Nodup →
      (fs.map fun field => (Glyph.str field.1, field.2)).filter (hasKey key) =
        ((fs.lookup key).toList.map fun value => (Glyph.str key, value)) := by
    intro fs hfs
    induction fs with
    | nil => rfl
    | cons field fs ih =>
      obtain ⟨key', value⟩ := field
      simp only [List.map_cons, List.nodup_cons] at hfs
      rw [List.map_cons, List.filter_cons, hasKey_str, List.lookup_cons, ih hfs.2]
      by_cases hkey : key' = key
      · subst hkey
        have hnone : fs.lookup key' = none := by
          rw [List.lookup_eq_none_iff]
          intro pair hpair
          simp only [bne_iff_ne, ne_eq]
          exact fun heq => hfs.1 (heq ▸ List.mem_map_of_mem hpair)
        simp [hnone]
      · have hbeq : (key == key') = false := by simpa using Ne.symm hkey
        simp [hkey, hbeq]
  unfold takeField
  rw [hfilter fields h]
  cases fields.lookup key <;> rfl

lemma lookup_map_snd {β γ : Type*} (f : β → γ) (fields : List (String × β)) (key : String) :
    (fields.map fun field => (field.1, f field.2)).lookup key = (fields.lookup key).map f := by
  induction fields with
  | nil => rfl
  | cons field fields ih =>
    rw [List.map_cons, List.lookup_cons, List.lookup_cons, ih]
    cases key == field.1 <;> rfl

/-- A sorted object is read like the object it was sorted from. -/
lemma takeField_normalizeFields {fields : List (String × Json χ)}
    (h : (fields.map Prod.fst).Nodup) (key : String) :
    takeField key (normalizeFields [] (fields.map fun field => (Glyph.str field.1, field.2))) =
      some ((fields.lookup key).map normalize) := by
  have hkeys : DistinctKeys ([] ++ fields.map fun field => (Glyph.str (χ := χ) field.1, field.2)) := by
    have hmap : (fields.map fun field => (Glyph.str (χ := χ) field.1, field.2)).map
        (fun field => chars field.1) = (fields.map Prod.fst).map String.toList := by
      simp [List.map_map, Function.comp_def, str_char]
    rw [List.nil_append, DistinctKeys, hmap]
    exact List.Nodup.map (fun a b hab => String.ext hab) h
  rw [takeField_perm (normalizeFields_perm hkeys), List.nil_append, List.map_map]
  have hmapped : (fields.map fun field => (field.1, normalize field.2)).map Prod.fst =
      fields.map Prod.fst := by simp [List.map_map, Function.comp_def]
  have hread := takeField_objOf (fields.map fun field => (field.1, normalize field.2))
    (hmapped ▸ h) key
  rw [List.map_map] at hread
  exact hread.trans (congrArg some (lookup_map_snd normalize fields key))

/-! ## All texts of a value -/

section Texts

variable (Q : List χ → Prop)

mutual

/-- `Q` holds of every string, key and number of the value. -/
def Texts : Json χ → Prop
  | .null | .bool _ => True
  | .num n => Q n.lexeme
  | .str s => Q s
  | .arr items => TextsItems items
  | .obj fields => TextsFields fields

def TextsItems : List (Json χ) → Prop
  | [] => True
  | item :: items => Texts item ∧ TextsItems items

def TextsFields : Fields χ → Prop
  | [] => True
  | (key, value) :: fields => (Q key ∧ Texts value) ∧ TextsFields fields

end

variable {Q}

lemma textsItems_iff {items : List (Json χ)} :
    TextsItems Q items ↔ ∀ item ∈ items, Texts Q item := by
  induction items with
  | nil => simp [TextsItems]
  | cons item items ih => simp [TextsItems, ih]

lemma textsFields_iff {fields : Fields χ} :
    TextsFields Q fields ↔ ∀ field ∈ fields, Q field.1 ∧ Texts Q field.2 := by
  induction fields with
  | nil => simp [TextsFields]
  | cons field fields ih =>
    obtain ⟨key, value⟩ := field
    simp [TextsFields, ih]

lemma Texts.get {key : List Char} {j value : Json χ} (h : Texts Q j) (hget : get key j = some value) :
    Texts Q value := by
  cases j with
  | obj fields =>
    obtain ⟨field, hfound, rfl⟩ := Option.map_eq_some_iff.mp hget
    exact (textsFields_iff.mp h field (List.mem_reverse.mp (List.mem_of_find?_eq_some hfound))).2
  | _ => cases hget

lemma Texts.takeField {key : String} {fields : Fields χ} {value : Json χ}
    (h : TextsFields Q fields) (hfound : takeField key fields = some (some value)) :
    Texts Q value := by
  unfold Json.takeField at hfound
  split at hfound
  · cases hfound
  · rename_i field hfilter
    cases hfound
    have hmem : field ∈ fields.filter (hasKey key) := by simp [hfilter]
    exact (textsFields_iff.mp h field (List.mem_filter.mp hmem).1).2
  · cases hfound

lemma Texts.setField {key : String} {value : Json χ} {fields : Fields χ}
    (h : TextsFields Q fields) (hvalue : Texts Q value) :
    TextsFields Q (setField key value fields) := by
  rw [textsFields_iff] at h ⊢
  intro field' hmem
  obtain ⟨field, hfield, rfl⟩ := List.mem_map.mp hmem
  obtain ⟨hkey, hval⟩ := h field hfield
  split_ifs
  · exact ⟨hkey, hvalue⟩
  · exact ⟨hkey, hval⟩

lemma Texts.removeField {key : String} {fields : Fields χ} (h : TextsFields Q fields) :
    TextsFields Q (removeField key fields) := by
  rw [textsFields_iff] at h ⊢
  exact fun field hmem => h field (List.mem_filter.mp hmem).1

lemma Texts.insertField {key : List χ} {value : Json χ} {fields : Fields χ}
    (h : TextsFields Q fields) (hkey : Q key) (hvalue : Texts Q value) :
    TextsFields Q (insertField key value fields) := by
  induction fields with
  | nil => exact ⟨⟨hkey, hvalue⟩, trivial⟩
  | cons field fields ih =>
    obtain ⟨key', value'⟩ := field
    obtain ⟨⟨hkey', hvalue'⟩, htail⟩ := h
    unfold Json.insertField
    split_ifs
    · exact ⟨⟨hkey, hvalue⟩, ⟨hkey', hvalue'⟩, htail⟩
    · exact ⟨⟨hkey', hvalue⟩, htail⟩
    · exact ⟨⟨hkey', hvalue'⟩, ih htail⟩

mutual

theorem Texts.normalize : ∀ {j : Json χ}, Texts Q j → Texts Q (normalize j)
  | .null, _ | .bool _, _ => trivial
  | .num _, h | .str _, h => h
  | .arr _, h => Texts.normalizeItems h
  | .obj _, h => Texts.normalizeFields trivial h

theorem Texts.normalizeItems : ∀ {items : List (Json χ)}, TextsItems Q items →
    TextsItems Q (normalizeItems items)
  | [], _ => trivial
  | _ :: _, h => ⟨Texts.normalize h.1, Texts.normalizeItems h.2⟩

theorem Texts.normalizeFields : ∀ {fields sorted : Fields χ}, TextsFields Q sorted →
    TextsFields Q fields → TextsFields Q (normalizeFields sorted fields)
  | [], _, hsorted, _ => hsorted
  | (_, _) :: _, _, hsorted, h => by
    rw [Json.normalizeFields]
    exact Texts.normalizeFields (Texts.insertField hsorted h.1.1 (Texts.normalize h.1.2)) h.2

end

/-- `Q` is kept by everything that writing a value does with texts. -/
structure Writable (Q : List χ → Prop) : Prop where
  nil : Q []
  lit : ∀ c, Q [lit c]
  append : ∀ {s t}, Q s → Q t → Q (s ++ t)
  escape : ∀ {s}, Q s → Q (s.flatMap escape)

lemma Writable.str (hQ : Writable Q) (literal : String) : Q (Glyph.str literal) := by
  unfold Glyph.str
  induction literal.toList with
  | nil => exact hQ.nil
  | cons c s ih => exact hQ.append (hQ.lit c) ih

lemma Writable.quote (hQ : Writable Q) {s : List χ} (hs : Q s) : Q (quote s) :=
  hQ.append (hQ.append (hQ.lit '"') (hQ.escape hs)) (hQ.lit '"')

mutual

theorem Texts.render (hQ : Writable Q) : ∀ {j : Json χ}, Texts Q j → Q (render j)
  | .null, _ => hQ.str "null"
  | .bool true, _ => hQ.str "true"
  | .bool false, _ => hQ.str "false"
  | .num _, h => h
  | .str _, h => hQ.quote h
  | .arr _, h => hQ.append (hQ.append (hQ.lit '[') (Texts.renderItems hQ h)) (hQ.lit ']')
  | .obj _, h => hQ.append (hQ.append (hQ.lit '\x7b') (Texts.renderFields hQ h)) (hQ.lit '\x7d')

theorem Texts.renderItems (hQ : Writable Q) : ∀ {items : List (Json χ)}, TextsItems Q items →
    Q (renderItems items)
  | [], _ => hQ.nil
  | [_], h => Texts.render hQ h.1
  | _ :: _ :: _, h => hQ.append (Texts.render hQ h.1)
    (hQ.append (hQ.lit ',') (Texts.renderItems hQ h.2))

theorem Texts.renderFields (hQ : Writable Q) : ∀ {fields : Fields χ}, TextsFields Q fields →
    Q (renderFields fields)
  | [], _ => hQ.nil
  | [(_, _)], h => hQ.append (hQ.quote h.1.1)
    (hQ.append (hQ.lit ':') (Texts.render hQ h.1.2))
  | (_, _) :: _ :: _, h => hQ.append (hQ.append (hQ.quote h.1.1)
    (hQ.append (hQ.lit ':') (Texts.render hQ h.1.2)))
    (hQ.append (hQ.lit ',') (Texts.renderFields hQ h.2))

end

end Texts

/-! ## Properties of all glyphs -/

section AllGlyphs

variable {P : χ → Prop} [Stable P]

lemma writable_all : Writable (All P) where
  nil := all_nil
  lit c := by simp [all_lit]
  append hs ht := all_append.mpr ⟨hs, ht⟩
  escape hs g hg := by
    obtain ⟨g', hg', hmem⟩ := List.mem_flatMap.mp hg
    obtain ⟨c, -, rfl⟩ := List.mem_map.mp hmem
    exact Stable.withChr _ _ (hs g' hg')

omit [Stable P] in
lemma All.skipSpace {s : List χ} (h : All P s) : All P (skipSpace s) :=
  h.sublist (List.dropWhile_sublist _)

omit [Stable P] in
lemma All.takeHex4 {s rest : List χ} {n : Nat} {g : χ} (h : All P s)
    (hread : takeHex4 s = some (n, g, rest)) : P g ∧ All P rest := by
  match s with
  | a :: b :: c :: d :: s =>
    simp only [Json.takeHex4, Option.bind_eq_bind, Option.bind_eq_some_iff] at hread
    obtain ⟨_, -, _, -, _, -, _, -, heq⟩ := hread
    cases heq
    simp only [all_cons] at h
    exact h.2.2.2

lemma All.takeUnicode {s rest : List χ} {g : χ} (h : All P s)
    (hread : takeUnicode s = some (g, rest)) : P g ∧ All P rest := by
  simp only [Json.takeUnicode, Option.bind_eq_bind, Option.bind_eq_some_iff] at hread
  obtain ⟨⟨high, g₀, s₀⟩, hhigh, hread⟩ := hread
  obtain ⟨hg₀, hs₀⟩ := All.takeHex4 h hhigh
  dsimp only at hread
  split_ifs at hread
  · obtain _ | ⟨b, _ | ⟨u, s₁⟩⟩ := s₀
    · cases hread
    · cases hread
    · simp only [all_cons] at hs₀
      dsimp only at hread
      split_ifs at hread
      obtain ⟨⟨low, g₁, s₂⟩, hlow, hread⟩ := Option.bind_eq_some_iff.mp hread
      obtain ⟨hg₁, hs₂⟩ := All.takeHex4 hs₀.2.2 hlow
      dsimp only at hread
      split_ifs at hread
      cases hread
      exact ⟨Stable.withChr _ _ hg₁, hs₂⟩
  · cases hread
    exact ⟨Stable.withChr _ _ hg₀, hs₀⟩

lemma All.takeEscape {s rest : List χ} {g : χ} (h : All P s)
    (hread : takeEscape s = some (g, rest)) : P g ∧ All P rest := by
  cases s with
  | nil => cases hread
  | cons g₀ s =>
    obtain ⟨hg₀, hs⟩ := all_cons.mp h
    simp only [Json.takeEscape] at hread
    split at hread
    case h_9 => exact All.takeUnicode hs hread
    case h_10 => cases hread
    all_goals
      cases hread
      exact ⟨Stable.withChr _ _ hg₀, hs⟩

lemma All.takeString {fuel : Nat} {s text rest : List χ} (h : All P s)
    (hread : takeString fuel s = some (text, rest)) : All P text ∧ All P rest := by
  induction fuel generalizing s text with
  | zero => cases hread
  | succ fuel ih =>
    cases s with
    | nil => cases hread
    | cons g s =>
      obtain ⟨hg, hs⟩ := all_cons.mp h
      simp only [Json.takeString] at hread
      split_ifs at hread
      · cases hread
        exact ⟨all_nil, hs⟩
      · split at hread
        · rename_i g' s' hescape
          obtain ⟨hg', hs'⟩ := All.takeEscape hs hescape
          obtain ⟨⟨text', rest'⟩, hread', heq⟩ := Option.map_eq_some_iff.mp hread
          cases heq
          obtain ⟨htext, hrest⟩ := ih hs' hread'
          exact ⟨all_cons.mpr ⟨hg', htext⟩, hrest⟩
        · cases hread
      · obtain ⟨⟨text', rest'⟩, hread', heq⟩ := Option.map_eq_some_iff.mp hread
        cases heq
        obtain ⟨htext, hrest⟩ := ih hs hread'
        exact ⟨all_cons.mpr ⟨hg, htext⟩, hrest⟩

omit [Stable P] in
lemma All.takeNumber {st : NumState} {s lexeme rest : List χ} (h : All P s)
    (hread : takeNumber st s = some (lexeme, rest)) : All P lexeme ∧ All P rest := by
  induction s generalizing st lexeme with
  | nil =>
    simp only [Json.takeNumber] at hread
    split_ifs at hread
    cases hread
    exact ⟨all_nil, all_nil⟩
  | cons g s ih =>
    obtain ⟨hg, hs⟩ := all_cons.mp h
    simp only [Json.takeNumber] at hread
    split at hread
    · obtain ⟨⟨lexeme', rest'⟩, hread', heq⟩ := Option.map_eq_some_iff.mp hread
      cases heq
      obtain ⟨hlexeme, hrest⟩ := ih hs hread'
      exact ⟨all_cons.mpr ⟨hg, hlexeme⟩, hrest⟩
    · split_ifs at hread
      cases hread
      exact ⟨all_nil, h⟩

/-- A parser that takes the labels of a text over into the value it reads. -/
def Follows (P : χ → Prop) (value : Parser χ) : Prop :=
  ∀ s j rest, All P s → value s = some (j, rest) → Texts (All P) j ∧ All P rest

omit [Stable P] in
lemma Follows.takeItems {value : Parser χ} (hvalue : Follows P value) {fuel : Nat}
    {s rest : List χ} {items : List (Json χ)} (h : All P s)
    (hread : takeItems value fuel s = some (items, rest)) :
    TextsItems (All P) items ∧ All P rest := by
  induction fuel generalizing s items with
  | zero => cases hread
  | succ fuel ih =>
    simp only [Json.takeItems, Option.bind_eq_bind, Option.bind_eq_some_iff] at hread
    obtain ⟨⟨item, s₁⟩, hitem, hread⟩ := hread
    obtain ⟨hj, hs₁⟩ := hvalue _ _ _ h hitem
    have hs₂ := All.skipSpace hs₁
    split at hread
    · cases hread
    · rename_i g s₃ hspace
      rw [hspace] at hs₂
      split_ifs at hread
      · obtain ⟨⟨items', rest'⟩, hread', heq⟩ := Option.map_eq_some_iff.mp hread
        cases heq
        obtain ⟨hitems, hrest⟩ := ih (all_cons.mp hs₂).2 hread'
        exact ⟨⟨hj, hitems⟩, hrest⟩
      · cases hread
        exact ⟨⟨hj, trivial⟩, (all_cons.mp hs₂).2⟩

lemma Follows.takeFields {value : Parser χ} (hvalue : Follows P value) {fuel : Nat}
    {s rest : List χ} {fields : Fields χ} (h : All P s)
    (hread : takeFields value fuel s = some (fields, rest)) :
    TextsFields (All P) fields ∧ All P rest := by
  induction fuel generalizing s fields with
  | zero => cases hread
  | succ fuel ih =>
    have hspaced := All.skipSpace h
    simp only [Json.takeFields] at hread
    split at hread
    · cases hread
    rename_i q s₁ hspace
    rw [hspace] at hspaced
    split_ifs at hread
    obtain ⟨⟨key, s₂⟩, hkey, hread⟩ := Option.bind_eq_some_iff.mp hread
    obtain ⟨hkey, hs₂⟩ := All.takeString (all_cons.mp hspaced).2 hkey
    have hs₃ := All.skipSpace hs₂
    dsimp only at hread
    split at hread
    · cases hread
    rename_i colon s₃ hspace₃
    rw [hspace₃] at hs₃
    split_ifs at hread
    obtain ⟨⟨item, s₄⟩, hitem, hread⟩ := Option.bind_eq_some_iff.mp hread
    obtain ⟨hj, hs₄⟩ := hvalue _ _ _ (all_cons.mp hs₃).2 hitem
    have hs₅ := All.skipSpace hs₄
    dsimp only at hread
    split at hread
    · cases hread
    rename_i g s₅ hspace₅
    rw [hspace₅] at hs₅
    split_ifs at hread
    · obtain ⟨⟨fields', rest'⟩, hread', heq⟩ := Option.map_eq_some_iff.mp hread
      cases heq
      obtain ⟨hfields, hrest⟩ := ih (all_cons.mp hs₅).2 hread'
      exact ⟨⟨⟨hkey, hj⟩, hfields⟩, hrest⟩
    · cases hread
      exact ⟨⟨⟨hkey, hj⟩, trivial⟩, (all_cons.mp hs₅).2⟩

omit [Stable P] in
lemma Follows.takeArray {value : Parser χ} (hvalue : Follows P value) {s rest : List χ}
    {j : Json χ} (h : All P s) (hread : takeArray value s = some (j, rest)) :
    Texts (All P) j ∧ All P rest := by
  have hspaced := All.skipSpace h
  simp only [Json.takeArray] at hread
  split at hread
  · cases hread
  rename_i g s₁ hspace
  rw [hspace] at hspaced
  split_ifs at hread
  · cases hread
    exact ⟨trivial, (all_cons.mp hspaced).2⟩
  · obtain ⟨⟨items, rest'⟩, hread', heq⟩ := Option.map_eq_some_iff.mp hread
    cases heq
    exact hvalue.takeItems h hread'

lemma Follows.takeObject {value : Parser χ} (hvalue : Follows P value) {s rest : List χ}
    {j : Json χ} (h : All P s) (hread : takeObject value s = some (j, rest)) :
    Texts (All P) j ∧ All P rest := by
  have hspaced := All.skipSpace h
  simp only [Json.takeObject] at hread
  split at hread
  · cases hread
  rename_i g s₁ hspace
  rw [hspace] at hspaced
  split_ifs at hread
  · cases hread
    exact ⟨trivial, (all_cons.mp hspaced).2⟩
  · obtain ⟨⟨fields, rest'⟩, hread', heq⟩ := Option.map_eq_some_iff.mp hread
    cases heq
    exact hvalue.takeFields h hread'

omit [Stable P] in
lemma All.takeLiteral {literal : String} {s rest : List χ} (h : All P s)
    (hread : takeLiteral literal s = some rest) : All P rest := by
  unfold Json.takeLiteral at hread
  split_ifs at hread
  cases hread
  exact h.drop _

/-- One value, when `nested` follows the labels in the values inside it. -/
lemma follows_takeValue {nested : Option (Parser χ)}
    (hnested : ∀ value ∈ nested, Follows P value) : Follows P (takeValue nested) := by
  intro s j rest h hread
  have hspaced := All.skipSpace h
  unfold takeValue at hread
  split at hread
  · cases hread
  rename_i g s₁ hspace
  rw [hspace] at hspaced
  have hs₁ := (all_cons.mp hspaced).2
  split at hread
  case h_1 | h_2 | h_3 =>
    obtain ⟨s₂, hliteral, heq⟩ := Option.map_eq_some_iff.mp hread
    cases heq
    exact ⟨trivial, All.takeLiteral hs₁ hliteral⟩
  case h_4 =>
    obtain ⟨⟨text, rest'⟩, hread', heq⟩ := Option.map_eq_some_iff.mp hread
    cases heq
    exact All.takeString hs₁ hread'
  case h_5 =>
    obtain ⟨value, hmem, hread'⟩ := Option.bind_eq_some_iff.mp hread
    exact (hnested value hmem).takeArray hs₁ hread'
  case h_6 =>
    obtain ⟨value, hmem, hread'⟩ := Option.bind_eq_some_iff.mp hread
    exact (hnested value hmem).takeObject hs₁ hread'
  case h_7 =>
    unfold takeNumLit at hread
    split at hread
    · cases hread
    · rename_i lexeme rest' hnumber
      cases hread
      exact All.takeNumber hspaced hnumber

lemma follows_parseValue (n : Nat) : Follows P (parseValue n) := by
  induction n with
  | zero => exact follows_takeValue (by simp)
  | succ n ih => exact follows_takeValue (by simpa using ih)

/-- What holds of every glyph of a text holds of every glyph of the value it stands for. -/
theorem texts_of_parse {s : List χ} {j : Json χ} (h : All P s) (hparse : parse s = some j) :
    Texts (All P) j := by
  unfold parse at hparse
  split at hparse
  · rename_i value rest hread
    split_ifs at hparse
    cases hparse
    exact (follows_parseValue recursionLimit _ _ _ h hread).1
  · cases hparse

end AllGlyphs

end Json
