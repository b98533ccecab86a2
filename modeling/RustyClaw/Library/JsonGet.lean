import RustyClaw.Library.JsonDepth

/-!
# Looking up the fields of an object

What `get` finds after a field has been put in, taken out or changed.  Fields are put into the place
of their key, so that the fields have to be in order there; nothing else depends on the order.
-/

namespace Json

open Glyph

variable {χ : Type} [Glyph χ] {fields : Fields χ} {k : List Char}

lemma get_nil : get k (.obj ([] : Fields χ)) = none := rfl

/-- A field that comes later counts more. -/
lemma get_cons (field : List χ × Json χ) (fields : Fields χ) :
    get k (.obj (field :: fields)) =
      (get k (.obj fields)).or (if chars field.1 = k then some field.2 else none) := by
  simp only [get, List.reverse_cons, List.find?_append]
  cases h : fields.reverse.find? fun field => decide (chars field.1 = k) with
  | some found => rfl
  | none =>
    rw [List.find?_cons]
    by_cases hkey : chars field.1 = k
    · simp [hkey]
    · simp [hkey]

lemma get_eq_none_iff : get k (.obj fields) = none ↔ ∀ field ∈ fields, chars field.1 ≠ k := by
  induction fields with
  | nil => simp [get_nil]
  | cons field fields ih =>
    rw [get_cons, Option.or_eq_none_iff, ih, List.forall_mem_cons]
    by_cases hkey : chars field.1 = k
    · simp [hkey]
    · simp [hkey]

lemma mem_of_get {value : Json χ} (h : get k (.obj fields) = some value) :
    ∃ field ∈ fields, chars field.1 = k ∧ field.2 = value := by
  obtain ⟨field, hfound, rfl⟩ := Option.map_eq_some_iff.mp h
  have hkey := List.find?_some hfound
  exact ⟨field, List.mem_reverse.mp (List.mem_of_find?_eq_some hfound),
    of_decide_eq_true hkey, rfl⟩

lemma Normal.get {j value : Json χ} (h : Normal j) (hget : j.get k = some value) :
    Normal value := by
  cases j with
  | obj fields =>
    obtain ⟨field, hfield, -, rfl⟩ := mem_of_get hget
    exact normalFields_iff.mp h.2 field hfield
  | _ => cases hget

/-- What stands in a field nests less deeply than the object. -/
lemma depth_lt_of_get {j value : Json χ} (hget : get k j = some value) : depth value < depth j := by
  cases j with
  | obj fields =>
    obtain ⟨field, hfield, -, rfl⟩ := mem_of_get hget
    exact Nat.lt_succ_of_le (depthFields_le_iff.mp (Nat.le_refl _) field hfield)
  | _ => cases hget

lemma normalItems_iff {items : List (Json χ)} :
    NormalItems items ↔ ∀ item ∈ items, Normal item := by
  induction items with
  | nil => simp [NormalItems]
  | cons item items ih => rw [NormalItems, ih, List.forall_mem_cons]

lemma depthItems_le_iff {n : Nat} {items : List (Json χ)} :
    depthItems items ≤ n ↔ ∀ item ∈ items, depth item ≤ n := by
  induction items with
  | nil => simp [depthItems]
  | cons item items ih => rw [depthItems, Nat.max_le, ih, List.forall_mem_cons]

lemma get_removeField (key : String) (fields : Fields χ) :
    get k (.obj (removeField key fields)) =
      if k = key.toList then none else get k (.obj fields) := by
  induction fields with
  | nil => simp [removeField, get_nil]
  | cons field fields ih =>
    rw [removeField, List.filter_cons]
    by_cases hkey : hasKey key field = true
    · have hchars : chars field.1 = key.toList := of_decide_eq_true hkey
      rw [hkey, Bool.not_true, if_neg Bool.false_ne_true, ← removeField, ih, get_cons, hchars]
      by_cases hk : k = key.toList
      · rw [if_pos hk, if_pos hk]
      · rw [if_neg hk, if_neg hk, if_neg (Ne.symm hk), Option.or_none]
    · have hchars : chars field.1 ≠ key.toList := fun heq => hkey (decide_eq_true heq)
      rw [Bool.eq_false_iff.mpr hkey, Bool.not_false, if_pos rfl, get_cons, ← removeField, ih,
        get_cons]
      by_cases hk : k = key.toList
      · rw [if_pos hk, if_pos hk, if_neg (by rw [hk]; exact hchars)]
        rfl
      · rw [if_neg hk, if_neg hk]

lemma get_removeFields (keys : List String) (fields : Fields χ) :
    get k (.obj (removeFields keys fields)) =
      if k ∈ keys.map String.toList then none else get k (.obj fields) := by
  induction keys generalizing fields with
  | nil => rfl
  | cons key keys ih =>
    rw [removeFields, List.foldl_cons, ← removeFields, ih, get_removeField, List.map_cons]
    by_cases hkeys : k ∈ keys.map String.toList
    · rw [if_pos hkeys, if_pos (List.mem_cons_of_mem _ hkeys)]
    · rw [if_neg hkeys]
      by_cases hk : k = key.toList
      · rw [if_pos hk, if_pos (List.mem_cons.mpr (Or.inl hk))]
      · have hnot : k ∉ key.toList :: keys.map String.toList :=
          fun hmem => (List.mem_cons.mp hmem).elim hk hkeys
        rw [if_neg hk, if_neg hnot]

lemma removeField_of_get {key : String} (h : get key.toList (.obj fields) = none) :
    removeField key fields = fields := by
  rw [removeField, List.filter_eq_self]
  intro field hfield
  have hne := get_eq_none_iff.mp h field hfield
  rw [hasKey, decide_eq_false hne]
  rfl

lemma removeFields_of_get {keys : List String}
    (h : ∀ key ∈ keys, get key.toList (.obj fields) = none) :
    removeFields keys fields = fields := by
  induction keys with
  | nil => rfl
  | cons key keys ih =>
    rw [removeFields, List.foldl_cons, removeField_of_get (h key List.mem_cons_self)]
    exact ih fun other hother => h other (List.mem_cons_of_mem _ hother)

lemma mem_of_mem_removeFields {keys : List String} {field : List χ × Json χ}
    (h : field ∈ removeFields keys fields) : field ∈ fields := by
  induction keys generalizing fields with
  | nil => exact h
  | cons key keys ih => exact List.mem_of_mem_filter (ih h)

/-- Values that are changed in their places. -/
def mapValues (f : Json χ → Json χ) (fields : Fields χ) : Fields χ :=
  fields.map fun field => (field.1, f field.2)

lemma get_mapValues (f : Json χ → Json χ) (fields : Fields χ) :
    get k (.obj (mapValues f fields)) = (get k (.obj fields)).map f := by
  induction fields with
  | nil => rfl
  | cons field fields ih =>
    rw [mapValues, List.map_cons, get_cons, ← mapValues, ih, get_cons]
    cases get k (.obj fields) with
    | some value => rfl
    | none =>
      by_cases hkey : chars field.1 = k
      · simp [hkey]
      · simp [hkey]

lemma keysAscend_mapValues {f : Json χ → Json χ} (h : KeysAscend fields) :
    KeysAscend (mapValues f fields) := by
  have hkeys : (mapValues f fields).map (fun field => chars field.1) =
      fields.map fun field => chars field.1 := by
    rw [mapValues, List.map_map]
    rfl
  rw [KeysAscend, hkeys]
  exact h

lemma get_setField (key : String) (value : Json χ) (fields : Fields χ) :
    get k (.obj (setField key value fields)) =
      if k = key.toList then (get k (.obj fields)).map fun _ => value else get k (.obj fields) := by
  induction fields with
  | nil => simp [setField, get_nil]
  | cons field fields ih =>
    rw [setField_cons, get_cons, ih, withValue_fst, get_cons]
    by_cases hk : k = key.toList
    · rw [if_pos hk, if_pos hk]
      cases get k (.obj fields) with
      | some found => rfl
      | none =>
        by_cases hkey : chars field.1 = k
        · have hhas : hasKey key field = true := decide_eq_true (hkey.trans hk)
          simp [hkey, withValue, hhas]
        · simp [hkey]
    · rw [if_neg hk, if_neg hk]
      by_cases hkey : chars field.1 = k
      · have hhas : hasKey key field = false := decide_eq_false (by rw [hkey]; exact hk)
        simp [hkey, withValue, hhas]
      · simp [hkey]

lemma get_insertField (key : List χ) (value : Json χ) (h : KeysAscend fields) :
    get k (.obj (insertField key value fields)) =
      if chars key = k then some value else get k (.obj fields) := by
  induction fields with
  | nil => simp [insertField, get_cons, get_nil]
  | cons field fields ih =>
    obtain ⟨hfield, hrest⟩ := List.pairwise_cons.mp h
    have hlater (other : List χ × Json χ) (hother : other ∈ fields) :
        chars field.1 < chars other.1 := hfield _ (List.mem_map_of_mem hother)
    rw [insertField_cons]
    by_cases hlt : chars key < chars field.1
    · -- in front of all the others
      rw [if_pos hlt, get_cons]
      by_cases hkey : chars key = k
      · have hnone : get k (.obj (field :: fields)) = none := by
          rw [get_eq_none_iff, List.forall_mem_cons, ← hkey]
          exact ⟨ne_of_gt hlt, fun other hother => ne_of_gt (hlt.trans (hlater other hother))⟩
        rw [hnone, if_pos hkey]
        rfl
      · rw [if_neg hkey, if_neg hkey, Option.or_none]
    · rw [if_neg hlt]
      by_cases heq : chars key = chars field.1
      · -- in the place of the one that has the key
        rw [if_pos heq, get_cons, get_cons]
        by_cases hkey : chars key = k
        · have hnone : get k (.obj fields) = none := by
            rw [get_eq_none_iff, ← hkey, heq]
            exact fun other hother => ne_of_gt (hlater other hother)
          rw [hnone, if_pos hkey, if_pos (heq ▸ hkey)]
          rfl
        · have hfirst : chars field.1 ≠ k := fun h => hkey (heq.trans h)
          rw [if_neg hkey, if_neg hfirst, if_neg hfirst]
      · rw [if_neg heq, get_cons, ih hrest, get_cons]
        by_cases hkey : chars key = k
        · rw [if_pos hkey, if_pos hkey]
          rfl
        · rw [if_neg hkey, if_neg hkey]

/-- Fields that are put in one after the other. -/
def insertFields (new fields : Fields χ) : Fields χ :=
  new.foldl (fun fields field => insertField field.1 field.2 fields) fields

lemma KeysAscend.insertFields (h : KeysAscend fields) (new : Fields χ) :
    KeysAscend (insertFields new fields) := by
  induction new generalizing fields with
  | nil => exact h
  | cons field new ih => exact ih h.insertField

lemma get_insertFields (new : Fields χ) (h : KeysAscend fields) :
    get k (.obj (insertFields new fields)) = (get k (.obj new)).or (get k (.obj fields)) := by
  induction new generalizing fields with
  | nil => rfl
  | cons field new ih =>
    rw [insertFields, List.foldl_cons, ← insertFields, ih h.insertField, get_insertField _ _ h,
      get_cons, Option.or_assoc]
    by_cases hkey : chars field.1 = k
    · simp [hkey]
    · simp [hkey]

lemma KeysAscend.removeField (h : KeysAscend fields) (key : String) :
    KeysAscend (removeField key fields) := h.sublist (List.filter_sublist.map _)

lemma KeysAscend.removeFields (h : KeysAscend fields) (keys : List String) :
    KeysAscend (removeFields keys fields) := by
  induction keys generalizing fields with
  | nil => exact h
  | cons key keys ih => exact ih (h.removeField key)

/-- What is in a place of the fields is the new value or an old one. -/
lemma mem_insertField {key : List χ} {value : Json χ} {field : List χ × Json χ}
    (h : field ∈ insertField key value fields) : field.2 = value ∨ field ∈ fields := by
  induction fields with
  | nil => exact Or.inl (congrArg Prod.snd (List.mem_singleton.mp h))
  | cons other fields ih =>
    rw [insertField_cons] at h
    split_ifs at h
    · rcases List.mem_cons.mp h with h | h
      · exact Or.inl (congrArg Prod.snd h)
      · exact Or.inr h
    · rcases List.mem_cons.mp h with h | h
      · exact Or.inl (congrArg Prod.snd h)
      · exact Or.inr (List.mem_cons_of_mem _ h)
    · rcases List.mem_cons.mp h with h | h
      · exact Or.inr (h ▸ List.mem_cons_self)
      · exact (ih h).imp_right (List.mem_cons_of_mem _)

lemma mem_insertFields {new : Fields χ} {field : List χ × Json χ}
    (h : field ∈ insertFields new fields) :
    (∃ other ∈ new, field.2 = other.2) ∨ field ∈ fields := by
  induction new generalizing fields with
  | nil => exact Or.inr h
  | cons other new ih =>
    rcases ih h with ⟨later, hlater, hvalue⟩ | h
    · exact Or.inl ⟨later, List.mem_cons_of_mem _ hlater, hvalue⟩
    · rcases mem_insertField h with h | h
      · exact Or.inl ⟨other, List.mem_cons_self, h⟩
      · exact Or.inr h

end Json
