import RustyClaw.Library.JsonGet
import RustyClaw.Llm.OpenAiCompat

/-!
# Tool schemas for Gemini

The schema of a tool's parameters is rewritten before it is sent.  `inline_schema_refs` puts the
definitions in the places of the references, at most 21 levels deep; `normalize_schema_for_gemini`
takes out keywords that the model does not know and replaces a list of alternatives by one of them,
whose fields are put among those of the object around it.  Both look at every object in the same
way, be it a schema or the map from the names of the parameters to their schemas.

What a rewritten object has under a key is told by `get_normalizeSchemaForGemini`: it is the rewrite
of the one value that is kept there (`kept`), the object's own one or one of an alternative.
-/

namespace RustyClaw.Llm.Gemini

open Json hiding str

/-! ## References -/

/-- The value that a reference names. -/
def definitionOf (root : Json Char) (refPath : List Char) : Option (Json Char) :=
  ((refPath.dropPrefix? "#/$defs/".toList).or (refPath.dropPrefix? "#/definitions/".toList)).bind
    fun name => ((get "$defs".toList root).bind (get name)).or
      ((get "definitions".toList root).bind (get name))

/-- The text of a reference. -/
def reference (value : Json Char) : Option (List Char) := (get "$ref".toList value).bind asStr

/-- How many levels the references are followed: `depth > 20` is too deep. -/
def levels : Nat := 21

/-- `inline_schema_refs`, with the number of levels that are left. -/
def inlineSchemaRefs (root : Json Char) : Nat → Json Char → Json Char
  | 0, value => value
  | left + 1, .obj map =>
    match reference (.obj map) with
    | some refPath =>
      match (definitionOf root refPath).map (inlineSchemaRefs root left) with
      | some (.obj resolvedMap) => .obj resolvedMap
      | _ => .obj map
    | none => .obj (mapValues (inlineSchemaRefs root left) map)
  | left + 1, .arr items => .arr (items.map (inlineSchemaRefs root left))
  | _ + 1, value => value

/-! ## Normalising -/

/-- The type that is taken of a list of types. -/
def chosenType (types : List (Json Char)) : Json Char :=
  .str (((types.filterMap asStr).find? (· ≠ "null".toList)).getD "string".toList)

def narrowType (map : Fields Char) : Fields Char :=
  match get "type".toList (.obj map) with
  | some (.arr types) => setField "type" (chosenType types) map
  | _ => map

/-- The alternative that is taken: the first one that is not a reference. -/
def replacement (options : List (Json Char)) : Json Char :=
  (options.find? fun candidate => (get "$ref".toList candidate).isNone).getD .null

/-- The alternative that a schema's list under this key is replaced by. -/
def chosen (combiner : String) (value : Json Char) : Option (Json Char) :=
  match get combiner.toList value with
  | some (.arr options) => some (replacement options)
  | _ => none

def mergeCombiner (normalize : Json Char → Json Char) (map : Fields Char) (combiner : String) :
    Fields Char :=
  match (chosen combiner (.obj map)).map normalize with
  | some (.obj replMap) => insertFields replMap (removeField combiner map)
  | _ => removeField combiner map

/-- The keys that are taken out of every object. -/
def metadata : List String := ["$schema", "definitions", "$defs", "title"]

def combiners : List String := ["anyOf", "oneOf", "allOf"]

/-- What is done to the fields of an object before their values are normalised. -/
def rewriteFields (normalize : Json Char → Json Char) (map : Fields Char) : Fields Char :=
  let map := combiners.foldl (mergeCombiner normalize) (narrowType (removeFields metadata map))
  if (get "$ref".toList (.obj map)).isSome then
    [("type".toList, .str "string".toList)]
  else map

/-- `normalize_schema_for_gemini` on values that nest at most so deeply. -/
def normalizeSchema : Nat → Json Char → Json Char
  | 0, value => value
  | depth + 1, .obj map =>
    .obj (mapValues (normalizeSchema depth) (rewriteFields (normalizeSchema depth) map))
  | depth + 1, .arr items => .arr (items.map (normalizeSchema depth))
  | _ + 1, value => value

def normalizeSchemaForGemini (value : Json Char) : Json Char := normalizeSchema (depth value) value

/-- The schema of a tool's parameters as it is declared. -/
def declared (schema : Json Char) : Json Char :=
  normalizeSchemaForGemini (inlineSchemaRefs schema levels schema)

structure FunctionDeclaration where
  name : List Char
  description : List Char
  parameters : Json Char

def functionDeclaration (definition : ToolDefinition) : FunctionDeclaration where
  name := definition.name
  description := definition.description
  parameters := declared (definition.inputSchema.getD
    (normalize (objOf [("type", .str "object".toList), ("properties", .obj [])])))

def buildFunctionDeclarations (tools : List ToolDefinition) : List FunctionDeclaration :=
  tools.map functionDeclaration

/-! ## What stays under a key -/

/-- The keys that no object has any more. -/
def keywords : List String := metadata ++ combiners ++ ["$ref"]

def narrowed : Json Char → Json Char
  | .arr types => chosenType types
  | value => value

/-- The key is one of these names. -/
def named (names : List String) (k : List Char) : Bool := names.any fun name => name.toList = k

lemma named_iff {names : List String} {k : List Char} :
    named names k = true ↔ k ∈ names.map String.toList := by
  rw [named, List.any_eq_true, List.mem_map]
  simp only [decide_eq_true_eq]

/-- What the object itself has to stay under a key. -/
def ownKept (k : List Char) (value : Json Char) : Option (Json Char) :=
  if named keywords k then none
  else if k = "type".toList then (get k value).map narrowed
  else get k value

section Chosen

variable {combiner : String} {value part : Json Char}

lemma chosen_congr {value' : Json Char}
    (h : get combiner.toList value = get combiner.toList value') :
    chosen combiner value = chosen combiner value' := by
  rw [chosen, h, chosen]

lemma exists_of_chosen (h : chosen combiner value = some part) :
    ∃ options, get combiner.toList value = some (.arr options) ∧
      (part ∈ options ∨ part = .null) := by
  unfold chosen at h
  split at h
  · next options hget =>
    refine ⟨options, hget, ?_⟩
    obtain rfl := Option.some_inj.mp h
    cases hfind : options.find? fun candidate => (get "$ref".toList candidate).isNone with
    | some candidate =>
      rw [replacement, hfind]
      exact Or.inl (List.mem_of_find?_eq_some hfind)
    | none =>
      rw [replacement, hfind]
      exact Or.inr rfl
  · cases h

lemma depth_lt_of_chosen (h : chosen combiner value = some part) : depth part < depth value := by
  obtain ⟨options, hget, hpart⟩ := exists_of_chosen h
  have hoptions := depth_lt_of_get hget
  rcases hpart with hmem | rfl
  · have hle : depth part ≤ depthItems options := depthItems_le_iff.mp (Nat.le_refl _) part hmem
    rw [depth] at hoptions
    omega
  · exact Nat.zero_lt_of_lt hoptions

lemma normal_of_chosen (hnormal : Normal value) (h : chosen combiner value = some part) :
    Normal part := by
  obtain ⟨options, hget, hpart⟩ := exists_of_chosen h
  have hoptions : Normal (.arr options) := hnormal.get hget
  rcases hpart with hmem | rfl
  · exact normalItems_iff.mp hoptions part hmem
  · trivial

end Chosen

/-- The value whose rewrite stands under a key of a rewritten object: an alternative comes before
the object itself, and a later list of alternatives before an earlier one. -/
def kept (k : List Char) (value : Json Char) : Option (Json Char) :=
  if (get "$ref".toList value).isSome then
    if k = "type".toList then some (.str "string".toList) else none
  else
    (combiners.reverse.findSome? fun combiner =>
      match _h : chosen combiner value with
      | some part => kept k part
      | none => none).or (ownKept k value)
termination_by depth value
decreasing_by exact depth_lt_of_chosen _h

/-- What an alternative, after a rewrite, has under a key. -/
def alternativeField (f : Json Char → Json Char) (k : List Char) (value : Json Char)
    (combiner : String) : Option (Json Char) :=
  (chosen combiner value).bind fun part => get k (f part)

lemma kept_eq (k : List Char) (value : Json Char) :
    kept k value =
      if (get "$ref".toList value).isSome then
        if k = "type".toList then some (.str "string".toList) else none
      else
        (combiners.reverse.findSome? fun combiner =>
          (chosen combiner value).bind (kept k)).or (ownKept k value) := by
  have hlist : (fun combiner : String =>
      match _h : chosen combiner value with
      | some part => kept k part
      | none => none) = fun combiner => (chosen combiner value).bind (kept k) := by
    funext combiner
    split
    · next part hpart => rw [hpart, Option.bind_some]
    · next hnone => rw [hnone, Option.bind_none]
  rw [kept, hlist]

section Fields

variable {f : Json Char → Json Char} {map : Fields Char} {k : List Char}

lemma get_narrowType (map : Fields Char) :
    get k (.obj (narrowType map)) =
      if k = "type".toList then (get k (.obj map)).map narrowed else get k (.obj map) := by
  unfold narrowType
  split
  · next types hget =>
    rw [get_setField]
    by_cases hk : k = "type".toList
    · rw [if_pos hk, if_pos hk, hk, hget]
      rfl
    · rw [if_neg hk, if_neg hk]
  · next hother =>
    by_cases hk : k = "type".toList
    · rw [if_pos hk, hk]
      cases hget : get "type".toList (.obj map) with
      | none => rfl
      | some value =>
        cases value with
        | arr types => exact absurd hget (hother types)
        | _ => rfl
    · rw [if_neg hk]

lemma keysAscend_narrowType (h : KeysAscend map) : KeysAscend (narrowType map) := by
  unfold narrowType
  split
  · exact keysAscend_setField h
  · exact h

lemma keysAscend_mergeCombiner (h : KeysAscend map) (combiner : String) :
    KeysAscend (mergeCombiner f map combiner) := by
  unfold mergeCombiner
  split
  · exact (h.removeField combiner).insertFields _
  · exact h.removeField combiner

lemma get_mergeCombiner (h : KeysAscend map) (combiner : String) :
    get k (.obj (mergeCombiner f map combiner)) =
      (alternativeField f k (.obj map) combiner).or
        (if k = combiner.toList then none else get k (.obj map)) := by
  unfold mergeCombiner alternativeField
  cases hchosen : chosen combiner (.obj map) with
  | none => exact get_removeField combiner map
  | some part =>
    rw [Option.map_some, Option.bind_some]
    cases hpart : f part with
    | obj replMap =>
      dsimp only
      rw [get_insertFields _ (h.removeField combiner), get_removeField]
    | _ => exact get_removeField combiner map

/-- The alternatives under these keys have none of the keywords after a rewrite. -/
def DropsKeywords (f : Json Char → Json Char) (combiners : List String) (value : Json Char) :
    Prop :=
  ∀ combiner ∈ combiners, ∀ part, chosen combiner value = some part →
    ∀ key ∈ keywords, get key.toList (f part) = none

lemma DropsKeywords.alternativeField {combiners : List String} {value : Json Char}
    (h : DropsKeywords f combiners value) {combiner key : String} (hcombiner : combiner ∈ combiners)
    (hkey : key ∈ keywords) : alternativeField f key.toList value combiner = none := by
  unfold Gemini.alternativeField
  cases hchosen : chosen combiner value with
  | none => rfl
  | some part => exact h combiner hcombiner part hchosen key hkey

lemma chosen_mergeCombiner {combiners : List String} {combiner other : String} (h : KeysAscend map)
    (hdrops : DropsKeywords f combiners (.obj map)) (hcombiner : combiner ∈ combiners)
    (hother : other ∈ keywords) (hne : other ≠ combiner) :
    chosen other (.obj (mergeCombiner f map combiner)) = chosen other (.obj map) := by
  apply chosen_congr
  rw [get_mergeCombiner h, hdrops.alternativeField hcombiner hother,
    if_neg fun heq => hne (String.ext heq)]
  rfl

lemma findSome_congr {α β : Type} {f g : α → Option β} {l : List α} (h : ∀ a ∈ l, f a = g a) :
    l.findSome? f = l.findSome? g := by
  induction l with
  | nil => rfl
  | cons a l ih =>
    rw [List.findSome?_cons, List.findSome?_cons, h a List.mem_cons_self,
      ih fun b hb => h b (List.mem_cons_of_mem _ hb)]

/-- The lists of alternatives are merged one after the other; what a later one brings counts
more. -/
lemma get_mergeCombiners {combiners : List String} (h : KeysAscend map)
    (hdrops : DropsKeywords f combiners (.obj map)) (hsub : combiners ⊆ keywords)
    (hnodup : combiners.Nodup) :
    get k (.obj (combiners.foldl (mergeCombiner f) map)) =
      (combiners.reverse.findSome? (alternativeField f k (.obj map))).or
        (if k ∈ combiners.map String.toList then none else get k (.obj map)) := by
  induction combiners generalizing map with
  | nil => rfl
  | cons combiner combiners ih =>
    obtain ⟨hnot, hnodup⟩ := List.nodup_cons.mp hnodup
    have hself : combiner ∈ combiner :: combiners := List.mem_cons_self
    -- the lists that are left are the same as before
    have hchosen (other : String) (hother : other ∈ combiners) :
        chosen other (.obj (mergeCombiner f map combiner)) = chosen other (.obj map) :=
      chosen_mergeCombiner h hdrops hself (hsub (List.mem_cons_of_mem _ hother))
        fun heq => hnot (heq ▸ hother)
    have hrest : DropsKeywords f combiners (.obj (mergeCombiner f map combiner)) := by
      intro other hother part hpart
      rw [hchosen other hother] at hpart
      exact hdrops other (List.mem_cons_of_mem _ hother) part hpart
    have hfind : combiners.reverse.findSome?
          (alternativeField f k (.obj (mergeCombiner f map combiner))) =
        combiners.reverse.findSome? (alternativeField f k (.obj map)) := by
      apply findSome_congr
      intro other hother
      unfold alternativeField
      rw [hchosen other (List.mem_reverse.mp hother)]
    rw [List.foldl_cons, ih (keysAscend_mergeCombiner h combiner) hrest
      (fun _ hmem => hsub (List.mem_cons_of_mem _ hmem)) hnodup, hfind, get_mergeCombiner h,
      List.reverse_cons, List.findSome?_append, List.findSome?_singleton, Option.or_assoc]
    congr 1
    by_cases hk : k ∈ combiners.map String.toList
    · obtain ⟨key, hkey, rfl⟩ := List.mem_map.mp hk
      have hmem : key.toList ∈ (combiner :: combiners).map String.toList :=
        List.mem_map_of_mem (List.mem_cons_of_mem _ hkey)
      rw [if_pos hk, if_pos hmem,
        hdrops.alternativeField hself (hsub (List.mem_cons_of_mem _ hkey))]
      rfl
    · rw [if_neg hk]
      by_cases heq : k = combiner.toList
      · have hmem : k ∈ (combiner :: combiners).map String.toList :=
          List.mem_cons.mpr (Or.inl heq)
        rw [if_pos heq, if_pos hmem]
      · have hnotmem : k ∉ (combiner :: combiners).map String.toList :=
          fun hmem => (List.mem_cons.mp hmem).elim heq hk
        rw [if_neg heq, if_neg hnotmem]

lemma mem_keywords_iff :
    k ∈ keywords.map String.toList ↔
      k ∈ metadata.map String.toList ∨ k ∈ combiners.map String.toList ∨ k = "$ref".toList := by
  rw [keywords, List.map_append, List.map_append, List.mem_append, List.mem_append, or_assoc,
    List.map_singleton, List.mem_singleton]

/-- The object's own fields when the lists of alternatives have gone. -/
lemma get_own (hk : k ≠ "$ref".toList) :
    (if k ∈ combiners.map String.toList then none
      else get k (.obj (narrowType (removeFields metadata map)))) = ownKept k (.obj map) := by
  rw [get_narrowType, get_removeFields]
  unfold ownKept
  by_cases hcombiner : k ∈ combiners.map String.toList
  · rw [if_pos hcombiner, if_pos (named_iff.mpr (mem_keywords_iff.mpr (Or.inr (Or.inl hcombiner))))]
  · rw [if_neg hcombiner]
    by_cases hremoved : k ∈ metadata.map String.toList
    · rw [if_pos hremoved, if_pos (named_iff.mpr (mem_keywords_iff.mpr (Or.inl hremoved)))]
      split_ifs <;> rfl
    · have hnot : ¬ named keywords k = true := by
        rw [named_iff, mem_keywords_iff]
        tauto
      rw [if_neg hremoved, if_neg hnot]

theorem get_rewriteFields (h : KeysAscend map) (hdrops : DropsKeywords f combiners (.obj map)) :
    get k (.obj (rewriteFields f map)) =
      if (get "$ref".toList (.obj map)).isSome then
        if k = "type".toList then some (.str "string".toList) else none
      else
        (combiners.reverse.findSome? (alternativeField f k (.obj map))).or
          (ownKept k (.obj map)) := by
  have hascend : KeysAscend (narrowType (removeFields metadata map)) :=
    keysAscend_narrowType (h.removeFields metadata)
  -- the lists of alternatives are still the same when they are merged
  have hchosen (combiner : String) (hmem : combiner ∈ combiners) :
      chosen combiner (.obj (narrowType (removeFields metadata map))) =
        chosen combiner (.obj map) := by
    apply chosen_congr
    have hkeep : combiner.toList ∉ metadata.map String.toList ∧
        combiner.toList ≠ "type".toList := by
      revert combiner
      decide
    rw [get_narrowType, if_neg hkeep.2, get_removeFields, if_neg hkeep.1]
  have hdrops' : DropsKeywords f combiners (.obj (narrowType (removeFields metadata map))) := by
    intro combiner hmem part hpart
    rw [hchosen combiner hmem] at hpart
    exact hdrops combiner hmem part hpart
  have hfind (key : List Char) : combiners.reverse.findSome?
        (alternativeField f key (.obj (narrowType (removeFields metadata map)))) =
      combiners.reverse.findSome? (alternativeField f key (.obj map)) := by
    apply findSome_congr
    intro combiner hmem
    unfold alternativeField
    rw [hchosen combiner (List.mem_reverse.mp hmem)]
  have hmerged (key : List Char) := get_mergeCombiners (k := key) hascend hdrops'
    (by decide) (by decide)
  have href : get "$ref".toList
      (.obj (combiners.foldl (mergeCombiner f) (narrowType (removeFields metadata map)))) =
        get "$ref".toList (.obj map) := by
    have hnone : combiners.reverse.findSome?
        (alternativeField f "$ref".toList (.obj map)) = none := by
      rw [List.findSome?_eq_none_iff]
      intro combiner hmem
      exact hdrops.alternativeField (List.mem_reverse.mp hmem) (by decide)
    rw [hmerged, hfind, hnone, if_neg (by decide), get_narrowType, if_neg (by decide),
      get_removeFields, if_neg (by decide)]
    rfl
  unfold rewriteFields
  dsimp only
  rw [href]
  by_cases hsome : (get "$ref".toList (.obj map)).isSome = true
  · rw [if_pos hsome, if_pos hsome, get_cons, get_nil]
    by_cases hk : k = "type".toList
    · rw [if_pos hk, hk]
      rfl
    · rw [if_neg hk, if_neg fun heq => hk heq.symm]
      rfl
  · rw [if_neg hsome, if_neg hsome, hmerged, hfind]
    by_cases hk : k = "$ref".toList
    · rw [hk, if_neg (by decide), get_narrowType, if_neg (by decide),
        get_removeFields, if_neg (by decide), Option.not_isSome_iff_eq_none.mp hsome]
      rfl
    · rw [get_own hk]

/-! ### What is in the fields -/

/-- A property that an alternative hands on to what is merged from it. -/
structure Inherited (P : Json Char → Prop) (f : Json Char → Json Char) : Prop where
  str : ∀ s, P (.str s)
  merged : ∀ options part replMap, P (.arr options) → part ∈ options ∨ part = .null →
    f part = .obj replMap → ∀ field ∈ replMap, P field.2

variable {P : Json Char → Prop}

lemma exists_of_chosen_of_forall {combiner : String} {part : Json Char}
    (hmap : ∀ field ∈ map, P field.2) (h : chosen combiner (.obj map) = some part) :
    ∃ options, P (.arr options) ∧ (part ∈ options ∨ part = .null) := by
  obtain ⟨options, hget, hpart⟩ := exists_of_chosen h
  obtain ⟨field, hfield, -, hvalue⟩ := mem_of_get hget
  exact ⟨options, hvalue ▸ hmap field hfield, hpart⟩

lemma Inherited.prepared (h : Inherited P f) (hmap : ∀ field ∈ map, P field.2) :
    ∀ field ∈ narrowType (removeFields metadata map), P field.2 := by
  have hremoved : ∀ field ∈ removeFields metadata map, P field.2 :=
    fun field hfield => hmap field (mem_of_mem_removeFields hfield)
  unfold narrowType
  split
  · intro field hfield
    obtain ⟨old, hold, rfl⟩ := List.mem_map.mp hfield
    split_ifs
    · exact h.str _
    · exact hremoved old hold
  · exact hremoved

lemma Inherited.mergeCombiner (h : Inherited P f) (hmap : ∀ field ∈ map, P field.2)
    (combiner : String) : ∀ field ∈ mergeCombiner f map combiner, P field.2 := by
  have hremoved : ∀ field ∈ removeField combiner map, P field.2 :=
    fun field hfield => hmap field (List.mem_of_mem_filter hfield)
  unfold Gemini.mergeCombiner
  split
  · next replMap hrepl =>
    obtain ⟨part, hpart, hf⟩ := Option.map_eq_some_iff.mp hrepl
    obtain ⟨options, hoptions, hmem⟩ := exists_of_chosen_of_forall hmap hpart
    intro field hfield
    rcases mem_insertFields hfield with ⟨other, hother, hvalue⟩ | hold
    · rw [hvalue]
      exact h.merged options part replMap hoptions hmem hf other hother
    · exact hremoved field hold
  · exact hremoved

lemma Inherited.mergeCombiners (h : Inherited P f) (hmap : ∀ field ∈ map, P field.2)
    (combiners : List String) :
    ∀ field ∈ combiners.foldl (Gemini.mergeCombiner f) map, P field.2 := by
  induction combiners generalizing map with
  | nil => exact hmap
  | cons combiner combiners ih => exact ih (h.mergeCombiner hmap combiner)

lemma Inherited.rewriteFields (h : Inherited P f) (hmap : ∀ field ∈ map, P field.2) :
    ∀ field ∈ rewriteFields f map, P field.2 := by
  unfold Gemini.rewriteFields
  dsimp only
  split_ifs
  · intro field hfield
    obtain rfl := List.mem_singleton.mp hfield
    exact h.str _
  · exact h.mergeCombiners (h.prepared hmap) combiners

lemma keysAscend_rewriteFields (h : KeysAscend map) : KeysAscend (rewriteFields f map) := by
  unfold rewriteFields
  dsimp only
  split_ifs
  · exact List.pairwise_singleton _ _
  · have hmerged (combiners : List String) (start : Fields Char) (hstart : KeysAscend start) :
        KeysAscend (combiners.foldl (mergeCombiner f) start) := by
      induction combiners generalizing start with
      | nil => exact hstart
      | cons combiner combiners ih => exact ih _ (keysAscend_mergeCombiner hstart combiner)
    exact hmerged _ _ (keysAscend_narrowType (h.removeFields metadata))

/-- The fields depend on the rewrite of the alternatives only. -/
lemma rewriteFields_congr {g : Json Char → Json Char} (h : Inherited P f)
    (hmap : ∀ field ∈ map, P field.2)
    (heq : ∀ options part, P (.arr options) → part ∈ options ∨ part = .null → f part = g part) :
    rewriteFields f map = rewriteFields g map := by
  have hmerge (start : Fields Char) (hstart : ∀ field ∈ start, P field.2) (combiner : String) :
      mergeCombiner f start combiner = mergeCombiner g start combiner := by
    unfold mergeCombiner
    cases hpart : chosen combiner (.obj start) with
    | none => rfl
    | some part =>
      obtain ⟨options, hoptions, hmem⟩ := exists_of_chosen_of_forall hstart hpart
      rw [Option.map_some, Option.map_some, heq options part hoptions hmem]
  have hfold (combiners : List String) (start : Fields Char)
      (hstart : ∀ field ∈ start, P field.2) :
      combiners.foldl (mergeCombiner f) start = combiners.foldl (mergeCombiner g) start := by
    induction combiners generalizing start with
    | nil => rfl
    | cons combiner combiners ih =>
      rw [List.foldl_cons, List.foldl_cons, ← hmerge start hstart]
      exact ih _ (h.mergeCombiner hstart combiner)
  unfold rewriteFields
  dsimp only
  rw [hfold combiners _ (h.prepared hmap)]

end Fields

/-! ## The whole value -/

/-- A sorted value that nests at most so deeply. -/
def Fits (n : Nat) (value : Json Char) : Prop := Normal value ∧ depth value ≤ n

lemma fits_fields {map : Fields Char} {n : Nat} (h : Fits (n + 1) (.obj map)) :
    ∀ field ∈ map, Fits n field.2 := by
  intro field hfield
  have hdepth : depthFields map + 1 ≤ n + 1 := h.2
  exact ⟨normalFields_iff.mp h.1.2 field hfield,
    depthFields_le_iff.mp (Nat.le_of_succ_le_succ hdepth) field hfield⟩

lemma fits_items {items : List (Json Char)} {n : Nat} (h : Fits (n + 1) (.arr items)) :
    ∀ item ∈ items, Fits n item := by
  intro item hitem
  have hdepth : depthItems items + 1 ≤ n + 1 := h.2
  exact ⟨normalItems_iff.mp h.1 item hitem,
    depthItems_le_iff.mp (Nat.le_of_succ_le_succ hdepth) item hitem⟩

lemma Fits.mono {m n : Nat} {value : Json Char} (h : Fits m value) (hmn : m ≤ n) : Fits n value :=
  ⟨h.1, h.2.trans hmn⟩

lemma fits_of_mem {n : Nat} {options : List (Json Char)} {part : Json Char}
    (h : Fits n (.arr options)) (hpart : part ∈ options ∨ part = .null) : Fits n part := by
  rcases hpart with hmem | rfl
  · cases n with
    | zero => exact absurd h.2 (Nat.not_succ_le_zero _)
    | succ n => exact (fits_items h part hmem).mono (Nat.le_succ n)
  · exact ⟨trivial, Nat.zero_le n⟩

/-- A rewrite under which values stay sorted and nest no deeper hands this on. -/
lemma inherited_fits {f : Json Char → Json Char}
    (hf : ∀ n value, Fits n value → Fits n (f value)) (n : Nat) : Inherited (Fits n) f where
  str s := ⟨trivial, Nat.zero_le n⟩
  merged options part replMap hoptions hpart hrepl := by
    have hobj : Fits n (.obj replMap) := hrepl ▸ hf n part (fits_of_mem hoptions hpart)
    cases n with
    | zero => exact absurd hobj.2 (Nat.not_succ_le_zero _)
    | succ n => exact fun field hfield => (fits_fields hobj field hfield).mono (Nat.le_succ n)

lemma fits_normalizeSchema (depth : Nat) : ∀ n value, Fits n value →
    Fits n (normalizeSchema depth value) := by
  induction depth with
  | zero => exact fun n value h => h
  | succ depth ih =>
    intro n value h
    cases value with
    | obj map =>
      cases n with
      | zero => exact absurd h.2 (Nat.not_succ_le_zero _)
      | succ n =>
        have hfields := (inherited_fits ih n).rewriteFields (fits_fields h)
        have hvalues (field : List Char × Json Char)
            (hfield : field ∈ mapValues (normalizeSchema depth)
              (rewriteFields (normalizeSchema depth) map)) : Fits n field.2 := by
          obtain ⟨old, hold, rfl⟩ := List.mem_map.mp hfield
          exact ih n old.2 (hfields old hold)
        rw [normalizeSchema, Fits, Json.Normal, Json.depth]
        refine ⟨⟨keysAscend_mapValues (keysAscend_rewriteFields h.1.1), ?_⟩, ?_⟩
        · rw [normalFields_iff]
          exact fun field hfield => (hvalues field hfield).1
        · rw [Nat.succ_le_succ_iff, depthFields_le_iff]
          exact fun field hfield => (hvalues field hfield).2
    | arr items =>
      cases n with
      | zero => exact absurd h.2 (Nat.not_succ_le_zero _)
      | succ n =>
        have hitems (item : Json Char) (hitem : item ∈ items.map (normalizeSchema depth)) :
            Fits n item := by
          obtain ⟨old, hold, rfl⟩ := List.mem_map.mp hitem
          exact ih n old (fits_items h old hold)
        rw [normalizeSchema, Fits, Json.Normal, Json.depth, normalItems_iff,
          Nat.succ_le_succ_iff, depthItems_le_iff]
        exact ⟨fun item hitem => (hitems item hitem).1, fun item hitem => (hitems item hitem).2⟩
    | _ => exact h

/-- Going deeper than the value nests makes no difference. -/
lemma normalizeSchema_eq {m n : Nat} {value : Json Char} (hm : Fits m value) (hn : Fits n value) :
    normalizeSchema m value = normalizeSchema n value := by
  induction m generalizing n value with
  | zero =>
    cases value with
    | obj map => exact absurd hm.2 (Nat.not_succ_le_zero _)
    | arr items => exact absurd hm.2 (Nat.not_succ_le_zero _)
    | _ => cases n <;> rfl
  | succ m ih =>
    cases value with
    | obj map =>
      cases n with
      | zero => exact absurd hn.2 (Nat.not_succ_le_zero _)
      | succ n =>
        have hmap (field : List Char × Json Char) (hfield : field ∈ map) :
            Fits (min m n) field.2 :=
          ⟨(fits_fields hm field hfield).1,
            le_min (fits_fields hm field hfield).2 (fits_fields hn field hfield).2⟩
        have hsame (part : Json Char) (h : Fits (min m n) part) :
            normalizeSchema m part = normalizeSchema n part :=
          ih (h.mono (Nat.min_le_left m n)) (h.mono (Nat.min_le_right m n))
        have hinherited := inherited_fits (fits_normalizeSchema m) (min m n)
        have hrewrite : rewriteFields (normalizeSchema m) map =
            rewriteFields (normalizeSchema n) map :=
          rewriteFields_congr hinherited hmap fun options part hoptions hpart =>
            hsame part (fits_of_mem hoptions hpart)
        rw [normalizeSchema, normalizeSchema, ← hrewrite]
        refine congrArg Json.obj (List.map_congr_left fun field hfield => ?_)
        rw [hsame field.2 (hinherited.rewriteFields hmap field hfield)]
    | arr items =>
      cases n with
      | zero => exact absurd hn.2 (Nat.not_succ_le_zero _)
      | succ n =>
        refine congrArg Json.arr (List.map_congr_left fun item hitem => ?_)
        exact ih (fits_items hm item hitem) (fits_items hn item hitem)
    | _ => cases n <;> rfl

section Equations

variable {value : Json Char} {map : Fields Char} {items : List (Json Char)}

lemma fits_depth (h : Normal value) : Fits (depth value) value := ⟨h, Nat.le_refl _⟩

lemma normalizeSchema_of_fits {n : Nat} (h : Fits n value) :
    normalizeSchema n value = normalizeSchemaForGemini value :=
  normalizeSchema_eq h (fits_depth h.1)

lemma normalizeSchemaForGemini_obj (h : Normal (.obj map)) :
    normalizeSchemaForGemini (.obj map) =
      .obj (mapValues normalizeSchemaForGemini (rewriteFields normalizeSchemaForGemini map)) := by
  have hmap : ∀ field ∈ map, Fits (depthFields map) field.2 := fits_fields (fits_depth h)
  have hinherited := inherited_fits (fits_normalizeSchema (depthFields map)) (depthFields map)
  have hrewrite : rewriteFields (normalizeSchema (depthFields map)) map =
      rewriteFields normalizeSchemaForGemini map :=
    rewriteFields_congr hinherited hmap fun options part hoptions hpart =>
      normalizeSchema_of_fits (fits_of_mem hoptions hpart)
  rw [normalizeSchemaForGemini, depth, normalizeSchema]
  refine congrArg Json.obj ?_
  rw [← hrewrite]
  exact List.map_congr_left fun field hfield =>
    congrArg (Prod.mk field.1)
      (normalizeSchema_of_fits (hinherited.rewriteFields hmap field hfield))

lemma normalizeSchemaForGemini_arr (h : Normal (.arr items)) :
    normalizeSchemaForGemini (.arr items) = .arr (items.map normalizeSchemaForGemini) :=
  congrArg Json.arr (List.map_congr_left fun item hitem =>
    normalizeSchema_of_fits (fits_items (fits_depth h) item hitem))

lemma normal_normalizeSchemaForGemini (h : Normal value) :
    Normal (normalizeSchemaForGemini value) :=
  (fits_normalizeSchema _ _ value (fits_depth h)).1

end Equations

/-! ## Values without the keywords -/

/-- No object in the value has one of the keywords or a list of types. -/
inductive Clean : Json Char → Prop
  | leaf {value : Json Char} (hdepth : depth value = 0) : Clean value
  | arr {items : List (Json Char)} (hitems : ∀ item ∈ items, Clean item) : Clean (.arr items)
  | obj {map : Fields Char} (hkeywords : ∀ key ∈ keywords, get key.toList (.obj map) = none)
    (htype : ∀ types, get "type".toList (.obj map) ≠ some (.arr types))
    (hvalues : ∀ field ∈ map, Clean field.2) : Clean (.obj map)

lemma Clean.get_eq_none {value : Json Char} (h : Clean value) {key : String}
    (hkey : key ∈ keywords) : get key.toList value = none := by
  cases h with
  | leaf hdepth =>
    cases value with
    | obj map => exact absurd hdepth (Nat.succ_ne_zero _)
    | _ => rfl
  | arr hitems => rfl
  | obj hkeywords htype hvalues => exact hkeywords key hkey

lemma Clean.get_type_ne {value : Json Char} (h : Clean value) (types : List (Json Char)) :
    get "type".toList value ≠ some (.arr types) := by
  cases h with
  | leaf hdepth =>
    cases value with
    | obj map => exact absurd hdepth (Nat.succ_ne_zero _)
    | _ => exact fun heq => by cases heq
  | arr hitems => exact fun heq => by cases heq
  | obj hkeywords htype hvalues => exact htype types

lemma ne_type_of_mem_keywords : ∀ key ∈ keywords, key.toList ≠ "type".toList := by decide

lemma narrowed_ne_arr (value : Json Char) (types : List (Json Char)) :
    narrowed value ≠ .arr types := by
  intro heq
  cases value <;> cases heq

/-- What is clean is left as it is. -/
lemma rewriteFields_of_clean {f : Json Char → Json Char} {map : Fields Char}
    (h : Clean (.obj map)) : rewriteFields f map = map := by
  have hremoved : removeFields metadata map = map :=
    removeFields_of_get fun key hkey =>
      h.get_eq_none (List.mem_append_left _ (List.mem_append_left _ hkey))
  have hnarrow : narrowType map = map := by
    unfold narrowType
    split
    · next types hget =>
      cases h with
      | leaf hdepth => exact absurd hdepth (Nat.succ_ne_zero _)
      | obj hkeywords htype hvalues => exact absurd hget (htype types)
    · rfl
  have hmerge (combiner : String) (hmem : combiner ∈ combiners) :
      mergeCombiner f map combiner = map := by
    have hnone : get combiner.toList (.obj map) = none :=
      h.get_eq_none (List.mem_append_left _ (List.mem_append_right _ hmem))
    rw [mergeCombiner, chosen, hnone]
    exact removeField_of_get hnone
  have hfold : combiners.foldl (mergeCombiner f) map = map := by
    rw [combiners, List.foldl_cons, hmerge _ (by decide), List.foldl_cons, hmerge _ (by decide),
      List.foldl_cons, hmerge _ (by decide), List.foldl_nil]
  have href : get "$ref".toList (.obj map) = none := h.get_eq_none (by decide)
  rw [rewriteFields, hremoved, hnarrow, hfold, href]
  rfl

lemma normalizeSchema_of_clean (n : Nat) {value : Json Char} (h : Clean value) :
    normalizeSchema n value = value := by
  induction n generalizing value with
  | zero => rfl
  | succ n ih =>
    cases value with
    | obj map =>
      rw [normalizeSchema, rewriteFields_of_clean h]
      cases h with
      | leaf hdepth => exact absurd hdepth (Nat.succ_ne_zero _)
      | obj hkeywords htype hvalues =>
        refine congrArg Json.obj
          ((List.map_congr_left fun field hfield => ?_).trans (List.map_id _))
        rw [ih (hvalues field hfield)]
        rfl
    | arr items =>
      cases h with
      | leaf hdepth => exact absurd hdepth (Nat.succ_ne_zero _)
      | arr hitems =>
        refine congrArg Json.arr ((List.map_congr_left fun item hitem => ?_).trans (List.map_id _))
        rw [ih (hitems item hitem)]
        rfl
    | _ => rfl

lemma fits_normalizeSchemaForGemini (n : Nat) (value : Json Char) (h : Fits n value) :
    Fits n (normalizeSchemaForGemini value) := fits_normalizeSchema _ n value h

lemma eq_arr_of_normalize {value : Json Char} {items : List (Json Char)} (h : Normal value)
    (heq : normalizeSchemaForGemini value = .arr items) : ∃ items', value = .arr items' := by
  cases value with
  | arr items' => exact ⟨items', rfl⟩
  | obj map =>
    rw [normalizeSchemaForGemini_obj h] at heq
    cases heq
  | _ => cases heq

/-- A rewritten object has a key when an alternative has it or the object has it to keep. -/
lemma get_rewriteFields_normalize {map : Fields Char} {k : List Char} (h : Normal (.obj map))
    (hclean : ∀ combiner part, chosen combiner (.obj map) = some part →
      Clean (normalizeSchemaForGemini part)) :
    get k (.obj (rewriteFields normalizeSchemaForGemini map)) =
      if (get "$ref".toList (.obj map)).isSome then
        if k = "type".toList then some (.str "string".toList) else none
      else
        (combiners.reverse.findSome?
          (alternativeField normalizeSchemaForGemini k (.obj map))).or (ownKept k (.obj map)) :=
  get_rewriteFields h.1 fun combiner _ part hpart _ hkey =>
    (hclean combiner part hpart).get_eq_none hkey

theorem clean_normalizeSchemaForGemini {value : Json Char} (h : Normal value) :
    Clean (normalizeSchemaForGemini value) := by
  suffices hfits : ∀ n value, Fits n value → Clean (normalizeSchemaForGemini value) from
    hfits _ value (fits_depth h)
  intro n
  induction n with
  | zero =>
    intro value hfit
    exact Clean.leaf (Nat.le_zero.mp (fits_normalizeSchemaForGemini 0 value hfit).2)
  | succ n ih =>
    intro value hfit
    cases value with
    | obj map =>
      have hclean (combiner : String) (part : Json Char)
          (hpart : chosen combiner (.obj map) = some part) :
          Clean (normalizeSchemaForGemini part) := by
        have hlt := (depth_lt_of_chosen hpart).trans_le hfit.2
        exact ih part ⟨normal_of_chosen hfit.1 hpart, Nat.le_of_lt_succ hlt⟩
      have hfields := (inherited_fits fits_normalizeSchemaForGemini n).rewriteFields
        (fits_fields hfit)
      rw [normalizeSchemaForGemini_obj hfit.1]
      apply Clean.obj
      · intro key hkey
        have halternatives : combiners.reverse.findSome?
            (alternativeField normalizeSchemaForGemini key.toList (.obj map)) = none := by
          rw [List.findSome?_eq_none_iff]
          intro combiner _
          unfold alternativeField
          cases hpart : chosen combiner (.obj map) with
          | none => rfl
          | some part => exact (hclean combiner part hpart).get_eq_none hkey
        rw [get_mapValues, get_rewriteFields_normalize hfit.1 hclean, halternatives, ownKept,
          if_pos (named_iff.mpr (List.mem_map_of_mem hkey)), if_neg (ne_type_of_mem_keywords key hkey)]
        split_ifs <;> rfl
      · intro types hget
        rw [get_mapValues, Option.map_eq_some_iff] at hget
        obtain ⟨value, hvalue, heq⟩ := hget
        obtain ⟨field, hfield, -, rfl⟩ := mem_of_get hvalue
        obtain ⟨types', htypes⟩ := eq_arr_of_normalize (hfields field hfield).1 heq
        rw [htypes, get_rewriteFields_normalize hfit.1 hclean] at hvalue
        split_ifs at hvalue with href
        · cases hvalue
        · rcases Option.or_eq_some_iff.mp hvalue with hother | ⟨-, hown⟩
          · obtain ⟨combiner, -, hfield'⟩ := List.exists_of_findSome?_eq_some hother
            obtain ⟨part, hpart, hpartType⟩ := Option.bind_eq_some_iff.mp hfield'
            exact (hclean combiner part hpart).get_type_ne types' hpartType
          · rw [ownKept, if_neg (by decide), if_pos rfl] at hown
            obtain ⟨own, -, hnarrowed⟩ := Option.map_eq_some_iff.mp hown
            exact narrowed_ne_arr own types' hnarrowed
      · intro field hfield
        obtain ⟨old, hold, rfl⟩ := List.mem_map.mp hfield
        exact ih old.2 (hfields old hold)
    | arr items =>
      rw [normalizeSchemaForGemini_arr hfit.1]
      apply Clean.arr
      intro item hitem
      obtain ⟨old, hold, rfl⟩ := List.mem_map.mp hitem
      exact ih old (fits_items hfit old hold)
    | _ => exact Clean.leaf rfl

/-- What is rewritten once is left as it is. -/
lemma normalizeSchemaForGemini_idem {value : Json Char} (h : Normal value) :
    normalizeSchemaForGemini (normalizeSchemaForGemini value) = normalizeSchemaForGemini value :=
  normalizeSchema_of_clean _ (clean_normalizeSchemaForGemini h)

lemma kept_of_not_obj {value : Json Char} (h : ∀ map, value ≠ .obj map) (k : List Char) :
    kept k value = none := by
  have hget (key : List Char) : get key value = none := by
    cases value with
    | obj map => exact absurd rfl (h map)
    | _ => rfl
  have hchosen (combiner : String) : chosen combiner value = none := by rw [chosen, hget]
  have hnone : combiners.reverse.findSome? (fun combiner => (chosen combiner value).bind (kept k)) =
      none := by
    rw [List.findSome?_eq_none_iff]
    intro combiner _
    rw [hchosen combiner, Option.bind_none]
  have href : ¬ (none : Option (Json Char)).isSome = true := Bool.false_ne_true
  rw [kept_eq, hget, if_neg href, hnone, ownKept, hget]
  split_ifs <;> rfl

/-- What is kept under a key is sorted, for it is a value of the object or of an alternative. -/
lemma normal_kept {value part : Json Char} {k : List Char} (h : Normal value)
    (hkept : kept k value = some part) : Normal part := by
  suffices hdepth : ∀ n value, Normal value → depth value < n → kept k value = some part →
      Normal part from hdepth _ value h (Nat.lt_succ_self _) hkept
  intro n
  induction n with
  | zero => exact fun value _ hlt => absurd hlt (Nat.not_lt_zero _)
  | succ n ih =>
    intro value h hlt hkept
    rw [kept_eq] at hkept
    split_ifs at hkept with href hk
    · cases hkept
      trivial
    · rcases Option.or_eq_some_iff.mp hkept with hother | ⟨-, hown⟩
      · obtain ⟨combiner, -, hbind⟩ := List.exists_of_findSome?_eq_some hother
        obtain ⟨other, hchosen, hkept⟩ := Option.bind_eq_some_iff.mp hbind
        exact ih other (normal_of_chosen h hchosen)
          ((depth_lt_of_chosen hchosen).trans_le (Nat.le_of_lt_succ hlt)) hkept
      · unfold ownKept at hown
        split_ifs at hown
        · obtain ⟨own, hget, rfl⟩ := Option.map_eq_some_iff.mp hown
          have hnormal := h.get hget
          cases own with
          | arr types => trivial
          | _ => exact hnormal
        · exact h.get hown

/-- A key of a rewritten object has the rewrite of the value that is kept there. -/
theorem get_normalizeSchemaForGemini {value : Json Char} (h : Normal value) (k : List Char) :
    get k (normalizeSchemaForGemini value) = (kept k value).map normalizeSchemaForGemini := by
  suffices hdepth : ∀ n value, Normal value → depth value < n →
      get k (normalizeSchemaForGemini value) = (kept k value).map normalizeSchemaForGemini from
    hdepth _ value h (Nat.lt_succ_self _)
  intro n
  induction n with
  | zero => exact fun value _ hlt => absurd hlt (Nat.not_lt_zero _)
  | succ n ih =>
    intro value h hlt
    cases value with
    | obj map =>
      have hclean (combiner : String) (part : Json Char)
          (hchosen : chosen combiner (.obj map) = some part) :
          Clean (normalizeSchemaForGemini part) :=
        clean_normalizeSchemaForGemini (normal_of_chosen h hchosen)
      -- what an alternative has is rewritten twice
      have htwice : combiners.reverse.findSome? (Option.map normalizeSchemaForGemini ∘
            alternativeField normalizeSchemaForGemini k (.obj map)) =
          combiners.reverse.findSome? (Option.map normalizeSchemaForGemini ∘
            fun combiner => (chosen combiner (.obj map)).bind (kept k)) := by
        apply findSome_congr
        intro combiner _
        rw [Function.comp_apply, Function.comp_apply, alternativeField]
        cases hchosen : chosen combiner (.obj map) with
        | none => rfl
        | some part =>
          have hpart := normal_of_chosen h hchosen
          rw [Option.bind_some, Option.bind_some, ih part hpart
            ((depth_lt_of_chosen hchosen).trans_le (Nat.le_of_lt_succ hlt))]
          cases hkept : kept k part with
          | none => rfl
          | some value =>
            rw [Option.map_some, Option.map_some,
              normalizeSchemaForGemini_idem (normal_kept hpart hkept)]
      rw [normalizeSchemaForGemini_obj h, get_mapValues, get_rewriteFields_normalize h hclean,
        kept_eq]
      by_cases href : (get "$ref".toList (.obj map)).isSome = true
      · rw [if_pos href, if_pos href]
      · rw [if_neg href, if_neg href, Option.map_or, Option.map_or, List.map_findSome?,
          List.map_findSome?, htwice]
    | _ => rw [kept_of_not_obj (fun map heq => by cases heq)]; rfl

end RustyClaw.Llm.Gemini
