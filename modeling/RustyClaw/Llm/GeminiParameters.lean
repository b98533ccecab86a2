import RustyClaw.Llm.GeminiSchema

/-!
# The parameters of a tool that are declared to Gemini

`inline_schema_refs` and `normalize_schema_for_gemini` should keep the parameters of a tool: every
reference gives way to its definition, and every map of parameters (`properties`) has the same names
as before.  What a schema declares is told by where its keywords hold schemas, maps of parameters or
other maps of schemas (`Kind.next`), and by which alternatives are taken (`Part`).

They do not always keep them, and `keepsParameters_iff` says when: a definition that is not an
object is not put in, a parameter that is called like one of the keywords is lost, and what an
alternative has under a keyword takes the place of what the schema around it has there (`Settled`).
-/

namespace RustyClaw.Llm.Gemini

open Json hiding str

/-! ## References -/

/-- The schema that a schema stands for: every reference in it gives way to its definition, where
all of them have one and this needs no more levels. -/
def expand (root : Json Char) : Nat → Json Char → Option (Json Char)
  | 0, value => if depth value = 0 then some value else none
  | left + 1, .obj map =>
    match reference (.obj map) with
    | some refPath => (definitionOf root refPath).bind (expand root left)
    | none => (map.mapM fun field => (expand root left field.2).map (Prod.mk field.1)).map .obj
  | left + 1, .arr items => (items.mapM (expand root left)).map .arr
  | _ + 1, value => some value

/-- The schema nests less deeply than the limit, also where definitions are put in; with references
in a circle it does not. -/
def Shallow (root : Json Char) : Nat → Json Char → Prop
  | 0, value => depth value = 0
  | left + 1, .obj map =>
    match reference (.obj map) with
    | some refPath => ∀ resolved ∈ definitionOf root refPath, Shallow root left resolved
    | none => ∀ field ∈ map, Shallow root left field.2
  | left + 1, .arr items => ∀ item ∈ items, Shallow root left item
  | _ + 1, _ => True

/-- Every reference that is met names a definition, and this is an object. -/
def RefsToObjects (root : Json Char) : Nat → Json Char → Prop
  | 0, _ => True
  | left + 1, .obj map =>
    match reference (.obj map) with
    | some refPath => ∃ resolvedMap, definitionOf root refPath = some (.obj resolvedMap) ∧
        RefsToObjects root left (.obj resolvedMap)
    | none => ∀ field ∈ map, RefsToObjects root left field.2
  | left + 1, .arr items => ∀ item ∈ items, RefsToObjects root left item
  | _ + 1, _ => True

section References

lemma mapM_eq_some_map {α β : Type} {f : α → Option β} {g : α → β} {l : List α}
    (h : ∀ a ∈ l, f a = some (g a)) : l.mapM f = some (l.map g) := by
  induction l with
  | nil => rfl
  | cons a l ih =>
    rw [List.mapM_cons, h a List.mem_cons_self, ih fun b hb => h b (List.mem_cons_of_mem _ hb)]
    rfl

lemma of_mapM_eq_some_map {α β : Type} {f : α → Option β} {g : α → β} {l : List α}
    (h : l.mapM f = some (l.map g)) : ∀ a ∈ l, f a = some (g a) := by
  induction l with
  | nil => exact fun a ha => absurd ha List.not_mem_nil
  | cons a l ih =>
    rw [List.mapM_cons] at h
    obtain ⟨b, hb, h⟩ := Option.bind_eq_some_iff.mp h
    obtain ⟨bs, hbs, h⟩ := Option.bind_eq_some_iff.mp h
    obtain ⟨rfl, rfl⟩ := List.cons.inj (Option.some_inj.mp h)
    exact List.forall_mem_cons.mpr ⟨hb, ih hbs⟩

lemma exists_of_mapM_eq_some {α β : Type} {f : α → Option β} {l : List α} {bs : List β}
    (h : l.mapM f = some bs) : ∀ a ∈ l, ∃ b, f a = some b := by
  induction l generalizing bs with
  | nil => exact fun a ha => absurd ha List.not_mem_nil
  | cons a l ih =>
    rw [List.mapM_cons] at h
    obtain ⟨b, hb, h⟩ := Option.bind_eq_some_iff.mp h
    obtain ⟨bs', hbs, -⟩ := Option.bind_eq_some_iff.mp h
    exact List.forall_mem_cons.mpr ⟨⟨b, hb⟩, ih hbs⟩

lemma exists_inline_obj (root : Json Char) (left : Nat) (map : Fields Char) :
    ∃ map', inlineSchemaRefs root left (.obj map) = .obj map' := by
  cases left with
  | zero => exact ⟨map, rfl⟩
  | succ left =>
    unfold inlineSchemaRefs
    split
    · split
      · next resolvedMap _ => exact ⟨resolvedMap, rfl⟩
      · exact ⟨map, rfl⟩
    · exact ⟨_, rfl⟩

lemma inline_not_obj (root : Json Char) (left : Nat) {value : Json Char}
    (h : ∀ map, value ≠ .obj map) (map : Fields Char) :
    inlineSchemaRefs root left value ≠ .obj map := by
  intro heq
  cases left with
  | zero => exact h map heq
  | succ left =>
    cases value with
    | obj map => exact h map rfl
    | _ => cases heq

variable {root : Json Char}

lemma expand_not_obj (left : Nat) {value : Json Char} (h : ∀ map, value ≠ .obj map)
    (map : Fields Char) : expand root left value ≠ some (.obj map) := by
  intro heq
  cases left with
  | zero =>
    unfold expand at heq
    split_ifs at heq
    exact h map (Option.some_inj.mp heq)
  | succ left =>
    cases value with
    | obj map => exact h map rfl
    | arr items =>
      obtain ⟨items', -, hitems⟩ := Option.map_eq_some_iff.mp heq
      cases hitems
    | _ => cases heq

/-- The definitions are put in when they are objects. -/
lemma expand_of_refsToObjects {left : Nat} {value : Json Char} (hshallow : Shallow root left value)
    (hrefs : RefsToObjects root left value) :
    expand root left value = some (inlineSchemaRefs root left value) := by
  induction left generalizing value with
  | zero => exact if_pos hshallow
  | succ left ih =>
    cases value with
    | obj map =>
      unfold Shallow at hshallow
      unfold RefsToObjects at hrefs
      unfold expand inlineSchemaRefs
      cases href : reference (.obj map) with
      | some refPath =>
        rw [href] at hshallow hrefs
        obtain ⟨resolvedMap, hresolved, hrefs⟩ := hrefs
        obtain ⟨map', hmap'⟩ := exists_inline_obj root left resolvedMap
        have hexpand := ih (hshallow _ hresolved) hrefs
        dsimp only
        rw [hresolved, Option.bind_some, Option.map_some, hexpand, hmap']
      | none =>
        rw [href] at hshallow hrefs
        dsimp only at hshallow hrefs ⊢
        rw [mapM_eq_some_map fun field hfield => by
          rw [ih (hshallow field hfield) (hrefs field hfield), Option.map_some]]
        rfl
    | arr items =>
      have hitems := mapM_eq_some_map fun item hitem => ih (hshallow item hitem) (hrefs item hitem)
      unfold expand
      rw [hitems]
      rfl
    | _ => rfl

/-- They are not, when one of them is none. -/
lemma refsToObjects_of_expand {left : Nat} {value : Json Char}
    (h : expand root left value = some (inlineSchemaRefs root left value)) :
    RefsToObjects root left value := by
  induction left generalizing value with
  | zero => trivial
  | succ left ih =>
    cases value with
    | obj map =>
      unfold expand inlineSchemaRefs at h
      unfold RefsToObjects
      cases href : reference (.obj map) with
      | some refPath =>
        rw [href] at h
        dsimp only at h ⊢
        cases hresolved : definitionOf root refPath with
        | none =>
          rw [hresolved] at h
          cases h
        | some resolved =>
          rw [hresolved, Option.bind_some, Option.map_some] at h
          by_cases hobj : ∃ resolvedMap, resolved = .obj resolvedMap
          · obtain ⟨resolvedMap, rfl⟩ := hobj
            obtain ⟨map', hmap'⟩ := exists_inline_obj root left resolvedMap
            rw [hmap'] at h
            exact ⟨resolvedMap, rfl, ih (hmap' ▸ h)⟩
          · -- the reference stays, and nothing else stands for an object
            have hnot : ∀ resolvedMap, resolved ≠ .obj resolvedMap := not_exists.mp hobj
            have hstays := inline_not_obj root left hnot
            split at h
            · next m hm => exact absurd (Option.some_inj.mp hm) (hstays m)
            · exact absurd h (expand_not_obj left hnot map)
      | none =>
        rw [href] at h
        dsimp only at h ⊢
        obtain ⟨fields, hfields, heq⟩ := Option.map_eq_some_iff.mp h
        obtain rfl := Json.obj.inj heq
        intro field hfield
        obtain ⟨e, hexpand, heq⟩ := Option.map_eq_some_iff.mp
          (of_mapM_eq_some_map hfields field hfield)
        obtain ⟨-, rfl⟩ := Prod.mk.inj heq
        exact ih hexpand
    | arr items =>
      unfold expand inlineSchemaRefs at h
      obtain ⟨items', hitems, heq⟩ := Option.map_eq_some_iff.mp h
      obtain rfl := Json.arr.inj heq
      exact fun item hitem => ih (of_mapM_eq_some_map hitems item hitem)
    | _ => trivial

/-- A schema whose references can be followed to their ends is shallow. -/
lemma shallow_of_expand {left : Nat} {value expanded : Json Char}
    (h : expand root left value = some expanded) : Shallow root left value := by
  induction left generalizing value expanded with
  | zero =>
    unfold expand at h
    split_ifs at h with hdepth
    exact hdepth
  | succ left ih =>
    cases value with
    | obj map =>
      unfold expand at h
      unfold Shallow
      cases href : reference (.obj map) with
      | some refPath =>
        rw [href] at h
        obtain ⟨resolved, hresolved, h⟩ := Option.bind_eq_some_iff.mp h
        intro resolved' hresolved'
        obtain rfl := Option.some_inj.mp (hresolved.symm.trans hresolved')
        exact ih h
      | none =>
        rw [href] at h
        obtain ⟨fields, hfields, -⟩ := Option.map_eq_some_iff.mp h
        intro field hfield
        obtain ⟨field', hfield'⟩ := exists_of_mapM_eq_some hfields field hfield
        obtain ⟨value, hvalue, -⟩ := Option.map_eq_some_iff.mp hfield'
        exact ih hvalue
    | arr items =>
      obtain ⟨items', hitems, -⟩ := Option.map_eq_some_iff.mp h
      intro item hitem
      obtain ⟨item', hitem'⟩ := exists_of_mapM_eq_some hitems item hitem
      exact ih hitem'
    | _ => trivial

lemma normal_of_definitionOf {refPath : List Char} {resolved : Json Char} (h : Normal root)
    (hresolved : definitionOf root refPath = some resolved) : Normal resolved := by
  obtain ⟨name, -, hname⟩ := Option.bind_eq_some_iff.mp hresolved
  rcases Option.or_eq_some_iff.mp hname with hdefs | ⟨-, hdefinitions⟩
  · obtain ⟨defs, hdefs, hget⟩ := Option.bind_eq_some_iff.mp hdefs
    exact (h.get hdefs).get hget
  · obtain ⟨defs, hdefs, hget⟩ := Option.bind_eq_some_iff.mp hdefinitions
    exact (h.get hdefs).get hget

lemma normal_inlineSchemaRefs (hroot : Normal root) (left : Nat) {value : Json Char}
    (h : Normal value) : Normal (inlineSchemaRefs root left value) := by
  induction left generalizing value with
  | zero => exact h
  | succ left ih =>
    cases value with
    | obj map =>
      unfold inlineSchemaRefs
      split
      · next refPath _ =>
        split
        · next resolvedMap hinline =>
          obtain ⟨resolved, hresolved, heq⟩ := Option.map_eq_some_iff.mp hinline
          exact heq ▸ ih (normal_of_definitionOf hroot hresolved)
        · exact h
      · refine ⟨keysAscend_mapValues h.1, normalFields_iff.mpr fun field hfield => ?_⟩
        obtain ⟨old, hold, rfl⟩ := List.mem_map.mp hfield
        exact ih (normalFields_iff.mp h.2 old hold)
    | arr items =>
      refine normalItems_iff.mpr fun item hitem => ?_
      obtain ⟨old, hold, rfl⟩ := List.mem_map.mp hitem
      exact ih (normalItems_iff.mp h old hold)
    | _ => exact h

end References

/-! ## What a schema declares -/

/-- What a value in a schema is read as. -/
inductive Kind where
  | schema
  | parameters
  | schemas
  deriving DecidableEq

/-- A step into a value. -/
inductive Step where
  | key (k : List Char)
  | index (i : Nat)
  deriving DecidableEq

/-- The keywords of a map of schemas other than `properties`. -/
def schemaMaps : List String := ["patternProperties", "dependentSchemas", "dependencies"]

/-- The keywords of a schema or of a list of schemas that are not alternatives. -/
def schemaKeywords : List String :=
  ["items", "additionalItems", "prefixItems", "contains", "unevaluatedItems",
    "additionalProperties", "propertyNames", "unevaluatedProperties", "not", "if", "then", "else"]

/-- What is found by a step, where it leads to a schema or to a map of schemas. -/
def Kind.next : Kind → Step → Option Kind
  | .schema, .key k =>
    if k = "properties".toList then some .parameters
    else if named schemaMaps k then some .schemas
    else if named schemaKeywords k then some .schema
    else none
  | .schema, .index _ => some .schema
  | _, .key _ => some .schema
  | _, .index _ => none

/-- The schema or an alternative that is taken for it has the value under the key. -/
inductive Brings (k : List Char) : Json Char → Json Char → Prop
  | own {value part : Json Char} (hget : get k value = some part) : Brings k value part
  | alternative {combiner : String} {value other part : Json Char} (hmem : combiner ∈ combiners)
    (hchosen : chosen combiner value = some other) (hbrings : Brings k other part) :
    Brings k value part

/-- What is found by a step; alternatives are looked at in schemas only. -/
def Part : Kind → Json Char → Step → Json Char → Prop
  | .schema, value, .key k, part => Brings k value part
  | _, value, .key k, part => get k value = some part
  | _, value, .index i, part => ∃ items, value = .arr items ∧ items[i]? = some part

/-- The names of the parameters in a map. -/
def namesOf (value : Json Char) : Set (List Char) := {name | (get name value).isSome}

/-- The path leads to a value that is read as this, where `found` tells what is found by a step. -/
def Leads (found : Kind → Json Char → Step → Json Char → Prop) :
    Kind → Json Char → List Step → Kind → Json Char → Prop
  | kind, value, [], kind', value' => kind' = kind ∧ value' = value
  | kind, value, step :: path, kind', value' =>
    ∃ next part, kind.next step = some next ∧ found kind value step part ∧
      Leads found next part path kind' value'

/-- There is a map of parameters with these names at the end of the path. -/
def Declares (kind : Kind) (value : Json Char) (path : List Step) (names : Set (List Char)) :
    Prop :=
  ∃ map, Leads Part kind value path .parameters (.obj map) ∧ names = namesOf (.obj map)

/-- A list in a map of schemas (in `dependencies`) has no schemas. -/
def HoldsSchemas (kind : Kind) (value : Json Char) : Prop :=
  kind ≠ .schema → ∀ k items, get k value = some (.arr items) →
    ∀ item ∈ items, ∀ map, item ≠ .obj map

/-- Each map of schemas in a schema is one. -/
def WellFormed (kind : Kind) (value : Json Char) : Prop :=
  ∀ path kind' part, Leads Part kind value path kind' part → HoldsSchemas kind' part

/-! ## What stays of it -/

/-- The value whose rewrite is found by the step in the rewritten value. -/
def stays (value : Json Char) : Step → Option (Json Char)
  | .key k => kept k value
  | .index i => (asArr value).bind fun items => items[i]?

/-- No parameter is called like a keyword, and what is found by a step declares nothing that is not
declared by what stays there. -/
structure Settled (kind : Kind) (value : Json Char) : Prop where
  names : kind = .parameters → ∀ name ∈ namesOf value, name ∉ keywords.map String.toList
  parts : ∀ step kind' part, kind.next step = some kind' → Part kind value step part →
    ∀ path names, Declares kind' part path names →
      ∃ stay ∈ stays value step, Declares kind' stay path names

/-- This holds of everything that stays. -/
def Keeps (kind : Kind) (value : Json Char) : Prop :=
  ∀ path kind' part, Leads (fun _ value step part => stays value step = some part)
    kind value path kind' part → Settled kind' part

/-- What the value declares is declared by its rewrite. -/
def Retains (kind : Kind) (value : Json Char) : Prop :=
  ∀ path names, Declares kind value path names →
    Declares kind (normalizeSchemaForGemini value) path names

section Declared

variable {kind kind' : Kind} {value part : Json Char} {step : Step} {path : List Step}
  {names : Set (List Char)}

lemma declares_nil : Declares kind value [] names ↔
    kind = .parameters ∧ ∃ map, value = .obj map ∧ names = namesOf (.obj map) := by
  constructor
  · rintro ⟨map, ⟨hkind, hvalue⟩, hnames⟩
    exact ⟨hkind.symm, map, hvalue.symm, hnames⟩
  · rintro ⟨hkind, map, hvalue, hnames⟩
    exact ⟨map, ⟨hkind.symm, hvalue.symm⟩, hnames⟩

lemma declares_cons : Declares kind value (step :: path) names ↔
    ∃ next part, kind.next step = some next ∧ Part kind value step part ∧
      Declares next part path names := by
  constructor
  · rintro ⟨map, ⟨next, part, hnext, hpart, hleads⟩, hnames⟩
    exact ⟨next, part, hnext, hpart, map, hleads, hnames⟩
  · rintro ⟨next, part, hnext, hpart, map, hleads, hnames⟩
    exact ⟨map, ⟨next, part, hnext, hpart, hleads⟩, hnames⟩

/-- The steps that are found in a text are none. -/
lemma not_part_str (s : List Char) : ¬ Part kind (.str s) step part := by
  intro hpart
  cases step with
  | key k =>
    cases kind with
    | schema =>
      cases hpart with
      | own hget => cases hget
      | alternative hmem hchosen hbrings => cases hchosen
    | _ => cases hpart
  | index i =>
    obtain ⟨items, heq, -⟩ : ∃ items, Json.str s = .arr items ∧ items[i]? = some part := by
      cases kind <;> exact hpart
    cases heq

lemma not_declares_str (s : List Char) : ¬ Declares kind (.str s) path names := by
  intro hdeclares
  cases path with
  | nil =>
    obtain ⟨-, map, heq, -⟩ := declares_nil.mp hdeclares
    cases heq
  | cons step path =>
    obtain ⟨next, part, -, hpart, -⟩ := declares_cons.mp hdeclares
    exact not_part_str s hpart

/-- A rewritten schema has no alternatives. -/
lemma brings_iff_of_clean {k : List Char} (h : Clean value) :
    Brings k value part ↔ get k value = some part := by
  constructor
  · intro hbrings
    cases hbrings with
    | own hget => exact hget
    | alternative hmem hchosen hbrings =>
      obtain ⟨options, hget, -⟩ := exists_of_chosen hchosen
      rw [h.get_eq_none (List.mem_append_left _ (List.mem_append_right _ hmem))] at hget
      cases hget
  · exact Brings.own

/-- What is found in a rewritten value is the rewrite of what stays. -/
lemma part_normalize (h : Normal value) :
    Part kind (normalizeSchemaForGemini value) step part ↔
      ∃ stay, stays value step = some stay ∧ part = normalizeSchemaForGemini stay := by
  cases step with
  | key k =>
    have hget : Part kind (normalizeSchemaForGemini value) (.key k) part ↔
        get k (normalizeSchemaForGemini value) = some part := by
      cases kind with
      | schema => exact brings_iff_of_clean (clean_normalizeSchemaForGemini h)
      | _ => exact Iff.rfl
    rw [hget, get_normalizeSchemaForGemini h, Option.map_eq_some_iff]
    exact exists_congr fun stay => and_congr_right fun _ => eq_comm
  | index i =>
    have hindex : Part kind (normalizeSchemaForGemini value) (.index i) part ↔
        ∃ items, normalizeSchemaForGemini value = .arr items ∧ items[i]? = some part := by
      cases kind <;> exact Iff.rfl
    rw [hindex]
    constructor
    · rintro ⟨items, heq, hpart⟩
      obtain ⟨items', rfl⟩ := eq_arr_of_normalize h heq
      rw [normalizeSchemaForGemini_arr h] at heq
      obtain rfl := Json.arr.inj heq
      rw [List.getElem?_map, Option.map_eq_some_iff] at hpart
      obtain ⟨stay, hstay, rfl⟩ := hpart
      exact ⟨stay, hstay, rfl⟩
    · rintro ⟨stay, hstay, rfl⟩
      obtain ⟨items, hitems, hstay⟩ := Option.bind_eq_some_iff.mp hstay
      cases value with
      | arr items' =>
        cases hitems
        refine ⟨_, normalizeSchemaForGemini_arr h, ?_⟩
        rw [List.getElem?_map]
        exact congrArg (Option.map normalizeSchemaForGemini) hstay
      | _ => cases hitems

lemma normal_stays (h : Normal value) (hstay : stays value step = some part) : Normal part := by
  cases step with
  | key k => exact normal_kept h hstay
  | index i =>
    obtain ⟨items, hitems, hstay⟩ := Option.bind_eq_some_iff.mp hstay
    cases value with
    | arr items' =>
      cases hitems
      exact normalItems_iff.mp h part (List.mem_of_getElem? hstay)
    | _ => cases hitems

/-- A rewritten value declares one set of names at the end of a path. -/
lemma declares_unique {names' : Set (List Char)} (h : Normal value)
    (hdeclares : Declares kind (normalizeSchemaForGemini value) path names)
    (hdeclares' : Declares kind (normalizeSchemaForGemini value) path names') : names = names' := by
  induction path generalizing kind value with
  | nil =>
    obtain ⟨-, map, heq, rfl⟩ := declares_nil.mp hdeclares
    obtain ⟨-, map', heq', rfl⟩ := declares_nil.mp hdeclares'
    rw [← heq, ← heq']
  | cons step path ih =>
    obtain ⟨next, part, hnext, hpart, hdeclares⟩ := declares_cons.mp hdeclares
    obtain ⟨next', part', hnext', hpart', hdeclares'⟩ := declares_cons.mp hdeclares'
    obtain ⟨stay, hstay, rfl⟩ := (part_normalize h).mp hpart
    obtain ⟨stay', hstay', rfl⟩ := (part_normalize h).mp hpart'
    obtain rfl := Option.some_inj.mp (hnext.symm.trans hnext')
    obtain rfl := Option.some_inj.mp (hstay.symm.trans hstay')
    exact ih (normal_stays h hstay) hdeclares hdeclares'

/-- No parameter of a rewritten schema is called like a keyword. -/
lemma not_mem_keywords_of_declares (h : Normal value)
    (hdeclares : Declares kind (normalizeSchemaForGemini value) path names) :
    ∀ key ∈ keywords, key.toList ∉ names := by
  induction path generalizing kind value with
  | nil =>
    obtain ⟨-, map, heq, rfl⟩ := declares_nil.mp hdeclares
    intro key hkey hname
    have hnone := (clean_normalizeSchemaForGemini h).get_eq_none hkey
    rw [← heq] at hname
    exact Option.not_isSome_iff_eq_none.mpr hnone hname
  | cons step path ih =>
    obtain ⟨next, part, -, hpart, hdeclares⟩ := declares_cons.mp hdeclares
    obtain ⟨stay, hstay, rfl⟩ := (part_normalize h).mp hpart
    exact ih (normal_stays h hstay) hdeclares

/-! ### It is enough -/

/-- An object without keywords keeps its own values. -/
lemma kept_of_get_keywords (hnone : ∀ key ∈ keywords, get key.toList value = none)
    (k : List Char) : kept k value = ownKept k value := by
  have hfind : combiners.reverse.findSome? (fun combiner =>
      (chosen combiner value).bind (kept k)) = none := by
    rw [List.findSome?_eq_none_iff]
    intro combiner hmem
    have hget := hnone combiner (List.mem_append_left _
      (List.mem_append_right _ (List.mem_reverse.mp hmem)))
    rw [chosen, hget]
    rfl
  have href : ¬ (get "$ref".toList value).isSome = true := by
    rw [hnone "$ref" (by decide)]
    exact Bool.false_ne_true
  rw [kept_eq, if_neg href, hfind, Option.none_or]

/-- Parameters that are not called like keywords keep their names. -/
lemma namesOf_normalize (h : Normal value)
    (hnames : ∀ name ∈ namesOf value, name ∉ keywords.map String.toList) :
    namesOf (normalizeSchemaForGemini value) = namesOf value := by
  have hnone (key : String) (hkey : key ∈ keywords) : get key.toList value = none :=
    Option.not_isSome_iff_eq_none.mp fun hsome =>
      hnames key.toList hsome (List.mem_map_of_mem hkey)
  ext name
  show (get name (normalizeSchemaForGemini value)).isSome = true ↔ (get name value).isSome = true
  rw [get_normalizeSchemaForGemini h, Option.isSome_map, kept_of_get_keywords hnone, ownKept]
  split_ifs with hkeyword htype
  · obtain ⟨key, hkey, rfl⟩ := List.mem_map.mp (named_iff.mp hkeyword)
    rw [hnone key hkey]
  · rw [Option.isSome_map]
  · exact Iff.rfl

theorem retains_of_keeps (h : Normal value) (hkeeps : Keeps kind value) : Retains kind value := by
  intro path
  induction path generalizing kind value with
  | nil =>
    intro names hdeclares
    obtain ⟨rfl, map, rfl, rfl⟩ := declares_nil.mp hdeclares
    have hsettled := hkeeps [] _ _ ⟨rfl, rfl⟩
    have hnames := namesOf_normalize h (hsettled.names rfl)
    rw [normalizeSchemaForGemini_obj h] at hnames ⊢
    exact declares_nil.mpr ⟨rfl, _, rfl, hnames.symm⟩
  | cons step path ih =>
    intro names hdeclares
    obtain ⟨next, part, hnext, hpart, hdeclares⟩ := declares_cons.mp hdeclares
    have hsettled := hkeeps [] _ _ ⟨rfl, rfl⟩
    obtain ⟨stay, hstay, hdeclares⟩ :=
      hsettled.parts step next part hnext hpart path names hdeclares
    have hstays : Keeps next stay := fun path' kind' part' hleads =>
      hkeeps (step :: path') kind' part' ⟨next, stay, hnext, hstay, hleads⟩
    exact declares_cons.mpr ⟨next, _, hnext, (part_normalize h).mpr ⟨stay, hstay, rfl⟩,
      ih (normal_stays h hstay) hstays names hdeclares⟩

/-! ### It is needed -/

lemma own_of_ownKept {k : List Char} (hown : ownKept k value = some part) :
    get k value = some part ∨ ∃ s, part = .str s := by
  unfold ownKept at hown
  split_ifs at hown
  · obtain ⟨own, hget, rfl⟩ := Option.map_eq_some_iff.mp hown
    cases own with
    | arr types => exact Or.inr ⟨_, rfl⟩
    | _ => exact Or.inl hget
  · exact Or.inl hown

/-- What stays under a keyword is the schema's own or an alternative's; or it is a text. -/
lemma brings_of_kept {k : List Char} (hkept : kept k value = some part) :
    Brings k value part ∨ ∃ s, part = .str s := by
  suffices hdepth : ∀ n value, depth value < n → kept k value = some part →
      Brings k value part ∨ ∃ s, part = .str s from
    hdepth _ value (Nat.lt_succ_self _) hkept
  intro n
  induction n with
  | zero => exact fun value hlt => absurd hlt (Nat.not_lt_zero _)
  | succ n ih =>
    intro value hlt hkept
    rw [kept_eq] at hkept
    split_ifs at hkept with href hk
    · exact Or.inr ⟨_, (Option.some_inj.mp hkept).symm⟩
    · rcases Option.or_eq_some_iff.mp hkept with hother | ⟨-, hown⟩
      · obtain ⟨combiner, hmem, hbind⟩ := List.exists_of_findSome?_eq_some hother
        obtain ⟨other, hchosen, hkept⟩ := Option.bind_eq_some_iff.mp hbind
        refine (ih other ?_ hkept).imp_left
          (Brings.alternative (List.mem_reverse.mp hmem) hchosen)
        exact (depth_lt_of_chosen hchosen).trans_le (Nat.le_of_lt_succ hlt)
      · exact own_of_ownKept hown |>.imp_left Brings.own

/-- What stays in a well-formed schema is found in it; or it is a text. -/
lemma part_of_stays (hholds : HoldsSchemas kind value) (hstay : stays value step = some part) :
    Part kind value step part ∨ ∃ s, part = .str s := by
  cases step with
  | key k =>
    by_cases hkind : kind = .schema
    · subst hkind
      exact brings_of_kept hstay
    · have hown : get k value = some part → Part kind value (.key k) part := by
        intro hget
        cases kind with
        | schema => exact absurd rfl hkind
        | _ => exact hget
      -- a list in a map of schemas brings nothing
      have hnone (combiner : String) (other : Json Char)
          (hchosen : chosen combiner value = some other) : kept k other = none := by
        obtain ⟨options, hget, hmem⟩ := exists_of_chosen hchosen
        apply kept_of_not_obj
        rcases hmem with hmem | rfl
        · exact hholds hkind _ options hget other hmem
        · exact fun map heq => by cases heq
      change kept k value = some part at hstay
      rw [kept_eq] at hstay
      split_ifs at hstay with href hk
      · exact Or.inr ⟨_, (Option.some_inj.mp hstay).symm⟩
      · rcases Option.or_eq_some_iff.mp hstay with hother | ⟨-, hkept⟩
        · obtain ⟨combiner, -, hbind⟩ := List.exists_of_findSome?_eq_some hother
          obtain ⟨other, hchosen, hkept⟩ := Option.bind_eq_some_iff.mp hbind
          rw [hnone combiner other hchosen] at hkept
          cases hkept
        · exact (own_of_ownKept hkept).imp_left hown
  | index i =>
    obtain ⟨items, hitems, hpart⟩ := Option.bind_eq_some_iff.mp hstay
    cases value with
    | arr items' =>
      cases hitems
      have hindex : ∃ items', Json.arr items = .arr items' ∧ items'[i]? = some part :=
        ⟨items, rfl, hpart⟩
      exact Or.inl (by cases kind <;> exact hindex)
    | _ => cases hitems

lemma WellFormed.holds (h : WellFormed kind value) : HoldsSchemas kind value :=
  h [] kind value ⟨rfl, rfl⟩

lemma WellFormed.of_part {next : Kind} (h : WellFormed kind value)
    (hnext : kind.next step = some next) (hpart : Part kind value step part) :
    WellFormed next part :=
  fun path kind' part' hleads => h (step :: path) kind' part' ⟨next, part, hnext, hpart, hleads⟩

lemma wellFormed_str (s : List Char) : WellFormed kind (.str s) := by
  intro path kind' part hleads
  cases path with
  | nil =>
    obtain ⟨-, rfl⟩ := hleads
    intro _ k items hget
    cases hget
  | cons step path =>
    obtain ⟨next, part, -, hpart, -⟩ := hleads
    exact absurd hpart (not_part_str s)

lemma WellFormed.of_stays {next : Kind} (h : WellFormed kind value)
    (hnext : kind.next step = some next) (hstay : stays value step = some part) :
    WellFormed next part := by
  rcases part_of_stays h.holds hstay with hpart | ⟨s, rfl⟩
  · exact h.of_part hnext hpart
  · exact wellFormed_str s

/-- Where the rewrite declares parameters, the value does. -/
lemma exists_declares_of_normalize (h : Normal value) (hwf : WellFormed kind value)
    (hdeclares : Declares kind (normalizeSchemaForGemini value) path names) :
    ∃ names', Declares kind value path names' := by
  induction path generalizing kind value with
  | nil =>
    obtain ⟨rfl, map, heq, -⟩ := declares_nil.mp hdeclares
    cases value with
    | obj map => exact ⟨_, declares_nil.mpr ⟨rfl, map, rfl, rfl⟩⟩
    | _ => cases heq
  | cons step path ih =>
    obtain ⟨next, part, hnext, hpart, hdeclares⟩ := declares_cons.mp hdeclares
    obtain ⟨stay, hstay, rfl⟩ := (part_normalize h).mp hpart
    rcases part_of_stays hwf.holds hstay with hpart | ⟨s, rfl⟩
    · obtain ⟨names', hdeclares⟩ := ih (normal_stays h hstay) (hwf.of_part hnext hpart) hdeclares
      exact ⟨names', declares_cons.mpr ⟨next, stay, hnext, hpart, hdeclares⟩⟩
    · exact absurd hdeclares (not_declares_str s)

lemma Retains.of_stays {next : Kind} (h : Normal value) (hwf : WellFormed kind value)
    (hretains : Retains kind value) (hnext : kind.next step = some next)
    (hstay : stays value step = some part) : Retains next part := by
  intro path names hdeclares
  rcases part_of_stays hwf.holds hstay with hpart | ⟨s, rfl⟩
  · have hrewritten := hretains (step :: path) names
      (declares_cons.mpr ⟨next, part, hnext, hpart, hdeclares⟩)
    obtain ⟨next', part', hnext', hpart', hdeclares'⟩ := declares_cons.mp hrewritten
    obtain ⟨stay', hstay', rfl⟩ := (part_normalize h).mp hpart'
    obtain rfl := Option.some_inj.mp (hnext.symm.trans hnext')
    obtain rfl := Option.some_inj.mp (hstay.symm.trans hstay')
    exact hdeclares'
  · exact absurd hdeclares (not_declares_str s)

lemma Retains.settled (h : Normal value) (hwf : WellFormed kind value)
    (hretains : Retains kind value) : Settled kind value where
  names := by
    rintro rfl name hname hkeyword
    cases value with
    | obj map =>
      have hdeclares := hretains [] _ (declares_nil.mpr ⟨rfl, map, rfl, rfl⟩)
      obtain ⟨key, hkey, rfl⟩ := List.mem_map.mp hkeyword
      exact not_mem_keywords_of_declares h hdeclares key hkey hname
    | _ => exact absurd hname Bool.false_ne_true
  parts := by
    intro step next part hnext hpart path names hdeclares
    have hrewritten := hretains (step :: path) names
      (declares_cons.mpr ⟨next, part, hnext, hpart, hdeclares⟩)
    obtain ⟨next', part', hnext', hpart', hdeclares'⟩ := declares_cons.mp hrewritten
    obtain ⟨stay, hstay, rfl⟩ := (part_normalize h).mp hpart'
    obtain rfl := Option.some_inj.mp (hnext.symm.trans hnext')
    -- what stays declares something there, and then the same
    have hnormal := normal_stays h hstay
    have hwf' := hwf.of_stays hnext hstay
    obtain ⟨names', hstays⟩ := exists_declares_of_normalize hnormal hwf' hdeclares'
    have hsame := hretains.of_stays h hwf hnext hstay path names' hstays
    rw [declares_unique hnormal hdeclares' hsame]
    exact ⟨stay, hstay, hstays⟩

/-- An object without lists is well-formed when its values are. -/
lemma wellFormed_obj {map : Fields Char} (hlists : ∀ field ∈ map, ∀ items, field.2 ≠ .arr items)
    (hvalues : ∀ field ∈ map, ∀ kind, WellFormed kind field.2) : WellFormed kind (.obj map) := by
  have hget (k : List Char) (items : List (Json Char)) : get k (.obj map) ≠ some (.arr items) := by
    intro hget
    obtain ⟨field, hfield, -, hvalue⟩ := mem_of_get hget
    exact hlists field hfield items hvalue
  intro path kind' part hleads
  cases path with
  | nil =>
    obtain ⟨rfl, rfl⟩ := hleads
    exact fun _ k items hlist => absurd hlist (hget k items)
  | cons step path =>
    obtain ⟨next, part', -, hpart, hleads⟩ := hleads
    cases step with
    | key k =>
      have hown : get k (.obj map) = some part' := by
        cases kind with
        | schema =>
          cases hpart with
          | own hown => exact hown
          | alternative hmem hchosen hbrings =>
            obtain ⟨options, hlist, -⟩ := exists_of_chosen hchosen
            exact absurd hlist (hget _ options)
        | _ => exact hpart
      obtain ⟨field, hfield, -, rfl⟩ := mem_of_get hown
      exact hvalues field hfield next path kind' part hleads
    | index i =>
      obtain ⟨items, heq, -⟩ : ∃ items, Json.obj map = .arr items ∧ items[i]? = some part' := by
        cases kind <;> exact hpart
      cases heq

theorem keeps_of_retains (h : Normal value) (hwf : WellFormed kind value)
    (hretains : Retains kind value) : Keeps kind value := by
  intro path
  induction path generalizing kind value with
  | nil =>
    rintro kind' part ⟨rfl, rfl⟩
    exact hretains.settled h hwf
  | cons step path ih =>
    rintro kind' part ⟨next, stay, hnext, hstay, hleads⟩
    exact ih (normal_stays h hstay) (hwf.of_stays hnext hstay) (hretains.of_stays h hwf hnext hstay)
      kind' part hleads

end Declared

/-! ## The schema of a tool -/

/-- Every reference has given way to its definition, no keyword is left, and every map of parameters
has its names. -/
def KeepsParameters (schema : Json Char) : Prop :=
  ∃ expanded, expand schema levels schema = some expanded ∧
    inlineSchemaRefs schema levels schema = expanded ∧
    Clean (declared schema) ∧
    ∀ path names, Declares .schema expanded path names →
      Declares .schema (declared schema) path names

theorem keepsParameters_iff (schema : Value Char)
    (hshallow : Shallow schema.json levels schema.json)
    (hwf : ∀ expanded, expand schema.json levels schema.json = some expanded →
      WellFormed .schema expanded) :
    KeepsParameters schema.json ↔
      RefsToObjects schema.json levels schema.json ∧
        ∀ expanded, expand schema.json levels schema.json = some expanded →
          Keeps .schema expanded := by
  have hnormal := normal_inlineSchemaRefs schema.normal levels schema.normal
  constructor
  · rintro ⟨expanded, hexpand, rfl, -, hretains⟩
    refine ⟨refsToObjects_of_expand hexpand, fun expanded hexpanded => ?_⟩
    obtain rfl := Option.some_inj.mp (hexpand.symm.trans hexpanded)
    exact keeps_of_retains hnormal (hwf _ hexpand) hretains
  · rintro ⟨hrefs, hkeeps⟩
    have hexpand := expand_of_refsToObjects hshallow hrefs
    exact ⟨_, hexpand, rfl, clean_normalizeSchemaForGemini hnormal,
      retains_of_keeps hnormal (hkeeps _ hexpand)⟩

/-- A tool with a parameter that is called `title`. -/
def bookSchema : Value Char :=
  Value.object [("type", .str "object".toList),
    ("properties", objOf [("title", objOf [("type", .str "string".toList)])]),
    ("required", .arr [.str "title".toList])]

/-- This parameter is lost. -/
theorem not_keepsParameters_bookSchema : ¬ KeepsParameters bookSchema.json := by
  rintro ⟨expanded, -, rfl, -, hdeclares⟩
  have hnormal := normal_inlineSchemaRefs bookSchema.normal levels bookSchema.normal
  have hproperties : Declares .schema (inlineSchemaRefs bookSchema.json levels bookSchema.json)
      [.key "properties".toList]
      (namesOf (objOf [("title", objOf [("type", .str "string".toList)])])) :=
    declares_cons.mpr ⟨.parameters, _, rfl, Brings.own rfl, declares_nil.mpr ⟨rfl, _, rfl, rfl⟩⟩
  exact not_mem_keywords_of_declares hnormal (hdeclares _ _ hproperties) "title" (by decide) rfl

/-- A tool with a parameter whose type is defined elsewhere. -/
def nameSchema : Value Char :=
  Value.object [("properties", objOf [("name", objOf [("$ref", .str "#/$defs/Name".toList)])]),
    ("$defs", objOf [("Name", objOf [("type", .str "string".toList)])])]

def expandedNameSchema : Value Char :=
  Value.object [("properties", objOf [("name", objOf [("type", .str "string".toList)])]),
    ("$defs", objOf [("Name", objOf [("type", .str "string".toList)])])]

theorem keepsParameters_iff_nameSchema :
    KeepsParameters nameSchema.json ↔
      RefsToObjects nameSchema.json levels nameSchema.json ∧
        ∀ expanded, expand nameSchema.json levels nameSchema.json = some expanded →
          Keeps .schema expanded := by
  have hexpand : expand nameSchema.json levels nameSchema.json = some expandedNameSchema.json := rfl
  apply keepsParameters_iff nameSchema (shallow_of_expand hexpand)
  intro expanded hexpanded
  obtain rfl := Option.some_inj.mp (hexpand.symm.trans hexpanded)
  have hentry (key : String) {value : Json Char} (hvalue : ∀ items, value ≠ .arr items)
      (h : ∀ kind, WellFormed kind value) (kind : Kind) :
      WellFormed kind (.obj [(key.toList, value)]) :=
    wellFormed_obj (by simpa using hvalue) (by simpa using h)
  have hname : ∀ kind, WellFormed kind (.obj [("type".toList, .str "string".toList)]) :=
    hentry "type" (by simp) fun _ => wellFormed_str _
  have hobj (map : Fields Char) : ∀ items, Json.obj map ≠ .arr items := by simp
  have hfields : expandedNameSchema.json = .obj
      [("$defs".toList, .obj [("Name".toList, .obj [("type".toList, .str "string".toList)])]),
        ("properties".toList,
          .obj [("name".toList, .obj [("type".toList, .str "string".toList)])])] := rfl
  rw [hfields]
  apply wellFormed_obj
  · exact List.forall_mem_cons.mpr ⟨hobj _, List.forall_mem_singleton.mpr (hobj _)⟩
  · exact List.forall_mem_cons.mpr ⟨hentry "Name" (hobj _) hname,
      List.forall_mem_singleton.mpr (hentry "name" (hobj _) hname)⟩

end RustyClaw.Llm.Gemini
