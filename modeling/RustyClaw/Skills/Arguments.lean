import RustyClaw.Library.JsonValue

/-!
# Arguments of skills

A skill declares its parameters (`skills/arguments.rs`) as a map from names to definitions or as a
JSON schema in the same field.  `normalize_parameter_spec` takes the field for a schema when it has
a key `type` or `properties`, which are names that a parameter can have, too.

A `Signature` is what a declaration is for: which parameters there are, of which type, and which of
them are required.  `validateObjectArgs_eq_ok_iff` says that what is checked is the signature that
was read, and `Signature.ext_iff_of_open` that a signature which requires nothing is determined by
the values that meet it.  Together they say when the guess about the kind of a declaration does no
harm: `checksDeclared_iff`.
-/

namespace RustyClaw.SkillArguments

open Glyph Json

/-! ## The checks of the code -/

inductive SkillArgumentError where
  | invalidJson (message : List Char)
  | validation (message : List Char)
  deriving DecidableEq, Repr

def asObject : Json Char → Option (Fields Char)
  | .obj fields => some fields
  | _ => none

/-- `Map::contains_key`. -/
def containsKey (key : List Char) (object : Fields Char) : Bool :=
  object.any fun field => decide (field.1 = key)

/-- `value.get(key).and_then(as_bool).unwrap_or(false)`. -/
def boolField (key : String) (value : Json Char) : Bool :=
  ((get key.toList value).bind asBool).getD false

/-- `value.get("type").and_then(as_str)`. -/
def typeField (value : Json Char) : Option (List Char) := (get "type".toList value).bind asStr

structure ParameterSpec where
  properties : Fields Char := []
  required : List (List Char) := []
  allowAdditional : Bool := false

/-- The field read as a JSON schema. -/
def readSchema (parameters : Json Char) : ParameterSpec where
  properties := ((get "properties".toList parameters).bind asObject).getD []
  required :=
    (((get "required".toList parameters).bind asArr).map fun items => items.filterMap asStr).getD []
  allowAdditional := boolField "additionalProperties" parameters

/-- The field read as a map of parameters, one after the other. -/
def readMap : Fields Char → ParameterSpec → Except SkillArgumentError ParameterSpec
  | [], spec => .ok spec
  | (name, definition) :: object, spec =>
    match asObject definition with
    | none =>
      .error (.validation
        ("parameter '".toList ++ name ++ "' must be an object definition".toList))
    | some _ =>
      readMap object
        { spec with
          properties := insertField name definition spec.properties
          required :=
            if boolField "required" definition then spec.required ++ [name] else spec.required }

def normalizeParameterSpec (parameters : Json Char) : Except SkillArgumentError ParameterSpec :=
  match parameters with
  | .obj object =>
    if containsKey "type".toList object || containsKey "properties".toList object then
      .ok (readSchema parameters)
    else readMap object {}
  | _ => .error (.validation "parameters must be defined as an object".toList)

/-- `Value::as_i64`. -/
def asI64 (value : Json Char) : Option Int :=
  (asInt value).filter fun i => decide (-9223372036854775808 ≤ i ∧ i < 9223372036854775808)

/-- `Value::as_u64`. -/
def asU64 (value : Json Char) : Option Int :=
  (asInt value).filter fun i => decide (0 ≤ i ∧ i < 18446744073709551616)

def isNumber : Json Char → Bool
  | .num _ => true
  | _ => false

def isNull : Json Char → Bool
  | .null => true
  | _ => false

def valueMatchesType (value : Json Char) (expectedType : List Char) : Bool :=
  if expectedType = "string".toList then (asStr value).isSome
  else if expectedType = "number".toList then isNumber value
  else if expectedType = "integer".toList then (asI64 value).isSome || (asU64 value).isSome
  else if expectedType = "boolean".toList then (asBool value).isSome
  else if expectedType = "object".toList then (asObject value).isSome
  else if expectedType = "array".toList then (asArr value).isSome
  else if expectedType = "null".toList then isNull value
  else true

/-- What is said against the value of a parameter. -/
def typeError (properties : Fields Char) (arg : List Char × Json Char) :
    Option SkillArgumentError :=
  match (get arg.1 (.obj properties)).bind asObject with
  | none => none
  | some spec =>
    match typeField (.obj spec) with
    | none => none
    | some expectedType =>
      if valueMatchesType arg.2 expectedType then none
      else some (.validation
        ("parameter '".toList ++ arg.1 ++ "' must be of type ".toList ++ expectedType))

def validateObjectArgs (args : Json Char) (spec : ParameterSpec) :
    Except SkillArgumentError Unit :=
  match args with
  | .obj argsObject =>
    match spec.required.find? fun key => !containsKey key argsObject with
    | some requiredKey =>
      .error (.validation ("missing required parameter '".toList ++ requiredKey ++ "'".toList))
    | none =>
      let unknown := (argsObject.map Prod.fst).filter fun key => !containsKey key spec.properties
      if !spec.allowAdditional && !unknown.isEmpty then
        .error (.validation ("unknown parameter(s): ".toList ++ join ", " unknown))
      else
        match argsObject.findSome? (typeError spec.properties) with
        | some error => .error error
        | none => .ok ()
  | _ => .error (.validation "structured skill arguments must be a JSON object".toList)

def validateJsonArgs (parameters : Option (Value Char)) (args : Value Char) :
    Except SkillArgumentError Unit :=
  match parameters with
  | none => .ok ()
  | some parameters =>
    match normalizeParameterSpec parameters.json with
    | .error error => .error error
    | .ok spec => validateObjectArgs args.json spec

/-! ## Signatures -/

/-- The types that a definition can ask for. -/
inductive DeclaredType where
  | string
  | number
  | integer
  | boolean
  | object
  | array
  | null
  deriving DecidableEq, Repr

namespace DeclaredType

def name : DeclaredType → String
  | .string => "string"
  | .number => "number"
  | .integer => "integer"
  | .boolean => "boolean"
  | .object => "object"
  | .array => "array"
  | .null => "null"

def all : List DeclaredType := [.string, .number, .integer, .boolean, .object, .array, .null]

def ofName? (name : List Char) : Option DeclaredType :=
  all.find? fun type => decide (name = type.name.toList)

/-- The values of a type; an integer is a number of 64 bits with or without sign. -/
def Allows : DeclaredType → Json Char → Prop
  | .string, value => ∃ text, value = .str text
  | .number, value => ∃ n, value = .num n
  | .integer, value =>
    ∃ i, asInt value = some i ∧ -9223372036854775808 ≤ i ∧ i < 18446744073709551616
  | .boolean, value => ∃ b, value = .bool b
  | .object, value => ∃ fields, value = .obj fields
  | .array, value => ∃ items, value = .arr items
  | .null, value => value = .null

end DeclaredType

/-- A parameter; without a type it takes every value. -/
structure Parameter where
  type : Option DeclaredType
  required : Bool
  deriving DecidableEq

def Parameter.Allows (p : Parameter) (value : Json Char) : Prop :=
  ∀ type, p.type = some type → type.Allows value

/-- The parameters that are declared. -/
abbrev Signature := List Char → Option Parameter

/-- The value is an object with every required parameter, with declared parameters only, and with
values of their types. -/
def Signature.Meets (s : Signature) (value : Json Char) : Prop :=
  ∃ args, value = .obj args ∧
    (∀ name p, s name = some p → p.required = true → name ∈ args.map Prod.fst) ∧
    ∀ arg ∈ args, ∃ p, s arg.1 = some p ∧ p.Allows arg.2

/-- No parameter is required. -/
def Signature.Open (s : Signature) : Prop := ∀ name p, s name = some p → p.required = false

/-! ### What a type allows -/

namespace DeclaredType

/-- Half. -/
def half : NumLit Char := ⟨"0.5".toList, by decide⟩

/-- A value of the type. -/
def sample : DeclaredType → Json Char
  | .string => .str []
  | .number => .num half
  | .integer => .num (.ofNat 0)
  | .boolean => .bool true
  | .object => .obj []
  | .array => .arr []
  | .null => .null

lemma normal_sample (type : DeclaredType) : Normal type.sample := by
  cases type with
  | object => exact ⟨List.Pairwise.nil, trivial⟩
  | _ => trivial

lemma allows_sample (type : DeclaredType) : type.Allows type.sample := by
  cases type with
  | integer =>
    have hzero : asInt integer.sample = some ((0 : ℕ) : ℤ) := by
      rw [sample, asInt, NumLit.toInt_ofNat]
    exact ⟨_, hzero, by omega, by omega⟩
  | null => rfl
  | _ => exact ⟨_, rfl⟩

lemma asInt_half : asInt (.num half) = none := by decide

/-- The value of one type is of another one only when it is an integer. -/
lemma eq_of_allows_sample {type other : DeclaredType} (h : type.Allows other.sample) :
    type = other ∨ type = .number ∧ other = .integer := by
  cases type <;> cases other <;> simp [Allows, sample, asInt_half] at h ⊢
  all_goals simp [asInt] at h

/-- No type allows everything. -/
lemma exists_not_allows (type : DeclaredType) : ∃ value, Normal value ∧ ¬type.Allows value := by
  by_cases hnull : type = .null
  · refine ⟨.bool true, trivial, fun h => ?_⟩
    rw [hnull] at h
    cases (show Json.bool true = .null from h)
  · refine ⟨sample .null, trivial, fun h => ?_⟩
    rcases eq_of_allows_sample h with heq | heq
    · exact hnull heq
    · exact DeclaredType.noConfusion heq.2

lemma ofName?_name (type : DeclaredType) : ofName? type.name.toList = some type := by
  cases type <;> rfl

lemma name_of_ofName? {name : List Char} {type : DeclaredType} (h : ofName? name = some type) :
    name = type.name.toList := by
  rw [ofName?] at h
  have hfound := List.find?_some h
  exact of_decide_eq_true hfound

end DeclaredType

/-- A number that is an integer of 64 bits with a sign or of 64 bits without one. -/
lemma asI64_or_asU64 (value : Json Char) :
    ((asI64 value).isSome || (asU64 value).isSome) = true ↔ DeclaredType.integer.Allows value := by
  rw [asI64, asU64, DeclaredType.Allows]
  rcases h : asInt value with _ | i
  · simp
  · simp only [Option.filter_some, Option.some_inj, exists_eq_left', Bool.or_eq_true,
      decide_eq_true_eq, Option.isSome_ite]
    omega

lemma valueMatchesType_name (value : Json Char) (type : DeclaredType) :
    valueMatchesType value type.name.toList = true ↔ type.Allows value := by
  cases type with
  | string =>
    change (asStr value).isSome = true ↔ _
    cases value <;> simp [asStr, DeclaredType.Allows]
  | number =>
    change isNumber value = true ↔ _
    cases value <;> simp [isNumber, DeclaredType.Allows]
  | integer => exact asI64_or_asU64 value
  | boolean =>
    change (asBool value).isSome = true ↔ _
    cases value <;> simp [asBool, DeclaredType.Allows]
  | object =>
    change (asObject value).isSome = true ↔ _
    cases value <;> simp [asObject, DeclaredType.Allows]
  | array =>
    change (asArr value).isSome = true ↔ _
    cases value <;> simp [asArr, DeclaredType.Allows]
  | null =>
    change isNull value = true ↔ _
    cases value <;> simp [isNull, DeclaredType.Allows]

/-- A type that is not known is no restriction. -/
lemma valueMatchesType_of_unknown {value : Json Char} {expectedType : List Char}
    (h : DeclaredType.ofName? expectedType = none) :
    valueMatchesType value expectedType = true := by
  have hne : ∀ type : DeclaredType, ¬expectedType = type.name.toList := by
    rintro type rfl
    rw [DeclaredType.ofName?_name] at h
    exact Option.some_ne_none type h
  rw [valueMatchesType]
  exact (if_neg (hne .string)).trans ((if_neg (hne .number)).trans ((if_neg (hne .integer)).trans
    ((if_neg (hne .boolean)).trans ((if_neg (hne .object)).trans ((if_neg (hne .array)).trans
      (if_neg (hne .null)))))))

/-- The check of a type by its name is the one of the types that are known. -/
lemma valueMatchesType_iff (value : Json Char) (expectedType : List Char) :
    valueMatchesType value expectedType = true ↔
      ∀ type, DeclaredType.ofName? expectedType = some type → type.Allows value := by
  rcases h : DeclaredType.ofName? expectedType with _ | type
  · exact iff_of_true (valueMatchesType_of_unknown h)
      fun type heq => absurd heq.symm (Option.some_ne_none type)
  · rw [DeclaredType.name_of_ofName? h, valueMatchesType_name]
    exact ⟨fun hallows type' heq => Option.some.inj heq ▸ hallows, fun hall => hall type rfl⟩

/-! ### Signatures and the values that meet them -/

lemma Parameter.allows_some {t : DeclaredType} {required : Bool} {value : Json Char} :
    (⟨some t, required⟩ : Parameter).Allows value ↔ t.Allows value :=
  ⟨fun h => h t rfl, fun h _ heq => Option.some.inj heq ▸ h⟩

lemma Parameter.allows_none {required : Bool} {value : Json Char} :
    (⟨none, required⟩ : Parameter).Allows value :=
  fun type heq => absurd heq.symm (Option.some_ne_none type)

lemma DeclaredType.eq_of_allows {t t' : DeclaredType}
    (h : ∀ value, Normal value → (t.Allows value ↔ t'.Allows value)) : t = t' := by
  rcases eq_of_allows_sample ((h _ t'.normal_sample).mpr t'.allows_sample) with heq | heq
  · exact heq
  · rcases eq_of_allows_sample ((h _ t.normal_sample).mp t.allows_sample) with heq' | heq'
    · exact heq'.symm
    · rw [heq.1] at heq'
      exact absurd heq'.2 (by decide)

/-- Parameters that allow the same values have the same type. -/
lemma Parameter.type_eq {p p' : Parameter}
    (h : ∀ value, Normal value → (p.Allows value ↔ p'.Allows value)) : p.type = p'.type := by
  rcases p with ⟨_ | t, required⟩
  · rcases p' with ⟨_ | t', required'⟩
    · rfl
    · obtain ⟨value, hnormal, hnot⟩ := t'.exists_not_allows
      exact absurd (allows_some.mp ((h value hnormal).mp allows_none)) hnot
  · rcases p' with ⟨_ | t', required'⟩
    · obtain ⟨value, hnormal, hnot⟩ := t.exists_not_allows
      exact absurd (allows_some.mp ((h value hnormal).mpr allows_none)) hnot
    · refine congrArg some (DeclaredType.eq_of_allows fun value hnormal => ?_)
      exact allows_some.symm.trans ((h value hnormal).trans allows_some)

lemma Parameter.exists_allows (p : Parameter) : ∃ value, Normal value ∧ p.Allows value := by
  rcases p with ⟨_ | t, required⟩
  · exact ⟨.null, trivial, allows_none⟩
  · exact ⟨t.sample, t.normal_sample, allows_some.mpr t.allows_sample⟩

namespace Signature

variable {s s' : Signature}

lemma meets_empty_iff : s.Meets (.obj []) ↔ s.Open := by
  constructor
  · rintro ⟨args, heq, hrequired, -⟩ name p hp
    obtain rfl := Json.obj.inj heq
    rcases hflag : p.required with _ | _
    · rfl
    · exact absurd (hrequired name p hp hflag) List.not_mem_nil
  · intro hopen
    refine ⟨[], rfl, fun name p hp hflag => ?_, fun arg harg => absurd harg List.not_mem_nil⟩
    rw [hopen name p hp] at hflag
    exact absurd hflag Bool.false_ne_true

lemma Open.meets_single_iff (h : s.Open) {name : List Char} {value : Json Char} :
    s.Meets (.obj [(name, value)]) ↔ ∃ p, s name = some p ∧ p.Allows value := by
  constructor
  · rintro ⟨args, heq, -, hallowed⟩
    obtain rfl := Json.obj.inj heq
    exact hallowed _ List.mem_cons_self
  · intro hallowed
    refine ⟨_, rfl, fun name' p hp hflag => ?_, fun arg harg => ?_⟩
    · rw [h name' p hp] at hflag
      exact absurd hflag Bool.false_ne_true
    · rw [List.mem_singleton.mp harg]
      exact hallowed

lemma normal_single {name : List Char} {value : Json Char} (h : Normal value) :
    Normal (.obj [(name, value)]) := ⟨List.pairwise_singleton _ _, h, trivial⟩

/-- A parameter of one signature is a parameter of another that the same values meet. -/
lemma Open.le (h : s.Open) (h' : s'.Open)
    (hsame : ∀ value : Value Char, s.Meets value.json ↔ s'.Meets value.json) {name : List Char}
    {p : Parameter} (hp : s name = some p) : s' name = some p := by
  have hallowed : ∀ value, Normal value →
      ((∃ p, s name = some p ∧ p.Allows value) ↔ ∃ p, s' name = some p ∧ p.Allows value) := by
    intro value hnormal
    rw [← h.meets_single_iff, ← h'.meets_single_iff]
    exact hsame ⟨_, normal_single hnormal⟩
  obtain ⟨value, hnormal, hvalue⟩ := p.exists_allows
  obtain ⟨p', hp', -⟩ := (hallowed value hnormal).mp ⟨p, hp, hvalue⟩
  have htype : p'.type = p.type := by
    refine Parameter.type_eq fun value hnormal => ?_
    have hiff := hallowed value hnormal
    simpa only [hp, hp', Option.some_inj, exists_eq_left'] using hiff.symm
  have hflag : p'.required = p.required := (h' name p' hp').trans (h name p hp).symm
  rw [hp']
  exact congrArg some (by rcases p; rcases p'; simp_all)

/-- **A signature that requires nothing is determined by the values that meet it.** -/
theorem ext_iff_of_open (h' : s'.Open) :
    (∀ value : Value Char, s.Meets value.json ↔ s'.Meets value.json) ↔ s = s' := by
  refine ⟨fun hsame => ?_, fun heq _ => heq ▸ Iff.rfl⟩
  have hempty : Normal (.obj [] : Json Char) := ⟨List.Pairwise.nil, trivial⟩
  have h : s.Open := meets_empty_iff.mp ((hsame ⟨_, hempty⟩).mpr (meets_empty_iff.mpr h'))
  funext name
  rcases hp : s name with _ | p
  · rcases hp' : s' name with _ | p'
    · rfl
    · rw [h'.le h (fun value => (hsame value).symm) hp'] at hp
      exact absurd hp (Option.some_ne_none p')
  · exact (h.le h' hsame hp).symm

end Signature

/-! ## What is read from a declaration -/

/-- The parameter that a definition declares. -/
def parameter (definition : Json Char) : Parameter where
  type := (typeField definition).bind DeclaredType.ofName?
  required := boolField "required" definition

/-- The signature that is checked. -/
def ParameterSpec.signature (spec : ParameterSpec) : Signature := fun name =>
  (get name (.obj spec.properties)).map fun definition =>
    { type := (parameter definition).type, required := spec.required.contains name }

lemma containsKey_iff {key : List Char} {object : Fields Char} :
    containsKey key object = true ↔ key ∈ object.map Prod.fst := by
  simp only [containsKey, List.any_eq_true, decide_eq_true_eq, List.mem_map]

lemma isSome_get_iff {key : List Char} {object : Fields Char} :
    (Json.get key (.obj object)).isSome = true ↔ key ∈ object.map Prod.fst := by
  simp only [Json.get, Option.isSome_map, List.find?_isSome, List.mem_reverse, chars_char,
    decide_eq_true_eq, List.mem_map]

lemma allows_parameter_iff {definition value : Json Char} :
    (parameter definition).Allows value ↔
      ∀ expectedType, typeField definition = some expectedType →
        valueMatchesType value expectedType = true := by
  rw [Parameter.Allows, parameter]
  rcases typeField definition with _ | expectedType
  · simp
  · simp only [Option.bind_some, Option.some_inj, forall_eq', valueMatchesType_iff]

lemma asObject_eq_some {value : Json Char} {fields : Fields Char}
    (h : asObject value = some fields) : value = .obj fields := by
  cases value with
  | obj fields' => exact congrArg Json.obj (Option.some.inj h)
  | _ => exact absurd h.symm (Option.some_ne_none fields)

/-- Only an object names a type. -/
lemma typeField_of_asObject_eq_none {value : Json Char} (h : asObject value = none) :
    typeField value = none := by
  cases value with
  | obj fields => exact absurd h (Option.some_ne_none fields)
  | _ => rfl

lemma typeError_eq_none_iff {properties : Fields Char} {arg : List Char × Json Char} :
    typeError properties arg = none ↔
      ∀ definition, Json.get arg.1 (.obj properties) = some definition →
        (parameter definition).Allows arg.2 := by
  rw [typeError]
  rcases hget : Json.get arg.1 (.obj properties) with _ | definition
  · simp
  · simp only [Option.bind_some, Option.some_inj, forall_eq', allows_parameter_iff]
    rcases hobject : asObject definition with _ | spec
    · simp [typeField_of_asObject_eq_none hobject]
    · obtain rfl := asObject_eq_some hobject
      dsimp only
      rcases typeField (.obj spec) with _ | expectedType
      · simp
      · simp only [Option.some_inj, forall_eq']
        by_cases hmatches : valueMatchesType arg.2 expectedType = true
        · rw [if_pos hmatches]
          exact iff_of_true rfl hmatches
        · rw [if_neg hmatches]
          exact iff_of_false (Option.some_ne_none _) hmatches

lemma ParameterSpec.signature_eq_some {spec : ParameterSpec} {name : List Char} {p : Parameter} :
    spec.signature name = some p ↔ ∃ definition,
      Json.get name (.obj spec.properties) = some definition ∧
        p = { type := (parameter definition).type, required := spec.required.contains name } := by
  rw [signature, Option.map_eq_some_iff]
  exact exists_congr fun definition => and_congr_right fun _ => eq_comm

/-- The three checks of an object, one after the other. -/
lemma validateObjectArgs_obj {spec : ParameterSpec} {args : Fields Char}
    (hclosed : spec.allowAdditional = false) :
    validateObjectArgs (.obj args) spec = .ok () ↔
      (∀ name ∈ spec.required, name ∈ args.map Prod.fst) ∧
        (∀ arg ∈ args, arg.1 ∈ spec.properties.map Prod.fst) ∧
        ∀ arg ∈ args, typeError spec.properties arg = none := by
  have hmissing : (spec.required.find? fun key => !containsKey key args) = none ↔
      ∀ name ∈ spec.required, name ∈ args.map Prod.fst := by
    simp only [List.find?_eq_none, Bool.not_eq_true', Bool.not_eq_false, containsKey_iff]
  have hunknown : ((args.map Prod.fst).filter fun key => !containsKey key spec.properties) = [] ↔
      ∀ arg ∈ args, arg.1 ∈ spec.properties.map Prod.fst := by
    simp only [List.filter_eq_nil_iff, List.forall_mem_map, Bool.not_eq_true', Bool.not_eq_false,
      containsKey_iff]
  rw [validateObjectArgs, ← hmissing, ← hunknown, ← List.findSome?_eq_none_iff]
  rcases spec.required.find? _ with _ | key
  · rcases List.filter _ _ with _ | ⟨key, keys⟩
    · rcases args.findSome? _ with _ | error
      · simp
      · simp
    · simp [hclosed]
  · simp

/-- **The signature is what is checked**, when no other parameters are let through and each
parameter that is required is there. -/
lemma validateObjectArgs_eq_ok_iff {spec : ParameterSpec} {args : Json Char}
    (hclosed : spec.allowAdditional = false)
    (hrequired : ∀ name ∈ spec.required, name ∈ spec.properties.map Prod.fst) :
    validateObjectArgs args spec = .ok () ↔ spec.signature.Meets args := by
  cases args with
  | obj args =>
    rw [validateObjectArgs_obj hclosed]
    constructor
    · rintro ⟨hmissing, hunknown, htypes⟩
      refine ⟨args, rfl, fun name p hp hflag => ?_, fun arg harg => ?_⟩
      · obtain ⟨definition, -, rfl⟩ := ParameterSpec.signature_eq_some.mp hp
        exact hmissing name (List.contains_iff_mem.mp hflag)
      · obtain ⟨definition, hget⟩ :=
          Option.isSome_iff_exists.mp (isSome_get_iff.mpr (hunknown arg harg))
        refine ⟨_, ParameterSpec.signature_eq_some.mpr ⟨definition, hget, rfl⟩, ?_⟩
        exact typeError_eq_none_iff.mp (htypes arg harg) definition hget
    · rintro ⟨args', heq, hmissing, hallowed⟩
      obtain rfl := Json.obj.inj heq
      refine ⟨fun name hname => ?_, fun arg harg => ?_, fun arg harg => ?_⟩
      · obtain ⟨definition, hget⟩ :=
          Option.isSome_iff_exists.mp (isSome_get_iff.mpr (hrequired name hname))
        exact hmissing name _ (ParameterSpec.signature_eq_some.mpr ⟨definition, hget, rfl⟩)
          (List.contains_iff_mem.mpr hname)
      · obtain ⟨p, hp, -⟩ := hallowed arg harg
        obtain ⟨definition, hget, -⟩ := ParameterSpec.signature_eq_some.mp hp
        exact isSome_get_iff.mp (hget ▸ rfl)
      · obtain ⟨p, hp, hvalue⟩ := hallowed arg harg
        obtain ⟨definition, hget, rfl⟩ := ParameterSpec.signature_eq_some.mp hp
        refine typeError_eq_none_iff.mpr fun definition' hget' => ?_
        rw [hget] at hget'
        exact Option.some.inj hget' ▸ hvalue
  | _ =>
    refine iff_of_false (fun h => ?_) ?_
    · cases h
    · rintro ⟨args, heq, -⟩
      cases heq

/-! ## Maps of parameters -/

/-- A map from names to definitions; every name is possible. -/
structure MapSpec where
  fields : Fields Char
  normal : Normal (.obj fields)
  definitions : ∀ field ∈ fields, (asObject field.2).isSome = true

namespace MapSpec

variable (spec : MapSpec)

def value : Value Char := ⟨.obj spec.fields, spec.normal⟩

/-- What the map declares. -/
def declared : Signature := fun name => (Json.get name (.obj spec.fields)).map parameter

/-- The check accepts exactly the objects that the map declares. -/
def ChecksDeclared : Prop :=
  ∀ args : Value Char, validateJsonArgs (some spec.value) args = .ok () ↔
    spec.declared.Meets args.json

/-- Nothing is required, and there is a parameter `properties` whose definition has a key for each
parameter, no other key, and under each key the type that the parameter has. -/
def SchemaAgrees : Prop :=
  (∀ field ∈ spec.fields, boolField "required" field.2 = false) ∧
    ∃ inner, ("properties".toList, .obj inner) ∈ spec.fields ∧
      (∀ name, name ∈ inner.map Prod.fst ↔ name ∈ spec.fields.map Prod.fst) ∧
      ∀ field ∈ spec.fields, ∀ other ∈ inner, field.1 = other.1 →
        (parameter field.2).type = (parameter other.2).type

end MapSpec

lemma get_eq_some_iff {key : List Char} {value : Json Char} {fields : Fields Char}
    (h : KeysAscend fields) : Json.get key (.obj fields) = some value ↔ (key, value) ∈ fields := by
  have hnodup : (fields.map Prod.fst).Nodup := by
    have hkeys : (fields.map fun field => chars field.1) = fields.map Prod.fst :=
      List.map_congr_left fun field _ => chars_char field.1
    rw [KeysAscend, hkeys] at h
    exact h.imp fun hlt => ne_of_lt hlt
  simp only [Json.get, chars_char]
  constructor
  · intro hget
    obtain ⟨field, hfound, rfl⟩ := Option.map_eq_some_iff.mp hget
    have hkey : field.1 = key := by simpa using List.find?_some hfound
    have hmem := List.mem_reverse.mp (List.mem_of_find?_eq_some hfound)
    rwa [← hkey]
  · intro hmem
    rcases hfound : fields.reverse.find? fun field => decide (field.1 = key) with _ | field
    · have hnone := List.find?_eq_none.mp hfound _ (List.mem_reverse.mpr hmem)
      simp at hnone
    · have hkey : field.1 = key := by simpa using List.find?_some hfound
      have hfield := List.mem_reverse.mp (List.mem_of_find?_eq_some hfound)
      have heq := List.inj_on_of_nodup_map hnodup hfield hmem hkey
      rw [hfound, heq]
      rfl

lemma readMap_eq {fields : Fields Char} (sorted : Fields Char) (required : List (List Char))
    (hkeys : KeysAscend (sorted ++ fields))
    (hdefinitions : ∀ field ∈ fields, (asObject field.2).isSome = true) :
    readMap fields { properties := sorted, required := required } =
      .ok {
        properties := sorted ++ fields
        required := required ++
          (fields.filter fun field => boolField "required" field.2).map Prod.fst } := by
  induction fields generalizing sorted required with
  | nil => simp [readMap]
  | cons field fields ih =>
    obtain ⟨name, definition⟩ := field
    obtain ⟨object, hobject⟩ :=
      Option.isSome_iff_exists.mp (hdefinitions _ List.mem_cons_self)
    have hlast : ∀ field ∈ sorted, chars field.1 < chars name := by
      intro field hfield
      rw [KeysAscend, List.map_append, List.pairwise_append] at hkeys
      exact hkeys.2.2 _ (List.mem_map_of_mem hfield) _ List.mem_cons_self
    rw [List.append_cons] at hkeys
    simp only [readMap, hobject]
    rw [insertField_of_lt hlast,
      ih _ _ hkeys fun field hfield => hdefinitions field (List.mem_cons_of_mem _ hfield)]
    by_cases hflag : boolField "required" definition = true
    · simp [hflag]
    · simp [hflag]

namespace MapSpec

variable {spec : MapSpec}

/-- The names of the parameters that are required. -/
def requiredNames (spec : MapSpec) : List (List Char) :=
  (spec.fields.filter fun field => boolField "required" field.2).map Prod.fst

lemma contains_requiredNames {name : List Char} {definition : Json Char}
    (h : Json.get name (.obj spec.fields) = some definition) :
    spec.requiredNames.contains name = boolField "required" definition := by
  have hiff : name ∈ spec.requiredNames ↔ boolField "required" definition = true := by
    simp only [requiredNames, List.mem_map, List.mem_filter]
    constructor
    · rintro ⟨field, ⟨hmem, hflag⟩, rfl⟩
      have hget := (get_eq_some_iff spec.normal.1).mpr hmem
      rw [h] at hget
      rwa [Option.some.inj hget]
    · intro hflag
      exact ⟨(name, definition), ⟨(get_eq_some_iff spec.normal.1).mp h, hflag⟩, rfl⟩
  rw [Bool.eq_iff_iff, List.contains_iff_mem, hiff]

lemma normalizeParameterSpec_of_map (htype : "type".toList ∉ spec.fields.map Prod.fst)
    (hproperties : "properties".toList ∉ spec.fields.map Prod.fst) :
    normalizeParameterSpec spec.value.json =
      .ok { properties := spec.fields, required := spec.requiredNames } := by
  have hread := readMap_eq [] [] spec.normal.1 spec.definitions
  change (if containsKey "type".toList spec.fields || containsKey "properties".toList spec.fields
    then _ else readMap spec.fields {}) = _
  rw [if_neg ?_]
  · exact hread
  · rw [Bool.or_eq_true, containsKey_iff, containsKey_iff]
    exact not_or.mpr ⟨htype, hproperties⟩

/-- Read as a map, a map of parameters is what it declares. -/
lemma signature_of_map :
    ParameterSpec.signature { properties := spec.fields, required := spec.requiredNames } =
      spec.declared := by
  funext name
  rw [ParameterSpec.signature, declared]
  dsimp only
  rcases hget : Json.get name (.obj spec.fields) with _ | definition
  · rfl
  · rw [Option.map_some, Option.map_some, contains_requiredNames hget]
    rfl

/-- The definition of the parameter `properties`, where there is one. -/
def inner (spec : MapSpec) : Fields Char :=
  ((Json.get "properties".toList (.obj spec.fields)).bind asObject).getD []

lemma normalizeParameterSpec_of_schema
    (h : "type".toList ∈ spec.fields.map Prod.fst ∨
      "properties".toList ∈ spec.fields.map Prod.fst) :
    normalizeParameterSpec spec.value.json = .ok { properties := spec.inner } := by
  have hdefinition : ∀ {key definition}, Json.get key (.obj spec.fields) = some definition →
      ∃ object, definition = .obj object := by
    intro key definition hget
    have hmem := (get_eq_some_iff spec.normal.1).mp hget
    obtain ⟨object, hobject⟩ := Option.isSome_iff_exists.mp (spec.definitions _ hmem)
    exact ⟨object, asObject_eq_some hobject⟩
  have hrequired : (Json.get "required".toList (.obj spec.fields)).bind asArr = none := by
    rcases hget : Json.get "required".toList (.obj spec.fields) with _ | definition
    · rfl
    · obtain ⟨object, rfl⟩ := hdefinition hget
      rfl
  have hadditional : boolField "additionalProperties" (.obj spec.fields) = false := by
    rw [boolField]
    rcases hget : Json.get "additionalProperties".toList (.obj spec.fields) with _ | definition
    · rfl
    · obtain ⟨object, rfl⟩ := hdefinition hget
      rfl
  change (if containsKey "type".toList spec.fields || containsKey "properties".toList spec.fields
    then Except.ok (readSchema (.obj spec.fields)) else _) = _
  rw [if_pos ?_, readSchema, hrequired, hadditional]
  · rfl
  · rwa [Bool.or_eq_true, containsKey_iff, containsKey_iff]

lemma signature_inner (name : List Char) :
    ParameterSpec.signature { properties := spec.inner } name =
      (Json.get name (.obj spec.inner)).map fun definition =>
        { type := (parameter definition).type, required := false } := rfl

/-- The definition of `properties` is found where it is not empty. -/
lemma mem_inner (h : spec.inner ≠ []) : ("properties".toList, .obj spec.inner) ∈ spec.fields := by
  refine (get_eq_some_iff spec.normal.1).mp ?_
  rcases hget : Json.get "properties".toList (.obj spec.fields) with _ | definition
  · rw [inner, hget] at h
    exact absurd rfl h
  · obtain ⟨object, hobject⟩ := Option.isSome_iff_exists.mp
      (spec.definitions _ ((get_eq_some_iff spec.normal.1).mp hget))
    obtain rfl := asObject_eq_some hobject
    rw [inner, hget]
    rfl

lemma inner_eq {object : Fields Char} (h : ("properties".toList, .obj object) ∈ spec.fields) :
    spec.inner = object := by
  rw [inner, (get_eq_some_iff spec.normal.1).mpr h]
  rfl

/-- Read as a schema, it declares what is in the definition of the parameter `properties`. -/
lemma declared_eq_iff
    (h : "type".toList ∈ spec.fields.map Prod.fst ∨
      "properties".toList ∈ spec.fields.map Prod.fst) :
    spec.declared = ParameterSpec.signature { properties := spec.inner } ↔ spec.SchemaAgrees := by
  constructor
  · intro heq
    have hpoint : ∀ name, (Json.get name (.obj spec.fields)).map parameter =
        (Json.get name (.obj spec.inner)).map fun definition =>
          { type := (parameter definition).type, required := false } := fun name =>
      (congrFun heq name).trans (signature_inner name)
    have hkeys : ∀ name, name ∈ spec.inner.map Prod.fst ↔ name ∈ spec.fields.map Prod.fst := by
      intro name
      have hsome := congrArg Option.isSome (hpoint name)
      rw [Option.isSome_map, Option.isSome_map] at hsome
      rw [← isSome_get_iff, ← isSome_get_iff, hsome]
    have hnonempty : spec.inner ≠ [] := by
      intro hempty
      rw [hempty] at hkeys
      rcases h with h | h
      · exact absurd ((hkeys _).mpr h) List.not_mem_nil
      · exact absurd ((hkeys _).mpr h) List.not_mem_nil
    have hmem := mem_inner hnonempty
    have hinner : KeysAscend spec.inner := (normalFields_iff.mp spec.normal.2 _ hmem).1
    refine ⟨fun field hfield => ?_, spec.inner, hmem, hkeys, ?_⟩
    · have hfields := hpoint field.1
      rw [(get_eq_some_iff spec.normal.1).mpr hfield, Option.map_some, eq_comm,
        Option.map_eq_some_iff] at hfields
      obtain ⟨definition, -, hparameter⟩ := hfields
      exact (congrArg Parameter.required hparameter).symm
    · intro field hfield other hother hname
      have hfields := hpoint field.1
      rw [(get_eq_some_iff spec.normal.1).mpr hfield, hname,
        (get_eq_some_iff hinner).mpr hother, Option.map_some, Option.map_some] at hfields
      have htype := congrArg Parameter.type (Option.some.inj hfields)
      exact htype
  · rintro ⟨hopen, object, hmem, hkeys, htypes⟩
    have hinner : KeysAscend object := (normalFields_iff.mp spec.normal.2 _ hmem).1
    funext name
    rw [signature_inner, inner_eq hmem, declared]
    rcases hget : Json.get name (.obj spec.fields) with _ | definition
    · rcases hget' : Json.get name (.obj object) with _ | definition'
      · rfl
      · have hsome := isSome_get_iff.mpr ((hkeys name).mp (isSome_get_iff.mp (hget' ▸ rfl)))
        rw [hget] at hsome
        exact absurd hsome Bool.false_ne_true
    · have hfield := (get_eq_some_iff spec.normal.1).mp hget
      obtain ⟨definition', hget'⟩ := Option.isSome_iff_exists.mp
        (isSome_get_iff.mpr ((hkeys name).mpr (List.mem_map_of_mem hfield)))
      have htype := htypes _ hfield _ ((get_eq_some_iff hinner).mp hget') rfl
      have hflag := hopen _ hfield
      rw [hget', Option.map_some, Option.map_some, ← htype, ← hflag]
      rfl

/-- **Maps of parameters are checked as they are declared, exactly when they are not taken for
schemas or the schema happens to say the same.** -/
theorem checksDeclared_iff (spec : MapSpec) :
    spec.ChecksDeclared ↔
      ("type".toList ∉ spec.fields.map Prod.fst ∧ "properties".toList ∉ spec.fields.map Prod.fst) ∨
        spec.SchemaAgrees := by
  by_cases h : "type".toList ∈ spec.fields.map Prod.fst ∨
      "properties".toList ∈ spec.fields.map Prod.fst
  · have hmap : ¬("type".toList ∉ spec.fields.map Prod.fst ∧
        "properties".toList ∉ spec.fields.map Prod.fst) := fun hnot => h.elim hnot.1 hnot.2
    have hopen : (ParameterSpec.signature { properties := spec.inner }).Open := by
      intro name p hp
      obtain ⟨definition, -, rfl⟩ := ParameterSpec.signature_eq_some.mp hp
      rfl
    rw [or_iff_right hmap, ← declared_eq_iff h, ← Signature.ext_iff_of_open hopen, ChecksDeclared]
    refine forall_congr' fun args => ?_
    rw [validateJsonArgs, normalizeParameterSpec_of_schema h]
    dsimp only
    rw [validateObjectArgs_eq_ok_iff rfl fun name hname => absurd hname List.not_mem_nil]
    exact iff_comm
  · obtain ⟨htype, hproperties⟩ := not_or.mp h
    refine iff_of_true (fun args => ?_) (.inl ⟨htype, hproperties⟩)
    have hrequired : ∀ name ∈ spec.requiredNames, name ∈ spec.fields.map Prod.fst := by
      intro name hname
      obtain ⟨field, hfield, rfl⟩ := List.mem_map.mp hname
      exact List.mem_map_of_mem (List.mem_filter.mp hfield).1
    rw [validateJsonArgs, normalizeParameterSpec_of_map htype hproperties, ← signature_of_map]
    exact validateObjectArgs_eq_ok_iff rfl hrequired

/-- The definition of a required parameter. -/
def requiredString : Json Char :=
  .obj [("required".toList, .bool true), ("type".toList, .str "string".toList)]

lemma normal_requiredString : Normal requiredString :=
  ⟨List.pairwise_pair.mpr (by decide), trivial, trivial, trivial⟩

/-- One required parameter with the name `type`. -/
def typeSpec : MapSpec where
  fields := [("type".toList, requiredString)]
  normal := Signature.normal_single normal_requiredString
  definitions := List.forall_mem_singleton.mpr rfl

theorem not_checksDeclared_type : ¬typeSpec.ChecksDeclared := by
  intro h
  have hempty : Normal (.obj [] : Json Char) := ⟨List.Pairwise.nil, trivial⟩
  have hopen := Signature.meets_empty_iff.mp ((h ⟨_, hempty⟩).mp rfl)
  have hflag := hopen "type".toList (parameter requiredString) rfl
  revert hflag
  decide

end MapSpec

end RustyClaw.SkillArguments
