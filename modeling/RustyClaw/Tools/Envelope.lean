import Mathlib.Algebra.Group.Int.Defs
import RustyClaw.Security
import RustyClaw.Tools.Protocol

/-!
# Tool execution envelopes

The structured result of a tool (`ToolExecutionEnvelope` of `tools/protocol.rs`), its JSON text and
the form in which it is shown to the model.

Reading only looks at the fields an envelope knows, through the lookup `decode` is given, so that
it does not depend on the order in which the fields stand.  `fromJsonStr_toJsonString` is the round
trip.
-/

namespace RustyClaw

open Glyph Json Security

variable {χ : Type} [Glyph χ]

/-! ## The data -/

/-- A question to the user that a tool asks to be paused for. -/
structure UserPromptRequest (χ : Type) where
  question : List χ
  contextKey : List χ
  options : List (List χ)
  recommendation : Option (List χ)

structure ToolResultData (χ : Type) where
  ok : Bool := false
  toolName : List χ := []
  output : List χ := []
  exitCode : Option Int32 := none
  durationMs : Option UInt64 := none
  truncated : Bool := false

inductive ToolOutputSecurity where
  | untrusted
  | verbatim
  deriving DecidableEq, Repr

structure ToolEffects (χ : Type) where
  recoveryAttempted : Bool := false
  recoveryOutput : Option (List χ) := none
  recoveryRule : Option (List χ) := none
  filePath : Option (List χ) := none
  evidenceKind : Option (List χ) := none
  evidenceSourcePath : Option (List χ) := none
  evidenceSummary : Option (List χ) := none
  payloadKind : Option (List χ) := none
  outputSecurity : Option ToolOutputSecurity := none
  outputSource : Option (List χ) := none
  invalidateDiagnosticEvidence : Bool := false
  awaitUser : Option (UserPromptRequest χ) := none

structure ToolExecutionEnvelope (χ : Type) where
  result : ToolResultData χ
  effects : ToolEffects χ

/-! ## Writing -/

def ToolOutputSecurity.name : ToolOutputSecurity → String
  | .untrusted => "untrusted"
  | .verbatim => "verbatim"

def optionJson {α : Type} (write : α → Json χ) : Option α → Json χ
  | none => .null
  | some value => write value

/-- A field that is left out when there is no value. -/
def skipNone {α : Type} (key : String) (write : α → Json χ) : Option α → List (String × Json χ)
  | none => []
  | some value => [(key, write value)]

def UserPromptRequest.fields (request : UserPromptRequest χ) : List (String × Json χ) :=
  [("question", .str request.question), ("context_key", .str request.contextKey),
    ("options", .arr (request.options.map .str)),
    ("recommendation", optionJson .str request.recommendation)]

/-- The fields of an envelope in the order in which they are written. -/
def ToolExecutionEnvelope.fields (envelope : ToolExecutionEnvelope χ) : List (String × Json χ) :=
  let result := envelope.result
  let effects := envelope.effects
  [("ok", .bool result.ok), ("tool_name", .str result.toolName), ("output", .str result.output),
    ("exit_code", optionJson (fun code => .num (.ofInt code.toInt)) result.exitCode),
    ("duration_ms", optionJson (fun ms => .num (.ofInt ms.toNat)) result.durationMs),
    ("truncated", .bool result.truncated),
    ("recovery_attempted", .bool effects.recoveryAttempted),
    ("recovery_output", optionJson .str effects.recoveryOutput),
    ("recovery_rule", optionJson .str effects.recoveryRule),
    ("file_path", optionJson .str effects.filePath),
    ("evidence_kind", optionJson .str effects.evidenceKind),
    ("evidence_source_path", optionJson .str effects.evidenceSourcePath),
    ("evidence_summary", optionJson .str effects.evidenceSummary),
    ("payload_kind", optionJson .str effects.payloadKind)] ++
  skipNone "output_security" (fun security => .str (Glyph.str security.name))
    effects.outputSecurity ++
  skipNone "output_source" .str effects.outputSource ++
  [("invalidate_diagnostic_evidence", .bool effects.invalidateDiagnosticEvidence)] ++
  skipNone "await_user" (fun request => objOf request.fields) effects.awaitUser

def ToolExecutionEnvelope.toJson (envelope : ToolExecutionEnvelope χ) : Json χ :=
  objOf envelope.fields

def ToolExecutionEnvelope.toJsonString (envelope : ToolExecutionEnvelope χ) : List χ :=
  render envelope.toJson

/-! ## Reading -/

section Reading

def readInt32 (value : Json χ) : Option Int32 :=
  match asInt value with
  | some i => if -2 ^ 31 ≤ i ∧ i < 2 ^ 31 then some (.ofInt i) else none
  | none => none

def readUInt64 (value : Json χ) : Option UInt64 :=
  match asInt value with
  | some i => if 0 ≤ i ∧ i < 2 ^ 64 then some (.ofNat i.toNat) else none
  | none => none

def readTexts (value : Json χ) : Option (List (List χ)) :=
  match value with
  | .arr items => items.mapM asStr
  | _ => none

def ToolOutputSecurity.ofName (name : List Char) : Option ToolOutputSecurity :=
  if name = "untrusted".toList then some .untrusted
  else if name = "verbatim".toList then some .verbatim
  else none

/-- A variant without data is its name, or an object with its name and nothing in it. -/
def readSecurity : Json χ → Option ToolOutputSecurity
  | .str name => ToolOutputSecurity.ofName (chars name)
  | .obj [(name, .null)] => ToolOutputSecurity.ofName (chars name)
  | .obj [(name, .obj [])] => ToolOutputSecurity.ofName (chars name)
  | _ => none

/-- A structure is read from an object, or from an array with its fields in order. -/
def readUserPrompt : Json χ → Option (UserPromptRequest χ)
  | .obj fields => do
    let field := fieldOf fields
    let question ← requireField field "question" asStr
    let contextKey ← requireField field "context_key" asStr
    let options ← requireField field "options" readTexts
    let recommendation ← readField field "recommendation" none (readOption asStr)
    return { question, contextKey, options, recommendation }
  | .arr [question, contextKey, options, recommendation] => do
    let question ← asStr question
    let contextKey ← asStr contextKey
    let options ← readTexts options
    let recommendation ← readOption asStr recommendation
    return { question, contextKey, options, recommendation }
  | _ => none

def readText (field : Lookup χ) (key : String) : Option (Option (List χ)) :=
  readField field key none (readOption asStr)

def decodeResult (field : Lookup χ) : Option (ToolResultData χ) := do
  let ok ← readField field "ok" false asBool
  let toolName ← readField field "tool_name" [] asStr
  let output ← readField field "output" [] asStr
  let exitCode ← readField field "exit_code" none (readOption readInt32)
  let durationMs ← readField field "duration_ms" none (readOption readUInt64)
  let truncated ← readField field "truncated" false asBool
  return { ok, toolName, output, exitCode, durationMs, truncated }

def decodeEffects (field : Lookup χ) : Option (ToolEffects χ) := do
  let recoveryAttempted ← readField field "recovery_attempted" false asBool
  let recoveryOutput ← readText field "recovery_output"
  let recoveryRule ← readText field "recovery_rule"
  let filePath ← readText field "file_path"
  let evidenceKind ← readText field "evidence_kind"
  let evidenceSourcePath ← readText field "evidence_source_path"
  let evidenceSummary ← readText field "evidence_summary"
  let payloadKind ← readText field "payload_kind"
  let outputSecurity ← readField field "output_security" none (readOption readSecurity)
  let outputSource ← readText field "output_source"
  let invalidateDiagnosticEvidence ← readField field "invalidate_diagnostic_evidence" false asBool
  let awaitUser ← readField field "await_user" none (readOption readUserPrompt)
  return {
    recoveryAttempted, recoveryOutput, recoveryRule, filePath, evidenceKind, evidenceSourcePath
    evidenceSummary, payloadKind, outputSecurity, outputSource, invalidateDiagnosticEvidence
    awaitUser }

def decode (field : Lookup χ) : Option (ToolExecutionEnvelope χ) := do
  let result ← decodeResult field
  let effects ← decodeEffects field
  return { result, effects }

end Reading

def ToolExecutionEnvelope.fromJsonStr (input : List χ) : Option (ToolExecutionEnvelope χ) :=
  match parse input with
  | some (.obj fields) => decode (fieldOf fields)
  | _ => none

/-! ## What is taken for an envelope -/

/-- The fields an envelope knows, and which values they may have.  None of them has to be there. -/
def envelopeFields : List (String × (Json χ → Bool)) :=
  [("ok", fun value => (asBool value).isSome), ("tool_name", fun value => (asStr value).isSome),
    ("output", fun value => (asStr value).isSome),
    ("exit_code", fun value => (readOption readInt32 value).isSome),
    ("duration_ms", fun value => (readOption readUInt64 value).isSome),
    ("truncated", fun value => (asBool value).isSome),
    ("recovery_attempted", fun value => (asBool value).isSome),
    ("recovery_output", fun value => (readOption asStr value).isSome),
    ("recovery_rule", fun value => (readOption asStr value).isSome),
    ("file_path", fun value => (readOption asStr value).isSome),
    ("evidence_kind", fun value => (readOption asStr value).isSome),
    ("evidence_source_path", fun value => (readOption asStr value).isSome),
    ("evidence_summary", fun value => (readOption asStr value).isSome),
    ("payload_kind", fun value => (readOption asStr value).isSome),
    ("output_security", fun value => (readOption readSecurity value).isSome),
    ("output_source", fun value => (readOption asStr value).isSome),
    ("invalidate_diagnostic_evidence", fun value => (asBool value).isSome),
    ("await_user", fun value => (readOption readUserPrompt value).isSome)]

/-- A field that is not there, or there once with a value that is allowed. -/
def allowsField (field : Lookup χ) (entry : String × (Json χ → Bool)) : Bool :=
  match field entry.1 with
  | none => false
  | some none => true
  | some (some value) => entry.2 value

/-- The text of an object in which every known field is allowed. -/
def LooksLikeEnvelope (text : List χ) : Prop :=
  ∃ fields, parse text = some (.obj fields) ∧ envelopeFields.all (allowsField (fieldOf fields))

lemma isSome_readField {α : Type} (field : Lookup χ) (key : String) (default : α)
    (read : Json χ → Option α) : (readField field key default read).isSome =
      allowsField field (key, fun value => (read value).isSome) := by
  unfold readField allowsField
  rcases field key with _ | _ | value <;> rfl

/-- The steps of a decoder do not depend on what was read before. -/
lemma isSome_bind {α β : Type} (value : Option α) {next : α → Option β} {b : Bool}
    (h : ∀ a, (next a).isSome = b) : (value >>= next).isSome = (value.isSome && b) := by
  cases value with
  | none => rfl
  | some a => exact h a

lemma isSome_decodeResult (field : Lookup χ) :
    (decodeResult field).isSome = (envelopeFields.take 6).all (allowsField field) := by
  have hpure : ∀ result : ToolResultData χ, (pure result : Option _).isSome = true := fun _ => rfl
  unfold decodeResult
  refine (isSome_bind _ fun _ => isSome_bind _ fun _ => isSome_bind _ fun _ => isSome_bind _ fun _ =>
    isSome_bind _ fun _ => isSome_bind _ fun _ => hpure _).trans ?_
  simp only [isSome_readField]
  rfl

lemma isSome_decodeEffects (field : Lookup χ) :
    (decodeEffects field).isSome = (envelopeFields.drop 6).all (allowsField field) := by
  have hpure : ∀ effects : ToolEffects χ, (pure effects : Option _).isSome = true := fun _ => rfl
  unfold decodeEffects
  refine (isSome_bind _ fun _ => isSome_bind _ fun _ => isSome_bind _ fun _ => isSome_bind _ fun _ =>
    isSome_bind _ fun _ => isSome_bind _ fun _ => isSome_bind _ fun _ => isSome_bind _ fun _ =>
    isSome_bind _ fun _ => isSome_bind _ fun _ => isSome_bind _ fun _ => isSome_bind _ fun _ =>
    hpure _).trans ?_
  simp only [isSome_readField, readText]
  rfl

lemma isSome_decode (field : Lookup χ) :
    (decode field).isSome = envelopeFields.all (allowsField field) := by
  have hpure : ∀ envelope : ToolExecutionEnvelope χ, (pure envelope : Option _).isSome = true :=
    fun _ => rfl
  rw [← List.take_append_drop 6 envelopeFields, List.all_append, ← isSome_decodeResult,
    ← isSome_decodeEffects]
  refine (isSome_bind _ fun _ => isSome_bind _ fun _ => hpure _).trans ?_
  rw [Bool.and_true]

/-- Reading succeeds on exactly the texts that look like an envelope. -/
lemma isSome_fromJsonStr_iff (text : List χ) :
    (ToolExecutionEnvelope.fromJsonStr text).isSome = true ↔ LooksLikeEnvelope text := by
  unfold ToolExecutionEnvelope.fromJsonStr LooksLikeEnvelope
  split
  · next fields hparse =>
    rw [isSome_decode, hparse]
    refine ⟨fun h => ⟨fields, rfl, h⟩, ?_⟩
    rintro ⟨fields', heq, h⟩
    cases heq
    exact h
  · next hother =>
    refine ⟨nofun, ?_⟩
    rintro ⟨fields, heq, -⟩
    exact (hother fields heq).elim

/-! ## What the model is shown -/

section LlmContext

variable (toLowercase : List Char → List Char)

/-- The source a fence names. -/
def ToolExecutionEnvelope.llmSource (envelope : ToolExecutionEnvelope χ) : List χ :=
  match envelope.effects.outputSource.filter fun source => !(trim source).isEmpty with
  | some source => source
  | none =>
    if (trim envelope.result.toolName).isEmpty then Glyph.str "tool" else envelope.result.toolName

def ToolExecutionEnvelope.intoLlmContext (envelope : ToolExecutionEnvelope χ) :
    ToolExecutionEnvelope χ :=
  let source := envelope.llmSource
  let output := match envelope.effects.outputSecurity with
    | some .untrusted => fenceUntrusted toLowercase source envelope.result.output
    | some .verbatim => fenceVerbatim toLowercase source envelope.result.output
    | none => envelope.result.output
  { envelope with result := { envelope.result with output } }

end LlmContext

/-! ## The round trip -/

section RoundTrip

lemma readOption_optionJson {α : Type} {read : Json χ → Option α} {write : α → Json χ}
    (hread : ∀ value, read (write value) = some value) (hnull : ∀ value, write value ≠ .null)
    (value : Option α) : readOption read (optionJson write value) = some value := by
  cases value with
  | none => rfl
  | some value =>
    have hwrite := hread value
    have hne := hnull value
    simp only [optionJson]
    generalize write value = j at hwrite hne
    cases j <;> simp_all [readOption]

lemma readInt32_num (code : Int32) : readInt32 (.num (.ofInt code.toInt) : Json χ) = some code := by
  have hle := code.le_toInt
  have hlt := code.toInt_lt
  simp only [readInt32, asInt, NumLit.toInt_ofInt]
  rw [if_pos ⟨hle, hlt⟩, Int32.ofInt_toInt]

lemma readUInt64_num (ms : UInt64) :
    readUInt64 (.num (.ofInt ms.toNat) : Json χ) = some ms := by
  have hlt := ms.toNat_lt
  have hlt' : (ms.toNat : Int) < 2 ^ 64 := by exact_mod_cast hlt
  simp only [readUInt64, asInt, NumLit.toInt_ofInt]
  rw [if_pos ⟨Int.natCast_nonneg _, hlt'⟩, Int.toNat_natCast, UInt64.ofNat_toNat]

lemma readSecurity_str (security : ToolOutputSecurity) :
    readSecurity (.str (Glyph.str security.name) : Json χ) = some security := by
  simp only [readSecurity, chars_str, str_char]
  cases security <;> rfl

lemma mapM_asStr (texts : List (List χ)) : (texts.map Json.str).mapM asStr = some texts := by
  induction texts with
  | nil => rfl
  | cons text texts ih => simp [asStr, ih]

lemma nodup_promptFields (request : UserPromptRequest χ) :
    (request.fields.map Prod.fst).Nodup := by
  simp [UserPromptRequest.fields]

lemma nodup_fields (envelope : ToolExecutionEnvelope χ) :
    (envelope.fields.map Prod.fst).Nodup := by
  obtain ⟨result, effects⟩ := envelope
  obtain ⟨_, _, _, _, _, _, _, _, security, source, _, request⟩ := effects
  cases security <;> cases source <;> cases request <;>
    simp [ToolExecutionEnvelope.fields, skipNone]

lemma lookup_skipNone {α : Type} (key key' : String) (write : α → Json χ) (value : Option α) :
    (skipNone key write value).lookup key' = if key' = key then value.map write else none := by
  cases value with
  | none => simp [skipNone]
  | some value =>
    rw [skipNone, List.lookup_cons]
    by_cases h : key' = key
    · simp [h]
    · have hbeq : (key' == key) = false := by simpa using h
      simp [h, hbeq]

lemma map_fst_skipNone {α : Type} (key : String) (write : α → Json χ) (value : Option α) :
    ((skipNone key write value).map Prod.fst).Sublist [key] := by
  cases value <;> simp [skipNone]

lemma readField_map {α : Type} {field : Lookup χ} {key : String} {write : α → Json χ}
    {read : Json χ → Option α} {value : Option α} (hfield : field key = some (value.map write))
    (hread : ∀ v ∈ value, readOption read (write v) = some (some v)) :
    readField field key none (readOption read) = some value := by
  rw [readField, hfield]
  cases value with
  | none => rfl
  | some value => exact hread value rfl

lemma readField_str {field : Lookup χ} {key : String} {value : Option (List χ)}
    (hfield : field key = some (value.map .str)) :
    readField field key none (readOption asStr) = some value :=
  readField_map hfield fun _ _ => rfl

lemma readUserPrompt_objOf (request : UserPromptRequest χ) :
    readUserPrompt (objOf request.fields) = some request := by
  have hfield : ∀ key, fieldOf (request.fields.map fun field => (Glyph.str field.1, field.2)) key =
      some (request.fields.lookup key) := takeField_objOf _ (nodup_promptFields request)
  have hrec : readOption asStr (optionJson .str request.recommendation) =
      some request.recommendation := by cases request.recommendation <;> rfl
  have hoptions : List.mapM (asStr ∘ Json.str) request.options = some request.options := by
    rw [← List.mapM_map]
    exact mapM_asStr request.options
  simp only [readUserPrompt, objOf, requireField, readField, hfield]
  simp [UserPromptRequest.fields, List.lookup_cons, asStr, readTexts, hoptions, hrec]

lemma readText_optionJson {field : Lookup χ} {key : String} {value : Option (List χ)}
    (h : field key = some (some (optionJson .str value))) : readText field key = some value := by
  rw [readText, readField, h]
  cases value <;> rfl

lemma decodeResult_fields (envelope : ToolExecutionEnvelope χ) :
    decodeResult (fun key => some (envelope.fields.lookup key)) = some envelope.result := by
  have hexit : readOption readInt32 (optionJson (fun code => .num (.ofInt code.toInt))
      envelope.result.exitCode : Json χ) = some envelope.result.exitCode :=
    readOption_optionJson readInt32_num (fun _ => nofun) _
  have hduration : readOption readUInt64 (optionJson (fun ms => .num (.ofInt ms.toNat))
      envelope.result.durationMs : Json χ) = some envelope.result.durationMs :=
    readOption_optionJson readUInt64_num (fun _ => nofun) _
  simp [decodeResult, readField, ToolExecutionEnvelope.fields, List.lookup_cons, asBool, asStr, hexit, hduration]

lemma lookup_security (envelope : ToolExecutionEnvelope χ) :
    envelope.fields.lookup "output_security" = envelope.effects.outputSecurity.map fun security =>
      .str (Glyph.str security.name) := by
  simp [ToolExecutionEnvelope.fields, List.lookup_append, List.lookup_cons, lookup_skipNone]

lemma lookup_source (envelope : ToolExecutionEnvelope χ) :
    envelope.fields.lookup "output_source" = envelope.effects.outputSource.map .str := by
  simp [ToolExecutionEnvelope.fields, List.lookup_append, List.lookup_cons, lookup_skipNone]

lemma lookup_invalidate (envelope : ToolExecutionEnvelope χ) :
    envelope.fields.lookup "invalidate_diagnostic_evidence" =
      some (.bool envelope.effects.invalidateDiagnosticEvidence) := by
  simp [ToolExecutionEnvelope.fields, List.lookup_append, List.lookup_cons, lookup_skipNone]

lemma lookup_awaitUser (envelope : ToolExecutionEnvelope χ) :
    envelope.fields.lookup "await_user" =
      envelope.effects.awaitUser.map fun request => objOf request.fields := by
  simp [ToolExecutionEnvelope.fields, List.lookup_append, List.lookup_cons, lookup_skipNone]

lemma decodeEffects_fields (envelope : ToolExecutionEnvelope χ) :
    decodeEffects (fun key => some (envelope.fields.lookup key)) = some envelope.effects := by
  have hsecurity : readField (fun key => some (envelope.fields.lookup key)) "output_security" none
      (readOption readSecurity) = some envelope.effects.outputSecurity :=
    readField_map (congrArg some (lookup_security envelope)) fun security _ =>
      congrArg (Option.map some) (readSecurity_str security)
  have hsource : readText (fun key => some (envelope.fields.lookup key)) "output_source" =
      some envelope.effects.outputSource :=
    readField_map (congrArg some (lookup_source envelope)) fun _ _ => rfl
  have hprompt : readField (fun key => some (envelope.fields.lookup key)) "await_user" none
      (readOption readUserPrompt) = some envelope.effects.awaitUser :=
    readField_map (congrArg some (lookup_awaitUser envelope)) fun request _ =>
      congrArg (Option.map some) (readUserPrompt_objOf request)
  have htext : ∀ {key : String} {value : Option (List χ)},
      envelope.fields.lookup key = some (optionJson .str value) →
        readText (fun key => some (envelope.fields.lookup key)) key = some value :=
    fun h => readText_optionJson (congrArg some h)
  have hflag : ∀ {key : String} {value : Bool}, envelope.fields.lookup key = some (.bool value) →
      readField (fun key => some (envelope.fields.lookup key)) key false asBool = some value := by
    intro key value h
    rw [readField, h]
    rfl
  rw [decodeEffects, hflag rfl, htext rfl, htext rfl, htext rfl, htext rfl, htext rfl, htext rfl,
    htext rfl, hsecurity, hsource, hprompt, hflag (lookup_invalidate envelope)]
  rfl

lemma depthFields_append (fields fields' : Fields χ) :
    depthFields (fields ++ fields') = max (depthFields fields) (depthFields fields') := by
  induction fields with
  | nil => exact (Nat.zero_max _).symm
  | cons field fields ih => rw [List.cons_append, depthFields, depthFields, ih, Nat.max_assoc]

lemma depthFields_skipNone {α : Type} {write : α → Json χ} {n : Nat}
    (h : ∀ value, depth (write value) ≤ n) (key : String) (value : Option α) :
    depthFields ((skipNone key write value).map fun field => (Glyph.str field.1, field.2)) ≤ n := by
  cases value with
  | none => exact Nat.zero_le n
  | some value => exact Nat.max_le.mpr ⟨h value, Nat.zero_le n⟩

lemma depthItems_str (texts : List (List χ)) : depthItems (texts.map Json.str) = 0 := by
  induction texts with
  | nil => rfl
  | cons text texts ih => exact (Nat.zero_max _).trans ih

lemma depth_optionJson {α : Type} {write : α → Json χ} (h : ∀ value, depth (write value) = 0)
    (value : Option α) : depth (optionJson write value) = 0 := by
  cases value with
  | none => rfl
  | some value => exact h value

lemma depth_promptFields (request : UserPromptRequest χ) :
    depth (objOf request.fields) = 2 := by
  have hrec := depth_optionJson (fun text : List χ => show depth (.str text) = 0 from rfl) request.recommendation
  simp [objOf, UserPromptRequest.fields, depth, depthFields, depthItems_str, hrec]

/-- An envelope nests no deeper than the options of its question. -/
lemma depth_toJson_le (envelope : ToolExecutionEnvelope χ) : depth envelope.toJson ≤ 3 := by
  have htext : ∀ value : Option (List χ), depth (optionJson .str value) = 0 :=
    depth_optionJson fun _ => rfl
  have hexit : depth (optionJson (fun code => .num (.ofInt code.toInt))
      envelope.result.exitCode : Json χ) = 0 := depth_optionJson (fun _ => rfl) _
  have hduration : depth (optionJson (fun ms => .num (.ofInt ms.toNat))
      envelope.result.durationMs : Json χ) = 0 := depth_optionJson (fun _ => rfl) _
  have hsecurity := depthFields_skipNone (χ := χ) (n := 0)
    (fun security : ToolOutputSecurity => Nat.le_refl (depth (.str (Glyph.str security.name))))
    "output_security" envelope.effects.outputSecurity
  have hsource := depthFields_skipNone (fun text : List χ => Nat.le_refl (depth (.str text)))
    "output_source" envelope.effects.outputSource
  have hprompt := depthFields_skipNone
    (fun request : UserPromptRequest χ => (depth_promptFields request).le)
    "await_user" envelope.effects.awaitUser
  rw [ToolExecutionEnvelope.toJson, objOf, depth, ToolExecutionEnvelope.fields]
  simp only [List.map_append, depthFields_append, List.map_cons, List.map_nil, depthFields, depth,
    htext, hexit, hduration, Nat.max_self, Nat.zero_max, Nat.max_zero]
  have hsecurity' := hsecurity.trans (Nat.zero_le 2)
  have hsource' := hsource.trans (Nat.zero_le 2)
  exact Nat.succ_le_succ (Nat.max_le.mpr ⟨Nat.max_le.mpr ⟨hsecurity', hsource'⟩, hprompt⟩)

/-- What an envelope is written as is read back as the envelope. -/
theorem ToolExecutionEnvelope.fromJsonStr_toJsonString (envelope : ToolExecutionEnvelope χ) :
    fromJsonStr envelope.toJsonString = some envelope := by
  have hparse : parse envelope.toJsonString = some envelope.toJson :=
    parse_render _ ((depth_toJson_le envelope).trans (by decide))
  have hfield : fieldOf (envelope.fields.map fun field => (Glyph.str field.1, field.2)) =
      fun key => some (envelope.fields.lookup key) :=
    funext (takeField_objOf _ (nodup_fields envelope))
  rw [fromJsonStr, hparse, toJson, objOf]
  dsimp only
  rw [hfield, decode, decodeResult_fields, decodeEffects_fields]
  rfl

end RoundTrip

end RustyClaw
