import RustyClaw.Context.Reducers
import RustyClaw.Library.JsonDepth
import RustyClaw.Library.JsonSize

/-!
# The text of a stripped envelope

A stripped envelope is written without the fields that say how the tool ran, and with its fields in
the order of their keys.  It is read back as the envelope with these fields at their defaults
(`fromJsonStr_strippedEnvelopeText`), so stripping finds an envelope in what it has written, of the
same tool and the same kinds.  Its text grows and shrinks with the output alone
(`escapedLen_strippedEnvelopeText`).
-/

namespace RustyClaw.Context

open Glyph
open Json hiding str

variable {χ : Type} [Glyph χ]

/-- The fields that stripping removes. -/
def runFields : List String :=
  ["duration_ms", "truncated", "recovery_attempted", "recovery_output", "recovery_rule"]

/-- The envelope with another output. -/
def withOutput (envelope : ToolExecutionEnvelope χ) (output : List χ) : ToolExecutionEnvelope χ :=
  { envelope with result := { envelope.result with output } }

/-- The envelope without what was recorded of the run. -/
def withoutRun (envelope : ToolExecutionEnvelope χ) : ToolExecutionEnvelope χ :=
  { result := { envelope.result with durationMs := none, truncated := false }
    effects := { envelope.effects with
      recoveryAttempted := false, recoveryOutput := none, recoveryRule := none } }

/-- The fields of an envelope as a sorted map. -/
def sortedFields (envelope : ToolExecutionEnvelope χ) : Fields χ :=
  normalizeFields [] (envelope.fields.map fun field => (str field.1, field.2))

lemma strippedEnvelopeText_eq (envelope : ToolExecutionEnvelope χ) :
    strippedEnvelopeText envelope = render (.obj (removeFields runFields (sortedFields envelope))) :=
  rfl

/-! ## Reading it back -/

lemma normalize_optionJson {α : Type} {write : α → Json χ}
    (h : ∀ value, Json.normalize (write value) = write value) (value : Option α) :
    Json.normalize (optionJson write value) = optionJson write value := by
  cases value with
  | none => rfl
  | some value => exact h value

lemma normalizeItems_str (texts : List (List χ)) :
    normalizeItems (texts.map Json.str) = texts.map Json.str := by
  induction texts with
  | nil => rfl
  | cons text texts ih => exact congrArg (_ :: ·) ih

lemma readUserPrompt_normalize (request : UserPromptRequest χ) :
    readUserPrompt (Json.normalize (objOf request.fields)) = some request := by
  have hfield : ∀ key, fieldOf (normalizeFields []
      (request.fields.map fun field => (str field.1, field.2))) key =
        some ((request.fields.lookup key).map Json.normalize) :=
    takeField_normalizeFields (nodup_promptFields request)
  have hrec : readOption asStr (Json.normalize (optionJson .str request.recommendation)) =
      some request.recommendation := by cases request.recommendation <;> rfl
  have hoptions : List.mapM (asStr ∘ Json.str) request.options = some request.options := by
    rw [← List.mapM_map]
    exact mapM_asStr request.options
  simp only [objOf, Json.normalize, readUserPrompt, requireField, readField, hfield]
  simp [UserPromptRequest.fields, List.lookup_cons, Json.normalize, normalizeItems_str, asStr,
    readTexts, hoptions, hrec]

/-- What a key stands for in the text of a stripped envelope. -/
def strippedField (envelope : ToolExecutionEnvelope χ) : Lookup χ := fun key =>
  if key ∈ runFields then some none else some ((envelope.fields.lookup key).map Json.normalize)

lemma fieldOf_removeFields (envelope : ToolExecutionEnvelope χ) :
    fieldOf (removeFields runFields (sortedFields envelope)) = strippedField envelope := by
  funext key
  rw [fieldOf, takeField_removeFields, sortedFields,
    takeField_normalizeFields (nodup_fields envelope), strippedField]

lemma decodeResult_strippedField (envelope : ToolExecutionEnvelope χ) :
    decodeResult (strippedField envelope) = some (withoutRun envelope).result := by
  have hnormal : Json.normalize (optionJson (fun code => .num (.ofInt code.toInt))
      envelope.result.exitCode : Json χ) = optionJson (fun code => .num (.ofInt code.toInt))
        envelope.result.exitCode := normalize_optionJson (fun _ => rfl) _
  have hexit : readOption readInt32 (optionJson (fun code => .num (.ofInt code.toInt))
      envelope.result.exitCode : Json χ) = some envelope.result.exitCode :=
    readOption_optionJson readInt32_num (fun _ => nofun) _
  simp [decodeResult, readField, strippedField, runFields, ToolExecutionEnvelope.fields,
    List.lookup_cons, Json.normalize, asBool, asStr, hnormal, hexit, withoutRun]

lemma decodeEffects_strippedField (envelope : ToolExecutionEnvelope χ) :
    decodeEffects (strippedField envelope) = some (withoutRun envelope).effects := by
  have hfield : ∀ {key : String} {value : Option (Json χ)}, key ∉ runFields →
      envelope.fields.lookup key = value →
        strippedField envelope key = some (value.map Json.normalize) := by
    intro key value hkey hvalue
    rw [strippedField, if_neg hkey, hvalue]
  have hoption : ∀ {α : Type} {key : String} {write : α → Json χ} {value : Option α},
      key ∉ runFields → envelope.fields.lookup key = value.map write →
        strippedField envelope key = some (value.map fun v => Json.normalize (write v)) := by
    intro α key write value hkey h
    rw [hfield hkey h, Option.map_map]
    rfl
  have hgone : ∀ {α : Type} {key : String} (default : α) (read : Json χ → Option α),
      key ∈ runFields → readField (strippedField envelope) key default read = some default := by
    intro α key default read hkey
    rw [readField, strippedField, if_pos hkey]
  have htext : ∀ {key : String} {value : Option (List χ)}, key ∉ runFields →
      envelope.fields.lookup key = some (optionJson .str value) →
        readText (strippedField envelope) key = some value := by
    intro key value hkey h
    refine readText_optionJson ((hfield hkey h).trans ?_)
    rw [Option.map_some, normalize_optionJson fun _ => rfl]
  have hsecurity : readField (strippedField envelope) "output_security" none
      (readOption readSecurity) = some envelope.effects.outputSecurity :=
    readField_map (hoption (by decide) (lookup_security envelope)) fun security _ =>
      congrArg (Option.map some) (readSecurity_str security)
  have hsource : readText (strippedField envelope) "output_source" =
      some envelope.effects.outputSource :=
    readField_map (hoption (by decide) (lookup_source envelope)) fun _ _ => rfl
  have hprompt : readField (strippedField envelope) "await_user" none
      (readOption readUserPrompt) = some envelope.effects.awaitUser :=
    readField_map (hoption (by decide) (lookup_awaitUser envelope)) fun request _ =>
      congrArg (Option.map some) (readUserPrompt_normalize request)
  have hinvalidate : readField (strippedField envelope) "invalidate_diagnostic_evidence" false
      asBool = some envelope.effects.invalidateDiagnosticEvidence := by
    rw [readField, hfield (by decide) (lookup_invalidate envelope)]
    rfl
  rw [decodeEffects, hgone false asBool (by decide), readText, hgone none _ (by decide), readText,
    hgone none _ (by decide), hsecurity, hsource, hprompt, hinvalidate, htext (by decide) rfl,
    htext (by decide) rfl, htext (by decide) rfl, htext (by decide) rfl, htext (by decide) rfl]
  rfl

lemma depth_strippedFields_le (envelope : ToolExecutionEnvelope χ) :
    depth (.obj (removeFields runFields (sortedFields envelope))) ≤ 3 := by
  have hsorted : depth (.obj (sortedFields envelope)) ≤ 3 :=
    (depth_normalize_le envelope.toJson).trans (depth_toJson_le envelope)
  have hremove : ∀ (keys : List String) (fields : Fields χ), depthFields fields ≤ 2 →
      depthFields (removeFields keys fields) ≤ 2 := by
    intro keys
    induction keys with
    | nil => exact fun _ h => h
    | cons key keys ih =>
      intro fields h
      refine ih _ (depthFields_le_iff.mpr fun field hmem => ?_)
      exact depthFields_le_iff.mp h field (List.mem_filter.mp hmem).1
  rw [depth] at hsorted ⊢
  exact Nat.succ_le_succ (hremove runFields _ (Nat.le_of_succ_le_succ hsorted))

/-- A stripped envelope is read back without the record of its run. -/
theorem fromJsonStr_strippedEnvelopeText (envelope : ToolExecutionEnvelope χ) :
    ToolExecutionEnvelope.fromJsonStr (strippedEnvelopeText envelope) =
      some (withoutRun envelope) := by
  have hparse : parse (strippedEnvelopeText envelope) =
      some (.obj (removeFields runFields (sortedFields envelope))) :=
    parse_render _ ((depth_strippedFields_le envelope).trans (by decide))
  rw [ToolExecutionEnvelope.fromJsonStr, hparse]
  dsimp only
  rw [fieldOf_removeFields, decode, decodeResult_strippedField, decodeEffects_strippedField]
  rfl

/-! ## What it does not depend on -/

/-- The fields of an envelope with their keys as texts. -/
def textFields (envelope : ToolExecutionEnvelope χ) : Fields χ :=
  envelope.fields.map fun field => (str field.1, field.2)

lemma textFields_withOutput (envelope : ToolExecutionEnvelope χ) (output : List χ) :
    textFields (withOutput envelope output) =
      setField "output" (.str output) (textFields envelope) := by
  obtain ⟨result, effects⟩ := envelope
  obtain ⟨_, _, _, _, _, _, _, _, security, source, _, request⟩ := effects
  cases security <;> cases source <;> cases request <;>
    simp [textFields, withOutput, ToolExecutionEnvelope.fields, skipNone, setField]

lemma textFields_withoutRun (envelope : ToolExecutionEnvelope χ) :
    textFields (withoutRun envelope) = setField "duration_ms" .null (setField "truncated"
      (.bool false) (setField "recovery_attempted" (.bool false) (setField "recovery_output" .null
        (setField "recovery_rule" .null (textFields envelope))))) := by
  obtain ⟨result, effects⟩ := envelope
  obtain ⟨_, _, _, _, _, _, _, _, security, source, _, request⟩ := effects
  cases security <;> cases source <;> cases request <;>
    simp [textFields, withoutRun, ToolExecutionEnvelope.fields, skipNone, setField, optionJson]

lemma sortedFields_withOutput (envelope : ToolExecutionEnvelope χ) (output : List χ) :
    sortedFields (withOutput envelope output) =
      setField "output" (.str output) (sortedFields envelope) := by
  show normalizeFields [] (textFields (withOutput envelope output)) = _
  rw [textFields_withOutput, normalizeFields_setField rfl]
  rfl

/-- A field that is removed may be changed before. -/
lemma removeFields_setField_of_mem {key : String} {keys : List String} (h : key ∈ keys)
    (value : Json χ) (fields : Fields χ) :
    removeFields keys (setField key value fields) = removeFields keys fields := by
  have hnone : takeField key (removeFields keys fields) = some none := by
    rw [takeField_removeFields, if_pos h]
  rw [removeFields_setField]
  refine setField_of_filter ?_ value
  unfold takeField at hnone
  split at hnone
  · assumption
  · cases hnone
  · cases hnone

/-- What was recorded of the run is not in the text. -/
lemma strippedEnvelopeText_withoutRun (envelope : ToolExecutionEnvelope χ) :
    strippedEnvelopeText (withoutRun envelope) = strippedEnvelopeText envelope := by
  have hsorted : sortedFields (withoutRun envelope) = setField "duration_ms" .null (setField
      "truncated" (.bool false) (setField "recovery_attempted" (.bool false) (setField
        "recovery_output" .null (setField "recovery_rule" .null (sortedFields envelope))))) := by
    show normalizeFields [] (textFields (withoutRun envelope)) = _
    rw [textFields_withoutRun, normalizeFields_setField rfl, normalizeFields_setField rfl,
      normalizeFields_setField rfl, normalizeFields_setField rfl, normalizeFields_setField rfl]
    rfl
  rw [strippedEnvelopeText_eq, strippedEnvelopeText_eq, hsorted,
    removeFields_setField_of_mem (by decide), removeFields_setField_of_mem (by decide),
    removeFields_setField_of_mem (by decide), removeFields_setField_of_mem (by decide),
    removeFields_setField_of_mem (by decide)]

/-- The text of a stripped envelope tells its output. -/
lemma strippedEnvelopeText_inj {envelope : ToolExecutionEnvelope χ} {output output' : List χ}
    (h : strippedEnvelopeText (withOutput envelope output) =
      strippedEnvelopeText (withOutput envelope output')) : output = output' := by
  have hread := congrArg ToolExecutionEnvelope.fromJsonStr h
  rw [fromJsonStr_strippedEnvelopeText, fromJsonStr_strippedEnvelopeText, Option.some_inj] at hread
  exact congrArg (fun envelope => envelope.result.output) hread

/-- Another output in the envelope makes its text longer by what it is longer. -/
lemma escapedLen_strippedEnvelopeText (envelope : ToolExecutionEnvelope χ) (output : List χ) :
    escapedLen (strippedEnvelopeText (withOutput envelope output)) +
        nestedLen envelope.result.output =
      escapedLen (strippedEnvelopeText envelope) + nestedLen output := by
  have hfield : takeField "output" (removeFields runFields (sortedFields envelope)) =
      some (some (.str envelope.result.output)) :=
    congrFun (fieldOf_removeFields envelope) "output"
  have hsize := measure_setField addsUp_escapedLen hfield (.str output)
  rw [← removeFields_setField, ← sortedFields_withOutput, ← strippedEnvelopeText_eq,
    ← strippedEnvelopeText_eq, escapedLen_render_str, escapedLen_render_str] at hsize
  omega

/-! ## In a response -/

section Response

variable {response : FunctionResponse χ} {text : List χ}

lemma FunctionResponse.withResult_withResult (response : FunctionResponse χ) (text text' : List χ) :
    (response.withResult text).withResult text' = response.withResult text' := by
  obtain ⟨name, ⟨json, hnormal⟩, id⟩ := response
  cases json with
  | obj fields =>
    have hfields : setField "result" (.str text') (setField "result" (.str text) fields) =
        setField "result" (.str text') fields := by
      rw [setField, setField, List.map_map, setField]
      refine List.map_congr_left fun field _ => ?_
      rw [Function.comp_apply, hasKey_ite]
      split <;> rfl
    simp only [withResult, Value.setField, hfields]
  | null | bool | num | str | arr => rfl

/-- A response tells the text under `result`. -/
lemma FunctionResponse.withResult_inj (h : response.resultText = some text) {text' text'' : List χ} :
    response.withResult text' = response.withResult text'' ↔ text' = text'' := by
  refine ⟨fun heq => ?_, fun heq => heq ▸ rfl⟩
  have hread := congrArg FunctionResponse.resultText heq
  rw [resultText_withResult h, resultText_withResult h] at hread
  exact Option.some_inj.mp hread

/-- Another text under `result` makes the response longer by what it is longer. -/
lemma utf8Len_withResult (h : response.resultText = some text) (text' : List χ) :
    utf8Len (response.withResult text').text + escapedLen text =
      utf8Len response.text + escapedLen text' := by
  obtain ⟨name, ⟨json, hnormal⟩, id⟩ := response
  cases json with
  | obj fields =>
    obtain ⟨value, hvalue, hstr⟩ := Option.bind_eq_some_iff.mp h
    obtain rfl : value = .str text := by
      cases value with
      | str s => exact congrArg Json.str (Option.some_inj.mp hstr)
      | null | bool | num | arr | obj => cases hstr
    have hsize := measure_setField addsUp_utf8Len (takeField_of_get hnormal.1 hvalue) (.str text')
    rw [utf8Len_render_str, utf8Len_render_str] at hsize
    show utf8Len (render (.obj (setField "result" (.str text') fields))) + _ =
      utf8Len (render (.obj fields)) + _
    omega
  | null | bool | num | str | arr => cases h

end Response

end RustyClaw.Context
