import RustyClaw.Context.History

/-!
# Function responses

What `context/sanitize.rs` does to the response of a tool: `strip_response_payload` cuts down the
output of an envelope whose turn is old or whose turn has grown too large, and
`prepare_function_response_for_llm` fences the output for the model.  Both look for an envelope in
the text under `result`, and write the envelope back as a text.
-/

namespace RustyClaw.Context

open Glyph
open Json hiding str

variable {χ : Type} [Glyph χ]

/-! ## Markers -/

def truncateCharsWithMarker (input : List χ) (headChars tailChars : Nat) : List χ :=
  let charCount := input.length
  if charCount ≤ headChars + tailChars then input
  else
    input.take headChars ++ str s!"\n... [stripped {charCount} chars] ...\n" ++
      input.drop (charCount - tailChars)

def truncateLinesWithMarker (input : List χ) (headLines tailLines : Nat) : List χ :=
  let all := lines input
  if all.length ≤ headLines + tailLines then input
  else
    join "\n" (all.take headLines) ++ str s!"\n... [stripped {all.length} lines] ...\n" ++
      join "\n" (all.drop (all.length - tailLines))

/-! ## The response -/

/-- The text under `result`. -/
def FunctionResponse.resultText (response : FunctionResponse χ) : Option (List χ) :=
  getStr "result" response.response.json

def FunctionResponse.withResult (response : FunctionResponse χ) (text : List χ) :
    FunctionResponse χ :=
  { response with response := response.response.setField "result" (.str text) trivial }

/-! ## Stripping -/

def isOneOf (text : List χ) (names : List String) : Bool :=
  names.any fun name => chars text = name.toList

/-- The output that is kept of an envelope; `none` for a plan, which is replaced as a whole. -/
def strippedOutput (name : List χ) (envelope : ToolExecutionEnvelope χ) : Option (List χ) :=
  let output := envelope.result.output
  let toolName := if envelope.result.toolName = [] then name else envelope.result.toolName
  let evidenceKind := fun names => envelope.effects.evidenceKind.any fun kind => isOneOf kind names
  let payloadKind := fun names => envelope.effects.payloadKind.any fun kind => isOneOf kind names
  if payloadKind ["plan"] || isOneOf toolName ["task_plan"] then none
  else some <|
    if evidenceKind ["file"] then
      if 10 < (lines output).length then truncateLinesWithMarker output 5 5 else output
    else if evidenceKind ["diagnostic", "directory"] || isOneOf toolName ["execute_bash"] then
      if 500 < output.length then truncateCharsWithMarker output 200 200 else output
    else if payloadKind ["web_content", "web_search"] ||
        isOneOf toolName ["web_fetch", "web_search_tavily"] then
      str s!"[web content stripped - {utf8Len output} chars]"
    else if payloadKind ["browser_snapshot"] || isOneOf toolName ["browser"] then
      str s!"[browser snapshot stripped - {(lines output).length} elements]"
    else if payloadKind ["skill"] || isOneOf toolName ["skill", "use_skill"] then
      str "Skill loaded."
    else if payloadKind ["code_mode_exec"] || isOneOf toolName ["exec", "wait"] then
      if 1500 < output.length then truncateCharsWithMarker output 700 400 else output
    else if isOneOf toolName ["write_file", "patch_file"] then output
    else if 500 < utf8Len output then truncateCharsWithMarker output 200 100
    else output

/-- The text of an envelope without the fields about how the tool ran. -/
def strippedEnvelopeText (envelope : ToolExecutionEnvelope χ) : List χ :=
  let fields := normalizeFields [] (envelope.fields.map fun field => (str field.1, field.2))
  render (.obj (["duration_ms", "truncated", "recovery_attempted", "recovery_output",
    "recovery_rule"].foldl (fun fields key => removeField key fields) fields))

def stripResponsePayload (response : FunctionResponse χ) : FunctionResponse χ :=
  match response.resultText with
  | none => response
  | some resultStr =>
    match ToolExecutionEnvelope.fromJsonStr resultStr with
    | none =>
      if 500 < utf8Len resultStr then
        response.withResult
          (resultStr.take 200 ++ str s!"\n... [stripped {utf8Len resultStr} chars]")
      else response
    | some envelope =>
      match strippedOutput response.name envelope with
      | none => response.withResult (str "[plan updated]")
      | some output => response.withResult
          (strippedEnvelopeText { envelope with result := { envelope.result with output } })

/-! ## Fencing -/

def prepareFunctionResponseForLlm (toLowercase : List Char → List Char)
    (response : FunctionResponse χ) : FunctionResponse χ :=
  match response.resultText.bind ToolExecutionEnvelope.fromJsonStr with
  | none => response
  | some envelope => response.withResult (envelope.intoLlmContext toLowercase).toJsonString

/-! ## What stays -/

def Message.calls (message : Message χ) : List (FunctionCall χ) :=
  message.parts.filterMap Part.functionCall

def Message.responses (message : Message χ) : List (FunctionResponse χ) :=
  message.parts.filterMap Part.functionResponse

/-- The name and the id of a response, by which it is matched with its call. -/
def FunctionResponse.key (response : FunctionResponse χ) : List χ × Option (List χ) :=
  (response.name, response.id)

@[simp] lemma FunctionResponse.withResult_key (response : FunctionResponse χ) (text : List χ) :
    (response.withResult text).key = response.key := rfl

lemma get_setField (key : String) (value : Json χ) (fields : Fields χ) :
    get key.toList (.obj (setField key value fields)) =
      (get key.toList (.obj fields)).map fun _ => value := by
  have hkey : (fun field : List χ × Json χ => decide (chars field.1 = key.toList)) ∘
      (fun field => if hasKey key field then (field.1, value) else field) =
        fun field => decide (chars field.1 = key.toList) := by
    funext field
    rw [Function.comp_apply]
    split <;> rfl
  rw [Json.get, setField, ← List.map_reverse, List.find?_map, hkey, Json.get]
  cases hfound : fields.reverse.find? fun field => chars field.1 = key.toList with
  | none => rfl
  | some field =>
    have hfield : hasKey key field = true := List.find?_some hfound
    rw [Option.map_some, if_pos hfield]
    rfl

/-- The text that was put under `result` is found there. -/
lemma FunctionResponse.resultText_withResult {response : FunctionResponse χ} {old : List χ}
    (h : response.resultText = some old) (text : List χ) :
    (response.withResult text).resultText = some text := by
  obtain ⟨name, ⟨json, hnormal⟩, id⟩ := response
  cases json with
  | obj fields =>
    obtain ⟨value, hvalue, -⟩ := Option.bind_eq_some_iff.mp h
    show (get "result".toList (.obj (setField "result" (.str text) fields))).bind asStr = some text
    rw [get_setField, show get "result".toList (.obj fields) = some value from hvalue]
    rfl
  | null | bool | num | str | arr => cases h

lemma stripResponsePayload_key (response : FunctionResponse χ) :
    (stripResponsePayload response).key = response.key := by
  unfold stripResponsePayload
  split
  · rfl
  · split
    · split <;> rfl
    · split <;> rfl

end RustyClaw.Context
