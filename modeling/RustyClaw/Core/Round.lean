import RustyClaw.Context.Transcript
import RustyClaw.Context.Reducers
import RustyClaw.Core.Streaming
import RustyClaw.Tools.Invocation

/-!
# One round of tool calls

What the agent loop makes of the calls in a response of the model (`core/step_helpers.rs`): in text
mode the source of a command is put into its call, or the calls are refused; then every call is
answered by a part with a function response, whatever becomes of it.
-/

namespace RustyClaw.AgentLoop

open Context Glyph Streaming
open Json hiding str

/-! ## Calls and answers -/

/-- A call with its thought signature. -/
abbrev ToolCallRecord := FunctionCall Char × Option (List Char)

def buildFunctionResponsePart (name : List Char) (id : Option (List Char)) (response : Value Char)
    (thoughtSignature : Option (List Char)) : Context.Part Char :=
  { functionResponse := some { name, response, id }, thoughtSignature }

/-- `json!({ "result": message })`. -/
def resultValue (message : List Char) : Value Char := .object [("result", .str message)]

/-- The answer to a call, with this text as its result. -/
def answerCall (record : ToolCallRecord) (message : List Char) : Context.Part Char :=
  buildFunctionResponsePart record.1.name record.1.id (resultValue message) record.2

/-! ## Text mode -/

def textCommandExecSentinel : List Char := "__RUSTY_CLAW_TEXT_COMMAND__".toList

def isTextCommandExecSentinel (call : FunctionCall Char) : Bool :=
  call.name = "exec".toList ∧ getStr "code" call.args.json = some textCommandExecSentinel

def textCommandProtocolErrorParts (toolCalls : List ToolCallRecord) (message : String) :
    List (Context.Part Char) :=
  toolCalls.map fun record => answerCall record message.toList

def unpairedMessage : String :=
  "Text code mode protocol error: text mode must pair the visible JavaScript source with exactly one real `exec` tool call using `code` equal to `__RUSTY_CLAW_TEXT_COMMAND__`, and no other top-level tool calls."

def noSourceMessage : String :=
  "Text code mode protocol error: sentinel `exec` requires the visible assistant text to contain the JavaScript source."

def sourceInArgumentsMessage : String :=
  "Text code mode protocol error: in text mode, `exec.code` must be exactly `__RUSTY_CLAW_TEXT_COMMAND__`; put the JavaScript source in the visible assistant text instead of the tool arguments."

/-- The calls to execute, or the answers that refuse them; `visibleText` is the text of the
response without its think blocks. -/
def resolveTextCommandToolCalls (acceptsTextCommand : Bool) (visibleText : List Char)
    (toolCalls : List ToolCallRecord) : Except (List (Context.Part Char)) (List ToolCallRecord) :=
  if !acceptsTextCommand then .ok toolCalls
  else
    let visibleCode := trim visibleText
    if toolCalls.any fun record => isTextCommandExecSentinel record.1 then
      match toolCalls with
      | [(call, sig)] =>
        if visibleCode = [] then .error (textCommandProtocolErrorParts toolCalls noSourceMessage)
        else .ok [({ call with args := call.args.setField "code" (.str visibleCode) trivial }, sig)]
      | _ => .error (textCommandProtocolErrorParts toolCalls unpairedMessage)
    else if toolCalls.any fun record => record.1.name = "exec".toList then
      .error (textCommandProtocolErrorParts toolCalls sourceInArgumentsMessage)
    else .ok toolCalls

/-! ## The calls of a round -/

/-- The call without its thought, and the thought when it is a text. -/
def extractToolThought (call : FunctionCall Char) : FunctionCall Char × Option (List Char) :=
  ({ call with args := call.args.removeField "thought" },
    (getStr "thought" call.args.json).filter (· ≠ []))

/-- `execute_tool_round` between two calls; the number of steps that are left is shared by the
calls. -/
structure Round where
  calls : List ToolCallRecord
  responses : List (Context.Part Char) := []
  skipRemaining : Bool := false
  shouldYieldToUser : Bool := false
  budget : Nat

structure ToolDispatchOutcome where
  result : List Char
  isError : Bool
  stopped : Bool := false
  guardSignal : Option ExecutionGuardSignal := none
  deriving DecidableEq, Repr

def ToolDispatchOutcome.ofExecution (outcome : ToolExecutionOutcome) : ToolDispatchOutcome where
  result := outcome.result.toList
  isError := outcome.isError
  stopped := outcome.stopped
  guardSignal := outcome.guardSignal

/-- The question that a tool wants to put to the user. -/
def awaitedUserPrompt (result : List Char) : Option (UserPromptRequest Char) :=
  (ToolExecutionEnvelope.fromJsonStr result).bind fun envelope => envelope.effects.awaitUser

def formatUserPrompt (request : UserPromptRequest Char) : List Char :=
  request.question ++
    (if request.options = [] then []
      else "\nOptions: ".toList ++ Glyph.join ", " request.options) ++
    (request.recommendation.map ("\nRecommended: ".toList ++ ·)).getD []

namespace Round

def answer (round : Round) (part : Context.Part Char) : Round :=
  { round with responses := round.responses ++ [part] }

/-- What is done with the outcome of a call. -/
def conclude (round : Round) (record : ToolCallRecord) (outcome : ToolDispatchOutcome) : Round :=
  match outcome.guardSignal with
  | some signal => round.answer (buildFunctionResponsePart record.1.name record.1.id
      (.object [("result", .str signal.message.toList), ("signal", .str signal.signal.toList)])
      record.2)
  | none =>
    if outcome.stopped then
      { round.answer (answerCall record outcome.result) with skipRemaining := true }
    else if !outcome.isError ∧ (awaitedUserPrompt outcome.result).isSome then
      { round.answer (answerCall record outcome.result) with
        shouldYieldToUser := true
        skipRemaining := true }
    else round.answer (answerCall record outcome.result)

end Round

/-- A response that stops the autopilot. -/
def isMeltdown (part : Context.Part Char) : Bool :=
  part.functionResponse.any fun response =>
    getStr "signal" response.response.json = some "autopilot_meltdown".toList

end RustyClaw.AgentLoop
