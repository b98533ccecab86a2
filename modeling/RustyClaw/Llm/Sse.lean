import RustyClaw.Library.Cutting
import RustyClaw.Library.JsonGet
import RustyClaw.Library.Utf8
import RustyClaw.Llm.ToolCallStream

/-!
# Server-sent events

The answer of a provider is a stream of blocks of lines, with an empty line behind each block; what
the `data` lines of a block hold is a JSON value.  The bytes come in chunks, and each chunk is made
into text on its own.  The client for chat completions cuts lines off the text that has come, the
one for Gemini blocks, and both look for the prefix `data: ` only.
-/

namespace RustyClaw.Llm.Sse

open Glyph Utf8
open Json hiding str
open RustyClaw.Streaming (StreamEvent)

/-! ## The format -/

/-- The value of a line when its field is `data`. -/
def dataOf (line : List Char) : Option (List Char) :=
  if line = str "data" then some []
  else (line.dropPrefix? (str "data:")).map fun value => (value.dropPrefix? (str " ")).getD value

abbrev Event := StreamEvent Char ToolCallEvent

/-- `serde_json::from_str`. -/
def fromStr (env : Environment) (data : List Char) : Option (Json Char) :=
  ((parse data).bind (readValue env.number)).map Value.json

def finished : List Char := str "[DONE]"

/-- The value that a chat completion takes from a data block. -/
def deltaOf (env : Environment) (data : List Char) : Option (Json Char) :=
  if data = finished then none else fromStr env data

/-- A part of a value that a program holds. -/
def held (json : Json Char) : Value Char := ⟨normalize json, normal_normalize json⟩

def parseFunctionCallBasic (part : Json Char) : Option (Context.FunctionCall Char) := do
  let funcCall ← get "functionCall".toList part
  let name ← (get "name".toList funcCall).bind asStr
  let args ← get "args".toList funcCall
  return ⟨name, held args, (get "id".toList funcCall).bind asStr⟩

def captureThoughtSignature (part : Json Char) : Option (List Char) :=
  ((get "thoughtSignature".toList part).or (get "thought_signature".toList part)).bind asStr

def firstCandidate (json : Json Char) : Option (Json Char) :=
  ((get "candidates".toList json).bind asArr).bind List.head?

def thoughtEvents (candidate : Json Char) : List Event :=
  ((nonemptyText ((get "thought".toList candidate).bind asStr)).map StreamEvent.thought).toList ++
    ((nonemptyText ((get "thinking".toList candidate).bind asStr)).map StreamEvent.thought).toList

def partEvents (candidateSignature : Option (List Char)) (part : Json Char) : List Event :=
  let isThought := ((get "thought".toList part).bind asBool).getD false
  let text := (get "text".toList part).bind asStr
  (((get "thought".toList part).bind asStr).map StreamEvent.thought).toList ++
    (text.map (if isThought then StreamEvent.thought else StreamEvent.text)).toList ++
    ((parseFunctionCallBasic part).map fun funcCall =>
      StreamEvent.toolCall
        (funcCall, (captureThoughtSignature part).or candidateSignature)).toList

/-- `emit_sse_data_block`: the events that are sent, and whether the stream is at its end. -/
def emitSseDataBlock (env : Environment) (data : List Char) : List Event × Bool :=
  if data = finished then ([.done], true)
  else
    match fromStr env data with
    | some json =>
      let candidate := firstCandidate json
      let parts := ((candidate.bind (get "content".toList)).bind (get "parts".toList)).bind asArr
      (((candidate.map thoughtEvents).getD []) ++
        (parts.getD []).flatMap (partEvents (candidate.bind captureThoughtSignature)), false)
    | none => ([], false)

/-! ## The clients -/

/-- The text behind `data: ` of a line or a block. -/
def dataText (line : List Char) : Option (List Char) := (trim line).dropPrefix? (str "data: ")

/-- The tool calls and what has been sent. -/
structure Completion where
  tools : ToolState
  sent : List Event

def Completion.process (s : Completion) (json : Json Char) : Completion where
  tools := (processDeltaJson s.tools json).2
  sent := s.sent ++ (processDeltaJson s.tools json).1

def Completion.handleLine (env : Environment) (s : Completion) (line : List Char) : Completion :=
  match (dataText line).bind (deltaOf env) with
  | some json => s.process json
  | none => s

/-- The stream of the client for chat completions. -/
def completionSent (env : Environment) (chunks : List (List UInt8)) : List Event :=
  let (s, buffer) := (chunks.map lossy).foldl
    (Cutting.feed (Cutting.cutAt ['\n']) (Completion.handleLine env)) (⟨.new, []⟩, [])
  let s := if trim buffer = [] then s else s.handleLine env buffer
  s.sent ++ finish env s.tools

/-- What has been sent, and whether the stream is at its end. -/
structure Generation where
  sent : List Event
  ended : Bool

def Generation.emit (env : Environment) (s : Generation) (data : List Char) : Generation :=
  if s.ended then s
  else ⟨s.sent ++ (emitSseDataBlock env data).1, (emitSseDataBlock env data).2⟩

def Generation.handleBlock (env : Environment) (s : Generation) (block : List Char) : Generation :=
  match dataText block with
  | some data => s.emit env data
  | none => s

/-- A block is cut at `\r\n\r\n`, or else at `\n\n`. -/
def cutBlock (buffer : List Char) : Option (List Char × List Char) :=
  ((Text.find (str "\r\n\r\n") buffer).or (Text.find (str "\n\n") buffer)).map fun i =>
    let sepLen := if (buffer.drop i).take 4 = str "\r\n\r\n" then 4 else 2
    (buffer.take i, buffer.drop (i + sepLen))

/-- The stream of the client for Gemini. -/
def generationSent (env : Environment) (chunks : List (List UInt8)) : List Event :=
  let (s, _) := (chunks.map lossy).foldl
    (Cutting.feed cutBlock (Generation.handleBlock env)) (⟨[], false⟩, [])
  if s.ended then s.sent else s.sent ++ [.done]

inductive Client where
  | openAiCompat
  | gemini
  deriving DecidableEq

def sent (env : Environment) (chunks : List (List UInt8)) : Client → List Event
  | .openAiCompat => completionSent env chunks
  | .gemini => generationSent env chunks

/-- A data line has a space behind `data:` and no white space around it; no other line is one when
white space around it is taken away. -/
structure Plain (line : List Char) : Prop where
  data : ∀ data, dataOf line = some data → line = str "data: " ++ data ∧ trim line = line
  other : dataOf line = none → dataText line = none

section Lines

variable {line : List Char}

end Lines

/-! ## The blocks of lines -/

section ByLines

variable {env : Environment} {s : List Char}

end ByLines

end RustyClaw.Llm.Sse
