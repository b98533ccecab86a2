import RustyClaw.Library.JsonValue
import RustyClaw.Tools.Envelope

/-!
# Messages and turns

The data model of the dialogue (`context/model.rs`) with its JSON form.  The arguments of a call
and the response to it are JSON values in memory; a turn is written with its fields in the order
in which they are declared.

`Turn.fromJsonStr_toJsonString` is the round trip: a turn is read back as it was written when it
does not nest deeper than the parser goes, and its numbers are read back as they were written.
-/

namespace RustyClaw.Context

open Glyph Json

variable {χ : Type} [Glyph χ]

/-! ## The data -/

structure FunctionCall (χ : Type) [Glyph χ] where
  name : List χ
  args : Value χ
  id : Option (List χ) := none

structure FileData (χ : Type) where
  mimeType : List χ
  fileUri : List χ

structure FunctionResponse (χ : Type) [Glyph χ] where
  name : List χ
  response : Value χ
  id : Option (List χ) := none

structure Part (χ : Type) [Glyph χ] where
  text : Option (List χ) := none
  functionCall : Option (FunctionCall χ) := none
  functionResponse : Option (FunctionResponse χ) := none
  thoughtSignature : Option (List χ) := none
  fileData : Option (FileData χ) := none

structure Message (χ : Type) [Glyph χ] where
  role : List χ
  parts : List (Part χ)

structure Turn (χ : Type) [Glyph χ] where
  turnId : List χ
  userMessage : List χ
  messages : List (Message χ)

/-! ## Writing -/

def FunctionCall.fields (call : FunctionCall χ) : List (String × Json χ) :=
  [("name", .str call.name), ("args", call.args.json)] ++ skipNone "id" .str call.id

def FileData.fields (data : FileData χ) : List (String × Json χ) :=
  [("mime_type", .str data.mimeType), ("file_uri", .str data.fileUri)]

def FunctionResponse.fields (response : FunctionResponse χ) : List (String × Json χ) :=
  [("name", .str response.name), ("response", response.response.json)] ++
    skipNone "id" .str response.id

def Part.fields (part : Part χ) : List (String × Json χ) :=
  skipNone "text" .str part.text ++
  skipNone "functionCall" (fun call => objOf call.fields) part.functionCall ++
  skipNone "functionResponse" (fun response => objOf response.fields) part.functionResponse ++
  skipNone "thoughtSignature" .str part.thoughtSignature ++
  skipNone "fileData" (fun data => objOf data.fields) part.fileData

def Part.toJson (part : Part χ) : Json χ := objOf part.fields

def Message.fields (message : Message χ) : List (String × Json χ) :=
  [("role", .str message.role), ("parts", .arr (message.parts.map Part.toJson))]

def Message.toJson (message : Message χ) : Json χ := objOf message.fields

def Turn.fields (turn : Turn χ) : List (String × Json χ) :=
  [("turn_id", .str turn.turnId), ("user_message", .str turn.userMessage),
    ("messages", .arr (turn.messages.map Message.toJson))]

def Turn.toJson (turn : Turn χ) : Json χ := objOf turn.fields

/-- `serde_json::to_string`. -/
def Turn.toJsonString (turn : Turn χ) : List χ := render turn.toJson

/-! ## Reading -/

section Reading

variable (number : NumLit χ → Option (NumLit χ))

/-- A field under either of two names. -/
def aliasField (field : Lookup χ) (key key' : String) : Option (Option (Json χ)) :=
  match field key, field key' with
  | some value, some none => some value
  | some none, some value => some value
  | _, _ => none

def readFunctionCall : Json χ → Option (FunctionCall χ) :=
  readRecord ["name", "args", "id"] fun field => do
    let name ← requireField field "name" asStr
    let args ← requireField field "args" (readValue number)
    let id ← readField field "id" none (readOption asStr)
    return { name, args, id }

def readFileData : Json χ → Option (FileData χ) :=
  readRecord ["mime_type", "file_uri"] fun field => do
    let mimeType ← requireField field "mime_type" asStr
    let fileUri ← requireField field "file_uri" asStr
    return { mimeType, fileUri }

def readFunctionResponse : Json χ → Option (FunctionResponse χ) :=
  readRecord ["name", "response", "id"] fun field => do
    let name ← requireField field "name" asStr
    let response ← requireField field "response" (readValue number)
    let id ← readField (fun key => aliasField field key "tool_call_id") "id" none (readOption asStr)
    return { name, response, id }

def readPart : Json χ → Option (Part χ) :=
  readRecord ["text", "functionCall", "functionResponse", "thoughtSignature", "fileData"]
    fun field => do
      let text ← readField field "text" none (readOption asStr)
      let functionCall ← readField field "functionCall" none (readOption (readFunctionCall number))
      let functionResponse ←
        readField field "functionResponse" none (readOption (readFunctionResponse number))
      let thoughtSignature ← readField field "thoughtSignature" none (readOption asStr)
      let fileData ← readField field "fileData" none (readOption readFileData)
      return { text, functionCall, functionResponse, thoughtSignature, fileData }

def readMessage : Json χ → Option (Message χ) :=
  readRecord ["role", "parts"] fun field => do
    let role ← requireField field "role" asStr
    let parts ← requireField field "parts" (readList (readPart number))
    return { role, parts }

def readTurn : Json χ → Option (Turn χ) :=
  readRecord ["turn_id", "user_message", "messages"] fun field => do
    let turnId ← requireField field "turn_id" asStr
    let userMessage ← requireField field "user_message" asStr
    let messages ← requireField field "messages" (readList (readMessage number))
    return { turnId, userMessage, messages }

/-- `serde_json::from_str`. -/
def Turn.fromJsonStr (input : List χ) : Option (Turn χ) := (parse input).bind (readTurn number)

end Reading

/-! ## The round trip -/

section RoundTrip

variable {number : NumLit χ → Option (NumLit χ)}

/-- The numbers in the values of the turn are read back as they are written. -/
def Part.KeepsNumbers (number : NumLit χ → Option (NumLit χ)) (part : Part χ) : Prop :=
  (∀ call ∈ part.functionCall, Json.KeepsNumbers number call.args.json) ∧
    ∀ response ∈ part.functionResponse, Json.KeepsNumbers number response.response.json

/-- The turn can be read back from its line. -/
structure Turn.Storable (number : NumLit χ → Option (NumLit χ)) (turn : Turn χ) : Prop where
  depth : depth turn.toJson ≤ recursionLimit
  numbers : ∀ message ∈ turn.messages, ∀ part ∈ message.parts, part.KeepsNumbers number

lemma FunctionCall.nodup_fields (call : FunctionCall χ) : (call.fields.map Prod.fst).Nodup := by
  rw [fields, List.map_append]
  exact List.Nodup.sublist ((map_fst_skipNone "id" .str call.id).append_left _) (by simp)

lemma FunctionResponse.nodup_fields (response : FunctionResponse χ) :
    (response.fields.map Prod.fst).Nodup := by
  rw [fields, List.map_append]
  exact List.Nodup.sublist ((map_fst_skipNone "id" .str response.id).append_left _) (by simp)

lemma Part.nodup_fields (part : Part χ) : (part.fields.map Prod.fst).Nodup := by
  simp only [fields, List.map_append]
  refine List.Nodup.sublist (((((map_fst_skipNone _ _ _).append (map_fst_skipNone _ _ _)).append
    (map_fst_skipNone _ _ _)).append (map_fst_skipNone _ _ _)).append (map_fst_skipNone _ _ _)) ?_
  decide

lemma readFunctionCall_objOf {call : FunctionCall χ}
    (h : Json.KeepsNumbers number call.args.json) :
    readFunctionCall number (objOf call.fields) = some call := by
  rw [readFunctionCall, readRecord_objOf call.nodup_fields]
  have hid : call.fields.lookup "id" = call.id.map .str := by
    simp [FunctionCall.fields, lookup_skipNone, List.lookup_cons]
  rw [readField_str (congrArg some hid)]
  simp [requireField, FunctionCall.fields, List.lookup_cons, asStr, readValue_json _ h]

lemma readFileData_objOf (data : FileData χ) : readFileData (objOf data.fields) = some data := by
  rw [readFileData, readRecord_objOf (by simp [FileData.fields])]
  simp [requireField, FileData.fields, List.lookup_cons, asStr]

lemma readFunctionResponse_objOf {response : FunctionResponse χ}
    (h : Json.KeepsNumbers number response.response.json) :
    readFunctionResponse number (objOf response.fields) = some response := by
  rw [readFunctionResponse, readRecord_objOf response.nodup_fields]
  have hid : response.fields.lookup "id" = response.id.map .str := by
    simp [FunctionResponse.fields, lookup_skipNone, List.lookup_cons]
  have halias : response.fields.lookup "tool_call_id" = none := by
    simp [FunctionResponse.fields, lookup_skipNone, List.lookup_cons]
  have hread : readField (fun key => aliasField (fun key => some (response.fields.lookup key)) key
      "tool_call_id") "id" none (readOption asStr) = some response.id := by
    refine readField_str ?_
    simp [aliasField, hid, halias]
  rw [hread]
  simp [requireField, FunctionResponse.fields, List.lookup_cons, asStr, readValue_json _ h]

lemma readOption_objOf {α : Type} {read : Json χ → Option α} {fields : List (String × Json χ)}
    {value : α} (h : read (objOf fields) = some value) :
    readOption read (objOf fields) = some (some value) :=
  congrArg (Option.map some) h

lemma readPart_toJson {part : Part χ} (h : part.KeepsNumbers number) :
    readPart number part.toJson = some part := by
  rw [readPart, Part.toJson, readRecord_objOf part.nodup_fields]
  have htext : part.fields.lookup "text" = part.text.map .str := by
    simp [Part.fields, List.lookup_append, lookup_skipNone]
  have hcall : part.fields.lookup "functionCall" =
      part.functionCall.map fun call => objOf call.fields := by
    simp [Part.fields, List.lookup_append, lookup_skipNone]
  have hresponse : part.fields.lookup "functionResponse" =
      part.functionResponse.map fun response => objOf response.fields := by
    simp [Part.fields, List.lookup_append, lookup_skipNone]
  have hsignature : part.fields.lookup "thoughtSignature" = part.thoughtSignature.map .str := by
    simp [Part.fields, List.lookup_append, lookup_skipNone]
  have hdata : part.fields.lookup "fileData" =
      part.fileData.map fun data => objOf data.fields := by
    simp [Part.fields, List.lookup_append, lookup_skipNone]
  rw [readField_str (congrArg some htext), readField_str (congrArg some hsignature),
    readField_map (congrArg some hcall) fun call hmem =>
      readOption_objOf (readFunctionCall_objOf (h.1 call hmem)),
    readField_map (congrArg some hresponse) fun response hmem =>
      readOption_objOf (readFunctionResponse_objOf (h.2 response hmem)),
    readField_map (congrArg some hdata) fun data _ => readOption_objOf (readFileData_objOf data)]
  rfl

lemma readMessage_toJson {message : Message χ}
    (h : ∀ part ∈ message.parts, part.KeepsNumbers number) :
    readMessage number message.toJson = some message := by
  rw [readMessage, Message.toJson, readRecord_objOf (by simp [Message.fields])]
  have hparts : (message.parts.map Part.toJson).mapM (readPart number) = some message.parts :=
    mapM_map fun part hmem => readPart_toJson (h part hmem)
  simp [requireField, Message.fields, List.lookup_cons, asStr, readList, hparts]

lemma readTurn_toJson {turn : Turn χ}
    (h : ∀ message ∈ turn.messages, ∀ part ∈ message.parts, part.KeepsNumbers number) :
    readTurn number turn.toJson = some turn := by
  rw [readTurn, Turn.toJson, readRecord_objOf (by simp [Turn.fields])]
  have hmessages :
      (turn.messages.map Message.toJson).mapM (readMessage number) = some turn.messages :=
    mapM_map fun message hmem => readMessage_toJson (h message hmem)
  simp [requireField, Turn.fields, List.lookup_cons, asStr, readList, hmessages]

theorem Turn.fromJsonStr_toJsonString {turn : Turn χ} (h : turn.Storable number) :
    fromJsonStr number turn.toJsonString = some turn := by
  rw [fromJsonStr, toJsonString, parse_render _ h.depth, Option.bind_some]
  exact readTurn_toJson h.numbers

end RoundTrip

end RustyClaw.Context
