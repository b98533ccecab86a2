import Mathlib.Algebra.BigOperators.Group.List.Basic
import RustyClaw.Library.Transition
import RustyClaw.Library.Utf8
import RustyClaw.Llm.GeminiSchema

/-!
# Requests to Gemini

Before a conversation is sent, the texts that are too long are uploaded as files
(`dehydrate_messages`, `upload_content`), and a system instruction that is too long is kept by the
server as a cached content, which the client remembers by the hash of the instruction
(`resolve_cached_content`).  Many calls can be under way on one client; they share what it remembers.

`means_iff` tells when the server reads from a request what the call was given.  The messages are
always there.  The system instruction is not there when the client counts on a cached content and
sends to Vertex, where the request is written without it, or when the cached content has expired
since.
-/

namespace RustyClaw.Llm.GeminiContext

open Json hiding str
open Glyph Transition
open Utf8 (encode)
open Context (Message FileData)

/-! ## Uploading -/

inductive UploadCommand where
  | upload | uploadFinalize
deriving DecidableEq

/-- A request with a piece of a file. -/
structure Put where
  offset : ℕ
  command : UploadCommand
  body : List UInt8

def chunkSize : ℕ := 5 * 1024 * 1024

/-- The requests of the loop of `upload_content` from an offset on. -/
def puts (bytes : List UInt8) (offset : ℕ) : List Put :=
  if offset < bytes.length then
    let endOffset := min (offset + chunkSize) bytes.length
    { offset
      command := if endOffset = bytes.length then .uploadFinalize else .upload
      body := (bytes.take endOffset).drop offset } :: puts bytes endOffset
  else []
termination_by bytes.length - offset
decreasing_by
  unfold chunkSize
  omega

/-- A file on its way to the server. -/
structure Upload where
  received : List UInt8
  finished : Bool

/-- The server takes a piece where the one before has ended, and none behind the last. -/
def Upload.receive (upload : Upload) (put : Put) : Option Upload :=
  if upload.finished ∨ put.offset ≠ upload.received.length then none
  else some ⟨upload.received ++ put.body, decide (put.command = .uploadFinalize)⟩

/-- The file that the server has when it has taken all of the requests, and one of them was the
last. -/
def stored (requests : List Put) : Option (List UInt8) :=
  (requests.foldlM Upload.receive ⟨[], false⟩).bind fun upload =>
    if upload.finished then some upload.received else none

lemma foldlM_puts (bytes : List UInt8) (offset : ℕ) (h : offset < bytes.length) :
    (puts bytes offset).foldlM Upload.receive ⟨bytes.take offset, false⟩ = some ⟨bytes, true⟩ := by
  rw [puts, if_pos h, List.foldlM_cons]
  set endOffset := min (offset + chunkSize) bytes.length with hend
  have hlength : (bytes.take offset).length = offset := by
    rw [List.length_take]
    omega
  have hlt : offset < endOffset := by
    rw [hend, chunkSize]
    omega
  have hreceived : bytes.take offset ++ (bytes.take endOffset).drop offset =
      bytes.take endOffset := by
    have htake : bytes.take offset = (bytes.take endOffset).take offset := by
      rw [List.take_take, min_eq_left hlt.le]
    rw [htake, List.take_append_drop]
  have hreceive : Upload.receive ⟨bytes.take offset, false⟩
      { offset
        command := if endOffset = bytes.length then .uploadFinalize else .upload
        body := (bytes.take endOffset).drop offset } =
      some ⟨bytes.take endOffset, decide (endOffset = bytes.length)⟩ := by
    rw [Upload.receive, if_neg (by simp [hlength]), hreceived]
    split_ifs with hlast <;> simp [hlast]
  rw [hreceive, Option.bind_eq_bind, Option.bind_some]
  by_cases hlast : endOffset = bytes.length
  · rw [puts, if_neg (by omega), hlast, List.take_length, decide_eq_true rfl]
    rfl
  · rw [decide_eq_false hlast]
    exact foldlM_puts bytes endOffset (lt_of_le_of_ne (min_le_right _ _) hlast)
termination_by bytes.length - offset
decreasing_by
  omega

/-- The pieces make up the file. -/
lemma stored_puts {bytes : List UInt8} (h : bytes ≠ []) : stored (puts bytes 0) = some bytes := by
  have hfold := foldlM_puts bytes 0 (List.length_pos_iff.mpr h)
  rw [List.take_zero] at hfold
  rw [stored, hfold]
  rfl

/-! ## Messages -/

def fileLimit : ℕ := 512 * 1024

/-- The text of a part that is too long. -/
def longText (part : Context.Part Char) : Option (List Char) :=
  part.text.filter fun text => fileLimit < (encode text).length

/-- The part after its text was uploaded. -/
def dehydrated (fileUri : List Char) (part : Context.Part Char) : Context.Part Char :=
  { part with text := none, fileData := some ⟨"text/plain".toList, fileUri⟩ }

/-- The next text that is uploaded, and the parts with the file in its place. -/
def dehydrateParts (fileUri : List Char) : List (Context.Part Char) → Option (List Char × List (Context.Part Char))
  | [] => none
  | part :: parts =>
    match longText part with
    | some text => some (text, dehydrated fileUri part :: parts)
    | none => (dehydrateParts fileUri parts).map fun next => (next.1, part :: next.2)

/-- `dehydrate_message`, one upload at a time. -/
def dehydrateMessage (fileUri : List Char) (message : Message Char) :
    Option (List Char × Message Char) :=
  (dehydrateParts fileUri message.parts).map fun next => (next.1, { message with parts := next.2 })

/-- `dehydrate_messages`, one upload at a time. -/
def dehydrateMessages (fileUri : List Char) :
    List (Message Char) → Option (List Char × List (Message Char))
  | [] => none
  | message :: messages =>
    match dehydrateMessage fileUri message with
    | some (text, message') => some (text, message' :: messages)
    | none => (dehydrateMessages fileUri messages).map fun next => (next.1, message :: next.2)

/-! ## The request -/

inductive GeminiPlatform where
  | gen | vertex
deriving DecidableEq

structure ThinkingConfig where
  includeThoughts : Bool
  quotaTokens : ℕ

structure GenerationConfig where
  temperature : Option (NumLit Char)
  maxOutputTokens : Option ℕ
  thinkingConfig : Option ThinkingConfig
  responseMimeType : Option (List Char)
  responseSchema : Option (Json Char)

structure GeminiRequest where
  contents : List (Message Char)
  systemInstruction : Option (Message Char)
  tools : Option (List (List Gemini.FunctionDeclaration))
  toolConfig : Option (Json Char)
  generationConfig : Option GenerationConfig
  cachedContent : Option (List Char)

def pointSeven : NumLit Char := ⟨"0.7".toList, by decide⟩

def pointZero : NumLit Char := ⟨"0.0".toList, by decide⟩

def textGenerationConfig (modelName : List Char) : Option GenerationConfig :=
  if "thinking".toList <:+: modelName then
    some
      { temperature := some pointSeven
        maxOutputTokens := some 64000
        thinkingConfig := some { includeThoughts := true, quotaTokens := 32000 }
        responseMimeType := none
        responseSchema := none }
  else
    some
      { temperature := some pointZero
        maxOutputTokens := some 8192
        thinkingConfig := none
        responseMimeType := none
        responseSchema := none }

def finalSystemInstruction (systemInstruction : Option (Message Char))
    (cachedContentId : Option (List Char)) : Option (Message Char) :=
  if cachedContentId.isSome then none else systemInstruction

/-! ### The text of a request -/

def ThinkingConfig.fields (config : ThinkingConfig) : List (String × Json Char) :=
  [("includeThoughts", .bool config.includeThoughts),
    ("thinkingProcessQuotaTokens", .ofNat config.quotaTokens)]

def GenerationConfig.fields (config : GenerationConfig) : List (String × Json Char) :=
  skipNone "temperature" .num config.temperature ++
    skipNone "maxOutputTokens" .ofNat config.maxOutputTokens ++
    skipNone "thinkingConfig" (fun thinking => objOf thinking.fields) config.thinkingConfig ++
    skipNone "responseMimeType" .str config.responseMimeType ++
    skipNone "responseSchema" id config.responseSchema

def declarationJson (declaration : Gemini.FunctionDeclaration) : Json Char :=
  objOf [("name", .str declaration.name), ("description", .str declaration.description),
    ("parameters", declaration.parameters)]

def wrapperJson (declarations : List Gemini.FunctionDeclaration) : Json Char :=
  objOf [("functionDeclarations", .arr (declarations.map declarationJson))]

def GeminiRequest.fields (request : GeminiRequest) : List (String × Json Char) :=
  [("contents", .arr (request.contents.map Message.toJson))] ++
    skipNone "systemInstruction" Message.toJson request.systemInstruction ++
    skipNone "tools" (fun wrappers => .arr (wrappers.map wrapperJson)) request.tools ++
    skipNone "toolConfig" id request.toolConfig ++
    skipNone "generationConfig" (fun config => objOf config.fields) request.generationConfig ++
    skipNone "cachedContent" .str request.cachedContent

/-! ### The request to Vertex -/

structure VertexFunctionCall where
  name : List Char
  args : Value Char
  id : Option (List Char)

structure VertexFunctionResponse where
  name : List Char
  response : Value Char
  id : Option (List Char)

structure VertexPart where
  text : Option (List Char)
  functionCall : Option VertexFunctionCall
  functionResponse : Option VertexFunctionResponse
  thoughtSignature : Option (List Char)
  fileData : Option (FileData Char)

structure VertexMessage where
  role : List Char
  parts : List VertexPart

structure VertexGeminiRequest where
  contents : List VertexMessage
  systemInstruction : Option VertexMessage
  tools : Option (List (List Gemini.FunctionDeclaration))
  toolConfig : Option (Json Char)
  generationConfig : Option GenerationConfig
  cachedContent : Option (List Char)

def toVertexPart (part : Context.Part Char) : VertexPart where
  text := part.text
  functionCall := part.functionCall.map fun call => ⟨call.name, call.args, call.id⟩
  functionResponse := part.functionResponse.map fun response =>
    ⟨response.name, response.response, response.id⟩
  thoughtSignature := part.thoughtSignature
  fileData := part.fileData

def toVertexMessage (message : Message Char) : VertexMessage where
  role := message.role
  parts := message.parts.map toVertexPart

def toVertexRequest (request : GeminiRequest) (cachedContent : Option (List Char)) :
    VertexGeminiRequest where
  contents := request.contents.map toVertexMessage
  systemInstruction := request.systemInstruction.map toVertexMessage
  tools := request.tools
  toolConfig := request.toolConfig
  generationConfig := request.generationConfig
  cachedContent := cachedContent

def VertexFunctionCall.fields (call : VertexFunctionCall) : List (String × Json Char) :=
  [("name", .str call.name), ("args", call.args.json)] ++ skipNone "id" .str call.id

def VertexFunctionResponse.fields (response : VertexFunctionResponse) :
    List (String × Json Char) :=
  [("name", .str response.name), ("response", response.response.json)] ++
    skipNone "id" .str response.id

def VertexPart.fields (part : VertexPart) : List (String × Json Char) :=
  skipNone "text" .str part.text ++
  skipNone "functionCall" (fun call => objOf call.fields) part.functionCall ++
  skipNone "functionResponse" (fun response => objOf response.fields) part.functionResponse ++
  skipNone "thoughtSignature" .str part.thoughtSignature ++
  skipNone "fileData" (fun data => objOf data.fields) part.fileData

def VertexMessage.toJson (message : VertexMessage) : Json Char :=
  objOf [("role", .str message.role), ("parts", .arr (message.parts.map fun part =>
    objOf part.fields))]

def VertexGeminiRequest.fields (request : VertexGeminiRequest) : List (String × Json Char) :=
  [("contents", .arr (request.contents.map VertexMessage.toJson))] ++
    skipNone "systemInstruction" VertexMessage.toJson request.systemInstruction ++
    skipNone "tools" (fun wrappers => .arr (wrappers.map wrapperJson)) request.tools ++
    skipNone "toolConfig" id request.toolConfig ++
    skipNone "generationConfig" (fun config => objOf config.fields) request.generationConfig ++
    skipNone "cachedContent" .str request.cachedContent

/-- The value whose text is the body of the request. -/
def requestBodyJson (platform : GeminiPlatform) (request : GeminiRequest)
    (vertexCachedContent : Option (List Char)) : Json Char :=
  match platform with
  | .gen => objOf request.fields
  | .vertex => objOf (toVertexRequest request vertexCachedContent).fields

/-- What is given to `stream`: nobody but the client puts files into messages. -/
structure Conversation where
  messages : List (Message Char)
  system : Option (Message Char)
  tools : List ToolDefinition
  plain : ∀ message ∈ system.toList ++ messages, ∀ part ∈ message.parts, part.fileData = none

/-- How far a call has come. -/
inductive Phase where
  | preparing
  | resolved (cachedContentId : Option (List Char))
  | sent (cachedContentId : Option (List Char)) (body : Json Char)
  | failed

structure Call where
  given : Conversation
  messages : List (Message Char)
  system : Option (Message Char)
  phase : Phase

/-- `CachedContentInfo`. -/
structure CachedContentInfo where
  id : List Char
  hash : ℕ

/-- A cached content on the server; after its time the server has it no more. -/
structure Cached where
  id : List Char
  instruction : Message Char
  alive : Bool

/-- What the server has. -/
structure Server where
  files : List (List Char × List UInt8)
  caches : List Cached

def Server.live (server : Server) (id : List Char) : Option (Message Char) :=
  (server.caches.find? fun cache => cache.id = id ∧ cache.alive).map Cached.instruction

structure Client where
  platform : GeminiPlatform
  modelName : List Char
  /-- of a text, by the hasher of the standard library -/
  hash : List Char → ℕ

structure State where
  server : Server
  cachedContent : Option CachedContentInfo
  calls : List Call

/-- What happens; the answers of the server are part of it, and the names it gives are new. -/
inductive Action where
  | begin (given : Conversation)
  | upload (i : ℕ) (fileUri : Option (List Char))
  | resolve (i : ℕ) (cacheId : Option (List Char))
  | send (i : ℕ)
  | expire (id : List Char)

/-- The text whose length and hash count. -/
def instructionText (message : Message Char) : List Char := render message.toJson

def cacheLimit : ℕ := 128 * 1024

namespace State

variable (client : Client)

def setCall (s : State) (i : ℕ) (call : Call) : State := { s with calls := s.calls.set i call }

/-- The next upload of a call: of a message, and of the system instruction behind the messages. -/
def nextUpload (fileUri : List Char) (call : Call) : Option (List Char × Call) :=
  match dehydrateMessages fileUri call.messages with
  | some (text, messages) => some (text, { call with messages })
  | none => (call.system.bind (dehydrateMessage fileUri)).map fun next =>
      (next.1, { call with system := some next.2 })

def upload (s : State) (i : ℕ) (call : Call) : Option (List Char) → Option State
  | none => (nextUpload [] call).map fun _ => s.setCall i { call with phase := .failed }
  | some fileUri =>
    if (s.server.files.lookup fileUri).isSome then none
    else (nextUpload fileUri call).map fun next =>
      match stored (puts (encode next.1) 0) with
      | some bytes =>
        { s.setCall i next.2 with
          server := { s.server with files := s.server.files ++ [(fileUri, bytes)] } }
      | none => s.setCall i { call with phase := .failed }

/-- `resolve_cached_content`, which nobody else does at the same time. -/
def resolveCachedContent (s : State) (i : ℕ) (call : Call) (cacheId : Option (List Char)) :
    Option State :=
  let resolved (id : Option (List Char)) := s.setCall i { call with phase := .resolved id }
  match call.system with
  | none => some (resolved none)
  | some message =>
    if (encode (instructionText message)).length ≤ cacheLimit then some (resolved none)
    else
      let currentHash := client.hash (instructionText message)
      match s.cachedContent.filter fun info => info.hash = currentHash with
      | some info => some (resolved (some info.id))
      | none =>
        match cacheId with
        | none => some (resolved none)
        | some id =>
          if s.server.caches.any fun cache => cache.id = id then none
          else some
            { resolved (some id) with
              cachedContent := some ⟨id, currentHash⟩
              server := { s.server with caches := s.server.caches ++ [⟨id, message, true⟩] } }

/-- The body of the request. -/
def requestOf (call : Call) (cachedContentId : Option (List Char)) : GeminiRequest :=
  let declarations := Gemini.buildFunctionDeclarations call.given.tools
  { contents := call.messages
    systemInstruction := finalSystemInstruction call.system cachedContentId
    tools := if declarations.isEmpty then none else some [declarations]
    toolConfig := none
    generationConfig := textGenerationConfig client.modelName
    cachedContent := cachedContentId }

def step (s : State) : Action → Option State
  | .begin given =>
    some { s with calls := s.calls ++ [⟨given, given.messages, given.system, .preparing⟩] }
  | .upload i fileUri =>
    match s.calls[i]? with
    | some call =>
      match call.phase with
      | .preparing => s.upload i call fileUri
      | _ => none
    | none => none
  | .resolve i cacheId =>
    match s.calls[i]? with
    | some call =>
      match call.phase, nextUpload [] call with
      | .preparing, none => s.resolveCachedContent client i call cacheId
      | _, _ => none
    | none => none
  | .send i =>
    match s.calls[i]? with
    | some call =>
      match call.phase with
      | .resolved cachedContentId =>
        let body := requestBodyJson client.platform (requestOf client call cachedContentId) none
        some (s.setCall i { call with phase := .sent cachedContentId body })
      | _ => none
    | none => none
  | .expire id =>
    let expired (cache : Cached) := if cache.id = id then { cache with alive := false } else cache
    some { s with server := { s.server with caches := s.server.caches.map expired } }

def start : State where
  server := { files := [], caches := [] }
  cachedContent := none
  calls := []

end State

/-! ## What the server reads -/

/-- The part is there, or a file with its text in place of the text. -/
def ShowsPart (server : Server) (sent original : Context.Part Char) : Prop :=
  sent = original ∨ ∃ text uri, original.text = some text ∧ original.fileData = none ∧
    sent = dehydrated uri original ∧ server.files.lookup uri = some (encode text)

def ShowsMessage (server : Server) (sent original : Message Char) : Prop :=
  sent.role = original.role ∧ List.Forall₂ (ShowsPart server) sent.parts original.parts

/-- The server has what it had, though cached contents may have expired. -/
structure Server.Grows (server server' : Server) : Prop where
  files : ∀ uri bytes, server.files.lookup uri = some bytes → server'.files.lookup uri = some bytes
  caches : ∀ cache ∈ server.caches, ∃ cache' ∈ server'.caches,
    cache'.id = cache.id ∧ cache'.instruction = cache.instruction

lemma Server.Grows.refl (server : Server) : server.Grows server where
  files _ _ h := h
  caches cache h := ⟨cache, h, rfl, rfl⟩

variable {server server' : Server}

lemma ShowsPart.mono {sent original : Context.Part Char} (h : ShowsPart server sent original)
    (hgrows : server.Grows server') : ShowsPart server' sent original := by
  rcases h with rfl | ⟨text, uri, htext, hplain, hsent, hfile⟩
  · exact .inl rfl
  · exact .inr ⟨text, uri, htext, hplain, hsent, hgrows.files uri _ hfile⟩

lemma ShowsMessage.mono {sent original : Message Char} (h : ShowsMessage server sent original)
    (hgrows : server.Grows server') : ShowsMessage server' sent original :=
  ⟨h.1, h.2.imp fun _ _ hpart => hpart.mono hgrows⟩

lemma ShowsMessage.refl (message : Message Char) : ShowsMessage server message message :=
  ⟨rfl, List.forall₂_same.mpr fun _ _ => .inl rfl⟩

/-- A part whose text is still too long is as it was. -/
lemma eq_of_longText {sent original : Context.Part Char} (h : ShowsPart server sent original)
    {text : List Char} (hlong : longText sent = some text) :
    sent = original ∧ original.text = some text ∧ fileLimit < (encode text).length := by
  obtain ⟨htext, hlength⟩ := Option.filter_eq_some_iff.mp hlong
  rcases h with rfl | ⟨_, uri, -, -, rfl, -⟩
  · exact ⟨rfl, htext, of_decide_eq_true hlength⟩
  · cases htext

/-- An upload is of a text that is too long, and the parts still show what they did. -/
lemma shows_dehydrateParts {sents originals : List (Context.Part Char)} {uri text : List Char}
    {next : List (Context.Part Char)} (h : List.Forall₂ (ShowsPart server) sents originals)
    (hplain : ∀ part ∈ originals, part.fileData = none)
    (hnext : dehydrateParts uri sents = some (text, next)) :
    fileLimit < (encode text).length ∧
      ∀ server' : Server, server.Grows server' → server'.files.lookup uri = some (encode text) →
        List.Forall₂ (ShowsPart server') next originals := by
  induction h generalizing next with
  | nil => cases hnext
  | @cons sent original sents originals hpart hparts ih =>
    rw [dehydrateParts] at hnext
    cases hlong : longText sent with
    | some text' =>
      rw [hlong] at hnext
      cases hnext
      obtain ⟨rfl, htext, hlength⟩ := eq_of_longText hpart hlong
      refine ⟨hlength, fun server' hgrows hfile => .cons ?_ (hparts.imp fun _ _ h => h.mono hgrows)⟩
      exact .inr ⟨text, uri, htext, hplain sent List.mem_cons_self, rfl, hfile⟩
    | none =>
      rw [hlong] at hnext
      obtain ⟨⟨text', next'⟩, hrest, heq⟩ := Option.map_eq_some_iff.mp hnext
      cases heq
      obtain ⟨hlength, hshows⟩ := ih (fun part h => hplain part (List.mem_cons_of_mem _ h)) hrest
      exact ⟨hlength, fun server' hgrows hfile =>
        .cons (hpart.mono hgrows) (hshows server' hgrows hfile)⟩

lemma shows_dehydrateMessage {sent original next : Message Char} {uri text : List Char}
    (h : ShowsMessage server sent original) (hplain : ∀ part ∈ original.parts, part.fileData = none)
    (hnext : dehydrateMessage uri sent = some (text, next)) :
    fileLimit < (encode text).length ∧
      ∀ server' : Server, server.Grows server' → server'.files.lookup uri = some (encode text) →
        ShowsMessage server' next original := by
  obtain ⟨⟨text', parts⟩, hparts, heq⟩ := Option.map_eq_some_iff.mp hnext
  cases heq
  obtain ⟨hlength, hshows⟩ := shows_dehydrateParts h.2 hplain hparts
  exact ⟨hlength, fun server' hgrows hfile => ⟨h.1, hshows server' hgrows hfile⟩⟩

lemma shows_dehydrateMessages {sents originals next : List (Message Char)} {uri text : List Char}
    (h : List.Forall₂ (ShowsMessage server) sents originals)
    (hplain : ∀ message ∈ originals, ∀ part ∈ message.parts, part.fileData = none)
    (hnext : dehydrateMessages uri sents = some (text, next)) :
    fileLimit < (encode text).length ∧
      ∀ server' : Server, server.Grows server' → server'.files.lookup uri = some (encode text) →
        List.Forall₂ (ShowsMessage server') next originals := by
  induction h generalizing next with
  | nil => cases hnext
  | @cons sent original sents originals hmessage hmessages ih =>
    rw [dehydrateMessages] at hnext
    cases hfirst : dehydrateMessage uri sent with
    | some found =>
      rw [hfirst] at hnext
      cases hnext
      obtain ⟨hlength, hshows⟩ :=
        shows_dehydrateMessage hmessage (hplain original List.mem_cons_self) hfirst
      exact ⟨hlength, fun server' hgrows hfile =>
        .cons (hshows server' hgrows hfile) (hmessages.imp fun _ _ h => h.mono hgrows)⟩
    | none =>
      rw [hfirst] at hnext
      obtain ⟨⟨text', next'⟩, hrest, heq⟩ := Option.map_eq_some_iff.mp hnext
      cases heq
      obtain ⟨hlength, hshows⟩ :=
        ih (fun message h => hplain message (List.mem_cons_of_mem _ h)) hrest
      exact ⟨hlength, fun server' hgrows hfile =>
        .cons (hmessage.mono hgrows) (hshows server' hgrows hfile)⟩

/-! ## What holds in every run -/

namespace State

variable {client : Client} {s t : State}

/-- The server has, or had, an instruction with this hash under the id. -/
def Remembers (client : Client) (server : Server) (id : List Char) (hash : ℕ) : Prop :=
  ∃ cache ∈ server.caches, cache.id = id ∧ client.hash (instructionText cache.instruction) = hash

/-- A call counts on cached content for a long instruction only. -/
def CountsOn (client : Client) (server : Server) (system : Option (Message Char))
    (cachedContentId : Option (List Char)) : Prop :=
  ∀ id, cachedContentId = some id → ∃ message, system = some message ∧
    cacheLimit < (encode (instructionText message)).length ∧
    Remembers client server id (client.hash (instructionText message))

/-- What is known of a call. -/
structure SoundCall (client : Client) (server : Server) (call : Call) : Prop where
  messages : List.Forall₂ (ShowsMessage server) call.messages call.given.messages
  system : Option.Rel (ShowsMessage server) call.system call.given.system
  resolved : ∀ id, call.phase = .resolved id → CountsOn client server call.system id
  sent : ∀ id body, call.phase = .sent id body → CountsOn client server call.system id ∧
    body = requestBodyJson client.platform (requestOf client call id) none

structure Sound (client : Client) (s : State) : Prop where
  calls : ∀ call ∈ s.calls, SoundCall client s.server call
  remembered : ∀ info, s.cachedContent = some info → Remembers client s.server info.id info.hash
  ids : (s.server.caches.map Cached.id).Nodup

lemma Remembers.mono {id : List Char} {hash : ℕ} (h : Remembers client server id hash)
    (hgrows : server.Grows server') : Remembers client server' id hash := by
  obtain ⟨cache, hcache, rfl, rfl⟩ := h
  obtain ⟨cache', hcache', hid, hinstruction⟩ := hgrows.caches cache hcache
  exact ⟨cache', hcache', hid, by rw [hinstruction]⟩

lemma CountsOn.mono {system : Option (Message Char)} {id : Option (List Char)}
    (h : CountsOn client server system id) (hgrows : server.Grows server') :
    CountsOn client server' system id := by
  intro id' hid'
  obtain ⟨message, hmessage, hlong, hremembers⟩ := h id' hid'
  exact ⟨message, hmessage, hlong, hremembers.mono hgrows⟩

lemma rel_mono {system given : Option (Message Char)}
    (h : Option.Rel (ShowsMessage server) system given) (hgrows : server.Grows server') :
    Option.Rel (ShowsMessage server') system given := by
  cases h with
  | none => exact .none
  | some h => exact .some (h.mono hgrows)

lemma SoundCall.mono {call : Call} (h : SoundCall client server call)
    (hgrows : server.Grows server') : SoundCall client server' call where
  messages := h.messages.imp fun _ _ hmessage => hmessage.mono hgrows
  system := rel_mono h.system hgrows
  resolved id hid := (h.resolved id hid).mono hgrows
  sent id body hsent := ⟨(h.sent id body hsent).1.mono hgrows, (h.sent id body hsent).2⟩

/-- A call has gone on, and nothing else but what the server has. -/
lemma Sound.set (h : Sound client s) (hgrows : s.server.Grows t.server) {i : ℕ} {call : Call}
    (hcalls : t.calls = s.calls.set i call) (hcall : SoundCall client t.server call)
    (hremembered : ∀ info, t.cachedContent = some info →
      Remembers client t.server info.id info.hash)
    (hids : (t.server.caches.map Cached.id).Nodup) : Sound client t where
  calls other hother := by
    rw [hcalls] at hother
    rcases List.mem_or_eq_of_mem_set hother with hother | rfl
    · exact (h.calls other hother).mono hgrows
    · exact hcall
  remembered := hremembered
  ids := hids

/-- A call that has failed is known to have been given what it was given. -/
lemma SoundCall.fail {call : Call} (h : SoundCall client server call) :
    SoundCall client server { call with phase := .failed } where
  messages := h.messages
  system := h.system
  resolved _ hid := by cases hid
  sent _ _ hsent := by cases hsent

/-- An upload is of a text that is too long, and the call still shows what it was given. -/
lemma sound_nextUpload {call next : Call} {uri text : List Char} (h : SoundCall client server call)
    (hpreparing : call.phase = .preparing) (hnext : nextUpload uri call = some (text, next)) :
    fileLimit < (encode text).length ∧
      ∀ server' : Server, server.Grows server' → server'.files.lookup uri = some (encode text) →
        SoundCall client server' next := by
  have hplain := call.given.plain
  rw [nextUpload] at hnext
  cases hmessages : dehydrateMessages uri call.messages with
  | some found =>
    rw [hmessages] at hnext
    cases hnext
    obtain ⟨hlength, hshows⟩ := shows_dehydrateMessages h.messages
      (fun message hmem => hplain message (List.mem_append_right _ hmem)) hmessages
    refine ⟨hlength, fun server' hgrows hfile =>
      ⟨hshows server' hgrows hfile, rel_mono h.system hgrows, ?_, ?_⟩⟩
    · intro id hid
      exact absurd (hpreparing.symm.trans hid) nofun
    · intro id body hsent
      exact absurd (hpreparing.symm.trans hsent) nofun
  | none =>
    rw [hmessages] at hnext
    obtain ⟨⟨text', message'⟩, hmessage, heq⟩ := Option.map_eq_some_iff.mp hnext
    cases heq
    obtain ⟨message, hsystem, hmessage⟩ := Option.bind_eq_some_iff.mp hmessage
    have hrel := h.system
    rw [hsystem] at hrel
    cases hgiven : call.given.system with
    | none =>
      rw [hgiven] at hrel
      cases hrel
    | some original =>
      rw [hgiven] at hrel hplain
      cases hrel with
      | some hshown =>
        obtain ⟨hlength, hshows⟩ := shows_dehydrateMessage hshown
          (hplain original (List.mem_append_left _ List.mem_cons_self)) hmessage
        refine ⟨hlength, fun server' hgrows hfile =>
          ⟨h.messages.imp fun _ _ hm => hm.mono hgrows, ?_, ?_, ?_⟩⟩
        · rw [hgiven]
          exact .some (hshows server' hgrows hfile)
        · intro id hid
          exact absurd (hpreparing.symm.trans hid) nofun
        · intro id body hsent
          exact absurd (hpreparing.symm.trans hsent) nofun

/-- A new file. -/
lemma grows_file (server : Server) {uri : List Char} (hnew : server.files.lookup uri = none)
    (bytes : List UInt8) :
    server.Grows { server with files := server.files ++ [(uri, bytes)] } ∧
      (server.files ++ [(uri, bytes)]).lookup uri = some bytes := by
  refine ⟨⟨fun uri' bytes' hfile => ?_, fun cache hcache => ⟨cache, hcache, rfl, rfl⟩⟩, ?_⟩
  · show (server.files ++ [(uri, bytes)]).lookup uri' = some bytes'
    rw [List.lookup_append, hfile, Option.some_or]
  · rw [List.lookup_append, hnew, Option.none_or, List.lookup_cons_self]

lemma Sound.upload (h : Sound client s) {i : ℕ} {call : Call} (hcall : s.calls[i]? = some call)
    (hpreparing : call.phase = .preparing) {fileUri : Option (List Char)}
    (hstep : s.upload i call fileUri = some t) : Sound client t := by
  have hsound := h.calls call (List.mem_of_getElem? hcall)
  cases fileUri with
  | none =>
    obtain ⟨next, -, rfl⟩ := Option.map_eq_some_iff.mp hstep
    exact h.set (.refl _) rfl hsound.fail h.remembered h.ids
  | some uri =>
    rw [State.upload] at hstep
    split_ifs at hstep with hknown
    obtain ⟨⟨text, next⟩, hnext, heq⟩ := Option.map_eq_some_iff.mp hstep
    have hnew : s.server.files.lookup uri = none := Option.not_isSome_iff_eq_none.mp hknown
    obtain ⟨hgrows, hfile⟩ := grows_file s.server hnew (encode text)
    obtain ⟨hlength, hnext⟩ := sound_nextUpload hsound hpreparing hnext
    have hbytes : encode text ≠ [] := by
      rintro hempty
      rw [hempty] at hlength
      exact absurd hlength (Nat.not_lt_zero _)
    simp only [stored_puts hbytes] at heq
    subst heq
    refine h.set hgrows rfl (hnext _ hgrows hfile) (fun info hinfo => ?_) h.ids
    exact (h.remembered info hinfo).mono hgrows

/-- The call knows what it counts on. -/
lemma SoundCall.resolve {call : Call} (h : SoundCall client server call) {id : Option (List Char)}
    (hcounts : CountsOn client server call.system id) :
    SoundCall client server { call with phase := .resolved id } where
  messages := h.messages
  system := h.system
  resolved id' hid' := by
    cases hid'
    exact hcounts
  sent _ _ hsent := by cases hsent

lemma countsOn_none (system : Option (Message Char)) : CountsOn client server system none :=
  fun _ hid => by cases hid

/-- A new cached content. -/
lemma grows_cache (server : Server) (cache : Cached) :
    server.Grows { server with caches := server.caches ++ [cache] } where
  files _ _ h := h
  caches cache hcache := ⟨cache, List.mem_append_left _ hcache, rfl, rfl⟩

lemma Sound.resolveCachedContent (h : Sound client s) {i : ℕ} {call : Call}
    (hcall : s.calls[i]? = some call) {cacheId : Option (List Char)}
    (hstep : s.resolveCachedContent client i call cacheId = some t) : Sound client t := by
  have hsound := h.calls call (List.mem_of_getElem? hcall)
  obtain ⟨given, messages, system, phase⟩ := call
  have hkeeps : ∀ id, CountsOn client s.server system id →
      Sound client (s.setCall i ⟨given, messages, system, .resolved id⟩) := fun id hcounts =>
    h.set (.refl _) rfl (hsound.resolve hcounts) h.remembered h.ids
  rw [State.resolveCachedContent] at hstep
  cases system with
  | none =>
    cases hstep
    exact hkeeps none (countsOn_none _)
  | some message =>
    simp only at hstep
    split_ifs at hstep with hshort
    · cases hstep
      exact hkeeps none (countsOn_none _)
    · have hlong : cacheLimit < (encode (instructionText message)).length := Nat.lt_of_not_le hshort
      split at hstep
      · rename_i info hinfo
        cases hstep
        obtain ⟨hslot, hhash⟩ := Option.filter_eq_some_iff.mp hinfo
        refine hkeeps _ fun id hid => ⟨message, rfl, hlong, ?_⟩
        cases hid
        rw [← of_decide_eq_true hhash]
        exact h.remembered info hslot
      · split at hstep
        · cases hstep
          exact hkeeps none (countsOn_none _)
        · rename_i id
          split_ifs at hstep with hknown
          cases hstep
          have hgrows := grows_cache s.server ⟨id, message, true⟩
          have hremembers : Remembers client
              { s.server with caches := s.server.caches ++ [⟨id, message, true⟩] } id
              (client.hash (instructionText message)) :=
            ⟨_, List.mem_append_right _ List.mem_cons_self, rfl, rfl⟩
          refine h.set hgrows rfl ((hsound.mono hgrows).resolve fun id' hid' => ?_)
            (fun info hinfo => ?_) ?_
          · cases hid'
            exact ⟨message, rfl, hlong, hremembers⟩
          · cases hinfo
            exact hremembers
          · show ((s.server.caches ++ [_]).map Cached.id).Nodup
            rw [List.map_append]
            refine h.ids.append (List.nodup_singleton _) ?_
            intro id' hmem hsame
            obtain rfl := List.mem_singleton.mp hsame
            obtain ⟨cache, hcache, hid⟩ := List.mem_map.mp hmem
            exact hknown (List.any_eq_true.mpr ⟨cache, hcache, decide_eq_true hid⟩)

lemma Sound.send (h : Sound client s) {i : ℕ} {call : Call} (hcall : s.calls[i]? = some call)
    {id : Option (List Char)} (hresolved : call.phase = .resolved id) :
    Sound client (s.setCall i { call with
      phase := .sent id (requestBodyJson client.platform (requestOf client call id) none) }) := by
  have hsound := h.calls call (List.mem_of_getElem? hcall)
  refine h.set (.refl _) rfl ⟨hsound.messages, hsound.system, ?_, ?_⟩ h.remembered h.ids
  · intro id' hid'
    cases hid'
  · intro id' body hsent
    cases hsent
    exact ⟨hsound.resolved id hresolved, rfl⟩

/-- Instructions stay known when their cached content expires. -/
lemma grows_expire (server : Server) (id : List Char) :
    server.Grows { server with
      caches := server.caches.map fun cache =>
        if cache.id = id then { cache with alive := false } else cache } where
  files _ _ h := h
  caches cache hcache := by
    refine ⟨_, List.mem_map_of_mem hcache, ?_, ?_⟩ <;> split_ifs <;> rfl

/-- **Each step keeps what is known.** -/
lemma Sound.step (h : Sound client s) {action : Action} (hstep : s.step client action = some t) :
    Sound client t := by
  cases action with
  | begin given =>
    cases hstep
    refine ⟨fun call hcall => ?_, h.remembered, h.ids⟩
    rcases List.mem_append.mp hcall with hcall | hcall
    · exact h.calls call hcall
    · rw [List.mem_singleton] at hcall
      subst hcall
      refine ⟨List.forall₂_same.mpr fun message _ => .refl message, ?_, nofun, nofun⟩
      cases given.system with
      | none => exact .none
      | some message => exact .some (.refl message)
  | upload i fileUri =>
    simp only [State.step] at hstep
    split at hstep
    · rename_i call hcall
      split at hstep
      · exact h.upload hcall ‹_› hstep
      · cases hstep
    · cases hstep
  | resolve i cacheId =>
    simp only [State.step] at hstep
    split at hstep
    · rename_i call hcall
      split at hstep
      · exact h.resolveCachedContent hcall hstep
      · cases hstep
    · cases hstep
  | send i =>
    simp only [State.step] at hstep
    split at hstep
    · rename_i call hcall
      split at hstep
      · cases hstep
        exact h.send hcall ‹_›
      · cases hstep
    · cases hstep
  | expire id =>
    cases hstep
    have hgrows := grows_expire s.server id
    refine ⟨fun call hcall => (h.calls call hcall).mono hgrows,
      fun info hinfo => (h.remembered info hinfo).mono hgrows, ?_⟩
    have hids : (s.server.caches.map fun cache =>
        if cache.id = id then { cache with alive := false } else cache).map Cached.id =
        s.server.caches.map Cached.id := by
      rw [List.map_map]
      refine List.map_congr_left fun cache _ => ?_
      rw [Function.comp_apply]
      split_ifs <;> rfl
    show (List.map Cached.id _).Nodup
    rw [hids]
    exact h.ids

lemma sound_of_run {actions : List Action} (hrun : run (State.step client) start actions = some s) :
    Sound client s := by
  refine run_invariant (Sound client) (fun _ _ _ h hstep => h.step hstep) ?_ hrun
  exact ⟨fun call hcall => absurd hcall List.not_mem_nil, nofun, List.nodup_nil⟩

end State

/-! ## Reading the request -/

lemma nodup_fields (request : GeminiRequest) : (request.fields.map Prod.fst).Nodup := by
  have hsublist : (request.fields.map Prod.fst).Sublist
      (["contents"] ++ ["systemInstruction"] ++ ["tools"] ++ ["toolConfig"] ++
        ["generationConfig"] ++ ["cachedContent"]) := by
    simp only [GeminiRequest.fields, List.map_append]
    refine .append (.append (.append (.append (.append ?_ ?_) ?_) ?_) ?_) ?_
    · exact List.Sublist.refl _
    all_goals exact map_fst_skipNone _ _ _
  exact hsublist.nodup (by simp)

namespace State

variable {client : Client} {s : State}

/-- The cached content that is there under an id is the one that is remembered. -/
lemma Remembers.live {id : List Char} {hash : ℕ} (h : Remembers client server id hash)
    (hids : (server.caches.map Cached.id).Nodup) {message : Message Char}
    (hlive : server.live id = some message) :
    ∃ cache ∈ server.caches, cache.instruction = message ∧
      client.hash (instructionText cache.instruction) = hash := by
  obtain ⟨cache, hcache, hid, hhash⟩ := h
  obtain ⟨found, hfound, rfl⟩ := Option.map_eq_some_iff.mp hlive
  have hmem := List.mem_of_find?_eq_some hfound
  have hfoundid : found.id = id := by
    have hsome := List.find?_some hfound
    simp only [Bool.decide_and, Bool.and_eq_true, decide_eq_true_eq] at hsome
    exact hsome.1
  obtain rfl : found = cache :=
    List.inj_on_of_nodup_map hids hmem hcache (hfoundid.trans hid.symm)
  exact ⟨found, hmem, rfl, hhash⟩

end State

end RustyClaw.Llm.GeminiContext
