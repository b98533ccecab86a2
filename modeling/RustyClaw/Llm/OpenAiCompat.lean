import RustyClaw.Context.Model

/-!
# Requests in the OpenAI format

`OpenAiCompatClient::stream` (`llm_client/openai_compat.rs`) writes the history of a dialogue as the
messages of a chat completion.  A call that has no id gets a fresh one there, a response that has no
id gets the text `unknown`, and of the texts of a message only one is sent.

`Keeps` says what it is to keep a conversation: the messages of the request follow those of the
history, every call is sent with an id of its own and followed by one response with this id, and no
text is missing.  `keeps_messagesOf_iff` says for which histories a request does.
-/

namespace RustyClaw.Llm

open Json Glyph
open RustyClaw.Context (FunctionCall FunctionResponse Message)

/-! ## The history -/

def calls (message : Message Char) : List (FunctionCall Char) :=
  message.parts.filterMap Context.Part.functionCall

def responses (message : Message Char) : List (FunctionResponse Char) :=
  message.parts.filterMap Context.Part.functionResponse

def texts (message : Message Char) : List (List Char) := message.parts.filterMap Context.Part.text

def isRole (message : Message Char) (role : String) : Bool := message.role == role.toList

/-! ## The request -/

/-- The text of the first part; `parts[0]` panics when there is none. -/
def firstPartText (message : Message Char) : Option (List Char) :=
  message.parts.head?.map fun part => part.text.getD []

def systemMessage (text : List Char) : Json Char :=
  objOf [("role", .str "system".toList), ("content", .str text)]

def userMessage (text : List Char) : Json Char :=
  objOf [("role", .str "user".toList), ("content", .str text)]

/-- `uuid` is the text of the `Uuid::new_v4` that is made for the call if it has no id. -/
def callId (uuid : List Char) (call : FunctionCall Char) : List Char :=
  call.id.getD ("call_".toList ++ uuid)

def toolCall (uuid : List Char) (call : FunctionCall Char) : Json Char :=
  objOf [("id", .str (callId uuid call)), ("type", .str "function".toList),
    ("function", objOf [("name", .str call.name), ("arguments", .str (render call.args.json))])]

/-- The first text of a model message. -/
def modelText (message : Message Char) : List Char :=
  (message.parts.findSome? Context.Part.text).getD []

def toolCalls (uuid : Nat → List Char) (message : Message Char) : List (Json Char) :=
  (calls message).mapIdx fun j call => toolCall (uuid j) call

/-- What is not empty. -/
def nonempty {α : Type} (items : List α) : Option (List α) :=
  if items.isEmpty then none else some items

/-- The content and the calls are left out when they are empty. -/
def assistantFields (uuid : Nat → List Char) (message : Message Char) :
    List (String × Json Char) :=
  [("role", .str "assistant".toList)] ++ skipNone "content" .str (nonempty (modelText message)) ++
    skipNone "tool_calls" .arr (nonempty (toolCalls uuid message))

def assistantMessage (uuid : Nat → List Char) (message : Message Char) : Json Char :=
  objOf (assistantFields uuid message)

def responseId (response : FunctionResponse Char) : List Char :=
  response.id.getD "unknown".toList

def toolMessage (response : FunctionResponse Char) : Json Char :=
  objOf [("role", .str "tool".toList), ("tool_call_id", .str (responseId response)),
    ("content", .str (render response.response.json))]

/-- What is sent for a message; `none` when the conversion panics. -/
def convertMessage (uuid : Nat → List Char) (message : Message Char) : Option (List (Json Char)) :=
  if isRole message "user" then
    (firstPartText message).map fun text => [userMessage text]
  else if isRole message "model" then some [assistantMessage uuid message]
  else if isRole message "function" then some ((responses message).map toolMessage)
  else some []

/-- `uuid i j` is made for the call `j` of the message `i`. -/
def convert (uuid : Nat → Nat → List Char) : List (Message Char) → Option (List (Json Char))
  | [] => some []
  | message :: rest => do
    let sent ← convertMessage (uuid 0) message
    let sents ← convert (fun i => uuid (i + 1)) rest
    return sent ++ sents

def convertSystem : Option (Message Char) → Option (List (Json Char))
  | none => some []
  | some message => (firstPartText message).map fun text => [systemMessage text]

/-- A tool as it is offered to the model. -/
structure ToolDefinition where
  name : List Char
  description : List Char
  inputSchema : Option (Json Char)

def toolJson (tool : ToolDefinition) : Json Char :=
  objOf [("type", .str "function".toList),
    ("function", objOf [("name", .str tool.name), ("description", .str tool.description),
      ("parameters", tool.inputSchema.getD
        (objOf [("type", .str "object".toList), ("properties", .obj [])]))])]

structure Client where
  modelName : List Char
  reasoningEffort : Option (List Char)

def bodyFields (client : Client) (openaiMessages : List (Json Char))
    (tools : List ToolDefinition) : List (String × Json Char) :=
  [("model", .str client.modelName), ("messages", .arr openaiMessages), ("stream", .bool true),
    ("parallel_tool_calls", .bool true)] ++
    skipNone "reasoning_effort" .str client.reasoningEffort ++
    skipNone "tools" .arr (nonempty (tools.map toolJson))

/-- The body of the request. -/
def bodyMap (client : Client) (uuid : Nat → Nat → List Char) (messages : List (Message Char))
    (system : Option (Message Char)) (tools : List ToolDefinition) : Option (Json Char) := do
  let first ← convertSystem system
  let rest ← convert uuid messages
  return objOf (bodyFields client (first ++ rest) tools)

/-! ## Reading the request -/

def textOf (key : String) (value : Json Char) : Option (List Char) :=
  (get key.toList value).bind asStr

def itemsOf (key : String) (value : Json Char) : List (Json Char) :=
  ((get key.toList value).bind asArr).getD []

/-- The ids of the calls of an assistant message. -/
def toolCallIds (value : Json Char) : List (Option (List Char)) :=
  (itemsOf "tool_calls" value).map (textOf "id")

/-! ## What is promised -/

/-- A model message with function calls. -/
def Asks (message : Message Char) : Prop := isRole message "model" = true ∧ calls message ≠ []

/-- `P` holds of every message with function calls and the message after it. -/
def Followed (P : Message Char → Message Char → Prop) : List (Message Char) → Prop
  | [] => True
  | message :: rest => (Asks message → ∃ next, rest.head? = some next ∧ P message next) ∧
      Followed P rest

/-- A response to a call: ids need not be there, but they do not contradict each other. -/
def Answers (call : FunctionCall Char) (response : FunctionResponse Char) : Prop :=
  response.name = call.name ∧ ∀ id ∈ call.id, ∀ id' ∈ response.id, id' = id

/-- The calls of a message are answered by the next one, one to one and in order. -/
def Answered (messages : List (Message Char)) : Prop :=
  Followed (fun message next => isRole next "function" = true ∧
    List.Forall₂ Answers (calls message) (responses next)) messages

/-- Every text of a message is in the content that is sent for it. -/
def HasTexts (message : Message Char) (sent : Json Char) : Prop :=
  ∀ text ∈ texts message, text <:+: (textOf "content" sent).getD []

/-- The next messages of the request are one response to each call, in order. -/
def HasResponses (sent : Json Char) (rest : List (Json Char)) : Prop :=
  (toolCallIds sent).Nodup ∧
    (rest.take (toolCallIds sent).length).map (textOf "role") =
      (toolCallIds sent).map (fun _ => some "tool".toList) ∧
    (rest.take (toolCallIds sent).length).map (textOf "tool_call_id") = toolCallIds sent

/-- The messages of the request follow those of the history. -/
def Keeps : List (Message Char) → List (Json Char) → Prop
  | [], request => request = []
  | message :: messages, request =>
    if isRole message "user" then
      ∃ sent rest, request = sent :: rest ∧ textOf "role" sent = some "user".toList ∧
        HasTexts message sent ∧ Keeps messages rest
    else if isRole message "model" then
      ∃ sent rest, request = sent :: rest ∧ textOf "role" sent = some "assistant".toList ∧
        HasTexts message sent ∧ (toolCallIds sent).length = (calls message).length ∧
        (Asks message → HasResponses sent rest) ∧ Keeps messages rest
    else if isRole message "function" then
      ∃ sents rest, request = sents ++ rest ∧ sents.length = (responses message).length ∧
        Keeps messages rest
    else Keeps messages request

/-- The messages of the body, behind the one for the system instruction. -/
def messagesOf (system : Option (Message Char)) (body : Json Char) : List (Json Char) :=
  (itemsOf "messages" body).drop system.toList.length

/-! ## The condition -/

/-- The calls have ids, all different, and each response has the id of its call. -/
def SameIds (message next : Message Char) : Prop :=
  ((calls message).map FunctionCall.id).Nodup ∧
    List.Forall₂ (fun call response => call.id = some (responseId response)) (calls message)
      (responses next)

/-- A user message has a part, and every text of the message is in the text of the first part; every
text of a model message is in the first one. -/
def OneText (message : Message Char) : Prop :=
  (isRole message "user" = true → ∃ first, firstPartText message = some first ∧
    ∀ text ∈ texts message, text <:+: first) ∧
  (isRole message "model" = true → ∀ text ∈ texts message, text <:+: modelText message)

def Sendable (system : Option (Message Char)) (messages : List (Message Char)) : Prop :=
  (∀ message ∈ system, message.parts ≠ []) ∧ (∀ message ∈ messages, OneText message) ∧
    Followed SameIds messages

/-- The uuids are not in the history. -/
def Fresh (uuid : Nat → Nat → List Char) (messages : List (Message Char)) : Prop :=
  ∀ message ∈ messages, ∀ response ∈ responses message, ∀ i j,
    response.id ≠ some ("call_".toList ++ uuid i j)

/-! ## Reading what is written -/

section Reading

lemma get_objOf {key : String} {fields : List (String × Json Char)}
    (h : (fields.map Prod.fst).Nodup) : get key.toList (objOf fields) = fields.lookup key := by
  induction fields with
  | nil => rfl
  | cons field fields ih =>
    rw [List.map_cons, List.nodup_cons] at h
    have hcons : Json.get key.toList (objOf (field :: fields)) =
        (Json.get key.toList (objOf fields)).or (if key = field.1 then some field.2 else none) := by
      simp only [Json.get, objOf, List.map_cons, List.reverse_cons, List.find?_append,
        Option.map_or]
      refine congrArg _ ?_
      by_cases hkey : key = field.1
      · subst hkey
        simp [str_char]
      · have hne : ¬ field.1.toList = key.toList := fun h => hkey (String.ext h).symm
        simp [str_char, hkey, hne]
    rw [hcons, ih h.2, List.lookup_cons]
    by_cases hkey : key = field.1
    · have hnone : fields.lookup key = none := by
        rw [List.lookup_eq_none_iff]
        intro pair hpair
        rw [bne_iff_ne]
        intro hsame
        exact h.1 (hkey ▸ hsame ▸ List.mem_map_of_mem hpair)
      rw [hnone, Option.none_or, if_pos hkey, beq_iff_eq.mpr hkey]
    · rw [if_neg hkey, Option.or_none, beq_eq_false_iff_ne.mpr hkey]

lemma textOf_userMessage (text : List Char) :
    textOf "role" (userMessage text) = some "user".toList ∧
      textOf "content" (userMessage text) = some text := by
  have hnodup : ([("role", Json.str "user".toList), ("content", Json.str text)].map
    Prod.fst).Nodup := by simp
  rw [textOf, textOf, userMessage, get_objOf hnodup, get_objOf hnodup]
  exact ⟨rfl, rfl⟩

lemma textOf_toolMessage (response : FunctionResponse Char) :
    textOf "role" (toolMessage response) = some "tool".toList ∧
      textOf "tool_call_id" (toolMessage response) = some (responseId response) := by
  have hnodup : ([("role", Json.str "tool".toList), ("tool_call_id", .str (responseId response)),
    ("content", .str (render response.response.json))].map Prod.fst).Nodup := by simp
  rw [textOf, textOf, toolMessage, get_objOf hnodup, get_objOf hnodup]
  exact ⟨rfl, rfl⟩

lemma textOf_toolCall (uuid : List Char) (call : FunctionCall Char) :
    textOf "id" (toolCall uuid call) = some (callId uuid call) := by
  rw [textOf, toolCall, get_objOf (by simp)]
  rfl

section Assistant

variable (uuid : Nat → List Char) (message : Message Char)

lemma nodup_assistantFields : ((assistantFields uuid message).map Prod.fst).Nodup := by
  simp only [assistantFields, List.map_append]
  apply List.Nodup.sublist
  · exact ((List.Sublist.refl _).append (map_fst_skipNone _ _ _)).append (map_fst_skipNone _ _ _)
  · simp

lemma textOf_role_assistantMessage :
    textOf "role" (assistantMessage uuid message) = some "assistant".toList := by
  rw [textOf, assistantMessage, get_objOf (nodup_assistantFields uuid message)]
  simp [assistantFields, asStr]

/-- What is empty and left out counts as empty. -/
lemma getD_nonempty {α : Type} (items : List α) : (nonempty items).getD [] = items := by
  unfold nonempty
  split_ifs with h
  · exact (List.isEmpty_iff.mp h).symm
  · rfl

lemma content_assistantMessage :
    (textOf "content" (assistantMessage uuid message)).getD [] = modelText message := by
  rw [textOf, assistantMessage, get_objOf (nodup_assistantFields uuid message)]
  simp [assistantFields, List.lookup_append, lookup_skipNone, List.lookup_cons,
    Option.bind_map, Function.comp_def, asStr, getD_nonempty]

lemma itemsOf_assistantMessage :
    itemsOf "tool_calls" (assistantMessage uuid message) = toolCalls uuid message := by
  rw [itemsOf, assistantMessage, get_objOf (nodup_assistantFields uuid message)]
  simp [assistantFields, List.lookup_append, lookup_skipNone, List.lookup_cons,
    Option.bind_map, Function.comp_def, asArr, getD_nonempty]

lemma toolCallIds_assistantMessage :
    toolCallIds (assistantMessage uuid message) =
      (calls message).mapIdx fun j call => some (callId (uuid j) call) := by
  rw [toolCallIds, itemsOf_assistantMessage, toolCalls, List.mapIdx_eq_zipIdx_map,
    List.mapIdx_eq_zipIdx_map, List.map_map]
  refine List.map_congr_left fun call _ => ?_
  exact textOf_toolCall _ _

end Assistant

end Reading

/-! ## Ids -/

section Ids

variable {uuid : Nat → List Char} {cs : List (FunctionCall Char)}
  {rs : List (FunctionResponse Char)}

/-- A fresh id is not the one a response gets. -/
lemma callId_eq_iff {call : FunctionCall Char} {response : FunctionResponse Char} {u : List Char}
    (hfresh : response.id ≠ some ("call_".toList ++ u)) :
    callId u call = responseId response ↔ call.id = some (responseId response) := by
  unfold callId
  cases call.id with
  | some id => exact Option.some_inj.symm
  | none =>
    refine iff_of_false ?_ (Option.some_ne_none _).symm
    intro heq
    rw [Option.getD_none] at heq
    unfold responseId at heq
    cases hid : response.id with
    | some id =>
      rw [hid, Option.getD_some] at heq
      exact hfresh (hid.trans (congrArg some heq.symm))
    | none =>
      rw [hid, Option.getD_none] at heq
      exact absurd (List.cons.inj heq).1 (by decide)

lemma ids_eq_iff {R : FunctionCall Char → FunctionResponse Char → Prop}
    (h : List.Forall₂ R cs rs)
    (hfresh : ∀ response ∈ rs, ∀ j, response.id ≠ some ("call_".toList ++ uuid j)) :
    rs.map (fun response => some (responseId response)) =
        cs.mapIdx (fun j call => some (callId (uuid j) call)) ↔
      List.Forall₂ (fun call response => call.id = some (responseId response)) cs rs := by
  induction h generalizing uuid with
  | nil => exact iff_of_true rfl .nil
  | @cons call response cs rs _ _ ih =>
    rw [List.map_cons, List.mapIdx_cons, List.cons.injEq, List.forall₂_cons,
      ih fun response hmem j => hfresh response (List.mem_cons_of_mem _ hmem) (j + 1),
      ← callId_eq_iff (hfresh response List.mem_cons_self 0), Option.some_inj]
    exact and_congr_left fun _ => eq_comm

lemma map_id_of_forall₂
    (h : List.Forall₂ (fun call response => call.id = some (responseId response)) cs rs) :
    cs.map FunctionCall.id = rs.map fun response => some (responseId response) := by
  induction h with
  | nil => rfl
  | cons heq _ ih => rw [List.map_cons, List.map_cons, heq, ih]

/-- The responses that are sent behind a message are the ones to its calls, with an id for each
call. -/
lemma hasResponses_iff {message next : Message Char}
    {R : FunctionCall Char → FunctionResponse Char → Prop}
    (h : List.Forall₂ R (calls message) (responses next))
    (hfresh : ∀ response ∈ responses next, ∀ j, response.id ≠ some ("call_".toList ++ uuid j))
    (rest : List (Json Char)) :
    HasResponses (assistantMessage uuid message) ((responses next).map toolMessage ++ rest) ↔
      SameIds message next := by
  have hlength : (toolCallIds (assistantMessage uuid message)).length =
      ((responses next).map toolMessage).length := by
    rw [toolCallIds_assistantMessage, List.length_mapIdx, List.length_map, h.length_eq]
  have hrole : ((responses next).map toolMessage).map (textOf "role") =
      (toolCallIds (assistantMessage uuid message)).map fun _ => some "tool".toList := by
    rw [List.map_const', hlength, List.map_map, List.length_map, List.eq_replicate_iff]
    refine ⟨List.length_map _, ?_⟩
    intro role hrole
    obtain ⟨response, -, rfl⟩ := List.mem_map.mp hrole
    exact (textOf_toolMessage response).1
  have hid : ((responses next).map toolMessage).map (textOf "tool_call_id") =
      (responses next).map fun response => some (responseId response) := by
    rw [List.map_map]
    exact List.map_congr_left fun response _ => (textOf_toolMessage response).2
  rw [HasResponses, hlength, List.take_left, hid, toolCallIds_assistantMessage, SameIds]
  rw [toolCallIds_assistantMessage] at hrole
  rw [ids_eq_iff h hfresh]
  constructor
  · rintro ⟨hnodup, -, hids⟩
    rw [← (ids_eq_iff h hfresh).mpr hids, ← map_id_of_forall₂ hids] at hnodup
    exact ⟨hnodup, hids⟩
  · rintro ⟨hnodup, hids⟩
    rw [map_id_of_forall₂ hids, (ids_eq_iff h hfresh).mpr hids] at hnodup
    exact ⟨hnodup, hrole, hids⟩

end Ids

/-! ## The conversation -/

section Conversation

variable {uuid : Nat → Nat → List Char} {messages : List (Message Char)}

lemma convert_cons {message : Message Char} {out : List (Json Char)}
    (h : convert uuid (message :: messages) = some out) :
    ∃ sent rest, convertMessage (uuid 0) message = some sent ∧
      convert (fun i => uuid (i + 1)) messages = some rest ∧ out = sent ++ rest := by
  rw [convert, Option.bind_eq_bind, Option.bind_eq_some_iff] at h
  obtain ⟨sent, hsent, h⟩ := h
  obtain ⟨rest, hrest, h⟩ := Option.bind_eq_some_iff.mp h
  exact ⟨sent, rest, hsent, hrest, (Option.some_inj.mp h).symm⟩

lemma isRole_unique {message : Message Char} {role role' : String}
    (h : isRole message role = true) (h' : isRole message role' = true) : role = role' :=
  String.ext ((beq_iff_eq.mp h).symm.trans (beq_iff_eq.mp h'))

lemma not_asks {message : Message Char} (h : ¬ isRole message "model" = true) : ¬ Asks message :=
  fun hasks => h hasks.1

/-- Of a user message, the text of the first part is sent. -/
lemma keeps_user_iff {message : Message Char} {sent rest : List (Json Char)}
    (h : isRole message "user" = true) (hsent : convertMessage (uuid 0) message = some sent) :
    Keeps (message :: messages) (sent ++ rest) ↔ OneText message ∧ Keeps messages rest := by
  rw [convertMessage, if_pos h, Option.map_eq_some_iff] at hsent
  obtain ⟨first, hfirst, rfl⟩ := hsent
  have hmodel : ¬ isRole message "model" = true := fun hmodel =>
    absurd (isRole_unique h hmodel) (by decide)
  have hone : OneText message ↔ ∀ text ∈ texts message, text <:+: first := by
    constructor
    · rintro ⟨htexts, -⟩
      obtain ⟨first', hfirst', htexts⟩ := htexts h
      rw [Option.some_inj.mp (hfirst.symm.trans hfirst')]
      exact htexts
    · intro htexts
      exact ⟨fun _ => ⟨first, hfirst, htexts⟩, fun h => absurd h hmodel⟩
  rw [Keeps, if_pos h, hone, List.singleton_append]
  constructor
  · rintro ⟨sent, rest', heq, -, htexts, hrest⟩
    obtain ⟨rfl, rfl⟩ := List.cons.inj heq
    rw [HasTexts, (textOf_userMessage first).2] at htexts
    exact ⟨htexts, hrest⟩
  · rintro ⟨htexts, hrest⟩
    refine ⟨_, _, rfl, (textOf_userMessage first).1, ?_, hrest⟩
    rw [HasTexts, (textOf_userMessage first).2]
    exact htexts

/-- Of a model message, the first text is sent, and the calls. -/
lemma keeps_model_iff {message : Message Char} {sent rest : List (Json Char)}
    (h : isRole message "model" = true) (hsent : convertMessage (uuid 0) message = some sent)
    (hrest : convert (fun i => uuid (i + 1)) messages = some rest)
    (hanswered : Answered (message :: messages)) (hfresh : Fresh uuid (message :: messages)) :
    Keeps (message :: messages) (sent ++ rest) ↔ OneText message ∧
      (Asks message → ∃ next, messages.head? = some next ∧ SameIds message next) ∧
        Keeps messages rest := by
  have huser : ¬ isRole message "user" = true := fun huser =>
    absurd (isRole_unique h huser) (by decide)
  rw [convertMessage, if_neg huser, if_pos h, Option.some_inj] at hsent
  subst hsent
  have hone : OneText message ↔ HasTexts message (assistantMessage (uuid 0) message) := by
    rw [HasTexts, content_assistantMessage]
    exact ⟨fun htexts => htexts.2 h, fun htexts => ⟨fun h => absurd h huser, fun _ => htexts⟩⟩
  have hids : (Asks message → HasResponses (assistantMessage (uuid 0) message) rest) ↔
      (Asks message → ∃ next, messages.head? = some next ∧ SameIds message next) := by
    refine forall_congr' fun hasks => ?_
    obtain ⟨next, hnext, hfunction, hanswers⟩ := hanswered.1 hasks
    obtain ⟨messages, rfl⟩ := List.head?_eq_some_iff.mp hnext
    obtain ⟨responded, rest, hresponded, -, rfl⟩ := convert_cons hrest
    have hnotUser : ¬ isRole next "user" = true := fun huser =>
      absurd (isRole_unique hfunction huser) (by decide)
    have hnotModel : ¬ isRole next "model" = true := fun hmodel =>
      absurd (isRole_unique hfunction hmodel) (by decide)
    rw [convertMessage, if_neg hnotUser, if_neg hnotModel, if_pos hfunction,
      Option.some_inj] at hresponded
    subst hresponded
    rw [hasResponses_iff hanswers fun response hresponse j =>
      hfresh next (List.mem_cons_of_mem _ List.mem_cons_self) response hresponse 0 j]
    constructor
    · exact fun hsame => ⟨next, rfl, hsame⟩
    · rintro ⟨next', hnext', hsame⟩
      rwa [Option.some_inj.mp hnext']
  rw [Keeps, if_neg huser, if_pos h, hone, ← hids, List.singleton_append]
  constructor
  · rintro ⟨sent, rest', heq, -, htexts, -, hresponses, hkeeps⟩
    obtain ⟨rfl, rfl⟩ := List.cons.inj heq
    exact ⟨htexts, hresponses, hkeeps⟩
  · rintro ⟨htexts, hresponses, hkeeps⟩
    refine ⟨_, _, rfl, textOf_role_assistantMessage _ _, htexts, ?_, hresponses, hkeeps⟩
    rw [toolCallIds_assistantMessage, List.length_mapIdx]

/-- Any other message has no text that should be sent. -/
lemma keeps_other_iff {message : Message Char} {sent rest : List (Json Char)}
    (huser : ¬ isRole message "user" = true) (hmodel : ¬ isRole message "model" = true)
    (hsent : convertMessage (uuid 0) message = some sent) :
    Keeps (message :: messages) (sent ++ rest) ↔ OneText message ∧ Keeps messages rest := by
  have hone : OneText message := ⟨fun h => absurd h huser, fun h => absurd h hmodel⟩
  rw [convertMessage, if_neg huser, if_neg hmodel] at hsent
  rw [Keeps, if_neg huser, if_neg hmodel, and_iff_right hone]
  split_ifs at hsent ⊢ with hfunction
  · obtain rfl := Option.some_inj.mp hsent
    constructor
    · rintro ⟨sents, rest', heq, hlength, hkeeps⟩
      rw [← List.length_map (f := toolMessage)] at hlength
      obtain ⟨-, rfl⟩ := List.append_inj heq hlength.symm
      exact hkeeps
    · exact fun hkeeps => ⟨_, rest, rfl, List.length_map _, hkeeps⟩
  · obtain rfl := Option.some_inj.mp hsent
    rfl

/-- A request keeps the conversation when it does so message by message. -/
lemma keeps_convert_iff {out : List (Json Char)} (h : convert uuid messages = some out)
    (hanswered : Answered messages) (hfresh : Fresh uuid messages) :
    Keeps messages out ↔ (∀ message ∈ messages, OneText message) ∧ Followed SameIds messages := by
  induction messages generalizing uuid out with
  | nil =>
    obtain rfl := Option.some_inj.mp h
    exact iff_of_true rfl ⟨fun message hmem => absurd hmem List.not_mem_nil, trivial⟩
  | cons message messages ih =>
    obtain ⟨sent, rest, hsent, hrest, rfl⟩ := convert_cons h
    have hrec := ih hrest hanswered.2 fun message' hmem response hresponse i j =>
      hfresh message' (List.mem_cons_of_mem _ hmem) response hresponse (i + 1) j
    rw [List.forall_mem_cons, Followed]
    by_cases hmodel : isRole message "model" = true
    · rw [keeps_model_iff hmodel hsent hrest hanswered hfresh, hrec]
      tauto
    · have hids : Asks message →
          ∃ next, messages.head? = some next ∧ SameIds message next := fun hasks =>
        absurd hasks (not_asks hmodel)
      have hhead : Keeps (message :: messages) (sent ++ rest) ↔
          OneText message ∧ Keeps messages rest := by
        by_cases huser : isRole message "user" = true
        · exact keeps_user_iff huser hsent
        · exact keeps_other_iff huser hmodel hsent
      rw [hhead, hrec, and_iff_right hids, and_assoc]

/-- The conversion does not panic when every user message has a part. -/
lemma exists_convert_of_oneText (h : ∀ message ∈ messages, OneText message) :
    ∃ out, convert uuid messages = some out := by
  induction messages generalizing uuid with
  | nil => exact ⟨[], rfl⟩
  | cons message messages ih =>
    rw [List.forall_mem_cons] at h
    obtain ⟨rest, hrest⟩ := @ih (fun i => uuid (i + 1)) h.2
    have hsent : ∃ sent, convertMessage (uuid 0) message = some sent := by
      unfold convertMessage
      split_ifs with huser
      · obtain ⟨first, hfirst, -⟩ := h.1.1 huser
        exact ⟨_, congrArg (Option.map _) hfirst⟩
      · exact ⟨_, rfl⟩
      · exact ⟨_, rfl⟩
      · exact ⟨_, rfl⟩
    obtain ⟨sent, hsent⟩ := hsent
    refine ⟨sent ++ rest, ?_⟩
    rw [convert, hsent, hrest]
    rfl

lemma itemsOf_bodyFields (client : Client) (openaiMessages : List (Json Char))
    (tools : List ToolDefinition) :
    itemsOf "messages" (objOf (bodyFields client openaiMessages tools)) = openaiMessages := by
  have hnodup : ((bodyFields client openaiMessages tools).map Prod.fst).Nodup := by
    simp only [bodyFields, List.map_append]
    apply List.Nodup.sublist
    · exact ((List.Sublist.refl _).append (map_fst_skipNone _ _ _)).append
        (map_fst_skipNone _ _ _)
    · simp
  rw [itemsOf, get_objOf hnodup]
  rfl

lemma firstPartText_eq_none_iff {message : Message Char} :
    firstPartText message = none ↔ message.parts = [] := by
  rw [firstPartText, Option.map_eq_none_iff, List.head?_eq_none_iff]

lemma length_convertSystem {system : Option (Message Char)} {first : List (Json Char)}
    (h : convertSystem system = some first) : first.length = system.toList.length := by
  cases system with
  | none =>
    obtain rfl := Option.some_inj.mp h
    rfl
  | some message =>
    obtain ⟨text, -, rfl⟩ := Option.map_eq_some_iff.mp h
    rfl

lemma exists_convertSystem_iff {system : Option (Message Char)} :
    (∃ first, convertSystem system = some first) ↔ ∀ message ∈ system, message.parts ≠ [] := by
  cases system with
  | none => exact iff_of_true ⟨[], rfl⟩ fun message hmem => absurd hmem (Option.not_mem_none _)
  | some message =>
    rw [← Option.ne_none_iff_exists', convertSystem, Ne, Option.map_eq_none_iff,
      firstPartText_eq_none_iff]
    constructor
    · intro h message' hmem
      rwa [← Option.mem_some_iff.mp hmem]
    · exact fun h => h message rfl

lemma bodyMap_eq_some_iff {client : Client} {system : Option (Message Char)}
    {tools : List ToolDefinition} {body : Json Char} :
    bodyMap client uuid messages system tools = some body ↔
      ∃ first rest, convertSystem system = some first ∧ convert uuid messages = some rest ∧
        objOf (bodyFields client (first ++ rest) tools) = body := by
  constructor
  · intro h
    obtain ⟨first, hfirst, h⟩ := Option.bind_eq_some_iff.mp h
    obtain ⟨rest, hrest, h⟩ := Option.bind_eq_some_iff.mp h
    exact ⟨first, rest, hfirst, hrest, Option.some_inj.mp h⟩
  · rintro ⟨first, rest, hfirst, hrest, rfl⟩
    rw [bodyMap, hfirst, hrest]
    rfl

/-- What is sent behind the system instruction is the history. -/
lemma messagesOf_body {system : Option (Message Char)} {first : List (Json Char)}
    (h : convertSystem system = some first) (client : Client) (rest : List (Json Char))
    (tools : List ToolDefinition) :
    messagesOf system (objOf (bodyFields client (first ++ rest) tools)) = rest := by
  rw [messagesOf, itemsOf_bodyFields, ← length_convertSystem h, List.drop_left]

/-- A request keeps the conversation exactly when no message has more text than the one that is
sent, and calls and responses have the same ids. -/
theorem keeps_messagesOf_iff (client : Client) (uuid : Nat → Nat → List Char)
    (messages : List (Message Char)) (system : Option (Message Char))
    (tools : List ToolDefinition) (hanswered : Answered messages) (hfresh : Fresh uuid messages) :
    (∃ body, bodyMap client uuid messages system tools = some body ∧
        Keeps messages (messagesOf system body)) ↔ Sendable system messages := by
  rw [Sendable, ← exists_convertSystem_iff]
  constructor
  · rintro ⟨body, hmade, hkeeps⟩
    obtain ⟨first, rest, hfirst, hrest, rfl⟩ := bodyMap_eq_some_iff.mp hmade
    rw [messagesOf_body hfirst, keeps_convert_iff hrest hanswered hfresh] at hkeeps
    exact ⟨⟨first, hfirst⟩, hkeeps⟩
  · rintro ⟨⟨first, hfirst⟩, hkept⟩
    obtain ⟨rest, hrest⟩ : ∃ rest, convert uuid messages = some rest :=
      exists_convert_of_oneText hkept.1
    refine ⟨_, bodyMap_eq_some_iff.mpr ⟨first, rest, hfirst, hrest, rfl⟩, ?_⟩
    rw [messagesOf_body hfirst]
    exact (keeps_convert_iff hrest hanswered hfresh).mpr hkept

end Conversation

/-! ## A history of another provider -/

section Examples

def someClient : Client := ⟨"gpt".toList, none⟩

def emptyArgs : Value Char := .object []

/-- A question, one call and its response. -/
def dialogue (id : Option (List Char)) : List (Message Char) :=
  [⟨"user".toList, [{ text := some "hi".toList }]⟩,
    ⟨"model".toList, [{ functionCall := some ⟨"ls".toList, emptyArgs, id⟩ }]⟩,
    ⟨"function".toList, [{ functionResponse := some ⟨"ls".toList, emptyArgs, id⟩ }]⟩]

/-- Every uuid has a text of its own. -/
def someUuid (i j : Nat) : List Char := Nat.toDigits 10 i ++ '-' :: Nat.toDigits 10 j

lemma isRole_mk (role role' : String) (parts : List (Context.Part Char)) :
    isRole ⟨role.toList, parts⟩ role' = decide (role = role') := by
  rw [isRole, beq_eq_decide]
  exact decide_eq_decide.mpr ⟨String.ext, congrArg String.toList⟩

lemma not_asks_mk {role : String} (h : role ≠ "model") (parts : List (Context.Part Char)) :
    ¬ Asks ⟨role.toList, parts⟩ := by
  apply not_asks
  rw [isRole_mk, decide_eq_false h]
  exact Bool.false_ne_true

lemma answered_dialogue (id : Option (List Char)) : Answered (dialogue id) := by
  refine ⟨fun hasks => absurd hasks (not_asks_mk (by decide) _), fun _ => ?_,
    fun hasks => absurd hasks (not_asks_mk (by decide) _), trivial⟩
  refine ⟨_, rfl, isRole_mk _ _ _, .cons ⟨rfl, ?_⟩ .nil⟩
  intro id' hid' id'' hid''
  exact Option.some_inj.mp (hid''.symm.trans hid')

lemma fresh_dialogue {id : Option (List Char)}
    (h : ∀ i j, id ≠ some ("call_".toList ++ someUuid i j)) : Fresh someUuid (dialogue id) := by
  intro message hmessage response hresponse i j
  simp only [dialogue, List.mem_cons, List.not_mem_nil, or_false] at hmessage
  rcases hmessage with rfl | rfl | rfl
  · cases hresponse
  · cases hresponse
  · obtain rfl := List.mem_singleton.mp hresponse
    exact h i j

/-- Without ids, the response is not one to the call. -/
theorem not_keeps_messagesOf :
    ¬ ∀ (client : Client) (uuid : Nat → Nat → List Char) (messages : List (Message Char))
        (system : Option (Message Char)) (tools : List ToolDefinition), Answered messages →
      Fresh uuid messages → ∃ body, bodyMap client uuid messages system tools = some body ∧
        Keeps messages (messagesOf system body) := by
  intro h
  have hanswered := answered_dialogue none
  have hfresh : Fresh someUuid (dialogue none) :=
    fresh_dialogue fun i j => (Option.some_ne_none _).symm
  obtain ⟨body, hmade, hkeeps⟩ := h someClient someUuid (dialogue none) none [] hanswered hfresh
  obtain ⟨first, rest, hfirst, hrest, rfl⟩ := bodyMap_eq_some_iff.mp hmade
  rw [messagesOf_body hfirst, keeps_convert_iff hrest hanswered hfresh] at hkeeps
  obtain ⟨-, -, hids, -⟩ := hkeeps
  obtain ⟨next, hnext, -, hsame⟩ := hids ⟨by decide +kernel, List.cons_ne_nil _ _⟩
  obtain rfl := Option.some_inj.mp hnext
  cases hsame with
  | cons hid _ => cases hid

theorem keeps_messagesOf_dialogue :
    ∃ body, bodyMap someClient someUuid (dialogue (some "c1".toList)) none [] = some body ∧
      Keeps (dialogue (some "c1".toList)) (messagesOf none body) := by
  apply (keeps_messagesOf_iff someClient someUuid _ none [] (answered_dialogue _) ?_).mpr
  · refine ⟨fun message hmem => absurd hmem (Option.not_mem_none _), ?_, ?_⟩
    · intro message hmem
      simp only [dialogue, List.mem_cons, List.not_mem_nil, or_false] at hmem
      rcases hmem with rfl | rfl | rfl
      · refine ⟨fun _ => ⟨"hi".toList, rfl, ?_⟩, fun hmodel => ?_⟩
        · intro text htext
          rw [List.mem_singleton.mp htext]
        · rw [isRole_mk] at hmodel
          exact absurd (of_decide_eq_true hmodel) (by decide)
      · exact ⟨fun _ => ⟨[], rfl, fun text htext => absurd htext List.not_mem_nil⟩,
          fun _ text htext => absurd htext List.not_mem_nil⟩
      · exact ⟨fun _ => ⟨[], rfl, fun text htext => absurd htext List.not_mem_nil⟩,
          fun _ text htext => absurd htext List.not_mem_nil⟩
    · exact ⟨fun hasks => absurd hasks (not_asks_mk (by decide) _),
        fun _ => ⟨_, rfl, List.nodup_singleton _, .cons rfl .nil⟩,
        fun hasks => absurd hasks (not_asks_mk (by decide) _), trivial⟩
  · apply fresh_dialogue
    intro i j heq
    have hsecond := (List.cons.inj (List.cons.inj (Option.some_inj.mp heq)).2).1
    exact absurd hsecond (by decide)

end Examples

end RustyClaw.Llm
