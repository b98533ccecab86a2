import RustyClaw.Context.Reducers
import Mathlib.Data.List.Perm.Subperm

/-!
# Rebuilding the turns of the history

A turn of the history is not sent as it was recorded.  It is sanitised, then its old results are cut
down (`truncate_old_tool_results`) or it is rebuilt from its calls and texts
(`reconstruct_turn_for_history`), and at last its responses are fenced for the model.  Each of
these passes drops parts and messages of its own.

A provider matches calls and responses by their names and ids and by their places: the responses
stand in the function messages directly behind the message with the calls (`exchanges`).
`rebuilt_sameExchanges` says that no sequence of the passes changes this in a turn whose responses
answer calls.  A message of a role that the passes do not know is dropped with everything in it, and
so is a call in a function message (`not_keepsExchanges_assistantTurn`).
-/

namespace RustyClaw.Context

open Glyph
open Json hiding str

variable {χ : Type} [Glyph χ]

/-! ## Sanitising -/

def acknowledged : Part χ := { text := some (str "[Acknowledged]") }

def thoughtHidden : Part χ := { text := some (str "[Thought process hidden]") }

def Part.hasContent (part : Part χ) : Bool :=
  part.text.any (fun text => !(trim text).isEmpty) || part.functionCall.isSome ||
    part.functionResponse.isSome

/-- What `sanitize_message` keeps of the parts. -/
def cleanedParts (message : Message χ) : List (Part χ) :=
  (message.parts.map fun part =>
    if message.hasRole "function" then { part with text := none, functionCall := none }
    else part).filter Part.hasContent

def sanitizeMessage (message : Message χ) : Option (Message χ) :=
  if !message.hasRole "user" && !message.hasRole "model" && !message.hasRole "function" then none
  else if (cleanedParts message).isEmpty then
    if message.hasRole "user" then some { message with parts := [acknowledged] }
    else if message.hasRole "model" then some { message with parts := [thoughtHidden] }
    else none
  else some { message with parts := cleanedParts message }

def sanitizeTurn (turn : Turn χ) : Option (Turn χ) :=
  let messages := turn.messages.filterMap sanitizeMessage
  if messages.isEmpty then none else some { turn with messages }

/-! ## Old results -/

/-- `strip_browser_snapshot`, with the number of the characters that it hides. -/
def stripBrowserSnapshot (response : FunctionResponse χ) : Option (FunctionResponse χ × Nat) := do
  let resultVal ← response.resultText
  let parsed := ToolExecutionEnvelope.fromJsonStr resultVal
  let payloadKind := parsed.bind fun envelope => envelope.effects.payloadKind
  let isBrowserSnapshot := payloadKind.any fun kind => chars kind = "browser_snapshot".toList
  if chars response.name ≠ "browser".toList ∧ isBrowserSnapshot = false then none
  else
    let snapshotText := (parsed.map fun envelope => envelope.result.output).getD resultVal
    if snapshotText.length ≤ 100 then none
    else
      let replacement :=
        str s!"[browser snapshot stripped - {(lines snapshotText).length} elements]"
      some (response.withResult replacement, snapshotText.length - utf8Len replacement)

/-- What stands for the result of a cell that has written too much. -/
def truncateCodeModeResultValue (toolName : List χ) (val : Json χ) : Option (List χ × Nat) := do
  let resultStr ← asStr val
  let envelope ← ToolExecutionEnvelope.fromJsonStr resultStr
  let isCodeMode := envelope.effects.payloadKind.any (fun kind => isOneOf kind ["code_mode_exec"]) ||
    isOneOf toolName ["exec", "wait"]
  let output := envelope.result.output
  if isCodeMode = false ∨ output.length ≤ 4000 then none
  else
    let hidden := output.length - 3000
    let output := output.take 2400 ++
      str s!"\n... [Code mode history compressed: {hidden} chars hidden] ...\n" ++
      output.drop (output.length - 600)
    some (ToolExecutionEnvelope.toJsonString
      { envelope with result := { envelope.result with output } }, hidden)

def truncateLargeJsonValue (val : Json χ) (maxLen : Nat) : Option (List χ × Nat) :=
  match val with
  | .str s =>
    if s.length ≤ maxLen then none
    else
      let keep := maxLen / 2
      some (s.take keep ++
        str s!"\n... [History Compressed: {s.length - maxLen} chars hidden] ...\n" ++
        s.drop (s.length - keep), s.length - maxLen)
  | val =>
    let s := render val
    if utf8Len s ≤ maxLen ∨ s.length ≤ maxLen then none
    else some (s.take 4000 ++ str "\n... [History Object Compressed] ...", s.length - 4000)

def truncateFunctionResponse (response : FunctionResponse χ) : FunctionResponse χ × Nat :=
  match stripBrowserSnapshot response with
  | some stripped => stripped
  | none =>
    match (get "result".toList response.response.json).bind fun val =>
        (truncateCodeModeResultValue response.name val).orElse fun _ =>
          truncateLargeJsonValue val 12000 with
    | some (text, hidden) => (response.withResult text, hidden)
    | none =>
      let text := response.text
      if 20000 < utf8Len text then
        ({ response with
            response := .object [
              ("result", .str (text.take 2000 ++ str "\n... [Truncated massive object] ...")),
              ("original_chars", ofNat (utf8Len text))] },
          text.length - 2000)
      else (response, 0)

/-- `truncate_old_tool_results`, with the number of the characters that it hides. -/
def truncateOldToolResults (turn : Turn χ) : Turn χ × Nat :=
  ({ turn with
      messages := turn.messages.map fun message =>
        { message with
          parts := message.parts.map fun part =>
            { part.mapResponse (fun response => (truncateFunctionResponse response).1) with
              thoughtSignature := none } } },
    ((turn.messages.flatMap Message.responses).map fun response =>
      (truncateFunctionResponse response).2).sum)

/-! ## Rebuilding from calls and texts -/

def compactExecCodeForHistory (code : List χ) : List χ :=
  if code.length ≤ 320 then code
  else
    code.take 200 ++
      str s!"\n... [code mode source truncated: {code.length - 280} chars hidden] ...\n" ++
      code.drop (code.length - 80)

def compactFunctionCallArgsForHistory (toolName : List χ) (args : Value χ) : Option (Value χ) :=
  match args.json with
  | .obj _ =>
    if isOneOf toolName ["exec"] then
      (getStr "code" args.json).map fun code =>
        .object [("code", .str (compactExecCodeForHistory code))]
    else if isOneOf toolName ["wait"] then
      match getStr "cell_id" args.json with
      | some cellId => some (.object [("cell_id", .str cellId)])
      | none => some (.object [])
    else
      match getStr "action" args.json with
      | some action =>
        match getStr "target_url" args.json, getStr "url" args.json with
        | some targetUrl, _ => some (.object
            [("action", .str action), ("target_url", .str (truncateChars targetUrl 60))])
        | none, some url => some (.object
            [("action", .str action), ("url", .str (truncateChars url 60))])
        | none, none => some (.object [("action", .str action)])
      | none =>
        match getStr "path" args.json, getStr "command" args.json, getStr "url" args.json with
        | some path, _, _ => some (.object [("path", .str path)])
        | none, some command, _ => some (.object [("command", .str (truncateChars command 80))])
        | none, none, some url => some (.object [("url", .str url)])
        | none, none, none => none
  | _ => none

def compactCall (call : FunctionCall χ) : FunctionCall χ :=
  { call with args := (compactFunctionCallArgsForHistory call.name call.args).getD call.args }

/-- `str::replace` of a text that is not empty by the empty one, when the next `skip` characters
belong to the last occurrence. -/
def removeFrom (marker : List Char) : Nat → List χ → List χ
  | _, [] => []
  | skip + 1, _ :: s => removeFrom marker skip s
  | 0, g :: s =>
    if marker.isPrefixOf (chars (g :: s)) then removeFrom marker (marker.length - 1) s
    else g :: removeFrom marker 0 s

def historyMarkers : List (List Char) :=
  ["[CURRENT TASK]".toList, "--- [RECENT CONTEXT] ---".toList, "--- [EARLIER HISTORY] ---".toList]

/-- The text of a user without the markers of earlier prompts. -/
def cleanedUserText (text : List χ) : List χ :=
  let cleaned := historyMarkers.foldl (fun text marker =>
    if Text.contains marker (chars text) then trim (removeFrom marker 0 text) else text) text
  if cleaned.isEmpty then str "[Acknowledged]" else cleaned

def cleanedModelText (text : List χ) : List χ :=
  let cleaned := stripThinkingTags text
  if cleaned.isEmpty then str "[Thought process hidden]" else cleaned

def reconstructPart (message : Message χ) (part : Part χ) : Part χ where
  text := part.text.bind fun text =>
    if message.hasRole "user" then some (cleanedUserText text)
    else if message.hasRole "model" && part.functionCall.isNone then some (cleanedModelText text)
    else none
  functionCall := part.functionCall.map compactCall
  functionResponse := part.functionResponse.map stripResponsePayload

def reconstructMessage (message : Message χ) : Option (Message χ) :=
  let parts := (message.parts.map (reconstructPart message)).filter fun part =>
    part.text.isSome || part.functionCall.isSome || part.functionResponse.isSome
  if parts.isEmpty then none else some { message with parts }

/-- `reconstruct_turn_for_history`; it reports no hidden characters. -/
def reconstructTurnForHistory (turn : Turn χ) : Turn χ × Nat :=
  ({ turn with messages := turn.messages.filterMap reconstructMessage }, 0)

def prepareMessage (toLowercase : List Char → List Char) (message : Message χ) : Message χ :=
  if message.hasRole "function" then
    { message with
      parts := message.parts.map (Part.mapResponse (prepareFunctionResponseForLlm toLowercase)) }
  else message

def prepareTurnForLlm (toLowercase : List Char → List Char) (turn : Turn χ) : Turn χ :=
  { turn with messages := turn.messages.map (prepareMessage toLowercase) }

/-! ## Calls and the responses behind them -/

/-- The name and the id of a call, or of the response to it. -/
abbrev Key (χ : Type) := List χ × Option (List χ)

def FunctionCall.key (call : FunctionCall χ) : Key χ := (call.name, call.id)

def Message.callKeys (message : Message χ) : List (Key χ) := message.calls.map FunctionCall.key

def Message.responseKeys (message : Message χ) : List (Key χ) :=
  message.responses.map FunctionResponse.key

/-- The responses of the function messages at the beginning, message by message. -/
def answersBehind (messages : List (Message χ)) : List (List (Key χ)) :=
  ((messages.takeWhile (·.hasRole "function")).map Message.responseKeys).filter (!·.isEmpty)

/-- The messages with calls, each with the responses that stand directly behind it. -/
def exchanges : List (Message χ) → List (List (Key χ) × List (List (Key χ)))
  | [] => []
  | message :: messages =>
    if message.callKeys.isEmpty then exchanges messages
    else (message.callKeys, answersBehind messages) :: exchanges messages

/-- The same calls and the same responses in the same order, and in the same places to each
other. -/
structure Turn.SameExchanges (turn original : Turn χ) : Prop where
  calls : turn.messages.flatMap Message.callKeys = original.messages.flatMap Message.callKeys
  responses :
    turn.messages.flatMap Message.responseKeys = original.messages.flatMap Message.responseKeys
  exchanges : exchanges turn.messages = exchanges original.messages

/-- Each of the responses answers a call of its own. -/
def AnswersOneToOne (answers : Key χ → Key χ → Prop) (responses calls : List (Key χ)) : Prop :=
  ∃ answered, answered.Subperm calls ∧ List.Forall₂ answers responses answered

/-- The function messages answer the calls of the message in front of them. -/
def Answered (answers : Key χ → Key χ → Prop) : List (Message χ) → Prop
  | [] => True
  | message :: messages =>
    (message.hasRole "function" = false →
      AnswersOneToOne answers (answersBehind messages).flatten message.callKeys) ∧
    Answered answers messages

/-- What the passes do not keep: calls in a function message, and anything in a message of a role
that they do not know. -/
structure Message.Known (message : Message χ) : Prop where
  function : message.hasRole "function" = true → message.callKeys = []
  other : message.hasRole "user" = false → message.hasRole "model" = false →
    message.hasRole "function" = false → message.callKeys = [] ∧ message.responseKeys = []

/-! ### Passes over the messages -/

/-- Behind a message without calls there are no responses. -/
def Attached : List (Message χ) → Prop
  | [] => True
  | message :: messages =>
    (message.hasRole "function" = false → message.callKeys = [] → answersBehind messages = []) ∧
    Attached messages

/-- A pass keeps the calls and responses of a message, and drops none with calls or responses. -/
structure KeepsKeys (pass : Message χ → Option (Message χ)) (message : Message χ) : Prop where
  kept : ∀ message', pass message = some message' → message'.role = message.role ∧
    message'.callKeys = message.callKeys ∧ message'.responseKeys = message.responseKeys
  dropped : pass message = none → message.callKeys = [] ∧ message.responseKeys = []

section Passes

variable {answers : Key χ → Key χ → Prop} {message : Message χ} {messages : List (Message χ)}
  {pass : Message χ → Option (Message χ)}

lemma Answered.attached (h : Answered answers messages) : Attached messages := by
  induction messages with
  | nil => trivial
  | cons message messages ih =>
    refine ⟨fun hrole hcalls => ?_, ih h.2⟩
    obtain ⟨answered, hsub, hanswers⟩ := h.1 hrole
    rw [hcalls, List.subperm_nil] at hsub
    subst hsub
    have hflat : (answersBehind messages).flatten = [] := List.forall₂_nil_right_iff.mp hanswers
    -- no response, so no list of responses that is not empty
    refine List.eq_nil_iff_forall_not_mem.mpr fun keys hkeys => ?_
    have hnil : keys = [] := List.flatten_eq_nil_iff.mp hflat keys hkeys
    simpa [hnil] using (List.mem_filter.mp hkeys).2

lemma answersBehind_cons (message : Message χ) (messages : List (Message χ)) :
    answersBehind (message :: messages) =
      if message.hasRole "function" then
        if message.responseKeys = [] then answersBehind messages
        else message.responseKeys :: answersBehind messages
      else [] := by
  unfold answersBehind
  by_cases hrole : message.hasRole "function" = true
  · by_cases hkeys : message.responseKeys = [] <;> simp [hrole, hkeys]
  · simp [hrole]

lemma hasRole_of_role {message message' : Message χ} (h : message'.role = message.role)
    (role : String) : message'.hasRole role = message.hasRole role := by
  rw [Message.hasRole, h, Message.hasRole]

lemma answersBehind_filterMap (hpass : ∀ message ∈ messages, KeepsKeys pass message)
    (h : Attached messages) : answersBehind (messages.filterMap pass) = answersBehind messages := by
  induction messages with
  | nil => rfl
  | cons message messages ih =>
    have hkeeps := hpass message List.mem_cons_self
    have hrest := ih (fun m hm => hpass m (List.mem_cons_of_mem _ hm)) h.2
    rw [answersBehind_cons]
    cases hmessage : pass message with
    | none =>
      obtain ⟨hcalls, hresponses⟩ := hkeeps.dropped hmessage
      rw [List.filterMap_cons_none hmessage, hrest, if_pos hresponses]
      split_ifs with hrole
      · rfl
      · exact h.1 (by simpa using hrole) hcalls
    | some message' =>
      obtain ⟨hrole, -, hresponses⟩ := hkeeps.kept _ hmessage
      rw [List.filterMap_cons_some hmessage, answersBehind_cons, hrest, hasRole_of_role hrole,
        hresponses]

lemma exchanges_filterMap (hpass : ∀ message ∈ messages, KeepsKeys pass message)
    (h : Attached messages) : exchanges (messages.filterMap pass) = exchanges messages := by
  induction messages with
  | nil => rfl
  | cons message messages ih =>
    have hkeeps := hpass message List.mem_cons_self
    have htail : ∀ m ∈ messages, KeepsKeys pass m := fun m hm => hpass m (List.mem_cons_of_mem _ hm)
    have hrest := ih htail h.2
    rw [exchanges]
    cases hmessage : pass message with
    | none =>
      rw [List.filterMap_cons_none hmessage, hrest, (hkeeps.dropped hmessage).1]
      rfl
    | some message' =>
      obtain ⟨-, hcalls, -⟩ := hkeeps.kept _ hmessage
      rw [List.filterMap_cons_some hmessage, exchanges, hrest, hcalls,
        answersBehind_filterMap htail h.2]

lemma Attached.filterMap (hpass : ∀ message ∈ messages, KeepsKeys pass message)
    (h : Attached messages) : Attached (messages.filterMap pass) := by
  induction messages with
  | nil => trivial
  | cons message messages ih =>
    have hkeeps := hpass message List.mem_cons_self
    have htail : ∀ m ∈ messages, KeepsKeys pass m := fun m hm => hpass m (List.mem_cons_of_mem _ hm)
    cases hmessage : pass message with
    | none =>
      rw [List.filterMap_cons_none hmessage]
      exact ih htail h.2
    | some message' =>
      obtain ⟨hrole, hcalls, -⟩ := hkeeps.kept _ hmessage
      rw [List.filterMap_cons_some hmessage]
      refine ⟨fun hfunction hnone => ?_, ih htail h.2⟩
      rw [answersBehind_filterMap htail h.2]
      exact h.1 (hasRole_of_role hrole _ ▸ hfunction) (hcalls ▸ hnone)

lemma flatMap_filterMap (keys : Message χ → List (Key χ))
    (hkept : ∀ message ∈ messages, ∀ message', pass message = some message' →
      keys message' = keys message)
    (hdropped : ∀ message ∈ messages, pass message = none → keys message = []) :
    (messages.filterMap pass).flatMap keys = messages.flatMap keys := by
  induction messages with
  | nil => rfl
  | cons message messages ih =>
    have hrest := ih (fun m hm => hkept m (List.mem_cons_of_mem _ hm))
      fun m hm => hdropped m (List.mem_cons_of_mem _ hm)
    cases hmessage : pass message with
    | none =>
      rw [List.filterMap_cons_none hmessage, hrest, List.flatMap_cons,
        hdropped message List.mem_cons_self hmessage, List.nil_append]
    | some message' =>
      rw [List.filterMap_cons_some hmessage, List.flatMap_cons, List.flatMap_cons, hrest,
        hkept message List.mem_cons_self message' hmessage]

lemma Message.Known.of_keepsKeys {message' : Message χ} (h : message.Known)
    (hkeeps : KeepsKeys pass message) (hmessage : pass message = some message') :
    message'.Known := by
  obtain ⟨hrole, hcalls, hresponses⟩ := hkeeps.kept _ hmessage
  constructor
  · rw [hasRole_of_role hrole, hcalls]
    exact h.function
  · simp only [hasRole_of_role hrole, hcalls, hresponses]
    exact h.other

end Passes

/-! ### The four passes -/

section PassesKeep

variable {message message' : Message χ}

def Part.callKey (part : Part χ) : Option (Key χ) := part.functionCall.map FunctionCall.key

def Part.responseKey (part : Part χ) : Option (Key χ) :=
  part.functionResponse.map FunctionResponse.key

lemma Message.callKeys_eq (message : Message χ) :
    message.callKeys = message.parts.filterMap Part.callKey := by
  rw [callKeys, calls, List.map_filterMap]
  rfl

lemma Message.responseKeys_eq (message : Message χ) :
    message.responseKeys = message.parts.filterMap Part.responseKey := by
  rw [responseKeys, responses, List.map_filterMap]
  rfl

/-- Changing parts and dropping some of them keeps the keys, when no key is changed and no part with
a key is dropped. -/
lemma filterMap_filter_map {change : Part χ → Part χ} {keep : Part χ → Bool}
    {key : Part χ → Option (Key χ)} {parts : List (Part χ)}
    (hchange : ∀ part ∈ parts, key (change part) = key part)
    (hkeep : ∀ part ∈ parts, keep (change part) = false → key part = none) :
    ((parts.map change).filter keep).filterMap key = parts.filterMap key := by
  induction parts with
  | nil => rfl
  | cons part parts ih =>
    have hrest := ih (fun p hp => hchange p (List.mem_cons_of_mem _ hp))
      fun p hp => hkeep p (List.mem_cons_of_mem _ hp)
    rw [List.map_cons, List.filter_cons, List.filterMap_cons]
    split_ifs with hpart
    · rw [List.filterMap_cons, hchange part List.mem_cons_self, hrest]
    · rw [hrest, hkeep part List.mem_cons_self (by simpa using hpart)]

lemma Part.callKey_eq_none {part : Part χ} (h : part.functionCall.isSome = false) :
    part.callKey = none := by
  rw [callKey, Option.map_eq_none_iff]
  exact Option.not_isSome_iff_eq_none.mp (by simp [h])

lemma Part.responseKey_eq_none {part : Part χ} (h : part.functionResponse.isSome = false) :
    part.responseKey = none := by
  rw [responseKey, Option.map_eq_none_iff]
  exact Option.not_isSome_iff_eq_none.mp (by simp [h])

/-- In a function message without calls nothing with a key is dropped. -/
lemma cleanedParts_keys (h : message.Known) :
    (cleanedParts message).filterMap Part.callKey = message.callKeys ∧
      (cleanedParts message).filterMap Part.responseKey = message.responseKeys := by
  rw [Message.callKeys_eq, Message.responseKeys_eq]
  unfold cleanedParts
  constructor
  · refine filterMap_filter_map (fun part hpart => ?_) fun part hpart hcontent => ?_
    · split_ifs with hrole
      · have hnone := h.function hrole
        rw [Message.callKeys_eq, List.filterMap_eq_nil_iff] at hnone
        rw [hnone part hpart]
        rfl
      · rfl
    · split_ifs at hcontent with hrole
      · have hnone := h.function hrole
        rw [Message.callKeys_eq, List.filterMap_eq_nil_iff] at hnone
        exact hnone part hpart
      · simp only [Part.hasContent, Bool.or_eq_false_iff] at hcontent
        exact Part.callKey_eq_none hcontent.1.2
  · refine filterMap_filter_map (fun part _ => ?_) fun part _ hcontent => ?_
    · split_ifs <;> rfl
    · simp only [Part.hasContent, Bool.or_eq_false_iff] at hcontent
      refine Part.responseKey_eq_none ?_
      split_ifs at hcontent <;> exact hcontent.2

lemma keepsKeys_sanitizeMessage (h : message.Known) : KeepsKeys sanitizeMessage message := by
  obtain ⟨hcalls, hresponses⟩ := cleanedParts_keys h
  constructor
  · intro message' hmessage
    unfold sanitizeMessage at hmessage
    split_ifs at hmessage with hother hempty huser hmodel
    · cases hmessage
      rw [List.isEmpty_iff.mp hempty] at hcalls hresponses
      exact ⟨rfl, hcalls, hresponses⟩
    · cases hmessage
      rw [List.isEmpty_iff.mp hempty] at hcalls hresponses
      exact ⟨rfl, hcalls, hresponses⟩
    · cases hmessage
      exact ⟨rfl, (Message.callKeys_eq _).trans hcalls, (Message.responseKeys_eq _).trans hresponses⟩
  · intro hnone
    unfold sanitizeMessage at hnone
    split_ifs at hnone with hother hempty
    · simp only [Bool.and_eq_true, Bool.not_eq_true'] at hother
      exact h.other hother.1.1 hother.1.2 hother.2
    · rw [List.isEmpty_iff.mp hempty] at hcalls hresponses
      exact ⟨hcalls.symm, hresponses.symm⟩

/-- A pass that changes the values of calls and responses only. -/
lemma keepsKeys_map (message : Message χ) (change : Message χ → Part χ → Part χ)
    (hcall : ∀ part, (change message part).callKey = part.callKey)
    (hresponse : ∀ part, (change message part).responseKey = part.responseKey) :
    KeepsKeys (fun message => some { message with parts := message.parts.map (change message) })
      message where
  kept := by
    rintro _ ⟨⟩
    refine ⟨rfl, ?_, ?_⟩
    · rw [Message.callKeys_eq, Message.callKeys_eq, List.filterMap_map]
      exact congrArg (List.filterMap · message.parts) (funext hcall)
    · rw [Message.responseKeys_eq, Message.responseKeys_eq, List.filterMap_map]
      exact congrArg (List.filterMap · message.parts) (funext hresponse)
  dropped h := by cases h

lemma stripBrowserSnapshot_key {response stripped : FunctionResponse χ} {hidden : Nat}
    (h : stripBrowserSnapshot response = some (stripped, hidden)) : stripped.key = response.key := by
  obtain ⟨resultVal, -, h⟩ := Option.bind_eq_some_iff.mp h
  dsimp only at h
  split_ifs at h
  cases h
  rfl

lemma truncateFunctionResponse_key (response : FunctionResponse χ) :
    (truncateFunctionResponse response).1.key = response.key := by
  unfold truncateFunctionResponse
  split
  · next stripped hstripped => exact stripBrowserSnapshot_key hstripped
  · split
    · rfl
    · dsimp only
      split <;> rfl

lemma prepareFunctionResponseForLlm_key (toLowercase : List Char → List Char)
    (response : FunctionResponse χ) :
    (prepareFunctionResponseForLlm toLowercase response).key = response.key := by
  unfold prepareFunctionResponseForLlm
  split <;> rfl

lemma Part.responseKey_mapResponse {f : FunctionResponse χ → FunctionResponse χ}
    (hf : ∀ response, (f response).key = response.key) (part : Part χ) :
    (part.mapResponse f).responseKey = part.responseKey := by
  rw [responseKey, responseKey, mapResponse, Option.map_map]
  exact congrArg (part.functionResponse.map ·) (funext hf)

lemma keepsKeys_truncate (message : Message χ) :
    KeepsKeys (fun message => some { message with
      parts := message.parts.map fun part =>
        { part.mapResponse (fun response => (truncateFunctionResponse response).1) with
          thoughtSignature := none } }) message :=
  keepsKeys_map message _ (fun _ => rfl)
    (Part.responseKey_mapResponse truncateFunctionResponse_key)

lemma keepsKeys_prepareMessage (toLowercase : List Char → List Char) (message : Message χ) :
    KeepsKeys (fun message => some (prepareMessage toLowercase message)) message := by
  by_cases hrole : message.hasRole "function" = true
  · have hkeeps := keepsKeys_map message
      (fun _ => Part.mapResponse (prepareFunctionResponseForLlm toLowercase)) (fun _ => rfl)
      (Part.responseKey_mapResponse (prepareFunctionResponseForLlm_key toLowercase))
    refine ⟨fun message' hmessage => hkeeps.kept message' ?_, fun h => by cases h⟩
    rw [prepareMessage, if_pos hrole] at hmessage
    exact hmessage
  · constructor
    · rintro _ ⟨⟩
      rw [prepareMessage, if_neg hrole]
      exact ⟨rfl, rfl, rfl⟩
    · intro h
      cases h

lemma callKey_reconstructPart (message : Message χ) (part : Part χ) :
    (reconstructPart message part).callKey = part.callKey := by
  rw [Part.callKey, reconstructPart, Option.map_map]
  rfl

lemma responseKey_reconstructPart (message : Message χ) (part : Part χ) :
    (reconstructPart message part).responseKey = part.responseKey := by
  rw [Part.responseKey, reconstructPart, Option.map_map]
  exact congrArg (part.functionResponse.map ·) (funext stripResponsePayload_key)

lemma keepsKeys_reconstructMessage (message : Message χ) :
    KeepsKeys reconstructMessage message := by
  have hcalls : ((message.parts.map (reconstructPart message)).filter fun part =>
      part.text.isSome || part.functionCall.isSome || part.functionResponse.isSome).filterMap
        Part.callKey = message.callKeys := by
    rw [Message.callKeys_eq]
    refine filterMap_filter_map (fun part _ => callKey_reconstructPart message part) ?_
    intro part _ hpart
    simp only [Bool.or_eq_false_iff] at hpart
    rw [← callKey_reconstructPart message]
    exact Part.callKey_eq_none hpart.1.2
  have hresponses : ((message.parts.map (reconstructPart message)).filter fun part =>
      part.text.isSome || part.functionCall.isSome || part.functionResponse.isSome).filterMap
        Part.responseKey = message.responseKeys := by
    rw [Message.responseKeys_eq]
    refine filterMap_filter_map (fun part _ => responseKey_reconstructPart message part) ?_
    intro part _ hpart
    simp only [Bool.or_eq_false_iff] at hpart
    rw [← responseKey_reconstructPart message]
    exact Part.responseKey_eq_none hpart.2
  constructor
  · intro message' hmessage
    unfold reconstructMessage at hmessage
    dsimp only at hmessage
    split_ifs at hmessage
    cases hmessage
    exact ⟨rfl, (Message.callKeys_eq _).trans hcalls, (Message.responseKeys_eq _).trans hresponses⟩
  · intro hnone
    unfold reconstructMessage at hnone
    dsimp only at hnone
    split_ifs at hnone with hempty
    rw [List.isEmpty_iff.mp hempty] at hcalls hresponses
    exact ⟨hcalls.symm, hresponses.symm⟩

end PassesKeep

/-! ### Sequences of passes -/

/-- What the passes, in any order and number, can make of a turn. -/
inductive Rebuilt (toLowercase : List Char → List Char) (turn : Turn χ) : Turn χ → Prop
  | recorded : Rebuilt toLowercase turn turn
  | sanitized {turn' cleaned : Turn χ} (h : Rebuilt toLowercase turn turn')
      (hcleaned : sanitizeTurn turn' = some cleaned) : Rebuilt toLowercase turn cleaned
  | truncated {turn' : Turn χ} (h : Rebuilt toLowercase turn turn') :
      Rebuilt toLowercase turn (truncateOldToolResults turn').1
  | reconstructed {turn' : Turn χ} (h : Rebuilt toLowercase turn turn') :
      Rebuilt toLowercase turn (reconstructTurnForHistory turn').1
  | prepared {turn' : Turn χ} (h : Rebuilt toLowercase turn turn') :
      Rebuilt toLowercase turn (prepareTurnForLlm toLowercase turn')

/-- The invariant of the passes. -/
structure Turn.Regular (turn : Turn χ) : Prop where
  known : ∀ message ∈ turn.messages, message.Known
  attached : Attached turn.messages

section Sequences

variable {turn turn' original : Turn χ} {pass : Message χ → Option (Message χ)}

lemma Turn.SameExchanges.refl (turn : Turn χ) : turn.SameExchanges turn := ⟨rfl, rfl, rfl⟩

/-- One pass over the messages of a regular turn. -/
lemma Turn.Regular.filterMap (h : turn.Regular)
    (hpass : ∀ message ∈ turn.messages, KeepsKeys pass message)
    (hmessages : turn'.messages = turn.messages.filterMap pass)
    (hsame : turn.SameExchanges original) : turn'.Regular ∧ turn'.SameExchanges original := by
  refine ⟨⟨?_, ?_⟩, ⟨?_, ?_, ?_⟩⟩
  · rw [hmessages]
    intro message' hmessage'
    obtain ⟨message, hmem, hmessage⟩ := List.mem_filterMap.mp hmessage'
    exact (h.known message hmem).of_keepsKeys (hpass message hmem) hmessage
  · rw [hmessages]
    exact h.attached.filterMap hpass
  · rw [hmessages, ← hsame.calls]
    exact flatMap_filterMap _ (fun m hm m' hm' => ((hpass m hm).kept m' hm').2.1)
      fun m hm hnone => ((hpass m hm).dropped hnone).1
  · rw [hmessages, ← hsame.responses]
    exact flatMap_filterMap _ (fun m hm m' hm' => ((hpass m hm).kept m' hm').2.2)
      fun m hm hnone => ((hpass m hm).dropped hnone).2
  · rw [hmessages, exchanges_filterMap hpass h.attached, hsame.exchanges]

lemma sanitizeTurn_messages {cleaned : Turn χ} (h : sanitizeTurn turn = some cleaned) :
    cleaned.messages = turn.messages.filterMap sanitizeMessage := by
  unfold sanitizeTurn at h
  dsimp only at h
  split_ifs at h
  cases h
  rfl

/-- A turn of which sanitising leaves nothing has neither calls nor responses. -/
lemma Turn.Regular.of_sanitizeTurn_eq_none (h : turn.Regular) (hnone : sanitizeTurn turn = none) :
    ∀ message ∈ turn.messages, message.callKeys = [] ∧ message.responseKeys = [] := by
  unfold sanitizeTurn at hnone
  dsimp only at hnone
  split_ifs at hnone with hempty
  intro message hmem
  have hdropped := List.filterMap_eq_nil_iff.mp (List.isEmpty_iff.mp hempty) message hmem
  exact (keepsKeys_sanitizeMessage (h.known message hmem)).dropped hdropped

lemma rebuilt_regular {toLowercase : List Char → List Char} (h : turn.Regular)
    (hrebuilt : Rebuilt toLowercase turn turn') : turn'.Regular ∧ turn'.SameExchanges turn := by
  induction hrebuilt with
  | recorded => exact ⟨h, .refl turn⟩
  | sanitized _ hcleaned ih =>
    exact ih.1.filterMap (fun m hm => keepsKeys_sanitizeMessage (ih.1.known m hm))
      (sanitizeTurn_messages hcleaned) ih.2
  | truncated _ ih =>
    exact ih.1.filterMap (fun m _ => keepsKeys_truncate m) (by rw [List.filterMap_eq_map']; rfl) ih.2
  | reconstructed _ ih =>
    exact ih.1.filterMap (fun m _ => keepsKeys_reconstructMessage m) rfl ih.2
  | prepared _ ih =>
    exact ih.1.filterMap (fun m _ => keepsKeys_prepareMessage toLowercase m)
      (by rw [List.filterMap_eq_map']; rfl) ih.2

/-- **The passes keep the exchanges.** In a turn whose function messages answer the calls in front
of them, no sequence of the passes changes which calls and responses there are, in which order, and
which responses stand behind which calls; and a turn of which sanitising leaves nothing had none. -/
theorem rebuilt_sameExchanges {toLowercase : List Char → List Char}
    {answers : Key χ → Key χ → Prop} (hknown : ∀ message ∈ turn.messages, message.Known)
    (hanswered : Answered answers turn.messages) (hrebuilt : Rebuilt toLowercase turn turn') :
    turn'.SameExchanges turn ∧ (sanitizeTurn turn' = none →
      ∀ message ∈ turn.messages, message.callKeys = [] ∧ message.responseKeys = []) := by
  obtain ⟨hregular, hsame⟩ := rebuilt_regular ⟨hknown, hanswered.attached⟩ hrebuilt
  refine ⟨hsame, fun hnone => ?_⟩
  have hnokeys := hregular.of_sanitizeTurn_eq_none hnone
  intro message hmem
  have hcalls : turn.messages.flatMap Message.callKeys = [] := by
    rw [← hsame.calls, List.flatMap_eq_nil_iff]
    exact fun m hm => (hnokeys m hm).1
  have hresponses : turn.messages.flatMap Message.responseKeys = [] := by
    rw [← hsame.responses, List.flatMap_eq_nil_iff]
    exact fun m hm => (hnokeys m hm).2
  exact ⟨List.flatMap_eq_nil_iff.mp hcalls message hmem,
    List.flatMap_eq_nil_iff.mp hresponses message hmem⟩

end Sequences

/-! ### Two turns with a call -/

/-- A question, a call and the response to it, the call in a message of the role `role`. -/
def callTurn (role : String) (messages : List (Message Char)) : Turn Char where
  turnId := "t".toList
  userMessage := "time?".toList
  messages :=
    [textMessage "time?".toList,
      { role := role.toList
        parts := [{ functionCall := some { name := "clock".toList, args := .object [] } }] }] ++
    messages

def clockResponse : FunctionResponse Char where
  name := "clock".toList
  response := .object [("result", .str "noon".toList)]

def clockAnswer : Message Char where
  role := "function".toList
  parts := [{ functionResponse := some clockResponse }]

theorem rebuilt_sameExchanges_callTurn :
    ∃ cleaned, sanitizeTurn (callTurn "model" [clockAnswer]) = some cleaned ∧
      (prepareTurnForLlm id (reconstructTurnForHistory cleaned).1).SameExchanges
        (callTurn "model" [clockAnswer]) := by
  have hknown : ∀ message ∈ (callTurn "model" [clockAnswer]).messages, message.Known := by
    simp only [callTurn, List.cons_append, List.nil_append, List.forall_mem_cons]
    refine ⟨⟨fun h => ?_, fun h => ?_⟩, ⟨fun h => ?_, fun _ h => ?_⟩,
      ⟨fun _ => rfl, fun _ _ h => ?_⟩, by simp⟩ <;> exact absurd h (by decide)
  have hanswered : Answered (· = ·) (callTurn "model" [clockAnswer]).messages := by
    refine ⟨fun _ => ⟨[], List.nil_subperm, .nil⟩, fun _ => ⟨_, List.Subperm.refl _, ?_⟩,
      fun h => absurd h (by decide), trivial⟩
    exact .cons rfl .nil
  exact ⟨_, rfl, (rebuilt_sameExchanges hknown hanswered
    (.prepared (.reconstructed (.sanitized .recorded rfl)))).1⟩

/-- A call in a message of an unknown role is dropped. -/
theorem not_keepsExchanges_assistantTurn :
    Answered (· = ·) (callTurn "assistant" []).messages ∧
      ∃ cleaned, sanitizeTurn (callTurn "assistant" []) = some cleaned ∧
        ¬ cleaned.SameExchanges (callTurn "assistant" []) := by
  refine ⟨⟨fun _ => ⟨[], List.nil_subperm, .nil⟩, fun _ => ⟨[], List.nil_subperm, .nil⟩, trivial⟩,
    _, rfl, fun h => ?_⟩
  have hcalls := congrArg List.length h.calls
  exact absurd hcalls (by decide)

end RustyClaw.Context
