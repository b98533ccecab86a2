import RustyClaw.Core.Loop
import RustyClaw.Library.Word

/-!
# The canary

The system prompt has a random token that the model is told never to put out.  When a response is
complete, the loop searches its text and the arguments of its calls for the token, and records a
placeholder in its stead if the token is there (`record_model_turn_and_maybe_yield`).

The thoughts have been shown by then.  And the search looks at the accumulated text, while what is
shown are the thoughts one by one and the text without its think blocks, where two harmless halves
may come together; nor does it look at the names of the calls, their identifiers and their
signatures.  `contained_iff` says for which streams nothing gets past it.
-/

namespace RustyClaw.AgentLoop

open Context Glyph Streaming Text Transition
open Json hiding str

/-! ## The token -/

/-- A token that `canary_token` may return: the identifier of the process is 32 hexadecimal
digits. -/
def IsCanary (token : List Char) : Prop :=
  ∃ uuid, uuid.length = 32 ∧ (∀ c ∈ uuid, c ∈ "0123456789abcdef".toList) ∧
    token = "CLAWSEC-".toList ++ uuid

section Token

variable {token text : List Char}

lemma hexDigit_mem (n : Nat) : hexDigit n ∈ "0123456789abcdef".toList := by
  rw [hexDigit, List.getD_eq_getElem?_getD]
  cases h : ['0', '1', '2', '3', '4', '5', '6', '7', '8', '9', 'a', 'b', 'c', 'd', 'e', 'f'][n]? with
  | none => decide
  | some c => exact List.mem_of_getElem? h

/-- The token has none of the characters of JSON. -/
lemma IsCanary.isWord (h : IsCanary token) : IsWord token := by
  obtain ⟨uuid, -, huuid, rfl⟩ := h
  have hmarks : (separators.all fun c =>
      c ∉ "CLAWSEC-".toList ∧ c ∉ "0123456789abcdef".toList) = true := by
    decide
  refine ⟨List.append_ne_nil_of_left_ne_nil (by decide) _, fun c hc hmark => ?_, ?_⟩
  · obtain ⟨hfront, hdigits⟩ := of_decide_eq_true (List.all_eq_true.mp hmarks c hmark)
    rcases List.mem_append.mp hc with hleft | hright
    · exact hfront hleft
    · exact hdigits (huuid c hright)
  · rintro c hc d hmem
    obtain rfl : 'C' = c := Option.some_inj.mp hc
    rcases escapeChar_cases d with ⟨e, he, hescape⟩ | ⟨-, hescape⟩ | ⟨-, -, -, hescape⟩
    · rw [hescape] at hmem
      obtain rfl := List.mem_singleton.mp hmem
      revert he
      simp [shortEscapes]
    · have hnot : 'C' ∉ "0123456789abcdef".toList := by decide
      rw [hescape] at hmem
      simp only [List.tail_cons, List.mem_cons, List.not_mem_nil, or_false] at hmem
      rcases hmem with h | h | h | h | h
      · cases h
      · cases h
      · cases h
      · exact hnot (h ▸ hexDigit_mem _)
      · exact hnot (h ▸ hexDigit_mem _)
    · rw [hescape] at hmem
      exact List.not_mem_nil hmem

/-- A text that does not even have the first part of the token. -/
lemma IsCanary.lacks (h : IsCanary token) (htext : contains "CLAWSEC-".toList text = false) :
    Lacks token text := by
  obtain ⟨uuid, -, -, rfl⟩ := h
  exact ((lacks_iff_contains (by decide)).mpr htext).of_front (List.prefix_append _ _)

/-- A text of the program is looked at character by character. -/
lemma lacks_front {message : String} {characters : List Char}
    (hmessage : message = String.ofList characters)
    (h : contains "CLAWSEC-".toList characters = false) :
    contains "CLAWSEC-".toList message.toList = false := by
  rw [hmessage]
  exact (congrArg (contains _) String.toList_ofList).trans h

lemma IsCanary.not_mem (h : IsCanary token) {c : Char} (hfront : c ∉ "CLAWSEC-".toList)
    (hdigits : c ∉ "0123456789abcdef".toList) : c ∉ token := by
  obtain ⟨uuid, -, huuid, rfl⟩ := h
  intro hmem
  rcases List.mem_append.mp hmem with hleft | hright
  · exact hfront hleft
  · exact hdigits (huuid c hright)

end Token

/-! ## What is shown and stored -/

def Output.content : Output → List Char
  | .text content | .thinking content => content

/-- The texts of a part; arguments and responses are texts of JSON. -/
def partTexts (part : Context.Part Char) : List (List Char) :=
  part.text.toList ++
  part.functionCall.toList.flatMap (fun call =>
    call.name :: render call.args.json :: call.id.toList) ++
  part.functionResponse.toList.flatMap (fun response =>
    response.name :: render response.response.json :: response.id.toList) ++
  part.thoughtSignature.toList ++
  part.fileData.toList.flatMap fun data => [data.mimeType, data.fileUri]

def messageTexts (message : Message Char) : List (List Char) :=
  message.role :: message.parts.flatMap partTexts

def turnTextsOf (turn : Turn Char) : List (List Char) :=
  turn.turnId :: turn.userMessage :: turn.messages.flatMap messageTexts

/-- The token is not in the text. -/
def Safe (cfg : AgentConfig) (text : List Char) : Prop := checkCanaryLeak cfg text = false

/-- Nothing that has been put out, or is stored in a turn or in the transcript, has the token. -/
structure Unleaked (cfg : AgentConfig) (s : AgentState) : Prop where
  output : ∀ shown ∈ s.output, Safe cfg shown.content
  turns : ∀ turn ∈ s.ctx.currentTurn.toList ++ s.ctx.dialogueHistory,
    ∀ text ∈ turnTextsOf turn, Safe cfg text
  transcript : ∀ path ∈ s.ctx.transcriptPath, ∀ content ∈ s.files path, Safe cfg content

/-! ## The stream of a response -/

/-- The labels under which the events of a stream are handled, up to its end or an error. -/
def streamLabels : List (StreamEvent Char ToolCallRecord) → List Label
  | [] | .done :: _ => [.event .done]
  | .error message :: _ => [.event (.error message)]
  | .thought content :: events =>
    .event (.thought content) :: .thoughtShown :: streamLabels events
  | .text content :: events => .event (.text content) :: streamLabels events
  | .toolCall call :: events => .event (.toolCall call) :: streamLabels events

/-- The thoughts of a stream, up to its end or an error. -/
def thoughts : List (StreamEvent Char ToolCallRecord) → List (List Char)
  | [] | .done :: _ | .error _ :: _ => []
  | .thought content :: events => content :: thoughts events
  | .text _ :: events | .toolCall _ :: events => thoughts events

/-- The texts of a call that are not searched for the token. -/
def unsearchedTexts (record : ToolCallRecord) : List (List Char) :=
  record.1.name :: (record.1.id.toList ++ record.2.toList)

section Containment

variable (cfg : AgentConfig)

/-- The text, the thoughts or a call of a response have the token; the visible text has it when it
is there without the think blocks. -/
def LeakyResponse (shown : List (List Char)) (fullText : List Char)
    (toolCalls : List ToolCallRecord) : Prop :=
  canaryLeaked cfg fullText toolCalls = true ∨ ¬ Safe cfg shown.flatten ∨
    (∃ visible, stripThinkBlocks fullText = some visible ∧ ¬ Safe cfg visible) ∨
      ∃ record ∈ toolCalls, ∃ text ∈ unsearchedTexts record, ¬ Safe cfg text

/-- The step yields with the placeholder in the place of the response, and no tool is executed. -/
structure Redacted (heard s : AgentState) : Prop where
  stage : s.stage = .returned (.ok .yieldedToUser)
  output : s.output = heard.output ++ [.text canaryMessage.toList]
  stored : s.ctx.dialogueHistory = heard.ctx.dialogueHistory ++
    (heard.ctx.currentTurn.map fun turn =>
      { turn with
        messages := turn.messages ++ [modelMessage [{ text := some redactedText.toList }]] }).toList
  toolExecutions : s.toolExecutions = heard.toolExecutions

/-- What is expected while a response is streamed and recorded. -/
structure Contained (s : AgentState) (events : List (StreamEvent Char ToolCallRecord))
    (uncompleted : Nat) (denial : Option (List Char)) (written : Written) : Prop where
  unleaked : ∀ labels s', labels <+: streamLabels events ++ [.respond uncompleted denial written] →
    run (agentStep cfg) s labels = some s' → Unleaked cfg s'
  redacted : ∀ acc, collectEvents {} events = .ok acc →
    LeakyResponse cfg (thoughts events) (closeThinkBlock acc.text) acc.toolCalls →
      ∃ heard s', run (agentStep cfg) s (streamLabels events) = some heard ∧
        agentStep cfg heard (.respond uncompleted denial written) = some s' ∧ Redacted heard s'

/-- The search finds the token in a response if it is anywhere, and no thought has it. -/
structure Watched (events : List (StreamEvent Char ToolCallRecord)) : Prop where
  thoughts : ∀ content ∈ thoughts events, Safe cfg content
  found : ∀ acc, collectEvents {} events = .ok acc →
    canaryLeaked cfg (closeThinkBlock acc.text) acc.toolCalls = true →
      (stripThinkBlocks (closeThinkBlock acc.text)).isSome = true
  missed : ∀ acc, collectEvents {} events = .ok acc →
    canaryLeaked cfg (closeThinkBlock acc.text) acc.toolCalls = false →
      Safe cfg (AgentLoop.thoughts events).flatten ∧
        (∀ visible ∈ stripThinkBlocks (closeThinkBlock acc.text), Safe cfg visible) ∧
          ∀ record ∈ acc.toolCalls, ∀ text ∈ unsearchedTexts record, Safe cfg text

end Containment

/-! ## Storing texts -/

section Storing

variable {cfg : AgentConfig} {s s' : AgentState} {text : List Char}

lemma safe_iff (hcanary : IsCanary cfg.canaryToken) :
    Safe cfg text ↔ Lacks cfg.canaryToken text :=
  (lacks_iff_contains hcanary.isWord.ne_nil).symm

/-- A text of the program. -/
lemma safe_const (hcanary : IsCanary cfg.canaryToken)
    (h : contains "CLAWSEC-".toList text = false) : Safe cfg text :=
  (safe_iff hcanary).mpr (hcanary.lacks h)

lemma Unleaked.congr (h : Unleaked cfg s) (houtput : s'.output = s.output) (hctx : s'.ctx = s.ctx)
    (hfiles : s'.files = s.files) : Unleaked cfg s' := by
  refine ⟨?_, ?_, ?_⟩
  · rw [houtput]
    exact h.output
  · rw [hctx]
    exact h.turns
  · rw [hctx, hfiles]
    exact h.transcript

lemma Unleaked.show (h : Unleaked cfg s) (shown : Output) (hshown : Safe cfg shown.content)
    (houtput : s'.output = s.output ++ [shown]) (hctx : s'.ctx = s.ctx)
    (hfiles : s'.files = s.files) : Unleaked cfg s' := by
  refine ⟨?_, ?_, ?_⟩
  · rw [houtput]
    intro other hother
    rcases List.mem_append.mp hother with hold | hnew
    · exact h.output other hold
    · rwa [List.mem_singleton.mp hnew]
  · rw [hctx]
    exact h.turns
  · rw [hctx, hfiles]
    exact h.transcript

lemma Unleaked.onText (h : Unleaked cfg s) (htext : Safe cfg text) :
    Unleaked cfg (s.onText text) := h.show (.text text) htext rfl rfl rfl

lemma Unleaked.addMessage (h : Unleaked cfg s) {message : Message Char}
    (hmessage : ∀ text ∈ messageTexts message, Safe cfg text) :
    Unleaked cfg (s.addMessage message) := by
  refine ⟨h.output, fun turn hturn text htext => ?_, h.transcript⟩
  rcases List.mem_append.mp hturn with hcurrent | hhistory
  · obtain ⟨old, hold, rfl⟩ := Option.map_eq_some_iff.mp (Option.mem_toList.mp hcurrent)
    have hturns := h.turns old (List.mem_append_left _ (Option.mem_toList.mpr hold))
    simp only [turnTextsOf, List.flatMap_append, List.flatMap_singleton, List.mem_cons,
      List.mem_append] at htext
    rcases htext with rfl | rfl | htext | htext
    · exact hturns _ List.mem_cons_self
    · exact hturns _ (List.mem_cons_of_mem _ List.mem_cons_self)
    · exact hturns text (List.mem_cons_of_mem _ (List.mem_cons_of_mem _ htext))
    · exact hmessage text htext
  · exact h.turns turn (List.mem_append_right _ hhistory) text htext

/-! ### The line of a turn -/

/-- The token is in no field. -/
def FieldsLack (token : List Char) (fields : List (String × Json Char)) : Prop :=
  ∀ field ∈ fields, Lacks token field.1.toList ∧ Lacks token (render field.2)

section Line

variable {token : List Char}

lemma FieldsLack.append {fields others : List (String × Json Char)} (h : FieldsLack token fields)
    (hothers : FieldsLack token others) : FieldsLack token (fields ++ others) := by
  intro field hfield
  rcases List.mem_append.mp hfield with hleft | hright
  · exact h field hleft
  · exact hothers field hright

lemma FieldsLack.cons {key : String} {value : Json Char} {fields : List (String × Json Char)}
    (hkey : Lacks token key.toList) (hvalue : Lacks token (render value))
    (h : FieldsLack token fields) : FieldsLack token ((key, value) :: fields) :=
  List.forall_mem_cons.mpr ⟨⟨hkey, hvalue⟩, h⟩

lemma fieldsLack_nil : FieldsLack token [] := by
  intro field hfield
  cases hfield

lemma fieldsLack_skipNone {α : Type} {key : String} {toJson : α → Json Char} {value : Option α}
    (hkey : Lacks token key.toList) (h : ∀ a ∈ value, Lacks token (render (toJson a))) :
    FieldsLack token (skipNone key toJson value) := by
  cases value with
  | none => exact fieldsLack_nil
  | some a => exact fieldsLack_nil.cons hkey (h a rfl)

variable (hcanary : IsCanary token)
include hcanary

/-- The keys of the records. -/
lemma lacks_key (key : String) (h : contains "CLAWSEC-".toList key.toList = false) :
    Lacks token key.toList := hcanary.lacks h

lemma lacks_str {text : List Char} (h : Lacks token text) : Lacks token (render (.str text)) :=
  lacks_quote hcanary.isWord h

lemma fieldsLack_functionCall {call : FunctionCall Char} (hname : Lacks token call.name)
    (hargs : Lacks token (render call.args.json)) (hid : ∀ id ∈ call.id, Lacks token id) :
    FieldsLack token call.fields :=
  .append (.cons (lacks_key hcanary _ rfl) (lacks_str hcanary hname)
      (.cons (lacks_key hcanary _ rfl) hargs fieldsLack_nil))
    (fieldsLack_skipNone (lacks_key hcanary _ rfl) fun id hmem => lacks_str hcanary (hid id hmem))

lemma fieldsLack_functionResponse {response : FunctionResponse Char}
    (hname : Lacks token response.name) (hresponse : Lacks token (render response.response.json))
    (hid : ∀ id ∈ response.id, Lacks token id) : FieldsLack token response.fields :=
  .append (.cons (lacks_key hcanary _ rfl) (lacks_str hcanary hname)
      (.cons (lacks_key hcanary _ rfl) hresponse fieldsLack_nil))
    (fieldsLack_skipNone (lacks_key hcanary _ rfl) fun id hmem => lacks_str hcanary (hid id hmem))

lemma fieldsLack_part {part : Context.Part Char} (h : ∀ text ∈ partTexts part, Lacks token text) :
    FieldsLack token part.fields := by
  have hword := hcanary.isWord
  simp only [partTexts, List.forall_mem_append, List.forall_mem_flatMap, List.forall_mem_cons,
    Option.mem_toList] at h
  obtain ⟨⟨⟨⟨htext, hcall⟩, hresponse⟩, hsignature⟩, hdata⟩ := h
  refine .append (.append (.append (.append ?_ ?_) ?_) ?_) ?_
  · exact fieldsLack_skipNone (lacks_key hcanary _ rfl) fun text hmem =>
      lacks_str hcanary (htext text hmem)
  · refine fieldsLack_skipNone (lacks_key hcanary _ rfl) fun call hmem => ?_
    obtain ⟨hname, hargs, hid⟩ := hcall call hmem
    exact lacks_render_objOf hword (fieldsLack_functionCall hcanary hname hargs hid)
  · refine fieldsLack_skipNone (lacks_key hcanary _ rfl) fun response hmem => ?_
    obtain ⟨hname, hvalue, hid⟩ := hresponse response hmem
    exact lacks_render_objOf hword (fieldsLack_functionResponse hcanary hname hvalue hid)
  · exact fieldsLack_skipNone (lacks_key hcanary _ rfl) fun signature hmem =>
      lacks_str hcanary (hsignature signature hmem)
  · refine fieldsLack_skipNone (lacks_key hcanary _ rfl) fun data hmem => ?_
    obtain ⟨hmime, huri, -⟩ := hdata data hmem
    have hfields : FieldsLack token data.fields :=
      .cons (lacks_key hcanary _ rfl) (lacks_str hcanary hmime)
        (.cons (lacks_key hcanary _ rfl) (lacks_str hcanary huri) fieldsLack_nil)
    exact lacks_render_objOf hword hfields

lemma lacks_message {message : Message Char}
    (h : ∀ text ∈ messageTexts message, Lacks token text) :
    Lacks token (render message.toJson) := by
  obtain ⟨hrole, hparts⟩ := List.forall_mem_cons.mp h
  have hitems : Lacks token (render (.arr (message.parts.map Part.toJson))) := by
    apply lacks_render_arr hcanary.isWord
    intro item hitem
    obtain ⟨part, hpart, rfl⟩ := List.mem_map.mp hitem
    exact lacks_render_objOf hcanary.isWord
      (fieldsLack_part hcanary (List.forall_mem_flatMap.mp hparts part hpart))
  have hfields : FieldsLack token message.fields :=
    .cons (lacks_key hcanary _ rfl) (lacks_str hcanary hrole)
      (.cons (lacks_key hcanary _ rfl) hitems fieldsLack_nil)
  exact lacks_render_objOf hcanary.isWord hfields

lemma lacks_turn {turn : Turn Char} (h : ∀ text ∈ turnTextsOf turn, Lacks token text) :
    Lacks token turn.toJsonString := by
  simp only [turnTextsOf, List.forall_mem_cons] at h
  obtain ⟨hid, huser, hmessages⟩ := h
  have hitems : Lacks token (render (.arr (turn.messages.map Message.toJson))) := by
    apply lacks_render_arr hcanary.isWord
    intro item hitem
    obtain ⟨message, hmessage, rfl⟩ := List.mem_map.mp hitem
    exact lacks_message hcanary (List.forall_mem_flatMap.mp hmessages message hmessage)
  have hfields : FieldsLack token turn.fields :=
    .cons (lacks_key hcanary _ rfl) (lacks_str hcanary hid)
      (.cons (lacks_key hcanary _ rfl) (lacks_str hcanary huser)
        (.cons (lacks_key hcanary _ rfl) hitems fieldsLack_nil))
  exact lacks_render_objOf hcanary.isWord hfields

/-- What is appended to a file for a turn, even when writing fails. -/
lemma lacks_appended {content : List Char} {turn : Turn Char} (hcontent : Lacks token content)
    (h : ∀ text ∈ turnTextsOf turn, Lacks token text) (written : Written) :
    Lacks token (content ++ written.of turn.line) := by
  have hnewline : '\n' ∉ token := hcanary.not_mem (by decide) (by decide)
  have hbrace : '\x7b' ∉ token := hcanary.not_mem (by decide) (by decide)
  have hline : Lacks token turn.line :=
    (lacks_turn hcanary h).concat hcanary.isWord.ne_nil hnewline
  have hpart : written.of turn.line <+: turn.line := by
    cases written with
    | whole => exact List.prefix_refl _
    | broken length => exact List.take_prefix _ _
  have hwritten : Lacks token (written.of turn.line) := hline.of_part hpart.isInfix
  cases hof : written.of turn.line with
  | nil => rwa [List.append_nil]
  | cons c rest =>
    rw [hof] at hpart hwritten
    -- the line begins with a brace, which the token does not have
    obtain ⟨rfl, -⟩ := List.cons_prefix_cons.mp hpart
    exact hcontent.append_cons hbrace (hwritten.of_part (List.suffix_cons _ _).isInfix)

end Line

/-! ### The end of a turn -/

lemma Unleaked.endTurn (hcanary : IsCanary cfg.canaryToken) (h : Unleaked cfg s)
    (written : Written) : Unleaked cfg (s.endTurn written) := by
  unfold AgentState.endTurn Context.endTurn
  cases hturn : s.ctx.currentTurn with
  | none => exact h.congr rfl rfl rfl
  | some turn =>
    have hsafe : ∀ text ∈ turnTextsOf turn, Safe cfg text :=
      h.turns turn (List.mem_append_left _ (Option.mem_toList.mpr hturn))
    refine ⟨h.output, fun other hother => ?_, fun path hpath content hcontent => ?_⟩
    · rcases List.mem_append.mp hother with hcurrent | hhistory
      · cases hcurrent
      · rcases List.mem_append.mp hhistory with hold | hnew
        · exact h.turns other (List.mem_append_right _ hold)
        · rwa [List.mem_singleton.mp hnew]
    · have hpath' : s.ctx.transcriptPath = some path := hpath
      have happend : content = (s.files path).getD [] ++ written.of turn.line := by
        simp only [appendTurn, hpath'] at hcontent
        exact (Option.some_inj.mp hcontent).symm
      rw [happend, safe_iff hcanary]
      apply lacks_appended hcanary _ fun text htext => (safe_iff hcanary).mp (hsafe text htext)
      cases hfile : s.files path with
      | none => exact fun hempty => hcanary.isWord.ne_nil (List.infix_nil.mp hempty)
      | some old => exact (safe_iff hcanary).mp (h.transcript path hpath old hfile)

lemma Unleaked.finalizeExit (hcanary : IsCanary cfg.canaryToken) (h : Unleaked cfg s)
    (exit : RunExit) (written : Written) : Unleaked cfg (s.finalizeExit exit written) :=
  (h.endTurn hcanary written).congr rfl rfl rfl

end Storing

/-! ## The stream -/

section Stream

variable {cfg : AgentConfig} {s s' : AgentState} {attempt : Nat}
  {acc : StreamAcc Char ToolCallRecord} {events : List (StreamEvent Char ToolCallRecord)}

/-- The text of a retry has no dash. -/
lemma dash_not_mem_retry (delay attempt attempts : Nat) : '-' ∉
    (s!"[System] Transient error. Retrying in {delay} ms... (Attempt {attempt}/{attempts})\n").toList := by
  have hdigits (n : Nat) : '-' ∉ Nat.toDigits 10 n := Text.not_mem_toDigits rfl n
  simp only [toString, String.toList_append, Nat.toList_repr, List.mem_append, not_or]
  refine ⟨⟨⟨⟨⟨⟨?_, hdigits delay⟩, ?_⟩, hdigits attempt⟩, ?_⟩, hdigits attempts⟩, ?_⟩
  · decide
  · decide
  · decide
  · decide

lemma safe_retryMessage (hcanary : IsCanary cfg.canaryToken) (attempt : Nat) :
    Safe cfg (retryMessage attempt).toList := by
  have hdash : '-' ∈ cfg.canaryToken := by
    obtain ⟨uuid, -, -, htoken⟩ := hcanary
    have hfront : '-' ∈ "CLAWSEC-".toList := by decide
    rw [htoken]
    exact List.mem_append_left uuid hfront
  exact (safe_iff hcanary).mpr (lacks_of_not_mem hdash (dash_not_mem_retry _ _ _))

/-- A thought that has the token must not arrive. -/
def QuietEvent (cfg : AgentConfig) : Label → Prop
  | .event (.thought content) => Safe cfg content
  | .event _ | .thoughtShown => True
  | _ => False

lemma Unleaked.handleEvent (hcanary : IsCanary cfg.canaryToken) (h : Unleaked cfg s)
    {event : StreamEvent Char ToolCallRecord} (hquiet : QuietEvent cfg (.event event)) :
    Unleaked cfg (handleEvent cfg s attempt acc event) := by
  cases event with
  | text content => exact h.congr rfl rfl rfl
  | thought content => exact h.show (.thinking content) hquiet rfl rfl rfl
  | toolCall call => exact h.congr rfl rfl rfl
  | done => exact h.congr rfl rfl rfl
  | error message =>
    rw [AgentLoop.handleEvent, handleLlmError]
    split
    · exact (h.onText (safe_retryMessage hcanary attempt)).congr rfl rfl rfl
    · exact h.congr rfl rfl rfl

lemma Unleaked.step (hcanary : IsCanary cfg.canaryToken) (h : Unleaked cfg s) {label : Label}
    (hquiet : QuietEvent cfg label) (hstep : agentStep cfg s label = some s') :
    Unleaked cfg s' := by
  cases agentStep_move hstep with
  | event attempt acc event hstage =>
    have hawake : Unleaked cfg { s with woken := false } := h.congr rfl rfl rfl
    exact hawake.handleEvent hcanary hquiet
  | thoughtShown attempt acc content hstage => exact h.congr rfl rfl rfl
  | _ => exact hquiet.elim

lemma quiet_streamLabels (h : ∀ content ∈ thoughts events, Safe cfg content) :
    ∀ label ∈ streamLabels events, QuietEvent cfg label := by
  induction events with
  | nil => simp [streamLabels, QuietEvent]
  | cons event events ih =>
    cases event with
    | done => simp [streamLabels, QuietEvent]
    | error message => simp [streamLabels, QuietEvent]
    | thought content =>
      obtain ⟨hcontent, hrest⟩ := List.forall_mem_cons.mp h
      exact List.forall_mem_cons.mpr ⟨hcontent, List.forall_mem_cons.mpr ⟨trivial, ih hrest⟩⟩
    | text content => exact List.forall_mem_cons.mpr ⟨trivial, ih h⟩
    | toolCall call => exact List.forall_mem_cons.mpr ⟨trivial, ih h⟩

lemma agentStep_event (hs : s.stage = .streaming attempt acc)
    (event : StreamEvent Char ToolCallRecord) : agentStep cfg s (.event event) =
      some (handleEvent cfg { s with woken := false } attempt acc event) := by
  simp only [agentStep, stageStep, hs]

lemma exists_run_done (cfg : AgentConfig) (hs : s.stage = .streaming attempt acc) :
    ∃ heard, run (agentStep cfg) s [.event .done] = some heard ∧ heard.output = s.output ∧
      heard.stage = .responded (closeThinkBlock acc.text) acc.toolCalls := by
  refine ⟨handleEvent cfg { s with woken := false } attempt acc .done, ?_, rfl, rfl⟩
  rw [run_cons, agentStep_event hs]
  rfl

lemma output_subset_handleEvent (event : StreamEvent Char ToolCallRecord) :
    s.output ⊆ (handleEvent cfg s attempt acc event).output := by
  unfold handleEvent
  split
  · exact List.Subset.refl _
  · exact List.subset_append_left _ _
  · exact List.Subset.refl _
  · exact List.Subset.refl _
  · unfold handleLlmError
    split
    · exact List.subset_append_left _ _
    · exact List.Subset.refl _

/-- After an error there is no response. -/
lemma agentStep_respond_handleLlmError (message : List Char) (uncompleted : Nat)
    (denial : Option (List Char)) (written : Written) :
    agentStep cfg (handleLlmError cfg s message attempt)
      (.respond uncompleted denial written) = none := by
  unfold handleLlmError
  split
  · rfl
  · rfl

/-- A stream is handled to its end; the thoughts are shown, and what has been accumulated is the
response if there was no error. -/
lemma exists_run_streamLabels (cfg : AgentConfig)
    (events : List (StreamEvent Char ToolCallRecord)) (hs : s.stage = .streaming attempt acc) :
    ∃ heard, run (agentStep cfg) s (streamLabels events) = some heard ∧
      (∀ shown ∈ s.output, shown ∈ heard.output) ∧
      (∀ content ∈ thoughts events, Output.thinking content ∈ heard.output) ∧
      (∀ acc', collectEvents acc events = .ok acc' →
        heard.stage = .responded (closeThinkBlock acc'.text) acc'.toolCalls) ∧
      ∀ message, collectEvents acc events = .error message → ∀ uncompleted denial written,
        agentStep cfg heard (.respond uncompleted denial written) = none := by
  induction events generalizing s acc with
  | nil =>
    obtain ⟨heard, hrun, houtput, hstage⟩ := exists_run_done cfg hs
    refine ⟨heard, hrun, fun shown hshown => by rwa [houtput], fun content hcontent => ?_, ?_, ?_⟩
    · cases hcontent
    · rintro acc' ⟨⟩
      exact hstage
    · intro message herror
      cases herror
  | cons event events ih =>
    cases event with
    | done =>
      obtain ⟨heard, hrun, houtput, hstage⟩ := exists_run_done cfg hs
      refine ⟨heard, hrun, fun shown hshown => by rwa [houtput], fun content hcontent => ?_, ?_, ?_⟩
      · cases hcontent
      · rintro acc' ⟨⟩
        exact hstage
      · intro message herror
        cases herror
    | error message =>
      refine ⟨handleEvent cfg { s with woken := false } attempt acc (.error message), ?_,
        fun shown hshown => output_subset_handleEvent _ hshown, fun content hcontent => ?_,
        fun acc' hacc => ?_, fun _ _ _ _ _ => ?_⟩
      · rw [streamLabels, run_cons, agentStep_event hs]
        rfl
      · cases hcontent
      · cases hacc
      · exact agentStep_respond_handleLlmError _ _ _ _
    | thought content =>
      let shown : AgentState := { s with
        woken := false
        output := s.output ++ [.thinking content]
        stage := .streaming attempt { acc with text := pushThought acc.text content } }
      obtain ⟨heard, hrun, hkept, hthoughts, hstage⟩ := ih (s := shown) rfl
      refine ⟨heard, ?_, fun other hother => hkept other (List.mem_append_left _ hother), ?_, hstage⟩
      · rw [streamLabels, run_cons, agentStep_event hs]
        exact hrun
      · refine List.forall_mem_cons.mpr ⟨hkept _ ?_, hthoughts⟩
        exact List.mem_append_right _ (List.mem_singleton_self _)
    | text content =>
      let gathered : AgentState := { s with
        woken := false
        stage := .streaming attempt { acc with text := acc.text ++ content } }
      obtain ⟨heard, hrun, hkept, hthoughts, hstage⟩ := ih (s := gathered) rfl
      refine ⟨heard, ?_, hkept, hthoughts, hstage⟩
      rw [streamLabels, run_cons, agentStep_event hs]
      exact hrun
    | toolCall call =>
      let gathered : AgentState := { s with
        woken := false
        stage := .streaming attempt { acc with toolCalls := acc.toolCalls ++ [call] } }
      obtain ⟨heard, hrun, hkept, hthoughts, hstage⟩ := ih (s := gathered) rfl
      refine ⟨heard, ?_, hkept, hthoughts, hstage⟩
      rw [streamLabels, run_cons, agentStep_event hs]
      exact hrun

end Stream

/-! ## The response -/

section Response

variable {cfg : AgentConfig} {s s' : AgentState} {fullText answer : List Char}
  {toolCalls : List ToolCallRecord} {uncompleted : Nat} {denial : Option (List Char)}
  {written : Written}

lemma safe_of_trim (hcanary : IsCanary cfg.canaryToken) {text : List Char} (h : Safe cfg text) :
    Safe cfg (trim text) := by
  obtain ⟨front, back, htext, -, -⟩ := exists_trim_eq (fun c => isWhitespace (chr c)) text
  rw [safe_iff hcanary] at h ⊢
  refine h.of_part ⟨front, back, htext.symm⟩

lemma Unleaked.showAnswer (hcanary : IsCanary cfg.canaryToken) (h : Unleaked cfg s)
    (hanswer : Safe cfg answer) : Unleaked cfg ((s.onText answer).onText "\n".toList) :=
  (h.onText hanswer).onText (safe_const hcanary rfl)

/-- A reason is put between texts of the program. -/
lemma safe_between (hcanary : IsCanary cfg.canaryToken) {front reason back : List Char} {c d : Char}
    (hfront : Safe cfg front) (hc : c ∉ cfg.canaryToken) (hreason : Safe cfg reason)
    (hd : d ∉ cfg.canaryToken) (hback : Safe cfg back) :
    Safe cfg (front ++ [c] ++ reason ++ d :: back) := by
  rw [safe_iff hcanary] at *
  rw [List.append_assoc front, List.append_assoc front]
  exact hfront.append_cons hc (hreason.append_cons hd hback)

lemma Unleaked.recordAnswer (hcanary : IsCanary cfg.canaryToken) (h : Unleaked cfg s)
    (hanswer : Safe cfg answer) (hdenial : ∀ reason ∈ denial, Safe cfg reason) :
    Unleaked cfg (recordAnswer cfg s answer uncompleted denial written) := by
  unfold AgentLoop.recordAnswer
  split
  · exact h.finalizeExit hcanary _ _
  · split
    · next reason hreason =>
      have hspace : ' ' ∉ cfg.canaryToken := hcanary.not_mem (by decide) (by decide)
      have hnewline : '\n' ∉ cfg.canaryToken := hcanary.not_mem (by decide) (by decide)
      have hdot : '.' ∉ cfg.canaryToken := hcanary.not_mem (by decide) (by decide)
      have hsafe : Safe cfg reason := by
        unfold finishDenial at hreason
        split at hreason
        · cases hreason
          exact safe_const hcanary (lacks_front rfl (by decide +kernel))
        · exact hdenial reason hreason
      have hshown : Safe cfg ("[System]".toList ++ [' '] ++ reason ++ '\n' :: []) :=
        safe_between hcanary (safe_const hcanary rfl) hspace hsafe hnewline
          (safe_const hcanary rfl)
      have hstored : Safe cfg ("[System] Completion was denied:".toList ++ [' '] ++ reason ++
          '.' :: " Continue working.".toList) :=
        safe_between hcanary (safe_const hcanary rfl) hspace hsafe hdot (safe_const hcanary rfl)
      refine Unleaked.congr (Unleaked.addMessage (h.onText hshown) ?_) rfl rfl rfl
      simp only [messageTexts, textMessage, partTexts, List.flatMap_singleton, List.forall_mem_cons]
      exact ⟨safe_const hcanary rfl, by simpa using hstored⟩
    · have hfinished : Unleaked cfg { s with task := s.task.finish answer } := h.congr rfl rfl rfl
      exact (hfinished.showAnswer hcanary hanswer).finalizeExit hcanary _ _

/-- What the search looks at, when it finds nothing. -/
lemma safe_of_not_leaked (h : canaryLeaked cfg fullText toolCalls = false) :
    Safe cfg fullText ∧ ∀ record ∈ toolCalls, Safe cfg (render record.1.args.json) := by
  rw [canaryLeaked, Bool.or_eq_false_iff, List.any_eq_false] at h
  exact ⟨h.1, fun record hrecord => (Bool.not_eq_true _).mp (h.2 record hrecord)⟩

/-- Nothing that the search passes over has the token. -/
structure NothingMissed (cfg : AgentConfig) (fullText : List Char)
    (toolCalls : List ToolCallRecord) : Prop where
  searched : canaryLeaked cfg fullText toolCalls = false
  calls : ∀ record ∈ toolCalls, ∀ text ∈ unsearchedTexts record, Safe cfg text

lemma NothingMissed.message (h : NothingMissed cfg fullText toolCalls)
    (hcanary : IsCanary cfg.canaryToken) :
    ∀ text ∈ messageTexts (recordedMessage fullText toolCalls), Safe cfg text := by
  obtain ⟨htext, hargs⟩ := safe_of_not_leaked h.searched
  simp only [messageTexts, recordedMessage, modelMessage, List.forall_mem_cons,
    List.flatMap_append, List.forall_mem_append, List.forall_mem_flatMap]
  refine ⟨safe_const hcanary rfl, fun part hpart text hmem => ?_, fun part hpart => ?_⟩
  · split at hpart
    · cases hpart
    · obtain rfl := List.mem_singleton.mp hpart
      obtain rfl : text = fullText := by simpa [partTexts] using hmem
      exact htext
  · obtain ⟨record, hrecord, rfl⟩ := List.mem_map.mp hpart
    have hcall := h.calls record hrecord
    simp only [unsearchedTexts, List.forall_mem_cons, List.forall_mem_append] at hcall
    obtain ⟨hname, hid, hsignature⟩ := hcall
    intro text hmem
    simp only [partTexts, Option.toList_none, Option.toList_some, List.nil_append,
      List.flatMap_singleton, List.flatMap_nil, List.append_nil, List.cons_append,
      List.mem_cons, List.mem_append] at hmem
    rcases hmem with rfl | rfl | hmem | hmem
    · exact hname
    · exact hargs record hrecord
    · exact hid text hmem
    · exact hsignature text hmem

/-- The answer to a call has a text of the program. -/
lemma safe_answerCall (hcanary : IsCanary cfg.canaryToken) {record : ToolCallRecord}
    {message : String} (hmessage : contains "CLAWSEC-".toList message.toList = false)
    (hcall : ∀ text ∈ unsearchedTexts record, Safe cfg text) :
    ∀ text ∈ partTexts (answerCall record message.toList), Safe cfg text := by
  have hresult : Safe cfg (render (resultValue message.toList).json) := by
    have hjson : (resultValue message.toList).json = objOf [("result", .str message.toList)] := rfl
    have hfields : FieldsLack cfg.canaryToken [("result", .str message.toList)] :=
      .cons (lacks_key hcanary _ rfl) (lacks_str hcanary (hcanary.lacks hmessage)) fieldsLack_nil
    rw [safe_iff hcanary, hjson]
    exact lacks_render_objOf hcanary.isWord hfields
  simp only [unsearchedTexts, List.forall_mem_cons, List.forall_mem_append] at hcall
  obtain ⟨hname, hid, hsignature⟩ := hcall
  intro text hmem
  simp only [partTexts, answerCall, buildFunctionResponsePart, Option.toList_none,
    Option.toList_some, List.nil_append, List.flatMap_singleton, List.flatMap_nil,
    List.append_nil, List.cons_append, List.mem_cons, List.mem_append] at hmem
  rcases hmem with rfl | rfl | hmem | hmem
  · exact hname
  · exact hresult
  · exact hid text hmem
  · exact hsignature text hmem

set_option maxRecDepth 2000 in
/-- The calls of a text command are refused with texts of the program. -/
lemma exists_message_of_refused {accepts : Bool} {visibleText : List Char}
    {parts : List (Context.Part Char)}
    (h : resolveTextCommandToolCalls accepts visibleText toolCalls = .error parts) :
    ∃ message : String, contains "CLAWSEC-".toList message.toList = false ∧
      parts = textCommandProtocolErrorParts toolCalls message := by
  unfold resolveTextCommandToolCalls at h
  dsimp only at h
  split at h
  · cases h
  · split at h
    · split at h
      · split at h
        · cases h
          exact ⟨noSourceMessage, lacks_front rfl (by decide +kernel), rfl⟩
        · cases h
      · cases h
        exact ⟨unpairedMessage, lacks_front rfl (by decide +kernel), rfl⟩
    · split at h
      · cases h
        exact ⟨sourceInArgumentsMessage, lacks_front rfl (by decide +kernel), rfl⟩
      · cases h

lemma Unleaked.recordCalls (hcanary : IsCanary cfg.canaryToken) (h : Unleaked cfg s)
    {visibleText : List Char} (hvisible : Safe cfg visibleText)
    (hcalls : ∀ record ∈ toolCalls, ∀ text ∈ unsearchedTexts record, Safe cfg text) :
    Unleaked cfg (recordCalls cfg s visibleText toolCalls) := by
  have hshown : Unleaked cfg (showVisibleText cfg s (trim visibleText) toolCalls) := by
    unfold showVisibleText
    dsimp only
    split
    · exact h.showAnswer hcanary (safe_of_trim hcanary hvisible)
    · exact h
  unfold AgentLoop.recordCalls
  dsimp only
  split
  · next parts hrefused =>
    obtain ⟨message, hmessage, rfl⟩ := exists_message_of_refused hrefused
    split
    · exact hshown.congr rfl rfl rfl
    · refine Unleaked.congr (hshown.addMessage ?_) rfl rfl rfl
      refine List.forall_mem_cons.mpr ⟨safe_const hcanary rfl, ?_⟩
      rw [List.forall_mem_flatMap]
      intro part hpart
      obtain ⟨record, hrecord, rfl⟩ := List.mem_map.mp hpart
      exact safe_answerCall hcanary hmessage (hcalls record hrecord)
  · exact hshown.congr rfl rfl rfl

/-- The placeholder is recorded, and the step yields. -/
lemma Unleaked.redact (hcanary : IsCanary cfg.canaryToken) (h : Unleaked cfg s) :
    Unleaked cfg (((s.onText canaryMessage.toList).addMessage
      (modelMessage [{ text := some redactedText.toList }])).finalizeExit .yieldedToUser
        written) := by
  have hmessage : contains "CLAWSEC-".toList canaryMessage.toList = false :=
    lacks_front rfl (by decide +kernel)
  have hshown := h.onText (safe_const hcanary hmessage)
  refine (hshown.addMessage fun text htext => ?_).finalizeExit hcanary _ _
  have hplaceholder : text = "model".toList ∨ text = redactedText.toList := by
    simpa [messageTexts, modelMessage, partTexts] using htext
  rcases hplaceholder with rfl | rfl
  · exact safe_const hcanary rfl
  · exact safe_const hcanary (lacks_front rfl (by decide +kernel))

lemma Unleaked.respond (hcanary : IsCanary cfg.canaryToken) (h : Unleaked cfg s)
    (hdenial : ∀ reason ∈ denial, Safe cfg reason)
    (hmissed : canaryLeaked cfg fullText toolCalls = false →
      (∀ visible ∈ stripThinkBlocks fullText, Safe cfg visible) ∧
        ∀ record ∈ toolCalls, ∀ text ∈ unsearchedTexts record, Safe cfg text)
    (hrespond : respond cfg s fullText toolCalls uncompleted denial written = some s') :
    Unleaked cfg s' := by
  obtain ⟨visible, hvisible, rfl⟩ := Option.map_eq_some_iff.mp hrespond
  split
  · dsimp only
    split
    · have hcounted : Unleaked cfg
        { s with consecutiveEmptyResponses := s.consecutiveEmptyResponses + 1 } :=
        h.congr rfl rfl rfl
      exact hcounted.finalizeExit hcanary _ _
    · exact h.congr rfl rfl rfl
  · have hcounted : Unleaked cfg { s with consecutiveEmptyResponses := 0 } := h.congr rfl rfl rfl
    dsimp only
    split
    · exact hcounted.redact hcanary
    · next hleaked =>
      have hsearched := (Bool.not_eq_true _).mp hleaked
      obtain ⟨hshown, hcalls⟩ := hmissed hsearched
      have hadded := hcounted.addMessage (NothingMissed.message ⟨hsearched, hcalls⟩ hcanary)
      split
      · exact hadded.recordAnswer hcanary (safe_of_trim hcanary (hshown visible hvisible)) hdenial
      · exact hadded.recordCalls hcanary (hshown visible hvisible) hcalls

/-- A response in which the token is found is not blank. -/
lemma not_blank_of_leaked (hcanary : IsCanary cfg.canaryToken)
    (h : canaryLeaked cfg fullText toolCalls = true) : ¬ (trim fullText = [] ∧ toolCalls = []) := by
  rintro ⟨htrim, rfl⟩
  have hfound : checkCanaryLeak cfg fullText = true := by simpa [canaryLeaked] using h
  have hletter : 'C' ∈ cfg.canaryToken := by
    obtain ⟨uuid, -, -, htoken⟩ := hcanary
    rw [htoken]
    exact List.mem_cons_self
  obtain ⟨front, back, htext, hfront, hback⟩ :=
    exists_trim_eq (fun c => isWhitespace (chr c)) fullText
  have hblank : Text.trim (fun c => isWhitespace (chr c)) fullText = [] := htrim
  rw [hblank, List.append_nil] at htext
  have hnot : 'C' ∉ fullText := by
    rw [htext]
    intro hmem
    rcases List.mem_append.mp hmem with hleft | hright
    · exact absurd (hfront _ hleft) (by decide)
    · exact absurd (hback _ hright) (by decide)
  have hsafe : Safe cfg fullText := (safe_iff hcanary).mpr (lacks_of_not_mem hletter hnot)
  rw [Safe, hfound] at hsafe
  cases hsafe

lemma agentStep_respond (hs : s.stage = .responded fullText toolCalls) :
    agentStep cfg s (.respond uncompleted denial written) =
      respond cfg s fullText toolCalls uncompleted denial written := by
  simp only [agentStep, stageStep, hs]

/-- What the search finds is replaced. -/
lemma redacted_of_leaked (hcanary : IsCanary cfg.canaryToken)
    (hs : s.stage = .responded fullText toolCalls)
    (hleaked : canaryLeaked cfg fullText toolCalls = true)
    (hstrip : (stripThinkBlocks fullText).isSome = true) :
    ∃ s', agentStep cfg s (.respond uncompleted denial written) = some s' ∧ Redacted s s' := by
  obtain ⟨visible, hvisible⟩ := Option.isSome_iff_exists.mp hstrip
  rw [agentStep_respond hs, AgentLoop.respond, hvisible, Option.map_some,
    if_neg (not_blank_of_leaked hcanary hleaked), if_pos hleaked]
  refine ⟨_, rfl, rfl, rfl, ?_, rfl⟩
  unfold AgentState.finalizeExit AgentState.endTurn Context.endTurn AgentState.addMessage
    addMessageToCurrentTurn AgentState.onText
  cases hturn : s.ctx.currentTurn with
  | none => simp [AgentState.exit]
  | some turn => simp [AgentState.exit]

/-- What is replaced was found. -/
lemma leaked_of_redacted (hs : s.stage = .responded fullText toolCalls)
    (hstep : agentStep cfg s (.respond uncompleted denial written) = some s')
    (h : Redacted s s') : canaryLeaked cfg fullText toolCalls = true := by
  rw [agentStep_respond hs] at hstep
  obtain ⟨visible, hvisible, rfl⟩ := Option.map_eq_some_iff.mp hstep
  by_contra hleaked
  split at h
  · -- a blank response shows nothing
    dsimp only at h
    split at h
    · have houtput := congrArg List.length h.output
      rw [List.length_append] at houtput
      exact absurd houtput (Nat.lt_succ_self _).ne
    · have hstage := h.stage
      cases hstage
  · dsimp only at h
    split at h
    · unfold recordAnswer at h
      split at h
      · have houtput := congrArg List.length h.output
        rw [List.length_append] at houtput
        exact absurd houtput (Nat.lt_succ_self _).ne
      · split at h
        · have hstage := h.stage
          cases hstage
        · have hstage := h.stage
          cases hstage
    · unfold recordCalls at h
      dsimp only at h
      split at h
      · have hstage := h.stage
        cases hstage
      · have hstage := h.stage
        cases hstage

end Response

/-! ## What gets past the search -/

/-- Where nothing has the token before, exactly the streams that are watched are contained: nothing
with the token is put out or stored, and a response that has it is replaced. -/
theorem contained_iff {cfg : AgentConfig} {s : AgentState} {attempt : Nat}
    (hcanary : IsCanary cfg.canaryToken) (hs : s.stage = .streaming attempt {})
    (hclean : Unleaked cfg s) (events : List (StreamEvent Char ToolCallRecord))
    (uncompleted : Nat) {denial : Option (List Char)}
    (hdenial : ∀ reason ∈ denial, Safe cfg reason) (written : Written) :
    Contained cfg s events uncompleted denial written ↔ Watched cfg events := by
  obtain ⟨heard, hrun, -, hthoughts, hstage, hfailed⟩ := exists_run_streamLabels cfg events hs
  constructor
  · intro h
    have hunleaked : Unleaked cfg heard := h.unleaked _ heard (List.prefix_append _ _) hrun
    have hredacted (acc : StreamAcc Char ToolCallRecord) (hacc : collectEvents {} events = .ok acc)
        (hleaky : LeakyResponse cfg (thoughts events) (closeThinkBlock acc.text) acc.toolCalls) :
        ∃ s', agentStep cfg heard (.respond uncompleted denial written) = some s' ∧
          Redacted heard s' := by
      obtain ⟨heard', s', hrun', hstep, hreplaced⟩ := h.redacted acc hacc hleaky
      obtain rfl := Option.some_inj.mp (hrun.symm.trans hrun')
      exact ⟨s', hstep, hreplaced⟩
    refine ⟨fun content hcontent => hunleaked.output _ (hthoughts content hcontent), ?_, ?_⟩
    · intro acc hacc hleaked
      obtain ⟨s', hstep, -⟩ := hredacted acc hacc (Or.inl hleaked)
      rw [agentStep_respond (hstage acc hacc)] at hstep
      obtain ⟨visible, hvisible, -⟩ := Option.map_eq_some_iff.mp hstep
      rw [hvisible]
      rfl
    · intro acc hacc hsearched
      have hnot : ¬ LeakyResponse cfg (thoughts events) (closeThinkBlock acc.text)
          acc.toolCalls := by
        intro hleaky
        obtain ⟨s', hstep, hreplaced⟩ := hredacted acc hacc hleaky
        rw [leaked_of_redacted (hstage acc hacc) hstep hreplaced] at hsearched
        cases hsearched
      refine ⟨?_, fun visible hvisible => ?_, fun record hrecord text htext => ?_⟩
      · by_contra hshown
        exact hnot (Or.inr (Or.inl hshown))
      · by_contra hshown
        exact hnot (Or.inr (Or.inr (Or.inl ⟨visible, hvisible, hshown⟩)))
      · by_contra hshown
        exact hnot (Or.inr (Or.inr (Or.inr ⟨record, hrecord, text, htext, hshown⟩)))
  · intro h
    have hquiet := quiet_streamLabels h.thoughts
    have hstream (labels : List Label) (hlabels : labels <+: streamLabels events) (s' : AgentState)
        (hrun' : run (agentStep cfg) s labels = some s') : Unleaked cfg s' := by
      refine run_invariant_of_along (Unleaked cfg) (fun u label u' hu hlabel hstep =>
        hu.step hcanary hlabel hstep) hclean (along_of_forall (fun label hmem => ?_) s) hrun'
      exact hquiet label (hlabels.subset hmem)
    refine ⟨fun labels s' hlabels hrun' => ?_, fun acc hacc hleaky => ?_⟩
    · rcases List.prefix_concat_iff.mp hlabels with rfl | hfront
      · obtain ⟨heard', hrun', hrespond⟩ := run_append_eq_some.mp hrun'
        obtain rfl := Option.some_inj.mp (hrun.symm.trans hrun')
        obtain ⟨s'', hstep, hend⟩ := run_cons_eq_some.mp hrespond
        cases hend
        have hheard := hstream _ (List.prefix_refl _) heard hrun
        cases hcollected : collectEvents {} events with
        | error message =>
          rw [hfailed message hcollected] at hstep
          cases hstep
        | ok acc =>
          rw [agentStep_respond (hstage acc hcollected)] at hstep
          refine hheard.respond hcanary hdenial (fun hsearched => ?_) hstep
          exact (h.missed acc hcollected hsearched).2
      · exact hstream labels hfront s' hrun'
    · have hleaked : canaryLeaked cfg (closeThinkBlock acc.text) acc.toolCalls = true := by
        by_contra hnot
        obtain ⟨hshown, hvisible, hcalls⟩ := h.missed acc hacc ((Bool.not_eq_true _).mp hnot)
        rcases hleaky with hfound | hthought | ⟨visible, hstrip, hleak⟩ |
          ⟨record, hrecord, text, htext, hleak⟩
        · exact hnot hfound
        · exact hthought hshown
        · exact hleak (hvisible visible hstrip)
        · exact hleak (hcalls record hrecord text htext)
      obtain ⟨s', hstep, hreplaced⟩ :=
        redacted_of_leaked hcanary (hstage acc hacc) hleaked (h.found acc hacc hleaked)
      exact ⟨heard, s', hrun, hstep, hreplaced⟩

/-! A model that puts a think block into the token shows it to the user. -/

def canaryConfig : AgentConfig where
  canaryToken := "CLAWSEC-00000000000000000000000000000000".toList
  toLowercase := id

/-- The first request of a turn is open. -/
def canaryTurn : AgentState where
  stage := .streaming 1 {}
  ctx.currentTurn := some { turnId := "turn".toList, userMessage := "hello".toList, messages := [] }

def cutToken : List (StreamEvent Char ToolCallRecord) :=
  [.text "CLAWSEC-0000<think></think>0000000000000000000000000000".toList, .done]

theorem contained_iff_cutToken : ¬ Contained canaryConfig canaryTurn cutToken 0 none .whole := by
  have hdigits : ("00000000000000000000000000000000".toList.all fun c =>
      c ∈ "0123456789abcdef".toList) = true := by
    decide
  have hcanary : IsCanary canaryConfig.canaryToken :=
    ⟨"00000000000000000000000000000000".toList, by decide,
      fun c hc => of_decide_eq_true (List.all_eq_true.mp hdigits c hc), by decide⟩
  have hclean : Unleaked canaryConfig canaryTurn := by
    refine ⟨fun shown hshown => ?_, ?_, fun path hpath => ?_⟩
    · cases hshown
    · intro turn hturn text htext
      obtain rfl := List.mem_singleton.mp hturn
      have htexts : ∀ text ∈ ["turn".toList, "hello".toList],
          checkCanaryLeak canaryConfig text = false := by
        decide
      exact htexts text htext
    · cases hpath
  rw [contained_iff hcanary rfl hclean cutToken 0 (by simp) .whole]
  intro h
  obtain ⟨-, hvisible, -⟩ := h.missed _ rfl (by decide +kernel)
  have hfound : checkCanaryLeak canaryConfig canaryConfig.canaryToken = true := by decide +kernel
  have hstrip : stripThinkBlocks
      "CLAWSEC-0000<think></think>0000000000000000000000000000".toList =
        some canaryConfig.canaryToken := by
    decide +kernel
  have hsafe : checkCanaryLeak canaryConfig canaryConfig.canaryToken = false :=
    hvisible _ hstrip
  rw [hfound] at hsafe
  cases hsafe

end RustyClaw.AgentLoop
