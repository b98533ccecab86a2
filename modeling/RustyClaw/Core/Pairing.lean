import RustyClaw.Core.Loop

/-!
# Calls and their responses

A provider refuses a dialogue in which a call stands without its response.  The calls of a response
are recorded before they are executed, and the responses to them are collected part by part, on
branches of their own for a call that is refused, skipped, interrupted or executed; only at the end
of the round they are put behind the calls, and cut down when they are too large.

`alwaysPaired` is the result: whenever a request is built, the calls of every message in the current
turn are answered by the message behind it, one by one.

While a round goes on the dialogue is not paired.  The invariant (`PairedAt`) says what is missing
(`Pending`): parts that answer the calls that are left.
-/

namespace RustyClaw.Context

open Glyph
open Json hiding str

variable {χ : Type} [Glyph χ]

/-! ## Answers -/

/-- The response belongs to the call: it has its id, and its name unless the name is blank. -/
structure FunctionResponse.Answers (response : FunctionResponse χ) (call : FunctionCall χ) :
    Prop where
  id : response.id = call.id
  name : trim call.name ≠ [] → response.name = call.name

/-- The message behind `message` answers all of its calls, in their order. -/
structure Message.AnsweredBy (message next : Message χ) : Prop where
  role : next.hasRole "function" = true
  responses : List.Forall₂ FunctionResponse.Answers next.responses message.calls

/-- Every message of the model that has calls is followed by the answers to them. -/
def Paired : List (Message χ) → Prop
  | [] => True
  | message :: messages =>
    (message.hasRole "model" = true → message.calls ≠ [] →
      ∃ next ∈ messages.head?, message.AnsweredBy next) ∧ Paired messages

section Paired

variable {message next : Message χ} {messages messages' : List (Message χ)}

lemma Paired.append (h : Paired messages) (h' : Paired messages') :
    Paired (messages ++ messages') := by
  induction messages with
  | nil => exact h'
  | cons message messages ih =>
    refine ⟨fun hrole hcalls => ?_, ih h.2⟩
    obtain ⟨next, hnext, hanswered⟩ := h.1 hrole hcalls
    exact ⟨next, by simp [List.head?_append, Option.mem_def.mp hnext], hanswered⟩

lemma paired_singleton (h : message.calls = []) : Paired [message] :=
  ⟨fun _ hcalls => absurd h hcalls, trivial⟩

lemma not_hasRole_of_hasRole {role role' : String} (h : message.hasRole role = true)
    (hne : role.toList ≠ role'.toList) : message.hasRole role' = false := by
  rw [Message.hasRole, decide_eq_true_eq] at h
  simp [Message.hasRole, h, hne]

lemma Message.AnsweredBy.paired (h : message.AnsweredBy next) : Paired [message, next] := by
  refine ⟨fun _ _ => ⟨next, rfl, h⟩, fun hrole _ => ?_, trivial⟩
  rw [not_hasRole_of_hasRole h.role (by decide)] at hrole
  cases hrole

end Paired

/-! ## Cutting down keeps the pairs -/

section CutFrom

variable {parts originalParts : List (Part χ)} {message original : Message χ}
  {messages originals : List (Message χ)}

lemma filterMap_functionCall_of_cutFrom (h : List.Forall₂ Part.CutFrom parts originalParts) :
    parts.filterMap Part.functionCall = originalParts.filterMap Part.functionCall := by
  induction h with
  | nil => rfl
  | cons hpart _ ih => simp only [List.filterMap_cons, hpart.functionCall, ih]

lemma filterMap_functionResponse_of_cutFrom (h : List.Forall₂ Part.CutFrom parts originalParts) :
    List.Forall₂ (fun response response' => response.key = response'.key)
      (parts.filterMap Part.functionResponse) (originalParts.filterMap Part.functionResponse) := by
  induction h with
  | nil => exact .nil
  | @cons part part' _ _ hpart _ ih =>
    have hkey := hpart.response
    cases hresponse : part.functionResponse with
    | none =>
      rw [hresponse, Option.map_none, eq_comm, Option.map_eq_none_iff] at hkey
      simpa [List.filterMap_cons, hresponse, hkey] using ih
    | some response =>
      rw [hresponse, Option.map_some, eq_comm, Option.map_eq_some_iff] at hkey
      obtain ⟨response', hresponse', hkey⟩ := hkey
      simpa [List.filterMap_cons, hresponse, hresponse'] using ⟨hkey.symm, ih⟩

lemma Message.CutFrom.calls (h : message.CutFrom original) : message.calls = original.calls :=
  filterMap_functionCall_of_cutFrom h.parts

lemma FunctionResponse.Answers.of_key {response response' : FunctionResponse χ}
    {call : FunctionCall χ} (hkey : response.key = response'.key) (h : response'.Answers call) :
    response.Answers call := by
  obtain ⟨hname, hid⟩ := Prod.mk.inj hkey
  exact ⟨hid.trans h.id, fun hne => hname.trans (h.name hne)⟩

lemma Message.CutFrom.hasRole (h : message.CutFrom original) (role : String) :
    message.hasRole role = original.hasRole role := by
  rw [Message.hasRole, Message.hasRole, h.role]

lemma Message.AnsweredBy.of_cutFrom {next originalNext : Message χ} (h : message.CutFrom original)
    (hnext : next.CutFrom originalNext) (hanswered : original.AnsweredBy originalNext) :
    message.AnsweredBy next where
  role := (hnext.hasRole "function").trans hanswered.role
  responses := by
    rw [h.calls]
    exact forall₂_comp (fun _ _ _ hkey hanswers => .of_key hkey hanswers)
      (filterMap_functionResponse_of_cutFrom hnext.parts) hanswered.responses

lemma Paired.of_cutFrom (h : List.Forall₂ Message.CutFrom messages originals)
    (hpaired : Paired originals) : Paired messages := by
  induction h with
  | nil => trivial
  | @cons message original messages originals hmessage htail ih =>
    refine ⟨fun hrole hcalls => ?_, ih hpaired.2⟩
    rw [hmessage.hasRole] at hrole
    rw [hmessage.calls] at hcalls
    obtain ⟨originalNext, hmem, hanswered⟩ := hpaired.1 hrole hcalls
    cases htail with
    | nil => cases hmem
    | cons hnext _ =>
      cases hmem
      exact ⟨_, rfl, .of_cutFrom hmessage hnext hanswered⟩

end CutFrom

end RustyClaw.Context

namespace RustyClaw.AgentLoop

open Context Glyph Streaming Transition
open Json hiding str

/-! ## A round in progress -/

/-- The part has a response to the call. -/
def AnswersPart (part : Context.Part Char) (record : ToolCallRecord) : Prop :=
  ∃ response, part.functionResponse = some response ∧ response.Answers record.1

/-- The messages with the parts of a round behind them. -/
def closeRound (messages : List (Message Char)) (parts : List (Context.Part Char)) :
    List (Message Char) :=
  if parts = [] then messages else messages ++ [functionMessage parts]

/-- The parts answer the calls of the round, but for those that are left. -/
def Pending (messages : List (Message Char)) (parts : List (Context.Part Char))
    (left : List ToolCallRecord) : Prop :=
  ∀ more, List.Forall₂ AnswersPart more left → Paired (closeRound messages (parts ++ more))

section Pending

variable {messages : List (Message Char)} {parts : List (Context.Part Char)}
  {part : Context.Part Char} {record record' : ToolCallRecord} {left left' : List ToolCallRecord}

lemma AnswersPart.build (name : List Char) (response : Value Char)
    (thoughtSignature : Option (List Char)) (h : trim record.1.name ≠ [] → name = record.1.name) :
    AnswersPart (buildFunctionResponsePart name record.1.id response thoughtSignature) record :=
  ⟨_, rfl, rfl, h⟩

lemma AnswersPart.answerCall (record : ToolCallRecord) (message : List Char) :
    AnswersPart (answerCall record message) record := .build _ _ _ fun _ => rfl

lemma Pending.answer (h : Pending messages parts (record :: left))
    (hpart : AnswersPart part record) : Pending messages (parts ++ [part]) left := by
  intro more hmore
  have hclosed := h (part :: more) (.cons hpart hmore)
  rwa [List.append_cons] at hclosed

lemma Pending.paired (h : Pending messages parts []) : Paired (closeRound messages parts) := by
  have hclosed := h [] .nil
  rwa [List.append_nil] at hclosed

lemma Pending.of_paired (h : Paired messages) : Pending messages [] [] := by
  intro more hmore
  cases hmore
  exact h

/-- The same call with other arguments. -/
def SameCall (record record' : ToolCallRecord) : Prop :=
  record.1.name = record'.1.name ∧ record.1.id = record'.1.id

@[refl] lemma SameCall.refl (record : ToolCallRecord) : SameCall record record := ⟨rfl, rfl⟩

lemma sameCalls_refl (calls : List ToolCallRecord) : List.Forall₂ SameCall calls calls :=
  List.forall₂_same.mpr fun record _ => .refl record

lemma AnswersPart.of_sameCall (h : AnswersPart part record) (hsame : SameCall record record') :
    AnswersPart part record' := by
  obtain ⟨response, hresponse, hanswers⟩ := h
  refine ⟨response, hresponse, hanswers.id.trans hsame.2, fun hne => ?_⟩
  rw [← hsame.1] at hne ⊢
  exact hanswers.name hne

lemma calls_recordedMessage (fullText : List Char) (calls : List ToolCallRecord) :
    (recordedMessage fullText calls).calls = calls.map Prod.fst := by
  unfold recordedMessage modelMessage Message.calls
  rw [List.filterMap_append, List.filterMap_map]
  have hcalls : List.filterMap (fun record : ToolCallRecord => some record.1) calls =
      calls.map Prod.fst := List.filterMap_eq_map_iff_forall_eq_some.mpr fun _ _ => rfl
  split
  · exact hcalls
  · exact hcalls

lemma responses_functionMessage (h : List.Forall₂ AnswersPart parts left) :
    List.Forall₂ FunctionResponse.Answers (functionMessage parts).responses
      (left.map Prod.fst) := by
  unfold functionMessage Message.responses
  induction h with
  | nil => exact .nil
  | cons hpart _ ih =>
    obtain ⟨response, hresponse, hanswers⟩ := hpart
    rw [List.filterMap_cons, hresponse]
    exact .cons hanswers ih

lemma answeredBy_functionMessage (fullText : List Char)
    (h : List.Forall₂ AnswersPart parts left) :
    (recordedMessage fullText left).AnsweredBy (functionMessage parts) where
  role := by
    show decide (chars "function".toList = "function".toList) = true
    decide
  responses := by
    rw [calls_recordedMessage]
    exact responses_functionMessage h

/-- All the calls are left when they have just been recorded. -/
lemma Pending.start (h : Paired messages) (fullText : List Char) :
    Pending (messages ++ [recordedMessage fullText left]) [] left := by
  intro parts hparts
  rw [List.nil_append, closeRound]
  split
  · next hnil =>
    subst hnil
    cases hparts
    exact h.append (paired_singleton (calls_recordedMessage fullText []))
  · rw [List.append_assoc]
    exact h.append (answeredBy_functionMessage fullText hparts).paired

lemma Pending.congr (h : Pending messages parts left)
    (hsame : List.Forall₂ SameCall left' left) : Pending messages parts left' := by
  intro more hmore
  exact h more (forall₂_comp (fun _ _ _ hpart hcall => hpart.of_sameCall hcall) hmore hsame)

end Pending

/-! ## The parts of a round -/

lemma sameCalls_of_resolve {acceptsTextCommand : Bool} {visibleText : List Char}
    {toolCalls calls : List ToolCallRecord}
    (h : resolveTextCommandToolCalls acceptsTextCommand visibleText toolCalls = .ok calls) :
    List.Forall₂ SameCall calls toolCalls := by
  unfold resolveTextCommandToolCalls at h
  split at h
  · cases h
    exact sameCalls_refl _
  · dsimp only at h
    split at h
    · split at h
      · split at h
        · cases h
        · cases h
          exact .cons ⟨rfl, rfl⟩ .nil
      · cases h
    · split at h
      · cases h
      · cases h
        exact sameCalls_refl _

lemma answers_textCommandProtocolErrorParts (toolCalls : List ToolCallRecord) (message : String) :
    List.Forall₂ AnswersPart (textCommandProtocolErrorParts toolCalls message) toolCalls :=
  List.forall₂_map_left_iff.mpr (List.forall₂_same.mpr fun _ _ => .answerCall _ _)

lemma answers_of_resolve {acceptsTextCommand : Bool} {visibleText : List Char}
    {toolCalls : List ToolCallRecord} {parts : List (Context.Part Char)}
    (h : resolveTextCommandToolCalls acceptsTextCommand visibleText toolCalls = .error parts) :
    List.Forall₂ AnswersPart parts toolCalls := by
  unfold resolveTextCommandToolCalls at h
  split at h
  · cases h
  · dsimp only at h
    split at h
    · split at h
      · split at h
        · cases h
          exact answers_textCommandProtocolErrorParts _ _
        · cases h
      · cases h
        exact answers_textCommandProtocolErrorParts _ _
    · split at h
      · cases h
        exact answers_textCommandProtocolErrorParts _ _
      · cases h

/-- Whatever the outcome of a call is, one part is added that answers it. -/
lemma Round.conclude_spec (round : Round) (record : ToolCallRecord)
    (outcome : ToolDispatchOutcome) : (round.conclude record outcome).calls = round.calls ∧ ∃ part, AnswersPart part record ∧
      (round.conclude record outcome).responses = round.responses ++ [part] := by
  unfold Round.conclude
  split
  · exact ⟨rfl, _, .build _ _ _ fun _ => rfl, rfl⟩
  · split
    · exact ⟨rfl, _, .answerCall _ _, rfl⟩
    · split
      · exact ⟨rfl, _, .answerCall _ _, rfl⟩
      · exact ⟨rfl, _, .answerCall _ _, rfl⟩

/-! ## The invariant -/

def Stage.PairedAt (messages : List (Message Char)) : Stage → Prop
  | .idle | .acquired | .starting _ | .returned _ => True
  | .round current => Pending messages current.responses current.calls
  | .dispatching current record | .executing current record | .inCodeMode current record =>
    Pending messages current.responses (record :: current.calls)
  | _ => Paired messages

/-- What holds of the current turn while the loop is at a stage. -/
def PairedAt (s : AgentState) : Prop :=
  ∀ turn, s.ctx.currentTurn = some turn → s.stage.PairedAt turn.messages

section Invariant

variable {cfg : AgentConfig} {s s' : AgentState}

lemma PairedAt.of_stage (h : ∀ messages, s.stage.PairedAt messages) : PairedAt s :=
  fun turn _ => h turn.messages

lemma pairedAt_exit (result : Except (List Char) RunExit) : PairedAt (s.exit result) :=
  .of_stage fun _ => trivial

lemma pairedAt_finalizeExit (exit : RunExit) (written : Written) :
    PairedAt (s.finalizeExit exit written) := pairedAt_exit _

/-- A step that leaves the turn as it is. -/
lemma PairedAt.congr (hs : PairedAt s) (hturn : s'.ctx.currentTurn = s.ctx.currentTurn)
    (hstage : ∀ messages, s.stage.PairedAt messages → s'.stage.PairedAt messages) :
    PairedAt s' := fun turn hcurrent => hstage _ (hs turn (hturn ▸ hcurrent))

lemma pairedAt_beginStep (goal : List Char) (completed : Nat) :
    PairedAt (beginStep cfg s goal completed) := by
  unfold beginStep
  dsimp only
  split
  · exact pairedAt_exit _
  · split
    · exact pairedAt_exit _
    · exact .of_stage fun _ => trivial

lemma pairedAt_beforeTurnStart (hs : PairedAt s) (decision : ExtensionDecision) :
    PairedAt (beforeTurnStart s decision) := by
  unfold beforeTurnStart
  split
  · exact hs
  · exact hs
  · exact .of_stage fun _ => trivial
  · exact pairedAt_exit _

lemma pairedAt_beginTurn (goal turnId : List Char) (loaded : TaskStateSnapshot)
    (taskId : List Char) : PairedAt (beginTurn s goal turnId loaded taskId) := by
  intro turn hturn
  cases hturn
  exact paired_singleton rfl

lemma pairedAt_checkLoopGuards (hs : PairedAt s) (hstage : s.stage = .guards) (completed : Nat)
    (written : Written) : PairedAt (checkLoopGuards cfg s completed written) := by
  by_cases hcancelled : s.cancelled = true
  · rw [checkLoopGuards_of_cancelled cfg s hcancelled]
    exact pairedAt_finalizeExit _ _
  · obtain ⟨energyPoints, output, stage, hguards, hnext⟩ :=
      exists_checkLoopGuards cfg s (eq_false_of_ne_true hcancelled) completed written
    rw [hguards]
    refine hs.congr rfl fun messages hmessages => ?_
    rw [hstage] at hmessages
    obtain rfl | ⟨completed, rfl⟩ := hnext
    · exact hmessages
    · exact hmessages

lemma pairedAt_summaryDone (hs : PairedAt s) {completed : Option Nat}
    (hstage : s.stage = .summarizing completed) (summary : List Char) (written : Written)
    (archived : Nat → Written) (uuid : List Char) :
    PairedAt (summaryDone cfg s completed summary written archived uuid) := by
  cases completed with
  | none => exact pairedAt_finalizeExit _ _
  | some completed =>
    obtain ⟨files, ctx, output, hdone, hturn⟩ :=
      exists_summaryDone cfg s completed summary written archived uuid
    rw [hdone]
    refine hs.congr hturn fun messages hmessages => ?_
    rwa [hstage] at hmessages

lemma pairedAt_maybeCompactHistory (hs : PairedAt s) (numTurns : Option Nat)
    (archived : Nat → Written) (uuid : List Char) :
    PairedAt (maybeCompactHistory cfg s numTurns archived uuid) := by
  obtain ⟨files, ctx, output, hcompact, hturn⟩ :=
    exists_maybeCompactHistory cfg s numTurns archived uuid
  rw [hcompact]
  exact hs.congr hturn fun _ h => h

lemma pairedAt_handleLlmError (hs : PairedAt s) {message : List Char} {attempt : Nat}
    (hpaired : ∀ messages, s.stage.PairedAt messages → Paired messages) :
    PairedAt (handleLlmError cfg s message attempt) := by
  by_cases hretries : retries cfg message attempt = true
  · rw [handleLlmError_of_retries hretries]
    exact hs.congr rfl hpaired
  · rw [handleLlmError_of_not_retries (eq_false_of_ne_true hretries)]
    exact pairedAt_exit _

lemma pairedAt_handleEvent (hs : PairedAt s) {attempt : Nat} {acc : StreamAcc Char ToolCallRecord}
    (hpaired : ∀ messages, s.stage.PairedAt messages → Paired messages)
    (event : StreamEvent Char ToolCallRecord) : PairedAt (handleEvent cfg s attempt acc event) := by
  obtain ⟨message, rfl⟩ | ⟨output, stage, hevent, hnext⟩ :=
    exists_handleEvent cfg s attempt acc event
  · exact pairedAt_handleLlmError hs hpaired
  · rw [hevent]
    refine hs.congr rfl fun messages hmessages => ?_
    obtain ⟨acc, rfl⟩ | ⟨content, rfl⟩ | ⟨text, toolCalls, rfl⟩ := hnext
    · exact hpaired messages hmessages
    · exact hpaired messages hmessages
    · exact hpaired messages hmessages

/-! ### The response -/

lemma pairedAt_recordAnswer {answer : List Char} {uncompleted : Nat} {denial : Option (List Char)}
    {written : Written} (hs : ∀ turn, s.ctx.currentTurn = some turn → Paired turn.messages) :
    PairedAt (recordAnswer cfg s answer uncompleted denial written) := by
  unfold recordAnswer
  split
  · exact pairedAt_finalizeExit _ _
  · split
    · intro turn hturn
      obtain ⟨turn', hturn', rfl⟩ := currentTurn_addMessage _ hturn
      exact .of_paired ((hs turn' hturn').append (paired_singleton rfl))
    · exact pairedAt_finalizeExit _ _

/-- The message with the calls stands at the end of the turn. -/
lemma pairedAt_recordCalls {visibleText : List Char} {toolCalls : List ToolCallRecord}
    (hs : ∀ turn, s.ctx.currentTurn = some turn → Pending turn.messages [] toolCalls) :
    PairedAt (recordCalls cfg s visibleText toolCalls) := by
  obtain ⟨output, hshown⟩ := exists_showVisibleText cfg s (trim visibleText) toolCalls
  unfold recordCalls
  rw [hshown]
  dsimp only
  split
  · next parts hresolve =>
    intro turn hturn
    have hanswers := answers_of_resolve hresolve
    split at hturn
    · next hnil =>
      have hclosed := hs turn hturn parts hanswers
      rwa [List.nil_append, closeRound, if_pos hnil] at hclosed
    · next hne =>
      obtain ⟨turn', hturn', rfl⟩ := currentTurn_addMessage _ hturn
      have hclosed := hs turn' hturn' parts hanswers
      rw [List.nil_append, closeRound, if_neg hne] at hclosed
      exact hclosed
  · next calls hresolve =>
    intro turn hturn
    exact (hs turn hturn).congr (sameCalls_of_resolve hresolve)

lemma pairedAt_respond {fullText : List Char} {toolCalls : List ToolCallRecord} {uncompleted : Nat}
    {denial : Option (List Char)} {written : Written}
    (hs : ∀ turn, s.ctx.currentTurn = some turn → Paired turn.messages)
    (h : respond cfg s fullText toolCalls uncompleted denial written = some s') : PairedAt s' := by
  obtain ⟨visibleText, -, rfl⟩ := Option.map_eq_some_iff.mp h
  split
  · dsimp only
    split
    · exact pairedAt_finalizeExit _ _
    · exact hs
  · split
    · exact pairedAt_finalizeExit _ _
    · split
      · next hnil =>
        subst hnil
        refine pairedAt_recordAnswer fun turn hturn => ?_
        obtain ⟨turn', hturn', rfl⟩ := currentTurn_addMessage _ hturn
        exact (hs turn' hturn').append (paired_singleton (calls_recordedMessage fullText []))
      · refine pairedAt_recordCalls fun turn hturn => ?_
        obtain ⟨turn', hturn', rfl⟩ := currentTurn_addMessage _ hturn
        exact .start (hs turn' hturn') fullText

/-! ### The round -/

section Round

variable {round : Round} {record : ToolCallRecord}

/-- The record is the next of the calls that are to be answered. -/
def PendingAt (s : AgentState) (round : Round) (record : ToolCallRecord) : Prop :=
  ∀ turn, s.ctx.currentTurn = some turn →
    Pending turn.messages round.responses (record :: round.calls)

lemma pairedAt_answer (hs : PendingAt s round record) {part : Context.Part Char}
    (hpart : AnswersPart part record) :
    PairedAt { s with stage := .round (round.answer part) } :=
  fun turn hturn => (hs turn hturn).answer hpart

lemma pairedAt_concludeCall (hs : PendingAt s round record) (outcome : ToolDispatchOutcome) :
    PairedAt (concludeCall s round record outcome) := by
  obtain ⟨hcalls, part, hpart, hresponses⟩ := round.conclude_spec record outcome
  obtain ⟨output, hconclude⟩ := exists_concludeCall s round record outcome
  rw [hconclude]
  intro turn hturn
  show Pending _ _ _
  rw [hcalls, hresponses]
  exact (hs turn hturn).answer hpart

lemma pairedAt_nextCall (hs : PendingAt s round record) (todosExist : Bool) :
    PairedAt (nextCall cfg s round record todosExist) := by
  unfold nextCall
  split
  · exact pairedAt_answer hs (.answerCall _ _)
  · dsimp only
    obtain ⟨output, hshown⟩ := exists_showToolThought s (extractToolThought record.1).2
    rw [hshown]
    have hs : PendingAt { s with output } round ((extractToolThought record.1).1, record.2) :=
      fun turn hturn => (hs turn hturn).congr (.cons ⟨rfl, rfl⟩ (sameCalls_refl _))
    split
    · next hblank => exact pairedAt_answer hs (.build _ _ _ fun hne => absurd hblank hne)
    · split
      · exact pairedAt_answer hs (.answerCall _ _)
      · split
        · exact pairedAt_concludeCall hs _
        · split
          · exact pairedAt_concludeCall hs _
          · exact hs

lemma pairedAt_execute (hs : PendingAt s round record) (todosExist : Bool) :
    PairedAt (execute cfg s round record todosExist) := by
  unfold execute
  split
  · exact hs
  · split
    · exact pairedAt_concludeCall hs _
    · exact hs

lemma pairedAt_toolDone (hs : PendingAt s round record) (ending : UnifiedToolExecutor.InvokeEnd) :
    PairedAt (toolDone cfg s round record ending) := by
  obtain ⟨executionGuard, outcome, hdone⟩ := exists_toolDone cfg s round record ending
  rw [hdone]
  exact pairedAt_concludeCall (s := { s with executionGuard }) hs outcome

lemma pairedAt_codeModeDone (hs : PendingAt s round record) (shown result : List Char)
    (isError stopped : Bool) :
    PairedAt (codeModeDone cfg s round record shown result isError stopped) := by
  obtain ⟨output, executionGuard, cellRunning, outcome, hdone⟩ :=
    exists_codeModeDone cfg s round record shown result isError stopped
  rw [hdone]
  exact pairedAt_concludeCall (s := { s with output, executionGuard, cellRunning }) hs outcome

lemma paired_reconcileAfterToolCalls (cfg : AgentConfig) (loaded : TaskStateSnapshot)
    (hs : ∀ turn, s.ctx.currentTurn = some turn → Paired turn.messages) {turn : Turn Char}
    (hturn : (reconcileAfterToolCalls cfg s loaded).ctx.currentTurn = some turn) :
    Paired turn.messages := by
  obtain ⟨turn', hturn', hcut⟩ := cutFrom_currentTurn hturn
  exact (hs turn' hturn').of_cutFrom hcut.messages

lemma pairedAt_continueRun (hs : ∀ turn, s.ctx.currentTurn = some turn → Paired turn.messages)
    (loaded : TaskStateSnapshot) (written : Written) :
    PairedAt (continueRun cfg s round loaded written) := by
  unfold continueRun
  split
  · exact pairedAt_finalizeExit _ _
  · exact fun turn hturn => paired_reconcileAfterToolCalls cfg loaded hs hturn

lemma pairedAt_finishRound (hs : PairedAt s) (hstage : s.stage = .round round)
    (hcalls : round.calls = []) (progress : Option (Nat × Nat)) (uncompleted : Nat)
    (denial : Option (List Char)) (loaded : TaskStateSnapshot) (written : Written) :
    PairedAt (finishRound cfg s round progress uncompleted denial loaded written) := by
  obtain ⟨output, hreported⟩ := exists_reportProgress cfg s progress
  unfold finishRound
  rw [hreported]
  dsimp only
  split
  · exact pairedAt_exit _
  · generalize hclosed : (if round.responses = [] then { s with output }
      else AgentState.addMessage { s with output } (functionMessage round.responses)) = closed
    have hpaired : ∀ turn, closed.ctx.currentTurn = some turn → Paired turn.messages := by
      intro turn hturn
      have hpending : ∀ turn, s.ctx.currentTurn = some turn →
          Pending turn.messages round.responses [] := by
        intro turn hturn
        have h := hs turn hturn
        rw [hstage] at h
        rwa [← hcalls]
      rw [← hclosed] at hturn
      split at hturn
      · next hnil =>
        have h := (hpending turn hturn).paired
        rwa [closeRound, if_pos hnil] at h
      · next hne =>
        obtain ⟨turn', hturn', rfl⟩ := currentTurn_addMessage _ hturn
        have h := (hpending turn' hturn').paired
        rw [closeRound, if_neg hne] at h
        exact h
    split
    · split
      · next reason _ => exact pairedAt_continueRun (s := denyFinish closed reason) hpaired _ _
      · exact pairedAt_finalizeExit _ _
    · exact pairedAt_continueRun hpaired _ _

end Round

/-! ### Steps and runs -/

lemma PairedAt.step {label : Label} (hs : PairedAt s) (h : agentStep cfg s label = some s') :
    PairedAt s' := by
  have hat : ∀ {stage : Stage}, s.stage = stage → ∀ turn, s.ctx.currentTurn = some turn →
      stage.PairedAt turn.messages := fun hstage turn hturn => hstage ▸ hs turn hturn
  cases agentStep_move h with
  | cancel => exact hs
  | nestedCall hcell => exact hs
  | cellEnded => exact hs
  | acquireForeground hidle => exact .of_stage fun _ => trivial
  | call goal completed hstage => exact pairedAt_beginStep goal completed
  | beforeTurnStart goal decision hstage => exact pairedAt_beforeTurnStart hs decision
  | startTurn goal turnId loaded taskId hstage => exact pairedAt_beginTurn goal turnId loaded taskId
  | checkLoopGuards completed written hstage =>
    exact pairedAt_checkLoopGuards hs hstage completed written
  | requestSummary completed hstage => exact fun turn hturn => hat hstage turn hturn
  | summaryDone completed summary written archived uuid hstage =>
    exact pairedAt_summaryDone hs hstage summary written archived uuid
  | maybeCompactHistory numTurns archived uuid hstage =>
    exact pairedAt_maybeCompactHistory hs numTurns archived uuid
  | request tools hstage => exact fun turn hturn => hat hstage turn hturn
  | opened attempt hstage => exact fun turn hturn => hat hstage turn hturn
  | openFailed attempt message hstage =>
    exact pairedAt_handleLlmError hs fun messages hmessages => by rwa [hstage] at hmessages
  | event attempt acc event hstage =>
    refine pairedAt_handleEvent (s := { s with woken := false }) hs (fun messages hmessages => ?_)
      event
    change s.stage.PairedAt messages at hmessages
    rwa [hstage] at hmessages
  | thoughtShown attempt acc content hstage => exact fun turn hturn => hat hstage turn hturn
  | notified written hstage hwoken => exact pairedAt_finalizeExit _ _
  | retry attempt hstage => exact fun turn hturn => hat hstage turn hturn
  | respond text toolCalls uncompleted denial written _ hstage hs' =>
    exact pairedAt_respond (hat hstage) hs'
  | nextCall round record calls todosExist hstage hcalls =>
    refine pairedAt_nextCall (fun turn hturn => ?_) todosExist
    have hpending := hat hstage turn hturn
    rwa [Stage.PairedAt, hcalls] at hpending
  | execute round record todosExist hstage => exact pairedAt_execute (hat hstage) todosExist
  | toolDone round record ending hstage => exact pairedAt_toolDone (hat hstage) ending
  | codeModeDone round record shown result isError stopped hstage =>
    exact pairedAt_codeModeDone (hat hstage) shown result isError stopped
  | finishRound round progress uncompleted denial loaded written hstage hcalls =>
    exact pairedAt_finishRound hs hstage hcalls progress uncompleted denial loaded written

end Invariant

/-! ## The result -/

/-- A request to the model is built. -/
def Label.isRequest : Label → Bool
  | .request _ | .retry | .requestSummary => true
  | _ => false

/-- Whenever a run from a state in which no step is running builds a request, the current turn is
paired. -/
def AlwaysPaired (cfg : AgentConfig) (s : AgentState) (labels : List Label) : Prop :=
  ∀ done label rest t, labels = done ++ label :: rest → label.isRequest = true →
    run (agentStep cfg) { s with stage := .idle } done = some t →
      (agentStep cfg t label).isSome = true →
        ∀ turn, t.ctx.currentTurn = some turn → Paired turn.messages

lemma paired_of_isRequest {cfg : AgentConfig} {s : AgentState} {label : Label} (hs : PairedAt s)
    (hrequest : label.isRequest = true) (henabled : (agentStep cfg s label).isSome = true)
    {turn : Turn Char} (hturn : s.ctx.currentTurn = some turn) : Paired turn.messages := by
  obtain ⟨s', h⟩ := Option.isSome_iff_exists.mp henabled
  have hat := hs turn hturn
  cases agentStep_move h with
  | requestSummary completed hstage => rwa [hstage] at hat
  | request tools hstage => rwa [hstage] at hat
  | retry attempt hstage => rwa [hstage] at hat
  | _ => cases hrequest

/-- The calls in the current turn of a request are answered, in every run of the loop. -/
theorem alwaysPaired (cfg : AgentConfig) (s : AgentState) (labels : List Label) :
    AlwaysPaired cfg s labels := by
  intro done label rest t _ hrequest hrun henabled turn hturn
  have hinitial : PairedAt { s with stage := .idle } := .of_stage fun _ => trivial
  have ht : PairedAt t := run_invariant PairedAt (fun _ _ _ hs hstep => hs.step hstep) hinitial hrun
  exact paired_of_isRequest ht hrequest henabled hturn

/-- A call without a name and one of an unknown tool, in front of the second request. -/
example : (run (agentStep (plainConfig false)) {} (firstRequest [] ++ [.opened,
      .event (.toolCall ({ name := " ".toList, args := .object [] }, none)),
      .event (.toolCall ({ name := "read_file".toList, args := .object [] }, none)), .event .done,
      .respond 0 none .whole, .nextCall true, .nextCall true,
      .finishRound none 0 none .empty .whole, .checkLoopGuards 0 .whole])).any fun t =>
    (agentStep (plainConfig false) t (.request [])).isSome &&
      t.ctx.currentTurn.any fun turn => turn.messages.map (fun message =>
        message.responses.map fun response => String.ofList response.name) =
          [[], [], ["unknown", "read_file"]] := by
  decide +kernel

end RustyClaw.AgentLoop
