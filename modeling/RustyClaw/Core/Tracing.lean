import RustyClaw.Core.Loop
import RustyClaw.Library.Numbered
import RustyClaw.Trace.Record

/-!
# The spans of a step

`step` traces what it does: it starts a span for the run (unless a subagent takes part in the run of
its parent) and one for the turn, one for each iteration, and in them one for each request to the
model and for each tool.  To start and to finish a span is to publish a record; a handle that is
dropped publishes nothing.  The spans of the run and the turn are kept in `active_trace`, the others
in local variables, and each way out of `step` has to finish what it holds.

Not all of them do.  `balanced_iff_closesSpans` says that the spans of the steps of a run are
balanced if and only if none of the steps takes one of five ways out: a request that fails for good,
a request that is cancelled, a response that leaks the canary or has nothing to show, a round that
the execution guard has stopped, and a round after which the user is asked.

The trace is kept beside the state of the loop, for one call of `step` at a time.  It has the
records of the spans, without their attributes; events that are no span are left out, and so are the
spans of the cells of code mode, which run in the background.
-/

namespace RustyClaw.AgentLoop

open Context Glyph Streaming Transition
open Json hiding str
open Trace (TraceActor TraceKind TraceStatus)

/-! ## Spans and their records -/

/-- The spans of a step are numbered; a subagent knows the one that it was spawned in. -/
inductive SpanId where
  | inherited (id : List Char)
  | own (n : Nat)
  deriving DecidableEq, Repr

/-- The part of a `TraceContext` that changes within a run. -/
structure SpanContext where
  iteration : Option Nat
  parentSpanId : Option SpanId
  deriving DecidableEq, Repr

structure TraceSpanHandle where
  ctx : SpanContext
  actor : TraceActor
  spanId : Nat
  deriving DecidableEq, Repr

structure SpanRecord where
  kind : TraceKind
  span : TraceSpanHandle
  name : String
  status : TraceStatus
  summary : Option (List Char)
  deriving DecidableEq, Repr

structure ActiveTrace where
  runSpan : Option TraceSpanHandle
  turnSpan : Option TraceSpanHandle

structure TraceSeed where
  parentSpanId : Option (List Char)

/-- What a call of `step` has traced since `begin_trace_run`, and the handles that it has. -/
structure StepTrace where
  records : List SpanRecord := []
  nextSpan : Nat := 0
  iterations : Nat := 0
  activeTrace : Option ActiveTrace := none
  iterationSpan : Option TraceSpanHandle := none
  llmSpan : Option TraceSpanHandle := none
  toolSpan : Option TraceSpanHandle := none

def TraceSpanHandle.childContext (span : TraceSpanHandle) : SpanContext :=
  { span.ctx with parentSpanId := some (.own span.spanId) }

def RunExit.label : RunExit → String
  | .finished _ => "finished"
  | .stoppedByUser => "stopped_by_user"
  | .yieldedToUser => "yielded_to_user"
  | .recoverableFailed _ => "recoverable_failed"
  | .criticallyFailed _ => "critically_failed"
  | .autopilotStalled _ => "autopilot_stalled"
  | .energyDepleted _ => "energy_depleted"

/-- How `finalize_exit` finishes the active trace. -/
def RunExit.runEnd : RunExit → String × TraceStatus × List Char
  | .finished summary => ("run_finished", .ok, summary)
  | .stoppedByUser => ("run_cancelled", .cancelled, "stopped_by_user".toList)
  | .yieldedToUser => ("run_finished", .yielded, "yielded_to_user".toList)
  | .recoverableFailed message | .criticallyFailed message | .autopilotStalled message
  | .energyDepleted message => ("run_failed", .error, message)

def traceActor (cfg : AgentConfig) : TraceActor := if cfg.isSubagent then .subagent else .mainAgent

namespace StepTrace

variable (t : StepTrace)

def newSpan (ctx : SpanContext) (actor : TraceActor) : TraceSpanHandle := ⟨ctx, actor, t.nextSpan⟩

def startSpan (span : TraceSpanHandle) (name : String) : StepTrace :=
  { t with
    records := t.records ++ [⟨.spanStart, span, name, .running, none⟩]
    nextSpan := t.nextSpan + 1 }

def finishSpan (span : Option TraceSpanHandle) (name : String) (status : TraceStatus)
    (summary : Option (List Char)) : StepTrace :=
  match span with
  | none => t
  | some span => { t with records := t.records ++ [⟨.spanEnd, span, name, status, summary⟩] }

/-! ### The active trace -/

/-- The span of the run is left out when its parent has one. -/
def beginTraceRun (cfg : AgentConfig) (traceSeed : Option TraceSeed) : StepTrace :=
  let t : StepTrace := {}
  match if cfg.isSubagent then traceSeed else none with
  | none =>
    let runSpan := t.newSpan ⟨none, none⟩ (traceActor cfg)
    let t := t.startSpan runSpan "run_started"
    let turnSpan := t.newSpan ⟨none, some (.own runSpan.spanId)⟩ (traceActor cfg)
    { t.startSpan turnSpan "turn_started" with activeTrace := some ⟨some runSpan, some turnSpan⟩ }
  | some seed =>
    let turnSpan := t.newSpan ⟨none, seed.parentSpanId.map .inherited⟩ (traceActor cfg)
    { t.startSpan turnSpan "turn_started" with activeTrace := some ⟨none, some turnSpan⟩ }

def finishActiveTrace (endName : String) (status : TraceStatus) (summary : Option (List Char)) :
    StepTrace :=
  match t.activeTrace with
  | none => t
  | some active =>
    let t := { t with activeTrace := none }
    (t.finishSpan active.turnSpan "turn_finished" status summary).finishSpan active.runSpan endName
      status summary

def finalizeExit (exit : RunExit) : StepTrace :=
  t.finishActiveTrace exit.runEnd.1 exit.runEnd.2.1 (some exit.runEnd.2.2)

/-! ### The spans in a turn -/

def startIteration (actor : TraceActor) : StepTrace :=
  match t.activeTrace with
  | none => t
  | some active =>
    let ctx : SpanContext := ⟨some t.iterations, active.turnSpan.map fun span => .own span.spanId⟩
    let span := t.newSpan ctx actor
    { t.startSpan span "iteration_started" with iterationSpan := some span }

def finishIteration (status : TraceStatus) (summary : Option String) : StepTrace :=
  { t.finishSpan t.iterationSpan "iteration_finished" status (summary.map (·.toList)) with
    iterationSpan := none }

def startRequest : StepTrace :=
  match t.iterationSpan with
  | none => t
  | some iteration =>
    let span := t.newSpan iteration.childContext .llm
    { t.startSpan span "llm_request_started" with llmSpan := some span }

def finishRequest (status : TraceStatus) (summary : List Char) : StepTrace :=
  { t.finishSpan t.llmSpan "llm_request_finished" status (some summary) with llmSpan := none }

def requestFailed (cfg : AgentConfig) (message : List Char) : StepTrace :=
  t.finishRequest (if isTransientLlmError cfg message then .retrying else .error)
    (truncateChars message 240)

def startTool : StepTrace :=
  match t.iterationSpan with
  | none => t
  | some iteration =>
    let span := t.newSpan iteration.childContext .tool
    { t.startSpan span "tool_started" with toolSpan := some span }

def finishTool (name : String) (status : TraceStatus) (summary : List Char) : StepTrace :=
  { t.finishSpan t.toolSpan name status (some summary) with toolSpan := none }

/-- A tool has an outcome; `stopped` is asked for outside of code mode only. -/
def toolDone (stopped isError : Bool) (result : List Char) : StepTrace :=
  t.finishTool
    (if stopped then "tool_cancelled" else if isError then "tool_failed" else "tool_finished")
    (if stopped then .cancelled else if isError then .error else .ok) (truncateChars result 240)

/-! ### What the loop traces

The branch that the loop has taken is read off from the stage that it has reached.
-/

def afterGuards : Stage → StepTrace
  | .returned (.ok exit) => t.finalizeExit exit
  | _ => { t with iterations := t.iterations + 1 }

def afterSummary : Stage → StepTrace
  | .returned (.ok exit) => t.finalizeExit exit
  | _ => t

/-- `handle_empty_iteration_response` has taken the response. -/
def afterEmptyResponse : Stage → StepTrace
  | .returned (.ok exit) => (t.finalizeExit exit).finishIteration .error exit.label
  | _ => t.finishIteration .retrying (RunExit.recoverableFailed []).label

/-- `record_model_turn_and_maybe_yield` has taken the response: of its exits only the answer goes by
way of `finalize_finished_run`. -/
def afterModelTurn : Stage → StepTrace
  | .returned (.ok (.finished summary)) =>
    (t.finalizeExit (.finished summary)).finishIteration .ok (RunExit.finished summary).label
  | .returned (.ok .yieldedToUser) => t.finishIteration .yielded RunExit.yieldedToUser.label
  | .returned (.ok exit) => t.finishIteration .error exit.label
  | .guards => t.finishIteration .retrying "text code mode protocol error"
  | _ => t

def afterRound : Stage → StepTrace
  | .returned (.ok (.autopilotStalled _)) => t
  | .returned (.ok (.finished summary)) =>
    (t.finishIteration .ok "finished").finalizeExit (.finished summary)
  | .returned _ => t.finishIteration .yielded "awaiting user input"
  | _ => t.finishIteration .ok none

/-- The dispatch of a call starts with the span of its tool. -/
def nextCall (cfg : AgentConfig) (s : AgentState) (round : Round) (record : ToolCallRecord)
    (todosExist : Bool) : StepTrace :=
  if round.skipRemaining then t
  else
    let (call, thought) := extractToolThought record.1
    let s := showToolThought s thought
    let name := String.ofList call.name
    if trim call.name = [] then t
    else
      match (toolExecutor cfg s).autopilotDenialForCall todosExist name call.args.json with
      | some _ => t
      | none =>
        if ((toolExecutor cfg s).findTool name).isNone then t
        else if s.cancelled then
          t.startTool.finishTool "tool_cancelled" .cancelled interruptedMessage.toList
        else t.startTool

/-- A call that is not executed has its outcome at once. -/
def execute (cfg : AgentConfig) (s : AgentState) (round : Round) (record : ToolCallRecord)
    (todosExist : Bool) : StepTrace :=
  if isCodeModeTool record.1.name then t
  else
    match (toolExecutor cfg s).checkRequest todosExist round.budget (executionRequest record) with
    | .error message => t.toolDone false true message.toList
    | .ok _ => t

def executed (cfg : AgentConfig) (s : AgentState) (record : ToolCallRecord)
    (ending : UnifiedToolExecutor.InvokeEnd) : StepTrace :=
  let (_, outcome) :=
    (toolExecutor cfg s).concludeExecute s.executionGuard (executionRequest record) ending
  t.toolDone outcome.stopped outcome.isError outcome.result.toList

def codeModeDone (cfg : AgentConfig) (s : AgentState) (record : ToolCallRecord)
    (result : List Char) (isError : Bool) : StepTrace :=
  let (_, signal) := (toolExecutor cfg s).recordActionOutcome s.executionGuard
    (String.ofList record.1.name) record.1.args.json isError
  match signal with
  | some signal => t.toolDone false true signal.message.toList
  | none => t.toolDone false isError result

end StepTrace

/-- What a step of the loop from `s` to `s'` adds to the trace. -/
def traceStep (cfg : AgentConfig) (s s' : AgentState) (label : Label) (t : StepTrace) : StepTrace :=
  match s.stage, label with
  | .guards, .checkLoopGuards _ _ => t.afterGuards s'.stage
  | .summarizing _, .summaryDone _ _ _ _ => t.afterSummary s'.stage
  | .preparing, .request _ => (t.startIteration (traceActor cfg)).startRequest
  | .backingOff _, .retry => t.startRequest
  | .opening _, .openFailed message => t.requestFailed cfg message
  | .streaming _ _, .event (.error message) => t.requestFailed cfg (streamErrorText message)
  | .streaming _ acc, .event .done =>
    t.finishRequest .ok (truncateChars (closeThinkBlock acc.text) 240)
  | _, .notified _ =>
    (t.finishRequest .cancelled "cancelled".toList).finishIteration .cancelled
      RunExit.stoppedByUser.label
  | .responded text toolCalls, .respond _ _ _ =>
    if trim text = [] ∧ toolCalls = [] then t.afterEmptyResponse s'.stage
    else t.afterModelTurn s'.stage
  | .round round, .nextCall todosExist =>
    match round.calls with
    | [] => t
    | record :: calls => t.nextCall cfg s { round with calls } record todosExist
  | .dispatching round record, .execute todosExist => t.execute cfg s round record todosExist
  | .executing _ record, .toolDone ending => t.executed cfg s record ending
  | .inCodeMode _ record, .codeModeDone _ result isError _ =>
    t.codeModeDone cfg s record result isError
  | .round _, .finishRound _ _ _ _ _ => t.afterRound s'.stage
  | _, _ => t

/-! ## The loop with its trace -/

structure TracedState where
  agent : AgentState
  /-- of the present call of `step`, when it has reached `begin_trace_run` -/
  trace : Option StepTrace

def nextTrace (cfg : AgentConfig) (traceSeed : Option TraceSeed) (u : TracedState)
    (s' : AgentState) : Label → Option StepTrace
  | .call _ _ => none
  | .startTurn _ _ _ => some (.beginTraceRun cfg traceSeed)
  | label => u.trace.map (traceStep cfg u.agent s' label)

def tracedStep (cfg : AgentConfig) (traceSeed : Option TraceSeed) (u : TracedState)
    (label : Label) : Option TracedState :=
  (agentStep cfg u.agent label).map fun s' => ⟨s', nextTrace cfg traceSeed u s' label⟩

/-! ## What is promised -/

def SpanRecord.starts (k : Nat) (record : SpanRecord) : Bool :=
  decide (record.kind = .spanStart ∧ record.span.spanId = k)

def SpanRecord.ends (k : Nat) (record : SpanRecord) : Bool :=
  decide (record.kind = .spanEnd ∧ record.span.spanId = k)

/-- There is no active trace, and each span has been started and then finished once. -/
structure StepTrace.Balanced (t : StepTrace) : Prop where
  activeTrace : t.activeTrace = none
  answered : ∀ k < t.nextSpan, Requests.Answered SpanRecord.starts SpanRecord.ends k t.records

/-- When `step` has returned, the spans it has started are balanced. -/
def TracedState.Balanced (u : TracedState) : Prop :=
  ∀ result t, u.agent.stage = .returned result → u.trace = some t → t.Balanced

/-- What is shown of the response. -/
def visibleAnswer (text : List Char) : List Char := trim ((stripThinkBlocks text).getD [])

/-- The step does not return without having finished its spans. -/
def ClosesSpans (cfg : AgentConfig) (s : AgentState) : Label → Prop
  | .openFailed message => ∀ attempt, s.stage = .opening attempt →
    retries cfg message attempt = true
  | .event (.error message) => ∀ attempt acc, s.stage = .streaming attempt acc →
    retries cfg (streamErrorText message) attempt = true
  | .notified _ => False
  | .respond _ _ _ => ∀ text toolCalls, s.stage = .responded text toolCalls →
    trim text = [] ∧ toolCalls = [] ∨
      canaryLeaked cfg text toolCalls = false ∧ (toolCalls = [] → visibleAnswer text ≠ [])
  | .finishRound _ uncompleted denial _ _ => ∀ round, s.stage = .round round →
    round.responses.any isMeltdown = false ∧
      (round.shouldYieldToUser = true →
        s.task.status = "finished".toList ∧ finishDenial cfg uncompleted denial = none)
  | _ => True

/-! ## The spans that are open -/

namespace StepTrace

/-- All spans of the trace are finished but these. -/
def Tracked (t : StepTrace) (spans : List TraceSpanHandle) : Prop :=
  Requests.Held SpanRecord.starts SpanRecord.ends t.nextSpan (spans.map (·.spanId)) t.records

/-- The spans of the run and the turn are open, and in them these. -/
def Nested (t : StepTrace) (inner : List TraceSpanHandle) : Prop :=
  ∃ runSpan turnSpan, t.activeTrace = some ⟨runSpan, some turnSpan⟩ ∧
    t.Tracked (inner ++ turnSpan :: runSpan.toList)

end StepTrace

/-- Which spans are open at a place in the loop. -/
inductive Depth where
  | turn | iteration | request | tool

/-- `none`: outside of the loop. -/
def Stage.depth : Stage → Option Depth
  | .guards | .reporting _ | .summarizing _ | .preparing => some .turn
  | .backingOff _ | .responded _ _ | .round _ => some .iteration
  | .opening _ | .streaming _ _ | .showingThought _ _ _ => some .request
  | .dispatching _ _ | .executing _ _ | .inCodeMode _ _ => some .tool
  | .idle | .acquired | .starting _ | .returned _ => none

def StepTrace.At (t : StepTrace) : Depth → Prop
  | .turn => t.Nested []
  | .iteration => ∃ iteration, t.iterationSpan = some iteration ∧ t.Nested [iteration]
  | .request => ∃ iteration request, t.iterationSpan = some iteration ∧
    t.llmSpan = some request ∧ t.Nested [request, iteration]
  | .tool => ∃ iteration tool, t.iterationSpan = some iteration ∧ t.toolSpan = some tool ∧
    t.Nested [tool, iteration]

section Spans

variable {t : StepTrace} {spans inner : List TraceSpanHandle} {span : TraceSpanHandle}

lemma starts_iff {k : Nat} {record : SpanRecord} :
    record.starts k = true ↔ record.kind = .spanStart ∧ record.span.spanId = k := decide_eq_true_iff

lemma ends_iff {k : Nat} {record : SpanRecord} :
    record.ends k = true ↔ record.kind = .spanEnd ∧ record.span.spanId = k := decide_eq_true_iff

/-- A record is about its own span only. -/
lemma about_other {record : SpanRecord} {k : Nat} (h : k ≠ record.span.spanId) :
    record.starts k = false ∧ record.ends k = false := by
  constructor
  · exact Bool.eq_false_iff.mpr fun hstarts => h (starts_iff.mp hstarts).2.symm
  · exact Bool.eq_false_iff.mpr fun hends => h (ends_iff.mp hends).2.symm

namespace StepTrace

lemma Tracked.perm {spans' : List TraceSpanHandle} (h : t.Tracked spans)
    (hperm : spans.Perm spans') : t.Tracked spans' :=
  Requests.Held.perm h (hperm.map _)

lemma Tracked.startSpan (h : t.Tracked spans) (ctx : SpanContext) (actor : TraceActor)
    (name : String) :
    (t.startSpan (t.newSpan ctx actor) name).Tracked (t.newSpan ctx actor :: spans) := by
  apply Requests.Held.open h
  · exact starts_iff.mpr ⟨rfl, rfl⟩
  · exact fun k hk => about_other hk

lemma Tracked.finishSpan (h : t.Tracked (span :: spans)) (name : String) (status : TraceStatus)
    (summary : Option (List Char)) :
    (t.finishSpan (some span) name status summary).Tracked spans := by
  apply Requests.Held.close h
  · exact Bool.eq_false_iff.mpr fun hstarts => by cases (starts_iff.mp hstarts).1
  · exact ends_iff.mpr ⟨rfl, rfl⟩
  · exact fun k hk => about_other hk

/-- When all spans are finished, and the active trace is gone. -/
lemma Tracked.balanced (h : t.Tracked []) (hactive : t.activeTrace = none) : t.Balanced :=
  ⟨hactive, fun _ hk => Requests.Held.answered h hk⟩

lemma Nested.startSpan (h : t.Nested inner) (ctx : SpanContext) (actor : TraceActor)
    (name : String) :
    (t.startSpan (t.newSpan ctx actor) name).Nested (t.newSpan ctx actor :: inner) := by
  obtain ⟨runSpan, turnSpan, hactive, htracked⟩ := h
  exact ⟨runSpan, turnSpan, hactive, htracked.startSpan ctx actor name⟩

lemma Nested.finishSpan (h : t.Nested (span :: inner)) (name : String) (status : TraceStatus)
    (summary : Option (List Char)) :
    (t.finishSpan (some span) name status summary).Nested inner := by
  obtain ⟨runSpan, turnSpan, hactive, htracked⟩ := h
  exact ⟨runSpan, turnSpan, hactive, htracked.finishSpan name status summary⟩

/-- The spans of the turn and the run are finished from under the inner ones. -/
lemma Nested.finalizeExit (h : t.Nested inner) (exit : RunExit) :
    (t.finalizeExit exit).Tracked inner ∧ (t.finalizeExit exit).activeTrace = none ∧
      (t.finalizeExit exit).iterationSpan = t.iterationSpan := by
  obtain ⟨runSpan, turnSpan, hactive, htracked⟩ := h
  have hturn : ({ t with activeTrace := none } : StepTrace).Tracked
      (turnSpan :: (inner ++ runSpan.toList)) := htracked.perm List.perm_middle
  have hrest := hturn.finishSpan "turn_finished" exit.runEnd.2.1 (some exit.runEnd.2.2)
  unfold StepTrace.finalizeExit finishActiveTrace
  rw [hactive]
  cases runSpan with
  | none =>
    refine ⟨?_, rfl, rfl⟩
    rw [Option.toList_none, List.append_nil] at hrest
    exact hrest
  | some run =>
    refine ⟨?_, rfl, rfl⟩
    have hrun := hrest.perm (List.perm_append_singleton run inner)
    exact hrun.finishSpan exit.runEnd.1 exit.runEnd.2.1 (some exit.runEnd.2.2)

/-! ### Into the loop and out of it -/

lemma at_beginTraceRun (cfg : AgentConfig) (traceSeed : Option TraceSeed) :
    (beginTraceRun cfg traceSeed).At .turn := by
  have hempty : ({} : StepTrace).Tracked [] := Requests.Held.empty
  unfold beginTraceRun
  dsimp only
  split
  · exact ⟨_, _, rfl, (hempty.startSpan ⟨none, none⟩ (traceActor cfg) "run_started").startSpan _ _
      "turn_started"⟩
  · exact ⟨_, _, rfl, hempty.startSpan _ _ "turn_started"⟩

lemma At.startIteration (h : t.At .turn) (actor : TraceActor) :
    (t.startIteration actor).At .iteration := by
  obtain ⟨runSpan, turnSpan, hactive, -⟩ := id h
  unfold StepTrace.startIteration
  rw [hactive]
  exact ⟨_, rfl, Nested.startSpan h _ actor "iteration_started"⟩

lemma At.startRequest (h : t.At .iteration) : t.startRequest.At .request := by
  obtain ⟨iteration, hiteration, hnested⟩ := h
  unfold StepTrace.startRequest
  rw [hiteration]
  exact ⟨iteration, _, hiteration, rfl, hnested.startSpan _ .llm "llm_request_started"⟩

lemma At.startTool (h : t.At .iteration) : t.startTool.At .tool := by
  obtain ⟨iteration, hiteration, hnested⟩ := h
  unfold StepTrace.startTool
  rw [hiteration]
  exact ⟨iteration, _, hiteration, rfl, hnested.startSpan _ .tool "tool_started"⟩

lemma At.finishRequest (h : t.At .request) (status : TraceStatus) (summary : List Char) :
    (t.finishRequest status summary).At .iteration := by
  obtain ⟨iteration, request, hiteration, hrequest, hnested⟩ := h
  have hnext := hnested.finishSpan "llm_request_finished" status (some summary)
  unfold StepTrace.finishRequest
  rw [hrequest]
  exact ⟨iteration, hiteration, hnext⟩

lemma At.finishTool (h : t.At .tool) (name : String) (status : TraceStatus)
    (summary : List Char) : (t.finishTool name status summary).At .iteration := by
  obtain ⟨iteration, tool, hiteration, htool, hnested⟩ := h
  have hnext := hnested.finishSpan name status (some summary)
  unfold StepTrace.finishTool
  rw [htool]
  exact ⟨iteration, hiteration, hnext⟩

lemma At.finishIteration (h : t.At .iteration) (status : TraceStatus) (summary : Option String) :
    (t.finishIteration status summary).At .turn := by
  obtain ⟨iteration, hiteration, hnested⟩ := h
  have hnext := hnested.finishSpan "iteration_finished" status (summary.map (·.toList))
  unfold StepTrace.finishIteration
  rw [hiteration]
  exact hnext

lemma At.balanced_finalizeExit (h : t.At .turn) (exit : RunExit) :
    (t.finalizeExit exit).Balanced := by
  obtain ⟨htracked, hactive, -⟩ := Nested.finalizeExit h exit
  exact htracked.balanced hactive

/-- The iteration can be finished behind the turn. -/
lemma At.balanced_finishIteration (h : t.At .iteration) (exit : RunExit) (status : TraceStatus)
    (summary : Option String) :
    ((t.finalizeExit exit).finishIteration status summary).Balanced := by
  obtain ⟨iteration, hiteration, hnested⟩ := h
  obtain ⟨htracked, hactive, hsame⟩ := hnested.finalizeExit exit
  have hnext := htracked.finishSpan "iteration_finished" status (summary.map (·.toList))
  unfold StepTrace.finishIteration
  rw [hsame, hiteration]
  exact Tracked.balanced hnext hactive

/-- In the loop there is an active trace. -/
lemma At.not_balanced {depth : Depth} (h : t.At depth) : ¬ t.Balanced := by
  intro hbalanced
  have hnested : ∃ inner, t.Nested inner := by
    cases depth with
    | turn => exact ⟨_, h⟩
    | iteration =>
      obtain ⟨_, _, hnested⟩ := h
      exact ⟨_, hnested⟩
    | request | tool =>
      obtain ⟨_, _, _, _, hnested⟩ := h
      exact ⟨_, hnested⟩
  obtain ⟨_, _, _, hactive, -⟩ := hnested
  rw [hbalanced.activeTrace] at hactive
  cases hactive

end StepTrace

end Spans

/-! ## A step of the loop

Each move goes on at a place where the spans are open that belong to it, or returns; and then the
spans are balanced if the condition says so.
-/

/-- The loop goes on, or it returns. -/
inductive Goes (cfg : AgentConfig) (s s' : AgentState) (label : Label) (t' : StepTrace) : Prop where
  | on (depth : Depth) (hdepth : s'.stage.depth = some depth) (ht : t'.At depth)
    (hcloses : ClosesSpans cfg s label)
  | out (result : Except (List Char) RunExit) (hstage : s'.stage = .returned result)
    (hbalanced : t'.Balanced ↔ ClosesSpans cfg s label)

section Moves

variable {cfg : AgentConfig} {s s' : AgentState} {t : StepTrace}

lemma goes_checkLoopGuards (hstage : s.stage = .guards) (ht : t.At .turn) (completed : Nat)
    (written : Written) :
    Goes cfg s (checkLoopGuards cfg s completed written) (.checkLoopGuards completed written)
      (traceStep cfg s (checkLoopGuards cfg s completed written)
        (.checkLoopGuards completed written) t) := by
  unfold traceStep
  rw [hstage]
  cases hcancelled : s.cancelled with
  | true =>
    rw [checkLoopGuards_of_cancelled _ _ hcancelled]
    exact .out _ rfl (iff_of_true (ht.balanced_finalizeExit _) trivial)
  | false =>
    obtain ⟨energyPoints, output, stage, heq, rfl | ⟨completed, rfl⟩⟩ :=
      exists_checkLoopGuards cfg s hcancelled completed written
    · rw [heq]
      exact .on .turn rfl ht trivial
    · rw [heq]
      exact .on .turn rfl ht trivial

lemma goes_summaryDone {completed : Option Nat} (hstage : s.stage = .summarizing completed)
    (ht : t.At .turn) (summary : List Char) (written : Written) (archived : Nat → Written)
    (uuid : List Char) :
    Goes cfg s (summaryDone cfg s completed summary written archived uuid)
      (.summaryDone summary written archived uuid)
      (traceStep cfg s (summaryDone cfg s completed summary written archived uuid)
        (.summaryDone summary written archived uuid) t) := by
  unfold traceStep
  rw [hstage]
  cases completed with
  | none => exact .out _ rfl (iff_of_true (ht.balanced_finalizeExit _) trivial)
  | some completed =>
    obtain ⟨files, ctx, output, heq, -⟩ :=
      exists_summaryDone cfg s completed summary written archived uuid
    rw [heq]
    exact .on .turn rfl ht trivial

/-- A request has failed; the span of the request is finished, and no other. -/
lemma goes_handleLlmError {label : Label} {message : List Char} {attempt : Nat}
    (ht : t.At .iteration)
    (hcloses : ClosesSpans cfg s label ↔ retries cfg message attempt = true)
    (s₀ : AgentState) : Goes cfg s (handleLlmError cfg s₀ message attempt) label t := by
  cases hretries : retries cfg message attempt with
  | true =>
    rw [handleLlmError_of_retries hretries]
    exact .on .iteration rfl ht (hcloses.mpr hretries)
  | false =>
    rw [handleLlmError_of_not_retries hretries]
    refine .out _ rfl (iff_of_false ht.not_balanced fun h => ?_)
    rw [hcloses.mp h] at hretries
    cases hretries

lemma goes_openFailed {attempt : Nat} (hstage : s.stage = .opening attempt) (ht : t.At .request)
    (message : List Char) :
    Goes cfg s (handleLlmError cfg s message attempt) (.openFailed message)
      (traceStep cfg s (handleLlmError cfg s message attempt) (.openFailed message) t) := by
  unfold traceStep
  rw [hstage]
  refine goes_handleLlmError (ht.finishRequest _ _) ?_ s
  constructor
  · intro h
    exact h attempt hstage
  · intro h attempt' hstage'
    obtain rfl := Stage.opening.inj (hstage.symm.trans hstage')
    exact h

lemma goes_event {attempt : Nat} {acc : StreamAcc Char ToolCallRecord}
    (hstage : s.stage = .streaming attempt acc) (ht : t.At .request)
    (event : StreamEvent Char ToolCallRecord) :
    Goes cfg s (handleEvent cfg { s with woken := false } attempt acc event) (.event event)
      (traceStep cfg s (handleEvent cfg { s with woken := false } attempt acc event)
        (.event event) t) := by
  unfold traceStep
  rw [hstage]
  cases event with
  | error message =>
    refine goes_handleLlmError (ht.finishRequest _ _) ?_ _
    constructor
    · intro h
      exact h attempt acc hstage
    · intro h attempt' acc' hstage'
      obtain ⟨rfl, -⟩ := Stage.streaming.inj (hstage.symm.trans hstage')
      exact h
  | done => exact .on .iteration rfl (ht.finishRequest _ _) trivial
  | text => exact .on .request rfl ht trivial
  | thought => exact .on .request rfl ht trivial
  | toolCall => exact .on .request rfl ht trivial

lemma goes_notified (hstage : (∃ attempt, s.stage = .opening attempt) ∨
      ∃ attempt acc, s.stage = .streaming attempt acc) (ht : t.At .request) (written : Written) :
    Goes cfg s (s.finalizeExit .stoppedByUser written) (.notified written)
      (traceStep cfg s (s.finalizeExit .stoppedByUser written) (.notified written) t) := by
  have hnext := (ht.finishRequest .cancelled "cancelled".toList).finishIteration .cancelled
    RunExit.stoppedByUser.label
  unfold traceStep
  obtain ⟨attempt, hstage⟩ | ⟨attempt, acc, hstage⟩ := hstage
  · rw [hstage]
    exact .out _ rfl (iff_of_false hnext.not_balanced id)
  · rw [hstage]
    exact .out _ rfl (iff_of_false hnext.not_balanced id)

/-! ### The response -/

variable (cfg) in
lemma closesSpans_respond_iff {text : List Char} {toolCalls : List ToolCallRecord}
    (hstage : s.stage = .responded text toolCalls) (uncompleted : Nat)
    (denial : Option (List Char)) (written : Written) :
    ClosesSpans cfg s (.respond uncompleted denial written) ↔
      trim text = [] ∧ toolCalls = [] ∨
        canaryLeaked cfg text toolCalls = false ∧ (toolCalls = [] → visibleAnswer text ≠ []) := by
  constructor
  · intro h
    exact h text toolCalls hstage
  · intro h text' toolCalls' hstage'
    obtain ⟨rfl, rfl⟩ := Stage.responded.inj (hstage.symm.trans hstage')
    exact h

lemma goes_respond {text : List Char} {toolCalls : List ToolCallRecord}
    (hstage : s.stage = .responded text toolCalls) (ht : t.At .iteration) {uncompleted : Nat}
    {denial : Option (List Char)} {written : Written}
    (h : respond cfg s text toolCalls uncompleted denial written = some s') :
    Goes cfg s s' (.respond uncompleted denial written)
      (traceStep cfg s s' (.respond uncompleted denial written) t) := by
  have hcloses := closesSpans_respond_iff cfg hstage uncompleted denial written
  obtain ⟨visibleText, hvisible, rfl⟩ := Option.map_eq_some_iff.mp h
  have hanswer : visibleAnswer text = trim visibleText := by rw [visibleAnswer, hvisible]; rfl
  unfold traceStep
  rw [hstage]
  dsimp only
  by_cases hempty : trim text = [] ∧ toolCalls = []
  · rw [if_pos hempty, if_pos hempty]
    have hyes := hcloses.mpr (.inl hempty)
    split
    · exact .out _ rfl (iff_of_true (ht.balanced_finishIteration _ _ _) hyes)
    · exact .on .turn rfl (ht.finishIteration _ _) hyes
  rw [if_neg hempty, if_neg hempty]
  rw [or_iff_right hempty, hanswer] at hcloses
  cases hcanary : canaryLeaked cfg text toolCalls with
  | true =>
    refine .out _ rfl (iff_of_false (ht.finishIteration _ _).not_balanced fun hno => ?_)
    have hfalse := (hcloses.mp hno).1
    rw [hcanary] at hfalse
    cases hfalse
  | false =>
    rw [if_neg Bool.false_ne_true]
    rw [and_iff_right hcanary] at hcloses
    by_cases hcalls : toolCalls = []
    · rw [if_pos hcalls]
      rw [imp_iff_right hcalls] at hcloses
      unfold recordAnswer
      by_cases hshown : trim visibleText = []
      · rw [if_pos hshown]
        refine .out _ rfl (iff_of_false (ht.finishIteration _ _).not_balanced fun hno => ?_)
        exact hcloses.mp hno hshown
      · rw [if_neg hshown]
        have hyes := hcloses.mpr hshown
        split
        · exact .on .iteration rfl ht hyes
        · exact .out _ rfl (iff_of_true (ht.balanced_finishIteration _ _ _) hyes)
    · rw [if_neg hcalls]
      have hyes := hcloses.mpr fun hnil => absurd hnil hcalls
      unfold recordCalls
      dsimp only
      split
      · exact .on .turn rfl (ht.finishIteration _ _) hyes
      · exact .on .iteration rfl ht hyes

/-! ### The round of the tools -/

lemma depth_concludeCall (s : AgentState) (round : Round) (record : ToolCallRecord)
    (outcome : ToolDispatchOutcome) :
    (concludeCall s round record outcome).stage.depth = some .iteration := by
  obtain ⟨output, heq⟩ := exists_concludeCall s round record outcome
  rw [heq]
  rfl

lemma StepTrace.At.toolDone (ht : t.At .tool) (stopped isError : Bool) (result : List Char) :
    (t.toolDone stopped isError result).At .iteration := ht.finishTool _ _ _

variable (cfg s) in
/-- A call is answered, or it is about to be executed. -/
lemma exists_depth_nextCall (ht : t.At .iteration) (round : Round) (record : ToolCallRecord)
    (todosExist : Bool) :
    ∃ depth, (nextCall cfg s round record todosExist).stage.depth = some depth ∧
      (t.nextCall cfg s round record todosExist).At depth := by
  unfold nextCall StepTrace.nextCall
  split
  · exact ⟨.iteration, rfl, ht⟩
  dsimp only
  split
  · exact ⟨.iteration, rfl, ht⟩
  generalize toolExecutor cfg (showToolThought s (extractToolThought record.1).2) = executor
  generalize executor.autopilotDenialForCall todosExist
    (String.ofList (extractToolThought record.1).1.name)
    (extractToolThought record.1).1.args.json = denial
  cases denial with
  | some reason => exact ⟨.iteration, rfl, ht⟩
  | none =>
    dsimp only
    split
    · exact ⟨.iteration, depth_concludeCall .., ht⟩
    split
    · exact ⟨.iteration, depth_concludeCall .., ht.startTool.finishTool _ _ _⟩
    · exact ⟨.tool, rfl, ht.startTool⟩

variable (cfg s) in
lemma exists_depth_execute (ht : t.At .tool) (round : Round) (record : ToolCallRecord)
    (todosExist : Bool) :
    ∃ depth, (execute cfg s round record todosExist).stage.depth = some depth ∧
      (t.execute cfg s round record todosExist).At depth := by
  unfold execute StepTrace.execute
  split
  · exact ⟨.tool, rfl, ht⟩
  generalize (toolExecutor cfg s).checkRequest todosExist round.budget (executionRequest record) =
    checked
  cases checked with
  | error message => exact ⟨.iteration, depth_concludeCall .., ht.toolDone _ _ _⟩
  | ok left => exact ⟨.tool, rfl, ht⟩

lemma at_codeModeDone (ht : t.At .tool) (record : ToolCallRecord) (result : List Char)
    (isError : Bool) : (t.codeModeDone cfg s record result isError).At .iteration := by
  unfold StepTrace.codeModeDone
  dsimp only
  split
  · exact ht.toolDone _ _ _
  · exact ht.toolDone _ _ _

variable (cfg) in
lemma closesSpans_finishRound_iff {round : Round} (hstage : s.stage = .round round)
    (progress : Option (Nat × Nat)) (uncompleted : Nat) (denial : Option (List Char))
    (loaded : TaskStateSnapshot) (written : Written) :
    ClosesSpans cfg s (.finishRound progress uncompleted denial loaded written) ↔
      round.responses.any isMeltdown = false ∧
        (round.shouldYieldToUser = true →
          s.task.status = "finished".toList ∧ finishDenial cfg uncompleted denial = none) := by
  constructor
  · intro h
    exact h round hstage
  · intro h round' hstage'
    obtain rfl := Stage.round.inj (hstage.symm.trans hstage')
    exact h

/-- The round did not finish the run: the user is asked, or the loop goes on. -/
lemma goes_continueRun {label : Label} (ht : t.At .iteration) (s₀ : AgentState) (round : Round)
    (loaded : TaskStateSnapshot) (written : Written)
    (hcloses : ClosesSpans cfg s label ↔ round.shouldYieldToUser = false) :
    Goes cfg s (continueRun cfg s₀ round loaded written) label
      (t.afterRound (continueRun cfg s₀ round loaded written).stage) := by
  unfold continueRun
  cases hyield : round.shouldYieldToUser with
  | true =>
    refine .out _ rfl (iff_of_false (ht.finishIteration _ _).not_balanced fun h => ?_)
    rw [hcloses, hyield] at h
    cases h
  | false => exact .on .turn rfl (ht.finishIteration _ _) (hcloses.mpr hyield)

lemma goes_finishRound {round : Round} (hstage : s.stage = .round round) (ht : t.At .iteration)
    (progress : Option (Nat × Nat)) (uncompleted : Nat) (denial : Option (List Char))
    (loaded : TaskStateSnapshot) (written : Written) :
    Goes cfg s (finishRound cfg s round progress uncompleted denial loaded written)
      (.finishRound progress uncompleted denial loaded written)
      (traceStep cfg s (finishRound cfg s round progress uncompleted denial loaded written)
        (.finishRound progress uncompleted denial loaded written) t) := by
  have hcloses :=
    closesSpans_finishRound_iff cfg hstage progress uncompleted denial loaded written
  unfold traceStep
  rw [hstage]
  dsimp only
  obtain ⟨output, hreport⟩ := exists_reportProgress cfg s progress
  unfold finishRound
  rw [hreport]
  dsimp only
  cases hmeltdown : round.responses.any isMeltdown with
  | true =>
    refine .out _ rfl (iff_of_false ht.not_balanced fun h => ?_)
    have hfalse := (hcloses.mp h).1
    rw [hmeltdown] at hfalse
    cases hfalse
  | false =>
    rw [if_neg Bool.false_ne_true]
    rw [and_iff_right hmeltdown] at hcloses
    generalize hadded : (if round.responses = [] then { s with output } else
      ({ s with output } : AgentState).addMessage (functionMessage round.responses)) = added
    have htask : added.task = s.task := by
      rw [← hadded]
      split
      · rfl
      · rfl
    rw [htask]
    by_cases hfinished : s.task.status = "finished".toList
    · rw [if_pos hfinished]
      simp only [hfinished, true_and] at hcloses
      cases hdenial : finishDenial cfg uncompleted denial with
      | some reason =>
        refine goes_continueRun ht _ round loaded written ?_
        rw [hcloses, hdenial, ← Bool.not_eq_true]
        exact forall_congr' fun _ => iff_of_false (fun h => by cases h) id
      | none =>
        have hbalanced := (ht.finishIteration .ok (some "finished")).balanced_finalizeExit
          (.finished s.task.summary)
        exact .out _ rfl (iff_of_true hbalanced (hcloses.mpr fun _ => hdenial))
    · rw [if_neg hfinished]
      refine goes_continueRun ht _ round loaded written ?_
      rw [hcloses, ← Bool.not_eq_true]
      exact forall_congr' fun _ => iff_of_false (fun h => hfinished h.1) id

/-! ### Every step -/

/-- What happens outside of `step` is not traced. -/
lemma traceStep_eq {label : Label} (hlabel : label = .cancel ∨ label = .nestedCall ∨
      label = .cellEnded) : traceStep cfg s s' label t = t := by
  unfold traceStep
  obtain rfl | rfl | rfl := hlabel
  · cases s.stage <;> rfl
  · cases s.stage <;> rfl
  · cases s.stage <;> rfl

lemma running_of_depth {stage : Stage} {depth : Depth} (h : stage.depth = some depth) :
    stage.running = true := by
  cases stage with
  | idle | returned => cases h
  | _ => rfl

lemma goes_step {depth : Depth} (hdepth : s.stage.depth = some depth) (ht : t.At depth)
    {label : Label} (h : AgentMove cfg s label s') :
    Goes cfg s s' label (traceStep cfg s s' label t) := by
  cases h with
  | cancel =>
    rw [traceStep_eq (.inl rfl)]
    exact .on depth hdepth ht trivial
  | nestedCall =>
    rw [traceStep_eq (.inr (.inl rfl))]
    exact .on depth hdepth ht trivial
  | cellEnded =>
    rw [traceStep_eq (.inr (.inr rfl))]
    exact .on depth hdepth ht trivial
  | acquireForeground hstage =>
    rw [running_of_depth hdepth] at hstage
    cases hstage
  | call _ _ hstage | beforeTurnStart _ _ hstage | startTurn _ _ _ _ hstage =>
    rw [hstage] at hdepth
    cases hdepth
  | checkLoopGuards completed written hstage =>
    rw [hstage] at hdepth
    cases hdepth
    exact goes_checkLoopGuards hstage ht completed written
  | requestSummary completed hstage =>
    rw [hstage] at hdepth
    cases hdepth
    unfold traceStep
    rw [hstage]
    exact .on .turn rfl ht trivial
  | summaryDone completed summary written archived uuid hstage =>
    rw [hstage] at hdepth
    cases hdepth
    exact goes_summaryDone hstage ht summary written archived uuid
  | maybeCompactHistory numTurns archived uuid hstage =>
    rw [hstage] at hdepth
    cases hdepth
    obtain ⟨files, ctx, output, heq, -⟩ := exists_maybeCompactHistory cfg s numTurns archived uuid
    unfold traceStep
    rw [hstage, heq]
    exact .on .turn (by rw [hstage]; rfl) ht trivial
  | request tools hstage =>
    rw [hstage] at hdepth
    cases hdepth
    unfold traceStep
    rw [hstage]
    exact .on .request rfl (ht.startIteration _).startRequest trivial
  | opened attempt hstage =>
    rw [hstage] at hdepth
    cases hdepth
    unfold traceStep
    rw [hstage]
    exact .on .request rfl ht trivial
  | openFailed attempt message hstage =>
    rw [hstage] at hdepth
    cases hdepth
    exact goes_openFailed hstage ht message
  | event attempt acc event hstage =>
    rw [hstage] at hdepth
    cases hdepth
    exact goes_event hstage ht event
  | thoughtShown attempt acc content hstage =>
    rw [hstage] at hdepth
    cases hdepth
    unfold traceStep
    rw [hstage]
    exact .on .request rfl ht trivial
  | notified written hstage _ =>
    have hrequest : s.stage.depth = some .request := by
      obtain ⟨_, heq⟩ | ⟨_, _, heq⟩ := hstage
      · rw [heq]
        rfl
      · rw [heq]
        rfl
    obtain rfl := Option.some_inj.mp (hdepth.symm.trans hrequest)
    exact goes_notified hstage ht written
  | retry attempt hstage =>
    rw [hstage] at hdepth
    cases hdepth
    unfold traceStep
    rw [hstage]
    exact .on .request rfl ht.startRequest trivial
  | respond text toolCalls uncompleted denial written s' hstage hs' =>
    rw [hstage] at hdepth
    cases hdepth
    exact goes_respond hstage ht hs'
  | nextCall round record calls todosExist hstage hcalls =>
    rw [hstage] at hdepth
    cases hdepth
    obtain ⟨depth, hnext, hat⟩ :=
      exists_depth_nextCall cfg s ht { round with calls } record todosExist
    unfold traceStep
    rw [hstage]
    dsimp only
    rw [hcalls]
    exact .on depth hnext hat trivial
  | execute round record todosExist hstage =>
    rw [hstage] at hdepth
    cases hdepth
    obtain ⟨depth, hnext, hat⟩ :=
      exists_depth_execute cfg s ht round record todosExist
    unfold traceStep
    rw [hstage]
    exact .on depth hnext hat trivial
  | toolDone round record ending hstage =>
    rw [hstage] at hdepth
    cases hdepth
    unfold traceStep
    rw [hstage]
    exact .on .iteration (depth_concludeCall ..) (ht.toolDone _ _ _) trivial
  | codeModeDone round record shown result isError stopped hstage =>
    rw [hstage] at hdepth
    cases hdepth
    obtain ⟨_, _, _, _, heq⟩ := exists_codeModeDone cfg s round record shown result isError stopped
    unfold traceStep
    rw [hstage, heq]
    exact .on .iteration (depth_concludeCall ..) (at_codeModeDone ht record result isError) trivial
  | finishRound round progress uncompleted denial loaded written hstage _ =>
    rw [hstage] at hdepth
    cases hdepth
    exact goes_finishRound hstage ht progress uncompleted denial loaded written

end Moves

/-! ## Runs -/

/-- In the loop the spans of the place are open; in front of `begin_trace_run` there is no trace. -/
structure TracedState.Located (u : TracedState) : Prop where
  inside : ∀ depth, u.agent.stage.depth = some depth → ∃ t, u.trace = some t ∧ t.At depth
  starting : ∀ goal, u.agent.stage = .starting goal → u.trace = none

section Runs

variable {cfg : AgentConfig} {traceSeed : Option TraceSeed} {u u' : TracedState} {label : Label}

/-- Outside of the loop, and nothing traced. -/
lemma located_of_none {s : AgentState} (hdepth : s.stage.depth = none) :
    TracedState.Located ⟨s, none⟩ ∧ TracedState.Balanced ⟨s, none⟩ := by
  refine ⟨⟨fun depth h => ?_, fun _ _ => rfl⟩, fun result t _ h => ?_⟩
  · rw [hdepth] at h
    cases h
  · cases h

variable (cfg) in
lemma depth_beginStep (s : AgentState) (goal : List Char) (completed : Nat) :
    (beginStep cfg s goal completed).stage.depth = none := by
  unfold beginStep
  dsimp only
  split
  · rfl
  split
  · rfl
  · rfl

lemma depth_beforeTurnStart {s : AgentState} {goal : List Char} (hstage : s.stage = .starting goal)
    (decision : ExtensionDecision) : (beforeTurnStart s decision).stage.depth = none := by
  have hnone : s.stage.depth = none := by rw [hstage]; rfl
  cases decision with
  | goOn => exact hnone
  | intercept promptOverlay =>
    cases promptOverlay with
    | none => exact hnone
    | some overlay => rfl
  | halt message => rfl

/-- A step in the loop. -/
lemma balanced_of_inside {depth : Depth} (hu : u.Located)
    (hdepth : u.agent.stage.depth = some depth) (h : tracedStep cfg traceSeed u label = some u') :
    u'.Located ∧ (u'.Balanced ↔ ClosesSpans cfg u.agent label) := by
  obtain ⟨t, htrace, ht⟩ := hu.inside depth hdepth
  obtain ⟨s', hs', rfl⟩ := Option.map_eq_some_iff.mp h
  have hmove := agentStep_move hs'
  have hgoes := goes_step hdepth ht hmove
  have hnext : nextTrace cfg traceSeed u s' label = some (traceStep cfg u.agent s' label t) := by
    unfold nextTrace
    rw [htrace]
    cases hmove with
    | call _ _ hstage | startTurn _ _ _ _ hstage =>
      rw [hstage] at hdepth
      cases hdepth
    | _ => rfl
  rw [hnext]
  cases hgoes with
  | on depth' hdepth' hat hcloses =>
    refine ⟨⟨fun depth'' h => ?_, fun goal hstage => ?_⟩, iff_of_true (fun result _ hstage _ => ?_)
      hcloses⟩
    · obtain rfl := Option.some_inj.mp (hdepth'.symm.trans h)
      exact ⟨_, rfl, hat⟩
    · rw [hstage] at hdepth'
      cases hdepth'
    · rw [hstage] at hdepth'
      cases hdepth'
  | out result hstage hbalanced =>
    refine ⟨⟨fun depth' h => ?_, fun goal hstage' => ?_⟩, Iff.trans ⟨fun h => ?_, fun h => ?_⟩
      hbalanced⟩
    · rw [hstage] at h
      cases h
    · rw [hstage] at hstage'
      cases hstage'
    · exact h result _ hstage rfl
    · intro _ t' _ ht'
      obtain rfl := Option.some_inj.mp ht'
      exact h

/-- A step outside of the loop. -/
lemma balanced_of_outside (hu : u.Located) (hdepth : u.agent.stage.depth = none)
    (h : tracedStep cfg traceSeed u label = some u') :
    u'.Located ∧ (u.Balanced → (u'.Balanced ↔ ClosesSpans cfg u.agent label)) := by
  obtain ⟨agent, trace⟩ := u
  obtain ⟨s', hs', rfl⟩ := Option.map_eq_some_iff.mp h
  have hsame : ∀ {label}, label = .cancel ∨ label = .nestedCall ∨ label = .cellEnded →
      trace.map (traceStep cfg agent s' label) = trace := by
    intro label hlabel
    cases trace with
    | none => rfl
    | some t => exact congrArg some (traceStep_eq hlabel)
  cases agentStep_move hs' with
  | cancel =>
    dsimp only [nextTrace]
    rw [hsame (.inl rfl)]
    exact ⟨⟨hu.inside, hu.starting⟩, fun hb => iff_of_true hb trivial⟩
  | nestedCall =>
    dsimp only [nextTrace]
    rw [hsame (.inr (.inl rfl))]
    exact ⟨⟨hu.inside, hu.starting⟩, fun hb => iff_of_true hb trivial⟩
  | cellEnded =>
    dsimp only [nextTrace]
    rw [hsame (.inr (.inr rfl))]
    exact ⟨⟨hu.inside, hu.starting⟩, fun hb => iff_of_true hb trivial⟩
  | acquireForeground =>
    refine ⟨⟨fun _ h => ?_, fun _ h => ?_⟩, fun _ => iff_of_true (fun _ _ h => ?_) trivial⟩
    · cases h
    · cases h
    · cases h
  | call goal completed =>
    obtain ⟨hlocated, hbalanced⟩ :=
      located_of_none (depth_beginStep cfg agent goal completed)
    exact ⟨hlocated, fun _ => iff_of_true hbalanced trivial⟩
  | beforeTurnStart goal decision hstage =>
    have htrace : trace = none := hu.starting goal hstage
    subst htrace
    obtain ⟨hlocated, hbalanced⟩ := located_of_none (depth_beforeTurnStart hstage decision)
    exact ⟨hlocated, fun _ => iff_of_true hbalanced trivial⟩
  | startTurn goal turnId loaded taskId =>
    refine ⟨⟨fun depth h => ?_, fun _ h => ?_⟩, fun _ => iff_of_true (fun _ _ h => ?_) trivial⟩
    · cases h
      exact ⟨_, rfl, StepTrace.at_beginTraceRun cfg traceSeed⟩
    · cases h
    · cases h
  | notified _ hstage _ =>
    obtain ⟨_, hstage⟩ | ⟨_, _, hstage⟩ := hstage
    · rw [hstage] at hdepth
      cases hdepth
    · rw [hstage] at hdepth
      cases hdepth
  | checkLoopGuards _ _ hstage | requestSummary _ hstage | summaryDone _ _ _ _ _ hstage
  | maybeCompactHistory _ _ _ hstage | request _ hstage | opened _ hstage | openFailed _ _ hstage
  | event _ _ _ hstage | thoughtShown _ _ _ hstage | retry _ hstage
  | respond _ _ _ _ _ _ hstage _ | nextCall _ _ _ _ hstage _ | execute _ _ _ hstage
  | toolDone _ _ _ hstage | codeModeDone _ _ _ _ _ _ hstage | finishRound _ _ _ _ _ _ hstage _ =>
    rw [hstage] at hdepth
    cases hdepth

/-- Every step keeps the spans where they belong, and is balanced when the condition says so. -/
lemma located_tracedStep (hu : u.Located) (h : tracedStep cfg traceSeed u label = some u') :
    u'.Located ∧ (u.Balanced → (u'.Balanced ↔ ClosesSpans cfg u.agent label)) := by
  cases hdepth : u.agent.stage.depth with
  | none => exact balanced_of_outside hu hdepth h
  | some depth =>
    obtain ⟨hlocated, hiff⟩ := balanced_of_inside hu hdepth h
    exact ⟨hlocated, fun _ => hiff⟩

/-- The spans of every step of a run are balanced when it returns, exactly when no step of the run
takes a way out that leaves spans open. -/
theorem balanced_iff_closesSpans {s : AgentState} {labels : List Label}
    (hrun : run (tracedStep cfg traceSeed) ⟨betweenSteps s, none⟩ labels = some u) :
    (∀ pre post v, labels = pre ++ post →
        run (tracedStep cfg traceSeed) ⟨betweenSteps s, none⟩ pre = some v → v.Balanced) ↔
      Along (tracedStep cfg traceSeed) (fun v label => ClosesSpans cfg v.agent label)
        ⟨betweenSteps s, none⟩ labels := by
  obtain ⟨hlocated, hbalanced⟩ := located_of_none (s := betweenSteps s) rfl
  exact forall_states_iff_along TracedState.Located
    (fun _ _ _ hu h => (located_tracedStep hu h).1)
    (fun _ _ _ hu hb h => (located_tracedStep hu h).2 hb) hlocated hbalanced hrun

end Runs

/-! ## A response that is cancelled -/

section Examples

def answeredRequest : List Label :=
  firstRequest [] ++ [.opened, .event (.text "Done".toList), .event .done, .respond 0 none .whole]

theorem balanced_iff_closesSpans_answeredRequest :
    ∃ u,
      run (tracedStep (plainConfig false) none) ⟨betweenSteps {}, none⟩ answeredRequest = some u ∧
      ((∀ pre post v, answeredRequest = pre ++ post →
          run (tracedStep (plainConfig false) none) ⟨betweenSteps {}, none⟩ pre = some v →
            v.Balanced) ↔
        Along (tracedStep (plainConfig false) none)
          (fun v label => ClosesSpans (plainConfig false) v.agent label)
          ⟨betweenSteps {}, none⟩ answeredRequest) :=
  ⟨_, rfl, balanced_iff_closesSpans rfl⟩

def cancelledRequest : List Label := firstRequest [] ++ [.opened, .cancel, .notified .whole]

/-- The spans of the run and the turn are left open. -/
theorem not_balanced_cancelledRequest :
    ¬ ∀ (cfg : AgentConfig) (traceSeed : Option TraceSeed) (s : AgentState) (labels : List Label)
      (u : TracedState),
      run (tracedStep cfg traceSeed) ⟨betweenSteps s, none⟩ labels = some u → u.Balanced := by
  intro h
  obtain ⟨u, hu⟩ : ∃ u, run (tracedStep (plainConfig false) none) ⟨betweenSteps {}, none⟩
    cancelledRequest = some u := ⟨_, rfl⟩
  have hseen : (run (tracedStep (plainConfig false) none) ⟨betweenSteps {}, none⟩
      cancelledRequest).map (fun u => (u.agent.stage, u.trace.map (·.activeTrace.isSome))) =
        some (.returned (.ok .stoppedByUser), some true) := rfl
  rw [hu] at hseen
  obtain ⟨hstage, hactive⟩ := Prod.mk.inj (Option.some_inj.mp hseen)
  obtain ⟨t, htrace, hsome⟩ := Option.map_eq_some_iff.mp hactive
  have hbalanced := h _ _ _ _ u hu _ t hstage htrace
  rw [hbalanced.activeTrace] at hsome
  cases hsome

end Examples

end RustyClaw.AgentLoop
