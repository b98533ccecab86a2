import Mathlib.Data.List.Basic
import RustyClaw.Tools.Protocol

/-!
# Code-mode cells

A *cell* is one JavaScript program run by the `exec` tool.  Its worker thread reports
`RuntimeEvent`s over a channel, the driver groups them into `DriverUpdate`s, and the session
keeps an `ActiveCellHandle` that folds the updates into a phase and an event list.  What the
model gets to see is always an `ExecRunResult` computed from a snapshot of that handle.

JavaScript values cross these types without being inspected, so they are a type variable `V`
here (`serde_json::Value` in the source).  Sequence numbers and counters are `Nat`: the
counters are `u64`s that are only ever incremented by one.

The facts the later modules rely on are that the phase is terminal exactly when the
lifecycle of its summary is not `running`, and that only a terminal update, a host error or a
cancellation makes it so.
-/

namespace RustyClaw.CodeMode

/-! ## Runtime events -/

/-- What the worker reports when the program has run to its end. -/
structure RuntimeTerminalResult (V : Type) where
  returnValue : Option V
  runtimeError : Option String
  cancellationReason : Option String
  storedValues : List (String × V)
  deriving DecidableEq, Repr

/-- One nested tool call as the runtime hands it to the host. -/
structure ToolCallRequest where
  seq : Nat
  requestId : String
  toolName : String
  argsJson : String
  deriving DecidableEq, Repr

inductive RuntimeEvent (V : Type) where
  | text (seq : Nat) (text : String)
  | notification (seq : Nat) (message : String)
  | flush (seq : Nat) (value : Option V)
  | waitingForTimer (seq : Nat) (resumeAfterMs : Option Nat)
  | toolCallRequested (request : ToolCallRequest)
  | toolCallDone (seq : Nat) (requestId : String)
  | workerCompleted (result : Except String (RuntimeTerminalResult V))

variable {V : Type}

def RuntimeEvent.isVisibleInSnapshot : RuntimeEvent V → Bool
  | .workerCompleted _ | .waitingForTimer _ _ | .toolCallRequested _ | .toolCallDone _ _ => false
  | _ => true

/-! ## Driver updates -/

inductive CellStatus (V : Type) where
  | progress
  | pendingTool
  | terminal (result : RuntimeTerminalResult V)
  | idle

structure DriverUpdate (V : Type) where
  events : List (RuntimeEvent V)
  status : CellStatus V

/-- `CellDriver::classify_event`: the events collected so far, and whether `event` ends the
batch. -/
def classifyEvent (events : List (RuntimeEvent V)) (event : RuntimeEvent V) :
    Except ToolError (List (RuntimeEvent V) × Option (DriverUpdate V)) :=
  match event with
  | .toolCallRequested request =>
    .ok ([], some { events := events ++ [.toolCallRequested request], status := .pendingTool })
  | .workerCompleted (.ok terminalResult) =>
    .ok ([], some { events := events, status := .terminal terminalResult })
  | .workerCompleted (.error message) => .error (.executionFailed message)
  | .flush _ _ | .waitingForTimer _ _ =>
    .ok ([], some { events := events ++ [event], status := .progress })
  | _ => .ok (events ++ [event], none)

/-- `CellDriver::next_update` over the events it finds in the channel: the first event that
ends a batch ends the call and leaves the rest in the channel.  `none` means that the received
events are used up and the call is still waiting. -/
def nextUpdate (events : List (RuntimeEvent V)) :
    List (RuntimeEvent V) →
      Option (Except ToolError (DriverUpdate V) × List (RuntimeEvent V))
  | [] => none
  | event :: received =>
    match classifyEvent events event with
    | .error err => some (.error err, received)
    | .ok (_, some update) => some (.ok update, received)
    | .ok (events, none) => nextUpdate events received

/-! ## Summaries -/

inductive ExecLifecycle where
  | running | completed | failed | cancelled
  deriving DecidableEq, Repr

inductive ExecProgressKind where
  | explicitFlush | autoFlush
  deriving DecidableEq, Repr

/-- What `exec` and `wait` return. -/
structure ExecRunResult (V : Type) where
  cellId : String
  outputText : String
  returnValue : Option V
  flushValue : Option V
  lifecycle : ExecLifecycle
  progressKind : Option ExecProgressKind
  flushed : Bool
  waitingOnToolRequestId : Option String
  waitingOnTimerMs : Option Nat
  notifications : List String
  failure : Option String
  cancellation : Option String
  nestedToolCalls : Nat
  truncated : Bool
  deriving DecidableEq, Repr

inductive CellPhase (V : Type) where
  | running
  | waitingOnTool (requestId : String)
  | waitingOnTimer (nextDueInMs : Option Nat)
  | completed (returnValue : Option V)
  | failed (error : String)
  | cancelled (reason : String)
  deriving DecidableEq, Repr

def CellPhase.isTerminal : CellPhase V → Bool
  | .completed _ | .failed _ | .cancelled _ => true
  | _ => false

def CellPhase.lifecycle : CellPhase V → ExecLifecycle
  | .completed _ => .completed
  | .failed _ => .failed
  | .cancelled _ => .cancelled
  | _ => .running

lemma CellPhase.lifecycle_eq_running_iff (phase : CellPhase V) :
    phase.lifecycle = .running ↔ phase.isTerminal = false := by
  cases phase <;> simp [CellPhase.lifecycle, CellPhase.isTerminal]

structure CellSnapshot (V : Type) where
  cellId : String
  phase : CellPhase V
  recentEvents : List (RuntimeEvent V)
  nestedToolCalls : Nat

/-- `aggregate_events`: the texts joined by line breaks (an empty text adds none), and the
notifications in order. -/
def aggregateEvents (events : List (RuntimeEvent V)) : String × List String :=
  events.foldl (fun (outputText, notifications) event =>
    match event with
    | .text _ text =>
      let outputText :=
        if outputText ≠ "" ∧ text ≠ "" then outputText ++ "\n" else outputText
      (outputText ++ text, notifications)
    | .notification _ message => (outputText, notifications ++ [message])
    | _ => (outputText, notifications)) ("", [])

def CellSnapshot.lifecycle (snapshot : CellSnapshot V) : ExecLifecycle :=
  snapshot.phase.lifecycle

def CellSnapshot.waitingOnToolRequestId (snapshot : CellSnapshot V) : Option String :=
  match snapshot.phase with
  | .waitingOnTool requestId => some requestId
  | _ => none

def CellSnapshot.waitingOnTimerMs (snapshot : CellSnapshot V) : Option Nat :=
  match snapshot.phase with
  | .waitingOnTimer nextDueInMs => nextDueInMs
  | _ => none

def CellSnapshot.toExecResult (snapshot : CellSnapshot V)
    (progressKind : Option ExecProgressKind) (flushValue : Option V) : ExecRunResult V :=
  let (outputText, notifications) := aggregateEvents snapshot.recentEvents
  let (returnValue, failure, cancellation) :=
    match snapshot.phase with
    | .completed returnValue => (returnValue, none, none)
    | .failed error => (none, some error, none)
    | .cancelled reason => (none, none, some reason)
    | _ => (none, none, none)
  { cellId := snapshot.cellId
    outputText := outputText
    returnValue := returnValue
    flushValue := if progressKind = some .explicitFlush then flushValue else none
    lifecycle := snapshot.lifecycle
    progressKind := progressKind
    flushed := progressKind.isSome
    waitingOnToolRequestId := snapshot.waitingOnToolRequestId
    waitingOnTimerMs := snapshot.waitingOnTimerMs
    notifications := notifications
    failure := failure
    cancellation := cancellation
    nestedToolCalls := snapshot.nestedToolCalls
    truncated := false }

@[simp] lemma CellSnapshot.toExecResult_lifecycle (snapshot : CellSnapshot V)
    (kind : Option ExecProgressKind) (value : Option V) :
    (snapshot.toExecResult kind value).lifecycle = snapshot.phase.lifecycle := rfl

@[simp] lemma CellSnapshot.toExecResult_cellId (snapshot : CellSnapshot V)
    (kind : Option ExecProgressKind) (value : Option V) :
    (snapshot.toExecResult kind value).cellId = snapshot.cellId := rfl

/-! ## The active cell -/

/-- `ActiveCellHandle`: the session's record of the cell it runs. -/
structure ActiveCellHandle (V : Type) where
  cellId : String
  phase : CellPhase V
  events : List (RuntimeEvent V)
  lastPublication : Option (ExecRunResult V)

namespace ActiveCellHandle

def new (cellId : String) (initialNotification : Option String) : ActiveCellHandle V :=
  { cellId := cellId
    phase := .running
    events := match initialNotification with
      | some message => [.notification 0 message]
      | none => []
    lastPublication := none }

def isTerminal (cell : ActiveCellHandle V) : Bool :=
  cell.phase.isTerminal

def nestedToolCallCount (cell : ActiveCellHandle V) : Nat :=
  cell.events.countP fun event =>
    match event with
    | .toolCallRequested _ => true
    | _ => false

def recentEventBudgetChars : Nat := 8000

/-- The loop of `recent_visible_events`, from the newest event backwards: it stops at the
first visible event whose text does not fit the characters left. -/
def takeRecent : Nat → List (RuntimeEvent V) → List (RuntimeEvent V)
  | _, [] => []
  | budget, event :: older =>
    if event.isVisibleInSnapshot then
      let text :=
        match event with
        | .text _ text => text
        | .notification _ message => message
        | _ => ""
      if text.length > budget then [] else event :: takeRecent (budget - text.length) older
    else takeRecent budget older

def recentVisibleEvents (cell : ActiveCellHandle V) : List (RuntimeEvent V) :=
  (takeRecent recentEventBudgetChars cell.events.reverse).reverse

def snapshot (cell : ActiveCellHandle V) : CellSnapshot V :=
  { cellId := cell.cellId
    phase := cell.phase
    recentEvents := cell.recentVisibleEvents
    nestedToolCalls := cell.nestedToolCallCount }

/-- The summary `wait` falls back to: the snapshot without a progress mark. -/
def summary (cell : ActiveCellHandle V) : ExecRunResult V :=
  cell.snapshot.toExecResult none none

/-- What `read_cell_summary` returns for the cell. -/
def readSummary (cell : ActiveCellHandle V) (preferPublication : Bool) : ExecRunResult V :=
  if preferPublication then cell.lastPublication.getD cell.summary else cell.summary

def updatePhaseFromEvent (phase : CellPhase V) : RuntimeEvent V → CellPhase V
  | .text _ _ | .notification _ _ | .flush _ _ =>
    match phase with
    | .waitingOnTool _ | .waitingOnTimer _ => .running
    | _ => phase
  | .toolCallRequested request => .waitingOnTool request.requestId
  | .toolCallDone _ _ => .running
  | .waitingForTimer _ resumeAfterMs => .waitingOnTimer resumeAfterMs
  | .workerCompleted _ => phase

def recordEventBatch (cell : ActiveCellHandle V) (events : List (RuntimeEvent V)) :
    ActiveCellHandle V :=
  { cell with
    phase := events.foldl updatePhaseFromEvent cell.phase
    events := cell.events ++ events }

def terminalPhase (result : RuntimeTerminalResult V) : CellPhase V :=
  match result.runtimeError, result.cancellationReason with
  | some error, _ => .failed error
  | none, some reason => .cancelled reason
  | none, none => .completed result.returnValue

def recordDriverUpdate (cell : ActiveCellHandle V) (update : DriverUpdate V) :
    ActiveCellHandle V :=
  let cell := cell.recordEventBatch update.events
  match update.status with
  | .terminal result => { cell with phase := terminalPhase result }
  | _ => cell

def transitionToFailure (cell : ActiveCellHandle V) (error : String) : ActiveCellHandle V :=
  { cell with phase := .failed error }

def transitionToCancelled (cell : ActiveCellHandle V) (reason : String) : ActiveCellHandle V :=
  { cell with phase := .cancelled reason }

/-- What `publish_summary_update` stores. -/
def publish (cell : ActiveCellHandle V) (summary : ExecRunResult V) : ActiveCellHandle V :=
  { cell with lastPublication := some summary }

/-! ### What the operations keep and what they make terminal -/

lemma summary_lifecycle (cell : ActiveCellHandle V) :
    cell.summary.lifecycle = cell.phase.lifecycle := rfl

@[simp] lemma summary_publish (cell : ActiveCellHandle V) (published : ExecRunResult V) :
    (cell.publish published).summary = cell.summary := rfl

@[simp] lemma isTerminal_publish (cell : ActiveCellHandle V) (published : ExecRunResult V) :
    (cell.publish published).isTerminal = cell.isTerminal := rfl

lemma updatePhaseFromEvent_isTerminal {phase : CellPhase V} (hphase : phase.isTerminal = false)
    (event : RuntimeEvent V) : (updatePhaseFromEvent phase event).isTerminal = false := by
  cases event <;> cases phase <;> simp_all [updatePhaseFromEvent, CellPhase.isTerminal]

lemma foldl_updatePhase_isTerminal {phase : CellPhase V} (hphase : phase.isTerminal = false)
    (events : List (RuntimeEvent V)) :
    (events.foldl updatePhaseFromEvent phase).isTerminal = false := by
  induction events generalizing phase with
  | nil => exact hphase
  | cons event events ih => exact ih (updatePhaseFromEvent_isTerminal hphase event)

lemma terminalPhase_isTerminal (result : RuntimeTerminalResult V) :
    (terminalPhase result).isTerminal = true := by
  unfold terminalPhase
  split <;> rfl

/-- A live cell becomes terminal through a driver update exactly when the update says so. -/
lemma recordDriverUpdate_isTerminal {cell : ActiveCellHandle V}
    (hcell : cell.isTerminal = false) (update : DriverUpdate V) :
    (cell.recordDriverUpdate update).isTerminal = true ↔
      ∃ result, update.status = .terminal result := by
  have hlive : (update.events.foldl updatePhaseFromEvent cell.phase).isTerminal = false :=
    foldl_updatePhase_isTerminal hcell update.events
  obtain ⟨events, status⟩ := update
  cases status <;>
    simp_all [recordDriverUpdate, recordEventBatch, isTerminal, terminalPhase_isTerminal]

@[simp] lemma recordDriverUpdate_cellId (cell : ActiveCellHandle V) (update : DriverUpdate V) :
    (cell.recordDriverUpdate update).cellId = cell.cellId := by
  unfold recordDriverUpdate recordEventBatch
  split <;> rfl

@[simp] lemma recordDriverUpdate_lastPublication (cell : ActiveCellHandle V)
    (update : DriverUpdate V) :
    (cell.recordDriverUpdate update).lastPublication = cell.lastPublication := by
  unfold recordDriverUpdate recordEventBatch
  split <;> rfl

end ActiveCellHandle

end RustyClaw.CodeMode
