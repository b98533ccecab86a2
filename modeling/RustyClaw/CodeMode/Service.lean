import RustyClaw.CodeMode.Cell
import RustyClaw.Library.Ledger
import RustyClaw.Library.Transition

/-!
# The code-mode service as a transition system

`CodeModeService` keeps one `SessionState` per session behind a single mutex.  Three kinds of
tasks work on it: calls of `execute`, `wait_with_request` and `abort_active_cell`, one host
task per cell (`run_cell_host`), and the worker thread that sends runtime events to its host.
The model is a partial labelled transition system whose labels name the task that moves, so a
run is an interleaving.  One label is one critical section of the sessions mutex together with
the code around it that no other task can observe; in particular

* recording a driver update and publishing its summary are two labels (`hostUpdate`,
  `hostPublish`), as they are two acquisitions of the mutex in the source;
* a woken `wait` reads the session in a label of its own (`readCellSummary`).

Clocks are part of the labels: whether an auto-flush interval has elapsed, whether a timeout
fires and when the deadline passes is up to the run.  Call identifiers name single calls and
are not reused.  A host task is named by its session and the sequence number of its cell,
which stands for the identity of its `Arc<CellHostHandle>`.

`ServiceState.log` is a ghost: no transition reads it.
-/

namespace RustyClaw.CodeMode

open Transition

variable {V : Type}

/-! ## State -/

structure HostId where
  sessionId : String
  seq : Nat
  deriving DecidableEq, Repr

/-- `format!("cell-{}", session.next_cell_seq)`. -/
def cellName (seq : Nat) : String := s!"cell-{seq}"

lemma cellName_injective : Function.Injective cellName := by
  intro m n h
  have hrepr : m.repr = n.repr := by simpa [cellName, ToString.toString] using h
  have hdigits := congrArg (fun text => Nat.ofDigitChars 10 text.toList 0) hrepr
  simpa [Nat.toList_repr] using hdigits

def HostId.cellId (host : HostId) : String := cellName host.seq

abbrev CallId := Nat

structure SessionState (V : Type) where
  nextCellSeq : Nat := 0
  storedValues : List (String × V) := []
  activeCell : Option (ActiveCellHandle V) := none
  hostHandle : Option HostId := none

structure PublicationTracker where
  autoFlushMs : Option Nat
  lastPublishedProgressSeq : Nat := 0
  latestProgressSeq : Nat := 0
  deriving DecidableEq, Repr

/-- The two ways a publication is followed up: whether the initial `execute` call is released
and whether the host loop goes on. -/
inductive PublicationKind where
  | progress | pendingTool | terminal | hostError
  deriving DecidableEq, Repr

/-- Where a host task is: in `next_update`, holding a summary it has not published yet, or
past its loop. -/
inductive HostPc (V : Type) where
  | polling
  | publishing (summary : ExecRunResult V) (kind : PublicationKind)
  | exited

structure HostTask (V : Type) where
  revision : Nat := 0
  cancelReason : Option String := none
  channel : List (RuntimeEvent V) := []
  tracker : PublicationTracker
  runtimeTimeoutMs : Nat
  initial : Option CallId
  pc : HostPc V := .polling

/-- The state of one `execute` or `wait_with_request` call. -/
inductive Call (V : Type) where
  | unused
  | executing (host : HostId)
  | waiting (host : HostId) (cellId : String) (revision : Nat) (timed : Bool)
  | reading (sessionId cellId : String) (preferPublication : Bool)
  | returned (result : Except ToolError (ExecRunResult V))
  | dropped

/-- What happens to the cells of the sessions: a terminal phase is recorded, a `wait` takes a
finished cell out of its session and returns a summary, a cell is aborted, a finished cell is
replaced by a new one. -/
abbrev Outcome (V : Type) := Ledger.Entry String String (ExecRunResult V)

structure ServiceState (V : Type) where
  sessions : String → Option (SessionState V)
  hosts : HostId → Option (HostTask V)
  calls : CallId → Call V
  log : List (Outcome V)

def ServiceState.init : ServiceState V :=
  { sessions := fun _ => none, hosts := fun _ => none, calls := fun _ => .unused, log := [] }

namespace ServiceState

def setSession (s : ServiceState V) (sessionId : String) (session : SessionState V) :
    ServiceState V :=
  { s with sessions := Function.update s.sessions sessionId (some session) }

def setHost (s : ServiceState V) (host : HostId) (task : HostTask V) : ServiceState V :=
  { s with hosts := Function.update s.hosts host (some task) }

def setCall (s : ServiceState V) (call : CallId) (state : Call V) : ServiceState V :=
  { s with calls := Function.update s.calls call state }

def record (s : ServiceState V) (outcome : Outcome V) : ServiceState V :=
  { s with log := s.log ++ [outcome] }

end ServiceState

/-! ## Looking a cell up -/

def noSessionError : ToolError :=
  .executionFailed "No code-mode session found for this session."

/-- `require_session_mut` followed by `require_active_cell` / `require_active_cell_mut`. -/
def ServiceState.requireActiveCell (s : ServiceState V) (sessionId cellId : String) :
    Except ToolError (SessionState V × ActiveCellHandle V) :=
  match s.sessions sessionId with
  | none => .error noSessionError
  | some session =>
    match session.activeCell with
    | none => .error (.executionFailed s!"No active code-mode cell `{cellId}` found.")
    | some cell =>
      if cell.cellId = cellId then .ok (session, cell)
      else
        .error (.executionFailed
          s!"Code mode cell `{cellId}` was superseded by `{cell.cellId}`.")

lemma ServiceState.requireActiveCell_eq_ok {s : ServiceState V} {sessionId cellId : String}
    {session : SessionState V} {cell : ActiveCellHandle V} :
    s.requireActiveCell sessionId cellId = .ok (session, cell) ↔
      s.sessions sessionId = some session ∧ session.activeCell = some cell ∧
        cell.cellId = cellId := by
  unfold requireActiveCell
  cases hsession : s.sessions sessionId with
  | none => simp
  | some session' =>
    cases hcell : session'.activeCell with
    | none => grind
    | some cell' => grind

/-! ## Calls -/

/-- The parameters of one `execute` call that the service reads. -/
structure ExecuteOptions where
  autoFlushMs : Option Nat
  timeoutNotice : Option String
  runtimeTimeoutMs : Nat
  deriving DecidableEq, Repr

/-- The new cell of a session and its host task. -/
def startCell (s : ServiceState V) (call : CallId) (sessionId : String)
    (session : SessionState V) (options : ExecuteOptions) : ServiceState V :=
  let host : HostId := { sessionId := sessionId, seq := session.nextCellSeq }
  let session : SessionState V :=
    { session with
      nextCellSeq := session.nextCellSeq + 1
      activeCell := some (.new host.cellId options.timeoutNotice)
      hostHandle := some host }
  let task : HostTask V :=
    { tracker := { autoFlushMs := options.autoFlushMs }
      runtimeTimeoutMs := options.runtimeTimeoutMs
      initial := some call }
  ((s.setSession sessionId session).setHost host task).setCall call (.executing host)

/-- `execute` up to the point where it waits for its initial summary: a live cell refuses the
call, a terminal one is dropped, and the new cell gets its host task. -/
def execute (s : ServiceState V) (call : CallId) (sessionId : String)
    (options : ExecuteOptions) : Option (ServiceState V) :=
  match s.calls call with
  | .unused =>
    let session := (s.sessions sessionId).getD {}
    match session.activeCell with
    | some cell =>
      if cell.isTerminal then
        some (startCell (s.record (.replaced sessionId cell.cellId)) call sessionId session
          options)
      else
        let err : ToolError := .executionFailed
          s!"Code mode cell `{cell.cellId}` is still active. Call `wait` until it completes."
        some (s.setCall call (.returned (.error err)))
    | none => some (startCell s call sessionId session options)
  | _ => none

/-- `CellDriverControl::request_cancel`, as far as the host task sees it. -/
def requestCancel (s : ServiceState V) (host : HostId) (reason : String) : ServiceState V :=
  match s.hosts host with
  | some task => s.setHost host { task with cancelReason := some reason }
  | none => s

/-- The critical section of `abort_active_cell`. -/
def removeActiveCell (s : ServiceState V) (sessionId : String) (session : SessionState V) :
    ServiceState V :=
  let cleared := s.setSession sessionId { session with activeCell := none, hostHandle := none }
  match session.activeCell with
  | some cell => cleared.record (.aborted sessionId cell.cellId)
  | none => cleared

/-- `abort_active_cell`.  The cancel request is sent after the mutex is released, but only the
driver of the cell reads it. -/
def abortActiveCell (s : ServiceState V) (sessionId reason : String) : ServiceState V :=
  match s.sessions sessionId with
  | none => s
  | some session =>
    match session.hostHandle with
    | some host => requestCancel (removeActiveCell s sessionId session) host reason
    | none => removeActiveCell s sessionId session

def hostExitedMessage : String :=
  "Code mode host task exited before publishing its initial state."

/-- `execute` when the sender of its initial summary is gone. -/
def executeFallback (s : ServiceState V) (call : CallId) : Option (ServiceState V) :=
  match s.calls call with
  | .executing host =>
    match s.hosts host with
    | some task =>
      if task.initial = none then
        some ((abortActiveCell s host.sessionId hostExitedMessage).setCall call
          (.returned (.error (.executionFailed hostExitedMessage))))
      else none
    | none => none
  | _ => none

/-- `wait_with_request` up to the point where it waits for an update: errors and a cell that
is already terminal are answered at once. -/
def waitWithRequest (s : ServiceState V) (call : CallId) (sessionId : String)
    (requestedCellId : Option String) (timed : Bool) : Option (ServiceState V) :=
  match s.calls call with
  | .unused =>
    let fail (message : String) : Option (ServiceState V) :=
      some (s.setCall call (.returned (.error (.executionFailed message))))
    match s.sessions sessionId with
    | none => fail "No code-mode session found for this session."
    | some session =>
      match session.activeCell with
      | none => fail "No active code-mode cell to wait on. Call `exec` first."
      | some cell =>
        let requested := requestedCellId.getD cell.cellId
        if requested ≠ cell.cellId then
          fail (s!"Cell ID mismatch: requested `{requested}` but active cell is " ++
            s!"`{cell.cellId}`.")
        else if cell.isTerminal then
          some (((s.setSession sessionId
            { session with activeCell := none, hostHandle := none }).setCall call
              (.returned (.ok cell.summary))).record
                (.delivered sessionId cell.cellId cell.summary))
        else
          match session.hostHandle with
          | none =>
            fail "Active cell has no background host. This is an internal error."
          | some host =>
            match s.hosts host with
            | some task => some (s.setCall call (.waiting host cell.cellId task.revision timed))
            | none => none
  | _ => none

/-- `wait_for_update_after` returns `true`: the revision is no longer the one it started
from. -/
def waitWake (s : ServiceState V) (call : CallId) : Option (ServiceState V) :=
  match s.calls call with
  | .waiting host cellId revision _ =>
    match s.hosts host with
    | some task =>
      if task.revision ≠ revision then
        some (s.setCall call (.reading host.sessionId cellId true))
      else none
    | none => none
  | _ => none

/-- The optional timeout of a `wait` elapses.  This may also happen between the increment of
the revision and the notification, so the revision is not looked at. -/
def waitTimeout (s : ServiceState V) (call : CallId) : Option (ServiceState V) :=
  match s.calls call with
  | .waiting host cellId _ true => some (s.setCall call (.reading host.sessionId cellId false))
  | _ => none

/-- `read_cell_summary`: the last publication if the call was woken by one, else the current
snapshot; a terminal cell leaves the session. -/
def readCellSummary (s : ServiceState V) (call : CallId) : Option (ServiceState V) :=
  match s.calls call with
  | .reading sessionId cellId preferPublication =>
    match s.requireActiveCell sessionId cellId with
    | .error err => some (s.setCall call (.returned (.error err)))
    | .ok (session, cell) =>
      let summary := cell.readSummary preferPublication
      let s := s.setCall call (.returned (.ok summary))
      if cell.isTerminal then
        some ((s.setSession sessionId
          { session with activeCell := none, hostHandle := none }).record
            (.delivered sessionId cellId summary))
      else some s
  | _ => none

/-- The future of a call is dropped by its caller. -/
def dropCall (s : ServiceState V) (call : CallId) : Option (ServiceState V) :=
  match s.calls call with
  | .executing _ | .waiting _ _ _ _ | .reading _ _ _ => some (s.setCall call .dropped)
  | _ => none

/-! ## The publication tracker -/

namespace PublicationTracker

def hasUnpublishedProgress (tracker : PublicationTracker) : Bool :=
  tracker.latestProgressSeq > tracker.lastPublishedProgressSeq

/-- `should_auto_flush_now`; `elapsed` says whether the interval has passed since the last
publication. -/
def shouldAutoFlushNow (tracker : PublicationTracker) (elapsed : Bool) : Bool :=
  tracker.autoFlushMs.isSome && tracker.hasUnpublishedProgress && elapsed

def markPublished (tracker : PublicationTracker) : PublicationTracker :=
  { tracker with lastPublishedProgressSeq := tracker.latestProgressSeq }

def observe (tracker : PublicationTracker) (seq : Nat) : PublicationTracker :=
  { tracker with latestProgressSeq := max tracker.latestProgressSeq seq }

/-- `observe_events`: the tracker afterwards and the value of the last explicit flush. -/
def observeEvents (tracker : PublicationTracker) (events : List (RuntimeEvent V)) :
    PublicationTracker × Option (Option V) :=
  events.foldl (fun (tracker, flushValue) event =>
    match event with
    | .text seq _ | .notification seq _ => (tracker.observe seq, flushValue)
    | .flush seq value => (tracker.observe seq, some value)
    | _ => (tracker, flushValue)) (tracker, none)

end PublicationTracker

/-! ## The host task -/

/-- The sender of the initial summary is used up; a call that is still there gets the
result. -/
def releaseInitial (s : ServiceState V) (task : HostTask V)
    (result : Except ToolError (ExecRunResult V)) : ServiceState V :=
  match task.initial with
  | some call =>
    match s.calls call with
    | .executing _ => s.setCall call (.returned result)
    | _ => s
  | none => s

/-- `fail_and_exit`. -/
def failAndExit (s : ServiceState V) (host : HostId) (task : HostTask V) (err : ToolError) :
    ServiceState V :=
  (releaseInitial s task (.error err)).setHost host { task with initial := none, pc := .exited }

/-- The worker sends an event to the host of its cell. -/
def workerEmit (s : ServiceState V) (host : HostId) (event : RuntimeEvent V) :
    Option (ServiceState V) :=
  (s.hosts host).map fun task => s.setHost host { task with channel := task.channel ++ [event] }

/-- What the loop does with a recorded update: the next position of the host task and its
tracker. -/
def followUp (snapshot : CellSnapshot V) (status : CellStatus V) (flushValue : Option (Option V))
    (tracker : PublicationTracker) (elapsed : Bool) :
    Except ToolError (PublicationTracker × HostPc V) :=
  match status with
  | .progress =>
    match flushValue with
    | some value =>
      .ok (tracker.markPublished,
        .publishing (snapshot.toExecResult (some .explicitFlush) value) .progress)
    | none =>
      if tracker.shouldAutoFlushNow elapsed then
        .ok (tracker.markPublished,
          .publishing (snapshot.toExecResult (some .autoFlush) none) .progress)
      else .ok (tracker, .polling)
  | .pendingTool =>
    if snapshot.lifecycle ≠ .running then
      .error (.executionFailed
        "Code mode entered a terminal state while dispatching a nested tool.")
    else .ok (tracker, .publishing (snapshot.toExecResult none none) .pendingTool)
  | .terminal _ => .ok (tracker, .publishing (snapshot.toExecResult none none) .terminal)
  | .idle => .ok (tracker, .polling)

/-- The session after `record_driver_update_in_session`. -/
def recordInSession (session : SessionState V) (cell : ActiveCellHandle V)
    (update : DriverUpdate V) : SessionState V :=
  { session with
    activeCell := some (cell.recordDriverUpdate update)
    storedValues := match update.status with
      | .terminal result => result.storedValues
      | _ => session.storedValues }

/-- A new terminal phase enters the ghost log with the summary of the cell. -/
def recordFinished (s : ServiceState V) (sessionId : String) (cell : ActiveCellHandle V) :
    ServiceState V :=
  if cell.isTerminal then s.record (.finished sessionId cell.cellId cell.summary) else s

/-- A host error that no update carries: `record_and_exit_host_error` up to its
publication. -/
def hostError (s : ServiceState V) (host : HostId) (task : HostTask V) (err : ToolError) :
    ServiceState V :=
  match s.requireActiveCell host.sessionId host.cellId with
  | .error _ => failAndExit s host task err
  | .ok (session, cell) =>
    let cell := cell.transitionToFailure err.display
    let s := s.setSession host.sessionId { session with activeCell := some cell }
    (recordFinished s host.sessionId cell).setHost host
      { task with pc := .publishing cell.summary .hostError }

/-- `next_update` returns and the host records the update in its session. -/
def hostUpdate (s : ServiceState V) (host : HostId) (elapsed : Bool) :
    Option (ServiceState V) :=
  match s.hosts host with
  | none => none
  | some task =>
    match task.pc, nextUpdate [] task.channel with
    | .polling, some (.ok update, channel) =>
      let (tracker, flushValue) := task.tracker.observeEvents update.events
      let task := { task with channel := channel, tracker := tracker }
      match s.requireActiveCell host.sessionId host.cellId with
      | .error err => some (failAndExit s host task err)
      | .ok (session, cell) =>
        let session := recordInSession session cell update
        let cell := cell.recordDriverUpdate update
        let s := recordFinished (s.setSession host.sessionId session) host.sessionId cell
        match followUp cell.snapshot update.status flushValue tracker elapsed with
        | .error err => some (failAndExit s host task err)
        | .ok (tracker, pc) => some (s.setHost host { task with tracker := tracker, pc := pc })
    | .polling, some (.error err, channel) =>
      some (hostError s host { task with channel := channel } err)
    | _, _ => none

/-- `next_update` runs into its idle timeout after receiving `received` events that end no
batch; they are lost.  With unpublished progress and an elapsed interval the host publishes
the current snapshot. -/
def hostIdle (s : ServiceState V) (host : HostId) (received : Nat) (elapsed : Bool) :
    Option (ServiceState V) :=
  match s.hosts host with
  | none => none
  | some task =>
    match task.pc, nextUpdate [] (task.channel.take received) with
    | .polling, none =>
      let task := { task with channel := task.channel.drop received }
      if task.tracker.shouldAutoFlushNow elapsed then
        match s.requireActiveCell host.sessionId host.cellId with
        | .error err => some (failAndExit s host task err)
        | .ok (_, cell) =>
          some (s.setHost host
            { task with
              tracker := task.tracker.markPublished
              pc := .publishing
                (cell.snapshot.toExecResult (some .autoFlush) none) .progress })
      else some (s.setHost host task)
    | _, _ => none

/-- The channel is closed without a completion event: the worker has panicked. -/
def hostChannelClosed (s : ServiceState V) (host : HostId) : Option (ServiceState V) :=
  match s.hosts host with
  | none => none
  | some task =>
    match task.pc, nextUpdate [] task.channel with
    | .polling, none =>
      let err : ToolError := .executionFailed <|
        if task.cancelReason.isSome then "Code mode cell execution was cancelled."
        else "Worker thread unexpectedly terminated."
      some (hostError s host { task with channel := [] } err)
    | _, _ => none

/-- `cancel_cell_for_runtime_deadline` up to its publication. -/
def hostDeadline (s : ServiceState V) (host : HostId) : Option (ServiceState V) :=
  match s.hosts host with
  | none => none
  | some task =>
    match task.pc with
    | .polling =>
      let reason := s!"Code mode cell exceeded its runtime limit of {task.runtimeTimeoutMs}ms " ++
        "and was cancelled by the system."
      let task := { task with cancelReason := some reason }
      match s.requireActiveCell host.sessionId host.cellId with
      | .error err => some (failAndExit s host task err)
      | .ok (session, cell) =>
        let cell := cell.transitionToCancelled reason
        let s := s.setSession host.sessionId { session with activeCell := some cell }
        some ((recordFinished s host.sessionId cell).setHost host
          { task with pc := .publishing cell.summary .terminal })
    | _ => none

/-- `publish_summary_update` and what follows it. -/
def hostPublish (s : ServiceState V) (host : HostId) : Option (ServiceState V) :=
  match s.hosts host with
  | none => none
  | some task =>
    match task.pc with
    | .publishing summary kind =>
      match s.requireActiveCell host.sessionId host.cellId with
      | .error err =>
        match kind with
        | .hostError =>
          some ((releaseInitial s task (.ok summary)).setHost host
            { task with initial := none, pc := .exited })
        | _ => some (failAndExit s host task err)
      | .ok (session, cell) =>
        let s := s.setSession host.sessionId
          { session with activeCell := some (cell.publish summary) }
        let task := { task with revision := task.revision + 1 }
        match kind with
        | .pendingTool => some (s.setHost host { task with pc := .polling })
        | .progress =>
          some ((releaseInitial s task (.ok summary)).setHost host
            { task with initial := none, pc := .polling })
        | .terminal | .hostError =>
          some ((releaseInitial s task (.ok summary)).setHost host
            { task with initial := none, pc := .exited })
    | _ => none

/-- The host task unwinds while it polls the driver; the sender of the initial summary is
dropped with it. -/
def hostDies (s : ServiceState V) (host : HostId) : Option (ServiceState V) :=
  match s.hosts host with
  | none => none
  | some task =>
    match task.pc with
    | .polling => some (s.setHost host { task with initial := none, pc := .exited })
    | _ => none

/-! ## The transition system -/

inductive ServiceLabel (V : Type) where
  | execute (call : CallId) (sessionId : String) (options : ExecuteOptions)
  | executeFallback (call : CallId)
  | waitWithRequest (call : CallId) (sessionId : String) (requestedCellId : Option String)
      (timed : Bool)
  | waitWake (call : CallId)
  | waitTimeout (call : CallId)
  | readCellSummary (call : CallId)
  | dropCall (call : CallId)
  | abortActiveCell (sessionId reason : String)
  | workerEmit (host : HostId) (event : RuntimeEvent V)
  | hostUpdate (host : HostId) (elapsed : Bool)
  | hostIdle (host : HostId) (received : Nat) (elapsed : Bool)
  | hostChannelClosed (host : HostId)
  | hostDeadline (host : HostId)
  | hostPublish (host : HostId)
  | hostDies (host : HostId)

def serviceStep (s : ServiceState V) : ServiceLabel V → Option (ServiceState V)
  | .execute call sessionId options => execute s call sessionId options
  | .executeFallback call => executeFallback s call
  | .waitWithRequest call sessionId requested timed =>
    waitWithRequest s call sessionId requested timed
  | .waitWake call => waitWake s call
  | .waitTimeout call => waitTimeout s call
  | .readCellSummary call => readCellSummary s call
  | .dropCall call => dropCall s call
  | .abortActiveCell sessionId reason => some (abortActiveCell s sessionId reason)
  | .workerEmit host event => workerEmit s host event
  | .hostUpdate host elapsed => hostUpdate s host elapsed
  | .hostIdle host received elapsed => hostIdle s host received elapsed
  | .hostChannelClosed host => hostChannelClosed s host
  | .hostDeadline host => hostDeadline s host
  | .hostPublish host => hostPublish s host
  | .hostDies host => hostDies s host

end RustyClaw.CodeMode
