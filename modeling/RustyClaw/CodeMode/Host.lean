import RustyClaw.CodeMode.Cell
import RustyClaw.Library.Requests
import RustyClaw.Library.Transition
import RustyClaw.Tools.Invocation
import Mathlib.Data.List.Nodup

/-!
# Nested tool calls of one cell

The JavaScript program of a cell may start any number of nested tool calls before it awaits
any of them.  Each of them is a future that runs `ExecutorCellRuntimeHost::call_tool`: it
reports `ToolCallRequested`, parses its arguments, tests the cancel flag and then the deadline
of the cell, queues on the lock of the cell's executor, and only with the lock in its hand
asks the executor to run the tool.  It reports `ToolCallDone` on its way out.

The model has one step for every point at which something else may happen in between, so a run
is an interleaving of the calls with a cancel request (an abort, a driver cancel, the drop of
the driver), with the passing of the deadline and with the end of the runtime.  The lock is
fair: it goes to the calls in the order in which they queued.  When the program's promise is
settled or interrupted the runtime drops the futures that are left, wherever they are.

The time a tool may take, `min 85 s (rest of the cell's time)`, is not a number here: an
executing tool may time out at any moment.  When nothing is left of the cell's time the timeout
is zero, but a timeout polls its future once before it looks at the clock, so the tool still
begins.
-/

namespace RustyClaw.CodeMode

open UnifiedToolExecutor (InvokeEnd)

variable {V : Type}

/-! ## States -/

/-- Where the future of a nested call stands. -/
inductive CallPhase where
  | spawned
  | requested
  | testingFlag (args : Json Char)
  | testingDeadline (args : Json Char)
  | queued (args : Json Char)
  | admitting (args : Json Char)
  | preparing (args : Json Char)
  | executing (args : Json Char)
  | finished (outcome : ToolExecutionOutcome)
  | done (result : Except ToolError String)

structure NestedCall where
  request : ToolCallRequest
  phase : CallPhase

/-- What happens in a cell, as far as the properties of its runs speak of it. -/
inductive HostEvent (V : Type) where
  | emitted (event : RuntimeEvent V)
  | toolExecute (requestId : String)
  | cancelRequested
  | deadlineReached

/-- A cell with its nested calls by request id.  `waiters` is the queue of the executor's lock
and `log` a ghost. -/
structure CellHostState (V : Type) where
  cancelFlag : Bool := false
  deadlinePassed : Bool := false
  nextSeq : Nat := 0
  calls : String → Option NestedCall := fun _ => none
  waiters : List String := []
  holder : Option String := none
  budget : Nat
  guardState : ExecutionGuardState := {}
  ended : Bool := false
  log : List (HostEvent V) := []

namespace CellHostState

def record (s : CellHostState V) (event : HostEvent V) : CellHostState V :=
  { s with log := s.log ++ [event] }

def setPhase (s : CellHostState V) (id : String) (call : NestedCall) (phase : CallPhase) :
    CellHostState V :=
  { s with calls := Function.update s.calls id (some { call with phase := phase }) }

/-- `emit_tool_done`. -/
def emitToolDone (s : CellHostState V) (request : ToolCallRequest) : CellHostState V :=
  s.record (.emitted (.toolCallDone request.seq request.requestId))

end CellHostState

/-! ## Steps -/

def requestId (toolName : String) (seq : Nat) : String := s!"{toolName}-{seq}"

/-- The events a program causes besides its tool calls. -/
inductive ScriptEvent (V : Type) where
  | text (content : String)
  | notification (message : String)
  | flush (value : Option V)
  | waitingForTimer (resumeAfterMs : Option Nat)

def ScriptEvent.toRuntimeEvent (seq : Nat) : ScriptEvent V → RuntimeEvent V
  | .text content => .text seq content
  | .notification message => .notification seq message
  | .flush value => .flush seq value
  | .waitingForTimer resumeAfterMs => .waitingForTimer seq resumeAfterMs

/-- The moves of one call; what is not up to the call (the text of a JSON error, whether
`TODOS.md` exists, how the tool ends) comes with the move. -/
inductive CallMove where
  | request
  | parseArgs (errorText : String)
  | testFlag
  | testDeadline
  | acquire
  | execute (todosExist : Bool)
  | beginExecute
  | endExecute (ending : InvokeEnd)
  | emitDone

inductive HostLabel (V : Type) where
  | requestCancel
  | deadlinePasses
  | runtimeEnds
  | emit (event : ScriptEvent V)
  | callTool (toolName argsJson : String)
  | call (id : String) (move : CallMove)

def nestedRequest (call : NestedCall) (args : Json Char) : ToolExecutionRequest :=
  { toolName := call.request.toolName, args := args, origin := .codeModeNested }

/-- `normalize_tool_result_for_js`. -/
def normalizeToolResultForJs (raw : String) : String :=
  match Json.parse raw.toList with
  | some value => String.ofList (Json.render value.normalize)
  | none => String.ofList (Json.render (.str raw.toList))

/-- What a call returns to the program. -/
def callResult (outcome : ToolExecutionOutcome) : Except ToolError String :=
  if !outcome.stopped && !outcome.isError then .ok (normalizeToolResultForJs outcome.result)
  else .error (.executionFailed outcome.result)

/-- The executor has returned: the lock is released. -/
def release (s : CellHostState V) (id : String) (call : NestedCall)
    (outcome : ToolExecutionOutcome) : CellHostState V :=
  { s.setPhase id call (.finished outcome) with holder := none }

/-- The tool has returned, timed out, or been interrupted. -/
def conclude (executor : UnifiedToolExecutor) (s : CellHostState V) (id : String)
    (call : NestedCall) (args : Json Char) (ending : InvokeEnd) : CellHostState V :=
  let concluded := executor.concludeExecute s.guardState (nestedRequest call args) ending
  release { s with guardState := concluded.1 } id call concluded.2

/-- One move of `call_tool`.  An interruption that arrives while the tool context is prepared
may be seen before the tool is polled, so such a call can end without executing. -/
def advance (executor : UnifiedToolExecutor) (s : CellHostState V) (id : String)
    (call : NestedCall) (move : CallMove) : Option (CellHostState V) :=
  match call.phase, move with
  | .spawned, .request =>
    some ((s.setPhase id call .requested).record (.emitted (.toolCallRequested call.request)))
  | .requested, .parseArgs errorText =>
    match Json.parse call.request.argsJson.toList with
    | some args => some (s.setPhase id call (.testingFlag args))
    | none =>
      let message := s!"Invalid JSON arguments for nested tool `{call.request.toolName}`: " ++
        errorText
      some ((s.setPhase id call (.done (.error (.invalidArguments message)))).emitToolDone
        call.request)
  | .testingFlag args, .testFlag =>
    if s.cancelFlag then
      let message := "Code mode cell execution was cancelled."
      some ((s.setPhase id call (.done (.error (.cancelled message)))).emitToolDone call.request)
    else some (s.setPhase id call (.testingDeadline args))
  | .testingDeadline args, .testDeadline =>
    if s.deadlinePassed then
      let message := "Code mode cell runtime deadline was reached."
      some ((s.setPhase id call (.done (.error (.cancelled message)))).emitToolDone call.request)
    else some { s.setPhase id call (.queued args) with waiters := s.waiters ++ [id] }
  | .queued args, .acquire =>
    if s.holder = none ∧ s.waiters.head? = some id then
      some { s.setPhase id call (.admitting args) with
        waiters := s.waiters.tail, holder := some id }
    else none
  | .admitting args, .execute todosExist =>
    match executor.checkRequest todosExist s.budget (nestedRequest call args) with
    | .error message => some (release s id call (.error message))
    | .ok left => some { s.setPhase id call (.preparing args) with budget := left }
  | .preparing args, .beginExecute =>
    some ((s.setPhase id call (.executing args)).record (.toolExecute id))
  | .preparing args, .endExecute .cancelled => some (conclude executor s id call args .cancelled)
  | .executing args, .endExecute ending => some (conclude executor s id call args ending)
  | .finished outcome, .emitDone =>
    some ((s.setPhase id call (.done (callResult outcome))).emitToolDone call.request)
  | _, _ => none

def hostStep (executor : UnifiedToolExecutor) (s : CellHostState V) :
    HostLabel V → Option (CellHostState V)
  | .requestCancel => some ({ s with cancelFlag := true }.record .cancelRequested)
  | .deadlinePasses => some ({ s with deadlinePassed := true }.record .deadlineReached)
  | .runtimeEnds => if s.ended then none else some { s with ended := true }
  | .emit event =>
    if s.ended then none
    else
      let seq := s.nextSeq + 1
      some ({ s with nextSeq := seq }.record (.emitted (event.toRuntimeEvent seq)))
  | .callTool toolName argsJson =>
    if s.ended then none
    else
      let seq := s.nextSeq + 1
      let id := requestId toolName seq
      let request : ToolCallRequest :=
        { seq := seq, requestId := id, toolName := toolName, argsJson := argsJson }
      some { s with
        nextSeq := seq
        calls := Function.update s.calls id (some { request := request, phase := .spawned }) }
  | .call id move =>
    if s.ended then none else (s.calls id).bind fun call => advance executor s id call move

/-- The cell before its program runs. -/
def CellHostState.initial (budget : Nat) : CellHostState V := { budget := budget }

/-! ## Request ids -/

/-- What follows the last occurrence of a separator. -/
lemma append_cons_right_inj {α : Type} {c : α} {xs xs' ys ys' : List α}
    (h : xs ++ c :: ys = xs' ++ c :: ys') (hy : c ∉ ys) (hy' : c ∉ ys') : ys = ys' := by
  induction xs generalizing xs' with
  | nil =>
    cases xs' with
    | nil => simpa using h
    | cons x xs' =>
      obtain ⟨rfl, rfl⟩ : c = x ∧ ys = xs' ++ c :: ys' := by simpa using h
      simp at hy
  | cons x xs ih =>
    cases xs' with
    | nil =>
      obtain ⟨rfl, rfl⟩ : x = c ∧ xs ++ c :: ys = ys' := by simpa using h
      simp at hy'
    | cons x' xs' => exact ih (by simpa using And.right (by simpa using h : x = x' ∧ _))

/-- The number at the end of a request id is that of its call. -/
lemma requestId_inj {toolName toolName' : String} {seq seq' : Nat}
    (h : requestId toolName seq = requestId toolName' seq') : seq = seq' := by
  have htext : ∀ (name : String) (n : Nat),
      (requestId name n).toList = name.toList ++ '-' :: Nat.toDigits 10 n := by
    intro name n
    simp [requestId, toString, Nat.toList_repr]
  have hdash : ∀ n : Nat, '-' ∉ Nat.toDigits 10 n := Text.not_mem_toDigits rfl
  have hlist := congrArg String.toList h
  rw [htext, htext] at hlist
  have hdigits := append_cons_right_inj hlist (hdash seq) (hdash seq')
  exact Text.toDigits_injective hdigits

end RustyClaw.CodeMode
