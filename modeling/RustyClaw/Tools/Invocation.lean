import RustyClaw.Core.Guard
import RustyClaw.Tools.Protocol

/-!
# The tool executor

Every call of a tool, top-level or nested in a code-mode cell, goes through
`UnifiedToolExecutor::execute`: it looks the tool up, checks that it is visible, lets the
autopilot policy deny it, takes one step from the budget, and only then builds the tool context
and calls `Tool::execute`.  What happens before the tool runs is `checkRequest`, and how a run ends is
`InvokeEnd`; the callers put the two together as steps, because others may move in between.

What a tool does is not modelled: a tool is its name and whether it has side effects.  Whether
`TODOS.md` exists is asked of the file system at each call and so is an argument here.
-/

namespace RustyClaw

/-! ## Requests and outcomes -/

structure Tool where
  name : String
  hasSideEffects : Bool := true
  deriving DecidableEq, Repr

inductive ToolCallOrigin where
  | topLevel | codeModeNested
  deriving DecidableEq, Repr

def ToolCallOrigin.hiddenToolMessage (toolName : String) : ToolCallOrigin → String
  | .codeModeNested => s!"Tool `{toolName}` is not available inside code mode."
  | .topLevel => s!"Tool `{toolName}` is not visible in this execution context."

def ToolCallOrigin.exhaustedBudgetMessage : ToolCallOrigin → String
  | .codeModeNested => "No remaining steps: nested tool call limit reached."
  | .topLevel => "No remaining steps: tool call limit reached."

structure ToolExecutionOutcome where
  result : String
  isError : Bool
  stopped : Bool
  timedOut : Bool
  guardSignal : Option ExecutionGuardSignal
  deriving DecidableEq, Repr

def ToolExecutionOutcome.error (result : String) : ToolExecutionOutcome :=
  { result := result, isError := true, stopped := false, timedOut := false, guardSignal := none }

structure ToolExecutionRequest where
  toolName : String
  args : Json Char
  origin : ToolCallOrigin

/-! ## The step budget -/

/-- `StepBudgetHandle::try_consume` on the number of steps left: its compare-and-swap loop ends
when no other thread has changed the number between the load and the swap. -/
def tryConsume : Nat → Option Nat
  | 0 => none
  | remaining + 1 => some remaining

lemma tryConsume_eq_some {budget left : Nat} :
    tryConsume budget = some left ↔ budget = left + 1 := by
  cases budget <;> simp [tryConsume, eq_comm]

/-! ## The executor -/

structure UnifiedToolExecutor where
  currentTools : List Tool
  visibleTools : List String
  isAutopilot : Bool

namespace UnifiedToolExecutor

def findTool (executor : UnifiedToolExecutor) (name : String) : Option Tool :=
  executor.currentTools.find? fun tool => tool.name = name

/-- `Path::file_name` of a path with `/` as its separator. -/
def fileName (path : List Char) : Option (List Char) :=
  match (((path.splitOn '/').filter fun part => part ≠ [] && part ≠ ['.']).getLast?) with
  | some ['.', '.'] => none
  | part => part

/-- The calls that autopilot lets through because they write the plan. -/
def isCreatingTodos (callName : String) (callArgs : Json Char) : Bool :=
  match callName with
  | "write_file" =>
    match (callArgs.get "path".toList).bind Json.asStr with
    | some path => (fileName path).any fun name => name.map Char.toLower = "todos.md".toList
    | none => false
  | "execute_bash" =>
    match (callArgs.get "command".toList).bind Json.asStr with
    | some command => Text.contains "TODOS.md".toList command
    | none => false
  | _ => false

def deniedMessage : String :=
  "[System Error] Action Denied. Autopilot 模式下必须先创建并规划 TODOS.md。"

/-- A tool that is not known counts as having side effects. -/
def hasEffects (executor : UnifiedToolExecutor) (name : String) : Bool :=
  match executor.findTool name with
  | some tool => tool.hasSideEffects
  | none => true

/-- `autopilot_denial_for_call`. -/
def autopilotDenialForCall (executor : UnifiedToolExecutor) (todosExist : Bool)
    (callName : String) (callArgs : Json Char) : Option String :=
  if !executor.isAutopilot then none
  else if !executor.hasEffects callName then none
  else if todosExist then none
  else if isCreatingTodos callName callArgs then none
  else some deniedMessage

/-- The tests of `execute` in front of `invoke_tool`: the budget after the call was admitted, or
the text of the error. -/
def checkRequest (executor : UnifiedToolExecutor) (todosExist : Bool) (budget : Nat)
    (request : ToolExecutionRequest) : Except String Nat :=
  match executor.findTool request.toolName with
  | none => .error s!"Tool not found: {request.toolName}"
  | some _ =>
    if !executor.visibleTools.contains request.toolName then
      .error (request.origin.hiddenToolMessage request.toolName)
    else
      match executor.autopilotDenialForCall todosExist request.toolName request.args with
      | some reason => .error reason
      | none =>
        match tryConsume budget with
        | none => .error request.origin.exhaustedBudgetMessage
        | some left => .ok left

/-- The executor knows the tool and shows it. -/
def Offers (executor : UnifiedToolExecutor) (name : String) : Prop :=
  (executor.findTool name).isSome ∧ executor.visibleTools.contains name = true

instance (executor : UnifiedToolExecutor) (name : String) : Decidable (executor.Offers name) :=
  inferInstanceAs (Decidable (_ ∧ _))

/-- What an admitted call says: the tool is offered, and exactly one step is taken. -/
lemma checkRequest_eq_ok {executor : UnifiedToolExecutor} {todosExist : Bool} {budget left : Nat}
    {request : ToolExecutionRequest} (h : executor.checkRequest todosExist budget request = .ok left) :
    executor.Offers request.toolName ∧ budget = left + 1 := by
  unfold checkRequest at h
  split at h
  · cases h
  · rename_i tool htool
    split_ifs at h with hvisible
    split at h
    · cases h
    · split at h
      · cases h
      · rename_i hconsume
        cases h
        exact ⟨⟨by rw [htool]; rfl, by simpa using hvisible⟩, tryConsume_eq_some.mp hconsume⟩

/-- How a call of `Tool::execute` ends: with the tool's own result, by the timeout, or because
the run was cancelled. -/
inductive InvokeEnd where
  | returned (result : Except ToolError String)
  | timedOut
  | cancelled

/-- `invoke_tool` after its `select!`. -/
def invokeOutcome (toolName : String) : InvokeEnd → ToolExecutionOutcome
  | .returned (.ok result) =>
    { result := result, isError := false, stopped := false, timedOut := false, guardSignal := none }
  | .returned (.error err) => .error s!"Tool error: {err.display}"
  | .timedOut =>
    { ToolExecutionOutcome.error s!"Timeout executing {toolName}: deadline has elapsed" with
      timedOut := true }
  | .cancelled =>
    { ToolExecutionOutcome.error "Tool execution interrupted by user." with stopped := true }

/-- `record_action_outcome`: only autopilot keeps the guard. -/
def recordActionOutcome (executor : UnifiedToolExecutor) (guard : ExecutionGuardState)
    (callName : String) (callArgs : Json Char) (isError : Bool) :
    ExecutionGuardState × Option ExecutionGuardSignal :=
  if executor.isAutopilot then guard.recordActionOutcome callName callArgs isError
  else (guard, none)

/-- `execute` after `invoke_tool` has returned. -/
def concludeExecute (executor : UnifiedToolExecutor) (guard : ExecutionGuardState)
    (request : ToolExecutionRequest) (ending : InvokeEnd) :
    ExecutionGuardState × ToolExecutionOutcome :=
  let outcome := invokeOutcome request.toolName ending
  match executor.recordActionOutcome guard request.toolName request.args outcome.isError with
  | (guard, some signal) =>
    (guard, { outcome with
      result := signal.message, isError := true, guardSignal := some signal })
  | (guard, none) => (guard, outcome)

end UnifiedToolExecutor

end RustyClaw
