import RustyClaw.Core.Round
import RustyClaw.Core.TaskState
import RustyClaw.Library.Transition

/-!
# The agent loop

`AgentLoop::step` as a transition system: a stage for every place at which the loop waits for
something, and a label for what happens next.  What the model, the tools, the extensions and the
file system answer is part of the label, and so is the moment at which a cancellation comes in.

A waiter on the cancellation is there only while the loop is in a `select!`; `woken` says that the
waiter of the present one has been notified.  The texts for the user that do not come from the
model are modelled with their wording.

`started`, `requested`, `llmRequests` and `toolExecutions` are no data of the loop: they record the
turn that the step has started, whether a cancellation came in since the foreground was acquired,
and how many requests and tools were started.
-/

namespace RustyClaw.AgentLoop

open Context Glyph Streaming Transition
open Json hiding str

/-! ## Stages -/

inductive RunExit where
  | finished (summary : List Char)
  | stoppedByUser
  | yieldedToUser
  | recoverableFailed (message : List Char)
  | criticallyFailed (message : List Char)
  | autopilotStalled (message : List Char)
  | energyDepleted (summary : List Char)
  deriving DecidableEq, Repr

inductive Stage where
  /-- no call of `step` is running -/
  | idle
  /-- the foreground guard is held, `step` is not called yet -/
  | acquired
  /-- the extensions look at the goal -/
  | starting (goal : List Char)
  /-- the head of the loop -/
  | guards
  /-- a status summary is about to be asked for; with the number of completed todos when the loop
  goes on behind it -/
  | reporting (completed : Option Nat)
  | summarizing (completed : Option Nat)
  /-- behind the guards, in front of the request -/
  | preparing
  | opening (attempt : Nat)
  | streaming (attempt : Nat) (acc : StreamAcc Char ToolCallRecord)
  | showingThought (attempt : Nat) (acc : StreamAcc Char ToolCallRecord) (content : List Char)
  | backingOff (attempt : Nat)
  | responded (text : List Char) (toolCalls : List ToolCallRecord)
  | round (round : Round)
  /-- the call has passed the test for a cancellation -/
  | dispatching (round : Round) (record : ToolCallRecord)
  | executing (round : Round) (record : ToolCallRecord)
  | inCodeMode (round : Round) (record : ToolCallRecord)
  | returned (result : Except (List Char) RunExit)

/-- The loop is in a `select!` with the cancellation. -/
def Stage.waiting : Stage → Bool
  | .opening _ | .streaming _ _ | .executing _ _ | .inCodeMode _ _ => true
  | _ => false

/-- The loop is in `exec` or `wait`: what the code of the cell executes is executed by the step. -/
def Stage.inCall : Stage → Bool
  | .inCodeMode _ _ => true
  | _ => false

/-- A call of `step` is under way, or is about to be. -/
def Stage.running : Stage → Bool
  | .idle | .returned _ => false
  | _ => true

/-! ## State -/

inductive Output where
  | text (content : List Char)
  | thinking (content : List Char)
  deriving DecidableEq, Repr

structure AgentConfig where
  isSubagent : Bool := false
  isAutopilot : Bool := false
  initialEnergyBudget : Nat := 25
  maxHistoryTokens : Nat := 1000000
  acceptsTextCommand : Bool := false
  canaryToken : List Char
  toLowercase : List Char → List Char

structure AgentState where
  ctx : AgentContext Char := {}
  files : Files Char := fun _ => none
  cancelled : Bool := false
  woken : Bool := false
  executionGuard : ExecutionGuardState := {}
  autopilotTodosCompletedCount : Nat := 0
  energyPoints : Nat := 0
  compactionChecked : Bool := false
  consecutiveEmptyResponses : Nat := 0
  task : TaskStateSnapshot := .empty
  tools : List Tool := []
  cellRunning : Bool := false
  stage : Stage := .idle
  output : List Output := []
  started : Option (Turn Char) := none
  requested : Bool := false
  llmRequests : Nat := 0
  toolExecutions : Nat := 0

inductive ExtensionDecision where
  | goOn
  | intercept (promptOverlay : Option (List Char))
  | halt (message : List Char)
  deriving DecidableEq, Repr

inductive Label where
  /-- `request_cancel`, `cancel_session` -/
  | cancel
  | acquireForeground
  | call (goal : List Char) (completed : Nat)
  | beforeTurnStart (decision : ExtensionDecision)
  | startTurn (turnId : List Char) (loaded : TaskStateSnapshot) (taskId : List Char)
  | checkLoopGuards (completed : Nat) (written : Written)
  | requestSummary
  | summaryDone (summary : List Char) (written : Written) (archived : Nat → Written)
      (uuid : List Char)
  | maybeCompactHistory (numTurns : Option Nat) (archived : Nat → Written) (uuid : List Char)
  | request (tools : List Tool)
  | opened
  | openFailed (message : List Char)
  | event (event : StreamEvent Char ToolCallRecord)
  | thoughtShown
  | retry
  /-- the `select!` takes the branch of the cancellation -/
  | notified (written : Written)
  | respond (uncompleted : Nat) (denial : Option (List Char)) (written : Written)
  | nextCall (todosExist : Bool)
  | execute (todosExist : Bool)
  | toolDone (ending : UnifiedToolExecutor.InvokeEnd)
  /-- `shown` is what the cell has put out -/
  | codeModeDone (shown result : List Char) (isError stopped : Bool)
  /-- a tool is called by the code of a cell -/
  | nestedCall
  | cellEnded
  | finishRound (progress : Option (Nat × Nat)) (uncompleted : Nat) (denial : Option (List Char))
      (loaded : TaskStateSnapshot) (written : Written)

/-! ## Small steps -/

namespace AgentState

def onText (s : AgentState) (content : List Char) : AgentState :=
  { s with output := s.output ++ [.text content] }

def onThinking (s : AgentState) (content : List Char) : AgentState :=
  { s with output := s.output ++ [.thinking content] }

def addMessage (s : AgentState) (message : Message Char) : AgentState :=
  { s with
    ctx := addMessageToCurrentTurn s.ctx message
    started := s.started.map fun turn => { turn with messages := turn.messages ++ [message] } }

def endTurn (s : AgentState) (written : Written) : AgentState :=
  let (files, ctx) := Context.endTurn s.files s.ctx written
  { s with files, ctx }

def exit (s : AgentState) (result : Except (List Char) RunExit) : AgentState :=
  { s with stage := .returned result }

/-- `finalize_exit`, and the other places that end the turn and return. -/
def finalizeExit (s : AgentState) (exit : RunExit) (written : Written) : AgentState :=
  (s.endTurn written).exit (.ok exit)

def compact (s : AgentState) (cfg : AgentConfig) (numTurns : Nat) (archived : Nat → Written)
    (uuid : List Char) : AgentState × Option String :=
  match ruleBasedCompact cfg.toLowercase s.files s.ctx numTurns archived uuid with
  | none => (s, none)
  | some (files, ctx, reason) => ({ s with files, ctx }, some reason)

end AgentState

open AgentState

/-! ## Before the loop -/

section Steps

variable (cfg : AgentConfig) (s : AgentState)

/-- `step` up to the extensions. -/
def beginStep (goal : List Char) (completed : Nat) : AgentState :=
  let goal := trim goal
  if goal = [] then s.exit (.ok .yieldedToUser)
  else if cfg.isSubagent ∧ s.cancelled then s.exit (.ok .stoppedByUser)
  else
    { s with
      cancelled := if cfg.isSubagent then s.cancelled else false
      autopilotTodosCompletedCount :=
        if cfg.isAutopilot then completed else s.autopilotTodosCompletedCount
      energyPoints := cfg.initialEnergyBudget
      compactionChecked := false
      consecutiveEmptyResponses := 0
      stage := .starting goal }

def beforeTurnStart : ExtensionDecision → AgentState
  | .goOn | .intercept none => s
  | .intercept (some overlay) => { s with stage := .starting overlay }
  | .halt message => ((s.onText message).onText "\n".toList).exit (.ok .yieldedToUser)

def beginTurn (goal turnId : List Char) (loaded : TaskStateSnapshot) (taskId : List Char) :
    AgentState :=
  let ctx := Context.startTurn s.ctx turnId goal
  { s with
    ctx
    started := ctx.currentTurn
    task := loaded.initializeTaskState goal taskId
    stage := .guards }

/-! ## The head of the loop -/

def auditPassedMessage : String := "[System] 物理审计通过，正在生成阶段性进展报告...\n"

def energyDepletedMessage : String := "[System] 能量耗尽，正在生成阶段性进展报告并暂停任务...\n"

def initialEnergy : Nat := 25

/-- `check_loop_guards` up to the status summary. -/
def checkLoopGuards (completed : Nat) (written : Written) : AgentState :=
  if s.cancelled then s.finalizeExit .stoppedByUser written
  else
    let s := { s with energyPoints := s.energyPoints - 1 }
    if s.energyPoints = 0 then
      if cfg.isAutopilot ∧ s.autopilotTodosCompletedCount < completed then
        { s.onText auditPassedMessage.toList with stage := .reporting (some completed) }
      else { s.onText energyDepletedMessage.toList with stage := .reporting none }
    else { s with stage := .preparing }

/-- `check_loop_guards` behind the status summary. -/
def summaryDone (completed : Option Nat) (summary : List Char) (written : Written)
    (archived : Nat → Written) (uuid : List Char) : AgentState :=
  match completed with
  | none => s.finalizeExit (.energyDepleted summary) written
  | some completed =>
    let s := s.onText ("\n".toList ++ summary ++ "\n\n".toList)
    let toCompact := s.ctx.dialogueHistory.length - 3
    let s := if 0 < toCompact then (s.compact cfg toCompact archived uuid).1 else s
    { s with
      energyPoints := initialEnergy
      autopilotTodosCompletedCount := completed
      stage := .preparing }

def maybeCompactHistory (numTurns : Option Nat) (archived : Nat → Written) (uuid : List Char) :
    AgentState :=
  let s := { s with compactionChecked := true }
  match numTurns with
  | none => s
  | some numTurns =>
    match s.compact cfg numTurns archived uuid with
    | (s, none) => s
    | (s, some reason) => s.onText s!"[System] {reason}\n".toList

/-! ## The response of the model -/

def maxLlmRecoveryAttempts : Nat := 3

def transientMarkers : List String :=
  ["timeout", "500", "502", "503", "rate limit", "connection closed", "connection reset", "eof"]

/-- `is_transient_llm_error` of an error with this text. -/
def isTransientLlmError (message : List Char) : Bool :=
  transientMarkers.any fun marker => Text.contains marker.toList (cfg.toLowercase message)

def retryMessage (attempt : Nat) : String :=
  s!"[System] Transient error. Retrying in {500 * 2 ^ min attempt 6} ms... (Attempt {attempt}/{maxLlmRecoveryAttempts})\n"

/-- `handle_llm_error`, and what its callers do when there is no further attempt. -/
def handleLlmError (message : List Char) (attempt : Nat) : AgentState :=
  if isTransientLlmError cfg message ∧ attempt < maxLlmRecoveryAttempts then
    { s.onText (retryMessage attempt).toList with stage := .backingOff attempt }
  else s.exit (.error message)

/-- The text of a stream error as an `ApiError`. -/
def streamErrorText (message : List Char) : List Char :=
  "API error: Stream error: ".toList ++ message

/-- An event of the stream; the end of the stream counts as `Done`. -/
def handleEvent (attempt : Nat) (acc : StreamAcc Char ToolCallRecord) :
    StreamEvent Char ToolCallRecord → AgentState
  | .text content =>
    { s with stage := .streaming attempt { acc with text := acc.text ++ content } }
  | .thought content => { s.onThinking content with stage := .showingThought attempt acc content }
  | .toolCall call =>
    { s with stage := .streaming attempt { acc with toolCalls := acc.toolCalls ++ [call] } }
  | .done => { s with stage := .responded (closeThinkBlock acc.text) acc.toolCalls }
  | .error message => handleLlmError cfg s (streamErrorText message) attempt

def checkCanaryLeak (llmOutput : List Char) : Bool := Text.contains cfg.canaryToken llmOutput

def canaryLeaked (fullText : List Char) (toolCalls : List ToolCallRecord) : Bool :=
  checkCanaryLeak cfg fullText ||
    toolCalls.any fun record => checkCanaryLeak cfg (render record.1.args.json)

def canaryMessage : String := "[Security] Canary leak detected — suppressing output.\n"

def redactedText : String := "[REDACTED — canary leak detected]"

def modelMessage (parts : List (Context.Part Char)) : Message Char := { role := "model".toList, parts }

def functionMessage (parts : List (Context.Part Char)) : Message Char :=
  { role := "function".toList, parts }

/-- The message that a response is recorded as. -/
def recordedMessage (fullText : List Char) (toolCalls : List ToolCallRecord) : Message Char :=
  modelMessage ((if fullText = [] then [] else [{ text := some fullText }]) ++
    toolCalls.map fun record =>
      { functionCall := some record.1, thoughtSignature := record.2 })

def todosDenial : String :=
  "Action Denied. Autopilot 模式下必须完成 TODOS.md 中的所有任务才能结束。"

/-- Why the run may not finish yet. -/
def finishDenial (uncompleted : Nat) (denial : Option (List Char)) : Option (List Char) :=
  if cfg.isAutopilot ∧ 0 < uncompleted then some todosDenial.toList else denial

def maxConsecutiveEmptyResponses : Nat := 3

/-- `record_model_turn_and_maybe_yield` for a response without calls; `answer` is what is visible
of it. -/
def recordAnswer (answer : List Char) (uncompleted : Nat) (denial : Option (List Char))
    (written : Written) : AgentState :=
  if answer = [] then s.finalizeExit .yieldedToUser written
  else
    match finishDenial cfg uncompleted denial with
    | some reason =>
      { (s.onText ("[System] ".toList ++ reason ++ "\n".toList)).addMessage (textMessage
          ("[System] Completion was denied: ".toList ++ reason ++ ". Continue working.".toList)) with
        stage := .round { calls := [], budget := s.energyPoints } }
    | none =>
      (({ s with task := s.task.finish answer }.onText answer).onText "\n".toList).finalizeExit
        (.finished answer) written

/-- The text beside the calls is shown, unless it is the source of a command. -/
def showVisibleText (answer : List Char) (toolCalls : List ToolCallRecord) : AgentState :=
  let suppressed := cfg.acceptsTextCommand &&
    toolCalls.any fun record => decide (record.1.name = "exec".toList)
  if answer ≠ [] ∧ !suppressed then (s.onText answer).onText "\n".toList else s

/-- The calls are executed, or refused. -/
def recordCalls (visibleText : List Char) (toolCalls : List ToolCallRecord) : AgentState :=
  let s := showVisibleText cfg s (trim visibleText) toolCalls
  match resolveTextCommandToolCalls cfg.acceptsTextCommand visibleText toolCalls with
  | .error parts =>
    { (if parts = [] then s else s.addMessage (functionMessage parts)) with stage := .guards }
  | .ok calls => { s with stage := .round { calls, budget := s.energyPoints } }

/-- What the loop does with a response.  `none`: the think blocks are never stripped. -/
def respond (fullText : List Char) (toolCalls : List ToolCallRecord) (uncompleted : Nat)
    (denial : Option (List Char)) (written : Written) : Option AgentState :=
  (stripThinkBlocks fullText).map fun visibleText =>
    if trim fullText = [] ∧ toolCalls = [] then
      let s := { s with consecutiveEmptyResponses := s.consecutiveEmptyResponses + 1 }
      if maxConsecutiveEmptyResponses ≤ s.consecutiveEmptyResponses then
        s.finalizeExit (.criticallyFailed "Too many empty responses".toList) written
      else { s with stage := .guards }
    else
      let s := { s with consecutiveEmptyResponses := 0 }
      if canaryLeaked cfg fullText toolCalls then
        ((s.onText canaryMessage.toList).addMessage
          (modelMessage [{ text := some redactedText.toList }])).finalizeExit .yieldedToUser written
      else
        let s := s.addMessage (recordedMessage fullText toolCalls)
        if toolCalls = [] then recordAnswer cfg s (trim visibleText) uncompleted denial written
        else recordCalls cfg s visibleText toolCalls

/-! ## The tool round -/

def toolExecutor : UnifiedToolExecutor where
  currentTools := s.tools
  visibleTools := s.tools.map Tool.name
  isAutopilot := cfg.isAutopilot

def skippedMessage : String := "Execution skipped as turn was interrupted."

def interruptedMessage : String := "Tool execution interrupted by user."

def emptyNamePart (record : ToolCallRecord) : Context.Part Char :=
  buildFunctionResponsePart "unknown".toList record.1.id
    (resultValue "Error: Empty tool name".toList) record.2

/-- The question of a tool is put to the user. -/
def askUser (outcome : ToolDispatchOutcome) : AgentState :=
  match outcome.guardSignal, awaitedUserPrompt outcome.result with
  | none, some request =>
    if !outcome.stopped ∧ !outcome.isError then
      s.onText (formatUserPrompt request ++ "\n".toList)
    else s
  | _, _ => s

/-- The call has an outcome. -/
def concludeCall (round : Round) (record : ToolCallRecord) (outcome : ToolDispatchOutcome) :
    AgentState :=
  { askUser s outcome with stage := .round (round.conclude record outcome) }

def showToolThought : Option (List Char) → AgentState
  | some thought => (s.onThinking thought).onThinking "\n".toList
  | none => s

/-- The next call of the round, up to its dispatch. -/
def nextCall (round : Round) (record : ToolCallRecord) (todosExist : Bool) : AgentState :=
  if round.skipRemaining then
    { s with stage := .round (round.answer (answerCall record skippedMessage.toList)) }
  else
    let (call, thought) := extractToolThought record.1
    let s := showToolThought s thought
    let record := (call, record.2)
    let name := String.ofList call.name
    if trim call.name = [] then
      { s with stage := .round (round.answer (emptyNamePart record)) }
    else
      match (toolExecutor cfg s).autopilotDenialForCall todosExist name call.args.json with
      | some reason => { s with stage := .round (round.answer (answerCall record reason.toList)) }
      | none =>
        if ((toolExecutor cfg s).findTool name).isNone then
          concludeCall s round record
            { result := s!"Tool not found: {name}".toList, isError := true }
        else if s.cancelled then
          concludeCall s round record
            { result := interruptedMessage.toList, isError := true, stopped := true }
        else { s with stage := .dispatching round record }

def isCodeModeTool (name : List Char) : Bool := name = "exec".toList ∨ name = "wait".toList

def executionRequest (record : ToolCallRecord) : ToolExecutionRequest where
  toolName := String.ofList record.1.name
  args := record.1.args.json
  origin := .topLevel

/-- The dispatch of a call that was not cancelled before. -/
def execute (round : Round) (record : ToolCallRecord) (todosExist : Bool) : AgentState :=
  if isCodeModeTool record.1.name then
    { s with
      cellRunning := s.cellRunning || decide (record.1.name = "exec".toList)
      woken := false
      toolExecutions := s.toolExecutions + 1
      stage := .inCodeMode round record }
  else
    match (toolExecutor cfg s).checkRequest todosExist round.budget (executionRequest record) with
    | .error message =>
      concludeCall s round record { result := message.toList, isError := true }
    | .ok left =>
      { s with
        woken := false
        toolExecutions := s.toolExecutions + 1
        stage := .executing { round with budget := left } record }

def isCancelledEnd : UnifiedToolExecutor.InvokeEnd → Bool
  | .cancelled => true
  | _ => false

def toolDone (round : Round) (record : ToolCallRecord)
    (ending : UnifiedToolExecutor.InvokeEnd) : AgentState :=
  let (guard, outcome) :=
    (toolExecutor cfg s).concludeExecute s.executionGuard (executionRequest record) ending
  concludeCall { s with executionGuard := guard } round record (.ofExecution outcome)

def showCellOutput (shown : List Char) : AgentState :=
  if shown = [] then s else (s.onText shown).onText "\n".toList

/-- `exec` or `wait` has an outcome; an `exec` that was stopped has aborted its cell. -/
def codeModeDone (round : Round) (record : ToolCallRecord) (shown result : List Char)
    (isError stopped : Bool) : AgentState :=
  let s := showCellOutput s shown
  let (guard, signal) := (toolExecutor cfg s).recordActionOutcome s.executionGuard
    (String.ofList record.1.name) record.1.args.json isError
  let outcome : ToolDispatchOutcome := match signal with
    | some signal =>
      { result := signal.message.toList, isError := true, stopped, guardSignal := some signal }
    | none => { result, isError, stopped }
  let cellRunning := s.cellRunning && !(stopped && decide (record.1.name = "exec".toList))
  concludeCall { s with executionGuard := guard, cellRunning } round record outcome

/-! ## Behind the tool round -/

def stalledMessage : String := "检测到深度死循环，反思无效，交还控制权"

def currentTurnMaxBytes : Nat :=
  min (max (cfg.maxHistoryTokens / 5 * 4) (64 * 1024)) (400 * 1024)

/-- `reconcile_after_tool_calls`. -/
def reconcileAfterToolCalls (loaded : TaskStateSnapshot) : AgentState :=
  let ctx := (compressCurrentTurn s.ctx (currentTurnMaxBytes cfg)).1
  { s with task := loaded, ctx := (truncateCurrentTurnToolResults ctx 30000).1 }

def progressMessage (progress : Nat × Nat) : String :=
  s!"[System] Autopilot 任务进度已更新: {progress.1} 已完成, {progress.2} 待办\n"

def reportProgress (progress : Option (Nat × Nat)) : AgentState :=
  match progress with
  | some progress => if cfg.isAutopilot then s.onText (progressMessage progress).toList else s
  | none => s

/-- The round did not finish the run. -/
def continueRun (round : Round) (loaded : TaskStateSnapshot) (written : Written) : AgentState :=
  if round.shouldYieldToUser then s.finalizeExit .yieldedToUser written
  else { reconcileAfterToolCalls cfg s loaded with stage := .guards }

/-- The run may not finish yet. -/
def denyFinish (reason : List Char) : AgentState :=
  { s.onText ("[System] ".toList ++ reason) with
    task := { s.task with status := "in_progress".toList } }

def finishRound (round : Round) (progress : Option (Nat × Nat)) (uncompleted : Nat)
    (denial : Option (List Char)) (loaded : TaskStateSnapshot) (written : Written) : AgentState :=
  let s := reportProgress cfg s progress
  if round.responses.any isMeltdown then s.exit (.ok (.autopilotStalled stalledMessage.toList))
  else
    let s := if round.responses = [] then s else s.addMessage (functionMessage round.responses)
    if s.task.status = "finished".toList then
      match finishDenial cfg uncompleted denial with
      | some reason => continueRun cfg (denyFinish s reason) round loaded written
      | none =>
        { s with task := s.task.finish s.task.summary }.finalizeExit (.finished s.task.summary)
          written
    else continueRun cfg s round loaded written

/-! ## What the steps can do

Each function of the loop is described once, up to what is shown to the user.
-/

section Forms

lemma currentTurn_addMessage {message : Message Char} {turn : Turn Char}
    (h : (s.addMessage message).ctx.currentTurn = some turn) :
    ∃ turn', s.ctx.currentTurn = some turn' ∧
      turn = { turn' with messages := turn'.messages ++ [message] } := by
  obtain ⟨turn', hturn', hcurrent⟩ := Option.map_eq_some_iff.mp h
  exact ⟨turn', hturn', hcurrent.symm⟩

/-- The compaction of the history is about the turns that have ended. -/
lemma exists_compact (numTurns : Nat) (archived : Nat → Written) (uuid : List Char) :
    ∃ files ctx, (s.compact cfg numTurns archived uuid).1 = { s with files, ctx } ∧
      ctx.currentTurn = s.ctx.currentTurn := by
  unfold AgentState.compact ruleBasedCompact
  split
  · exact ⟨_, _, rfl, rfl⟩
  · next h =>
    split at h
    · cases h
    · cases h
      exact ⟨_, _, rfl, rfl⟩

lemma checkLoopGuards_of_cancelled (h : s.cancelled = true) (completed : Nat) (written : Written) :
    checkLoopGuards cfg s completed written = s.finalizeExit .stoppedByUser written := by
  rw [checkLoopGuards, if_pos h]

/-- The head of the loop when nothing was cancelled. -/
lemma exists_checkLoopGuards (h : s.cancelled = false) (completed : Nat) (written : Written) :
    ∃ energyPoints output stage,
      checkLoopGuards cfg s completed written = { s with energyPoints, output, stage } ∧
        (stage = .preparing ∨ ∃ completed, stage = .reporting completed) := by
  unfold checkLoopGuards
  rw [if_neg (by simp [h])]
  dsimp only
  split
  · split
    · exact ⟨_, _, _, rfl, .inr ⟨_, rfl⟩⟩
    · exact ⟨_, _, _, rfl, .inr ⟨_, rfl⟩⟩
  · exact ⟨_, _, _, rfl, .inl rfl⟩

/-- The summary of a run that goes on. -/
lemma exists_summaryDone (completed : Nat) (summary : List Char) (written : Written)
    (archived : Nat → Written) (uuid : List Char) :
    ∃ files ctx output, summaryDone cfg s (some completed) summary written archived uuid =
      { s with
        files, ctx, output
        energyPoints := initialEnergy
        autopilotTodosCompletedCount := completed
        stage := .preparing } ∧ ctx.currentTurn = s.ctx.currentTurn := by
  unfold summaryDone
  dsimp only
  generalize hshown : s.onText ("\n".toList ++ summary ++ "\n\n".toList) = shown
  split
  · obtain ⟨files, ctx, hcompact, hturn⟩ :=
      exists_compact cfg shown (shown.ctx.dialogueHistory.length - 3) archived uuid
    rw [hcompact]
    subst hshown
    exact ⟨files, ctx, _, rfl, hturn⟩
  · subst hshown
    exact ⟨_, _, _, rfl, rfl⟩

lemma exists_maybeCompactHistory (numTurns : Option Nat) (archived : Nat → Written)
    (uuid : List Char) :
    ∃ files ctx output, maybeCompactHistory cfg s numTurns archived uuid =
      { s with files, ctx, output, compactionChecked := true } ∧
        ctx.currentTurn = s.ctx.currentTurn := by
  cases numTurns with
  | none => exact ⟨_, _, _, rfl, rfl⟩
  | some numTurns =>
    obtain ⟨files, ctx, hcompact, hturn⟩ :=
      exists_compact cfg { s with compactionChecked := true } numTurns archived uuid
    unfold maybeCompactHistory
    dsimp only
    split
    · next h =>
      rw [h] at hcompact
      exact ⟨files, ctx, _, hcompact, hturn⟩
    · next h =>
      rw [h] at hcompact
      dsimp only at hcompact
      exact ⟨files, ctx, _, by rw [hcompact]; rfl, hturn⟩

/-- The error leads to another attempt. -/
def retries (message : List Char) (attempt : Nat) : Bool :=
  isTransientLlmError cfg message && decide (attempt < maxLlmRecoveryAttempts)

variable {cfg s} in
lemma handleLlmError_of_retries {message : List Char} {attempt : Nat}
    (h : retries cfg message attempt = true) : handleLlmError cfg s message attempt =
      { s.onText (retryMessage attempt).toList with stage := .backingOff attempt } := by
  rw [handleLlmError, if_pos (by simpa [retries] using h)]

variable {cfg s} in
lemma handleLlmError_of_not_retries {message : List Char} {attempt : Nat}
    (h : retries cfg message attempt = false) :
    handleLlmError cfg s message attempt = s.exit (.error message) := by
  rw [handleLlmError, if_neg (by simpa [retries] using h)]

/-- An event that is not an error. -/
lemma exists_handleEvent (attempt : Nat) (acc : StreamAcc Char ToolCallRecord)
    (event : StreamEvent Char ToolCallRecord) :
    (∃ message, event = .error message) ∨ ∃ output stage,
      handleEvent cfg s attempt acc event = { s with output, stage } ∧
        ((∃ acc, stage = .streaming attempt acc) ∨
          (∃ content, stage = .showingThought attempt acc content) ∨
            ∃ text toolCalls, stage = .responded text toolCalls) := by
  cases event with
  | text content => exact .inr ⟨_, _, rfl, .inl ⟨_, rfl⟩⟩
  | thought content => exact .inr ⟨_, _, rfl, .inr (.inl ⟨_, rfl⟩)⟩
  | toolCall call => exact .inr ⟨_, _, rfl, .inl ⟨_, rfl⟩⟩
  | done => exact .inr ⟨_, _, rfl, .inr (.inr ⟨_, _, rfl⟩)⟩
  | error message => exact .inl ⟨message, rfl⟩

lemma exists_showVisibleText (answer : List Char) (toolCalls : List ToolCallRecord) :
    ∃ output, showVisibleText cfg s answer toolCalls = { s with output } := by
  unfold showVisibleText
  dsimp only
  split
  · exact ⟨_, rfl⟩
  · exact ⟨_, rfl⟩

lemma exists_concludeCall (round : Round) (record : ToolCallRecord)
    (outcome : ToolDispatchOutcome) : ∃ output, concludeCall s round record outcome =
      { s with output, stage := .round (round.conclude record outcome) } := by
  unfold concludeCall askUser
  split
  · split
    · exact ⟨_, rfl⟩
    · exact ⟨_, rfl⟩
  · exact ⟨_, rfl⟩

lemma exists_toolDone (round : Round) (record : ToolCallRecord)
    (ending : UnifiedToolExecutor.InvokeEnd) : ∃ executionGuard outcome,
      toolDone cfg s round record ending =
        concludeCall { s with executionGuard } round record outcome := ⟨_, _, rfl⟩

lemma exists_showCellOutput (shown : List Char) :
    ∃ output, showCellOutput s shown = { s with output } := by
  unfold showCellOutput
  split
  · exact ⟨_, rfl⟩
  · exact ⟨_, rfl⟩

lemma exists_codeModeDone (round : Round) (record : ToolCallRecord) (shown result : List Char)
    (isError stopped : Bool) : ∃ output executionGuard cellRunning outcome,
      codeModeDone cfg s round record shown result isError stopped =
        concludeCall { s with output, executionGuard, cellRunning } round record outcome := by
  obtain ⟨output, hshown⟩ := exists_showCellOutput s shown
  unfold codeModeDone
  rw [hshown]
  exact ⟨_, _, _, _, rfl⟩

lemma exists_showToolThought (thought : Option (List Char)) :
    ∃ output, showToolThought s thought = { s with output } := by
  cases thought with
  | none => exact ⟨_, rfl⟩
  | some thought => exact ⟨_, rfl⟩

lemma exists_reportProgress (progress : Option (Nat × Nat)) :
    ∃ output, reportProgress cfg s progress = { s with output } := by
  unfold reportProgress
  split
  · split
    · exact ⟨_, rfl⟩
    · exact ⟨_, rfl⟩
  · exact ⟨_, rfl⟩

end Forms

/-! ## The transition system -/

/-- What happens at the place at which the loop waits. -/
def stageStep (label : Label) : Option AgentState :=
  match s.stage, label with
  | .idle, .acquireForeground | .returned _, .acquireForeground =>
    some { s with stage := .acquired, requested := false, started := none }
  | .acquired, .call goal completed => some (beginStep cfg s goal completed)
  | .starting _, .beforeTurnStart decision => some (beforeTurnStart s decision)
  | .starting goal, .startTurn turnId loaded taskId =>
    some (beginTurn s goal turnId loaded taskId)
  | .guards, .checkLoopGuards completed written => some (checkLoopGuards cfg s completed written)
  | .reporting completed, .requestSummary =>
    some { s with llmRequests := s.llmRequests + 1, stage := .summarizing completed }
  | .summarizing completed, .summaryDone summary written archived uuid =>
    some (summaryDone cfg s completed summary written archived uuid)
  | .preparing, .maybeCompactHistory numTurns archived uuid =>
    if s.compactionChecked then none
    else some (maybeCompactHistory cfg s numTurns archived uuid)
  | .preparing, .request tools =>
    if s.compactionChecked then
      some { s with
        tools := tools, woken := false, llmRequests := s.llmRequests + 1, stage := .opening 1 }
    else none
  | .opening attempt, .opened => some { s with woken := false, stage := .streaming attempt {} }
  | .opening attempt, .openFailed message => some (handleLlmError cfg s message attempt)
  | .streaming attempt acc, .event event =>
    some (handleEvent cfg { s with woken := false } attempt acc event)
  | .showingThought attempt acc content, .thoughtShown =>
    some { s with
      woken := false
      stage := .streaming attempt { acc with text := pushThought acc.text content } }
  | .opening _, .notified written | .streaming _ _, .notified written =>
    if s.woken then some (s.finalizeExit .stoppedByUser written) else none
  | .backingOff attempt, .retry =>
    some { s with
      woken := false, llmRequests := s.llmRequests + 1, stage := .opening (attempt + 1) }
  | .responded text toolCalls, .respond uncompleted denial written =>
    respond cfg s text toolCalls uncompleted denial written
  | .round round, .nextCall todosExist =>
    match round.calls with
    | [] => none
    | record :: calls => some (nextCall cfg s { round with calls } record todosExist)
  | .dispatching round record, .execute todosExist =>
    some (execute cfg s round record todosExist)
  | .executing round record, .toolDone ending =>
    if isCancelledEnd ending ∧ s.woken = false then none
    else some (toolDone cfg s round record ending)
  | .inCodeMode round record, .codeModeDone shown result isError stopped =>
    some (codeModeDone cfg s round record shown result isError stopped)
  | .round round, .finishRound progress uncompleted denial loaded written =>
    if round.calls = [] then
      some (finishRound cfg s round progress uncompleted denial loaded written)
    else none
  | _, _ => none

def agentStep : Label → Option AgentState
  | .cancel => some { s with
      cancelled := true
      woken := s.woken || s.stage.waiting
      requested := s.requested || s.stage.running }
  | .nestedCall =>
    if s.cellRunning then some { s with
      toolExecutions := if s.stage.inCall then s.toolExecutions + 1 else s.toolExecutions }
    else none
  | .cellEnded => some { s with cellRunning := false }
  | label => stageStep cfg s label

/-- The ways in which a step goes. -/
inductive AgentMove : Label → AgentState → Prop where
  | cancel : AgentMove .cancel { s with
      cancelled := true
      woken := s.woken || s.stage.waiting
      requested := s.requested || s.stage.running }
  | nestedCall (h : s.cellRunning = true) :
      AgentMove .nestedCall { s with
        toolExecutions := if s.stage.inCall then s.toolExecutions + 1 else s.toolExecutions }
  | cellEnded : AgentMove .cellEnded { s with cellRunning := false }
  | acquireForeground (h : s.stage.running = false) : AgentMove .acquireForeground
      { s with stage := .acquired, requested := false, started := none }
  | call (goal : List Char) (completed : Nat) (h : s.stage = .acquired) :
      AgentMove (.call goal completed) (beginStep cfg s goal completed)
  | beforeTurnStart (goal : List Char) (decision : ExtensionDecision)
      (h : s.stage = .starting goal) :
      AgentMove (.beforeTurnStart decision) (beforeTurnStart s decision)
  | startTurn (goal turnId : List Char) (loaded : TaskStateSnapshot) (taskId : List Char)
      (h : s.stage = .starting goal) :
      AgentMove (.startTurn turnId loaded taskId) (beginTurn s goal turnId loaded taskId)
  | checkLoopGuards (completed : Nat) (written : Written) (h : s.stage = .guards) :
      AgentMove (.checkLoopGuards completed written) (checkLoopGuards cfg s completed written)
  | requestSummary (completed : Option Nat) (h : s.stage = .reporting completed) :
      AgentMove .requestSummary
        { s with llmRequests := s.llmRequests + 1, stage := .summarizing completed }
  | summaryDone (completed : Option Nat) (summary : List Char) (written : Written)
      (archived : Nat → Written) (uuid : List Char) (h : s.stage = .summarizing completed) :
      AgentMove (.summaryDone summary written archived uuid)
        (summaryDone cfg s completed summary written archived uuid)
  | maybeCompactHistory (numTurns : Option Nat) (archived : Nat → Written) (uuid : List Char)
      (h : s.stage = .preparing) : AgentMove (.maybeCompactHistory numTurns archived uuid)
        (maybeCompactHistory cfg s numTurns archived uuid)
  | request (tools : List Tool) (h : s.stage = .preparing) : AgentMove (.request tools)
      { s with
        tools := tools, woken := false, llmRequests := s.llmRequests + 1, stage := .opening 1 }
  | opened (attempt : Nat) (h : s.stage = .opening attempt) :
      AgentMove .opened { s with woken := false, stage := .streaming attempt {} }
  | openFailed (attempt : Nat) (message : List Char) (h : s.stage = .opening attempt) :
      AgentMove (.openFailed message) (handleLlmError cfg s message attempt)
  | event (attempt : Nat) (acc : StreamAcc Char ToolCallRecord)
      (event : StreamEvent Char ToolCallRecord) (h : s.stage = .streaming attempt acc) :
      AgentMove (.event event) (handleEvent cfg { s with woken := false } attempt acc event)
  | thoughtShown (attempt : Nat) (acc : StreamAcc Char ToolCallRecord) (content : List Char)
      (h : s.stage = .showingThought attempt acc content) : AgentMove .thoughtShown
        { s with
          woken := false
          stage := .streaming attempt { acc with text := pushThought acc.text content } }
  | notified (written : Written)
      (h : (∃ attempt, s.stage = .opening attempt) ∨
        ∃ attempt acc, s.stage = .streaming attempt acc)
      (hwoken : s.woken = true) :
      AgentMove (.notified written) (s.finalizeExit .stoppedByUser written)
  | retry (attempt : Nat) (h : s.stage = .backingOff attempt) : AgentMove .retry
      { s with
        woken := false, llmRequests := s.llmRequests + 1, stage := .opening (attempt + 1) }
  | respond (text : List Char) (toolCalls : List ToolCallRecord) (uncompleted : Nat)
      (denial : Option (List Char)) (written : Written) (s' : AgentState)
      (h : s.stage = .responded text toolCalls)
      (hs' : respond cfg s text toolCalls uncompleted denial written = some s') :
      AgentMove (.respond uncompleted denial written) s'
  | nextCall (round : Round) (record : ToolCallRecord) (calls : List ToolCallRecord)
      (todosExist : Bool) (h : s.stage = .round round) (hcalls : round.calls = record :: calls) :
      AgentMove (.nextCall todosExist) (nextCall cfg s { round with calls } record todosExist)
  | execute (round : Round) (record : ToolCallRecord) (todosExist : Bool)
      (h : s.stage = .dispatching round record) :
      AgentMove (.execute todosExist) (execute cfg s round record todosExist)
  | toolDone (round : Round) (record : ToolCallRecord) (ending : UnifiedToolExecutor.InvokeEnd)
      (h : s.stage = .executing round record) :
      AgentMove (.toolDone ending) (toolDone cfg s round record ending)
  | codeModeDone (round : Round) (record : ToolCallRecord) (shown result : List Char)
      (isError stopped : Bool) (h : s.stage = .inCodeMode round record) :
      AgentMove (.codeModeDone shown result isError stopped)
        (codeModeDone cfg s round record shown result isError stopped)
  | finishRound (round : Round) (progress : Option (Nat × Nat)) (uncompleted : Nat)
      (denial : Option (List Char)) (loaded : TaskStateSnapshot) (written : Written)
      (h : s.stage = .round round) (hcalls : round.calls = []) :
      AgentMove (.finishRound progress uncompleted denial loaded written)
        (finishRound cfg s round progress uncompleted denial loaded written)

variable {cfg s}

theorem stageStep_move {label : Label} {s' : AgentState} (h : stageStep cfg s label = some s') :
    AgentMove cfg s label s' := by
  unfold stageStep at h
  split at h
  · next hstage =>
    cases h
    exact .acquireForeground (by rw [hstage]; rfl)
  · next hstage =>
    cases h
    exact .acquireForeground (by rw [hstage]; rfl)
  · next hstage =>
    cases h
    exact .call _ _ hstage
  · next hstage =>
    cases h
    exact .beforeTurnStart _ _ hstage
  · next hstage =>
    cases h
    exact .startTurn _ _ _ _ hstage
  · next hstage =>
    cases h
    exact .checkLoopGuards _ _ hstage
  · next hstage =>
    cases h
    exact .requestSummary _ hstage
  · next hstage =>
    cases h
    exact .summaryDone _ _ _ _ _ hstage
  · next hstage =>
    split at h
    · cases h
    · cases h
      exact .maybeCompactHistory _ _ _ hstage
  · next hstage =>
    split at h
    · cases h
      exact .request _ hstage
    · cases h
  · next hstage =>
    cases h
    exact .opened _ hstage
  · next hstage =>
    cases h
    exact .openFailed _ _ hstage
  · next hstage =>
    cases h
    exact .event _ _ _ hstage
  · next hstage =>
    cases h
    exact .thoughtShown _ _ _ hstage
  · next hstage =>
    split at h
    · next hwoken =>
      cases h
      exact .notified _ (.inl ⟨_, hstage⟩) hwoken
    · cases h
  · next hstage =>
    split at h
    · next hwoken =>
      cases h
      exact .notified _ (.inr ⟨_, _, hstage⟩) hwoken
    · cases h
  · next hstage =>
    cases h
    exact .retry _ hstage
  · next hstage => exact .respond _ _ _ _ _ _ hstage h
  · next hstage =>
    split at h
    · cases h
    · next hcalls =>
      cases h
      exact .nextCall _ _ _ _ hstage hcalls
  · next hstage =>
    cases h
    exact .execute _ _ _ hstage
  · next hstage =>
    split at h
    · cases h
    · cases h
      exact .toolDone _ _ _ hstage
  · next hstage =>
    cases h
    exact .codeModeDone _ _ _ _ _ _ hstage
  · next hstage =>
    split at h
    · next hcalls =>
      cases h
      exact .finishRound _ _ _ _ _ _ hstage hcalls
    · cases h
  · cases h

/-- Every step of the loop is one of the moves. -/
theorem agentStep_move {label : Label} {s' : AgentState} (h : agentStep cfg s label = some s') :
    AgentMove cfg s label s' := by
  unfold agentStep at h
  split at h
  · cases h
    exact .cancel
  · split at h
    · next hcell =>
      cases h
      exact .nestedCall hcell
    · cases h
  · cases h
    exact .cellEnded
  · exact stageStep_move h

end Steps

/-! ## Beginnings of runs -/

/-- No step is running, nothing is recorded of one, and no turn is left over. -/
def betweenSteps (s : AgentState) : AgentState :=
  { s with
    stage := .idle
    started := none
    requested := false
    ctx := { s.ctx with currentTurn := none } }

def plainConfig (isAutopilot : Bool) : AgentConfig where
  isAutopilot
  canaryToken := "CANARY".toList
  toLowercase := List.map Char.toLower

/-- A step up to its first request. -/
def firstRequest (tools : List Tool) : List Label :=
  [.acquireForeground, .call "Fix it".toList 0,
    .startTurn "turn".toList .empty "task".toList, .checkLoopGuards 0 .whole,
    .maybeCompactHistory none (fun _ => .whole) [], .request tools]

end RustyClaw.AgentLoop
