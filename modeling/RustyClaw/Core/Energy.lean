import RustyClaw.Core.Loop
import RustyClaw.Core.Stripping

/-!
# The energy of a run

The head of the loop takes one energy point, and ends the run when none is left; so a budget of `n`
pays for `n - 1` iterations (`MeetsBudget`).  In autopilot a run whose energy is used up goes on with
fresh energy when more todos are completed than at the last time.

`PaceMove` says what the steps of the loop do to the energy, the baseline of completed todos and the
stage; everything else is derived from it.  `work` is what the loop has still to do on its own, with
the energy that is left.
-/

namespace RustyClaw.AgentLoop

open Context Glyph Streaming Transition
open Json hiding str

/-! ## Labels and stages -/

/-- `set_initial_energy_budget`. -/
def AgentConfig.setInitialEnergyBudget (cfg : AgentConfig) (energyBudget : Nat) : AgentConfig :=
  { cfg with initialEnergyBudget := max energyBudget 1 }

/-- An iteration begins; another attempt at its request is no iteration of its own. -/
def Label.isIteration : Label → Bool
  | .request _ => true
  | _ => false

/-- What is decided outside of the loop: by the caller, the user, the extensions, the stream and
the code of a cell. -/
def Label.isOutside : Label → Bool
  | .cancel | .acquireForeground | .call _ _ | .beforeTurnStart _ | .event _ | .nestedCall
  | .cellEnded => true
  | _ => false

def Label.isCall : Label → Bool
  | .call _ _ => true
  | _ => false

/-- Between a request and the next head of the loop. -/
def Stage.iterating : Stage → Bool
  | .opening _ | .streaming _ _ | .showingThought _ _ _ | .backingOff _ | .responded _ _
  | .round _ | .dispatching _ _ | .executing _ _ | .inCodeMode _ _ => true
  | _ => false

/-- A bound on the steps that the loop takes in an iteration before it is back at its head, when
the stream says nothing more. -/
def Stage.work : Stage → Nat
  | .opening attempt => 7 + 3 * (3 - attempt)
  | .streaming attempt acc => 6 + 3 * (3 - attempt) + 4 * acc.toolCalls.length
  | .showingThought attempt acc _ => 7 + 3 * (3 - attempt) + 4 * acc.toolCalls.length
  | .backingOff attempt => 5 + 3 * max 1 (3 - attempt)
  | .responded _ toolCalls => 5 + 4 * toolCalls.length
  | .round r => 4 + 4 * r.calls.length
  | .dispatching r _ => 7 + 4 * r.calls.length
  | .executing r _ | .inCodeMode r _ => 6 + 4 * r.calls.length
  | .guards => 3
  | .preparing => 14
  | .starting _ => 4
  | .reporting _ => 2
  | .summarizing _ => 1
  | .idle | .acquired | .returned _ => 0

/-! ## What a step does to the energy -/

section Moves

variable (cfg : AgentConfig) (s : AgentState)

/-- The energy and the baseline are what they were. -/
def SameEnergy (s' : AgentState) : Prop :=
  s'.energyPoints = s.energyPoints ∧
    s'.autopilotTodosCompletedCount = s.autopilotTodosCompletedCount

/-- Within an iteration: to another stage of it, to the head of the loop, or out of the step. -/
structure Proceeds (label : Label) (s' : AgentState) : Prop where
  iterating : s.stage.iterating = true
  energy : SameEnergy s s'
  compactionChecked : s'.compactionChecked = s.compactionChecked
  isIteration : label.isIteration = false
  stage : s'.stage.iterating = true ∨ s'.stage = .guards ∨ ∃ result, s'.stage = .returned result ∧
    ∀ summary, result ≠ .ok (.energyDepleted summary)
  work : if label.isOutside then s'.stage.work ≤ s.stage.work + 4
    else s'.stage.work < s.stage.work

/-- What a step does to the energy, the baseline and the stage. -/
inductive PaceMove : Label → AgentState → Prop where
  | outside (label : Label) (s' : AgentState) (hlabel : label.isOutside = true)
      (hiteration : label.isIteration = false) (henergy : SameEnergy s s')
      (hchecked : s'.compactionChecked = s.compactionChecked)
      (hstage : s'.stage = s.stage) : PaceMove label s'
  | acquire (s' : AgentState) (h : s.stage.running = false) (henergy : SameEnergy s s')
      (hstage : s'.stage = .acquired) : PaceMove .acquireForeground s'
  | call (goal : List Char) (completed : Nat) (s' : AgentState) : PaceMove (.call goal completed) s'
  | decided (decision : ExtensionDecision) (goal : List Char) (s' : AgentState)
      (h : s.stage = .starting goal) (henergy : SameEnergy s s')
      (hchecked : s'.compactionChecked = s.compactionChecked)
      (hstage : (∃ goal', s'.stage = .starting goal') ∨
        s'.stage = .returned (.ok .yieldedToUser)) :
      PaceMove (.beforeTurnStart decision) s'
  | started (turnId : List Char) (loaded : TaskStateSnapshot) (taskId goal : List Char)
      (s' : AgentState) (h : s.stage = .starting goal) (henergy : SameEnergy s s')
      (hchecked : s'.compactionChecked = s.compactionChecked) (hstage : s'.stage = .guards) :
      PaceMove (.startTurn turnId loaded taskId) s'
  | stopped (completed : Nat) (written : Written) (s' : AgentState) (h : s.stage = .guards)
      (hcancelled : s.cancelled = true) (henergy : SameEnergy s s')
      (hchecked : s'.compactionChecked = s.compactionChecked)
      (hstage : s'.stage = .returned (.ok .stoppedByUser)) :
      PaceMove (.checkLoopGuards completed written) s'
  | spent (completed : Nat) (written : Written) (s' : AgentState) (h : s.stage = .guards)
      (hcancelled : s.cancelled = false) (hleft : 1 < s.energyPoints)
      (henergy : s'.energyPoints = s.energyPoints - 1)
      (hbase : s'.autopilotTodosCompletedCount = s.autopilotTodosCompletedCount)
      (hchecked : s'.compactionChecked = s.compactionChecked) (hstage : s'.stage = .preparing) :
      PaceMove (.checkLoopGuards completed written) s'
  | usedUp (completed : Nat) (written : Written) (s' : AgentState) (h : s.stage = .guards)
      (hcancelled : s.cancelled = false) (hleft : s.energyPoints ≤ 1) (henergy : s'.energyPoints = 0)
      (hbase : s'.autopilotTodosCompletedCount = s.autopilotTodosCompletedCount)
      (hchecked : s'.compactionChecked = s.compactionChecked)
      (hstage : s'.stage = .reporting (if cfg.isAutopilot ∧
        s.autopilotTodosCompletedCount < completed then some completed else none)) :
      PaceMove (.checkLoopGuards completed written) s'
  | reported (completed : Option Nat) (s' : AgentState) (h : s.stage = .reporting completed)
      (henergy : SameEnergy s s') (hchecked : s'.compactionChecked = s.compactionChecked)
      (hstage : s'.stage = .summarizing completed) : PaceMove .requestSummary s'
  | refilled (completed : Nat) (summary : List Char) (written : Written)
      (archived : Nat → Written) (uuid : List Char) (s' : AgentState)
      (h : s.stage = .summarizing (some completed)) (henergy : s'.energyPoints = initialEnergy)
      (hbase : s'.autopilotTodosCompletedCount = completed)
      (hchecked : s'.compactionChecked = s.compactionChecked) (hstage : s'.stage = .preparing) :
      PaceMove (.summaryDone summary written archived uuid) s'
  | depleted (summary : List Char) (written : Written) (archived : Nat → Written)
      (uuid : List Char) (s' : AgentState) (h : s.stage = .summarizing none)
      (henergy : SameEnergy s s') (hchecked : s'.compactionChecked = s.compactionChecked)
      (hstage : s'.stage = .returned (.ok (.energyDepleted summary))) :
      PaceMove (.summaryDone summary written archived uuid) s'
  | compacted (numTurns : Option Nat) (archived : Nat → Written) (uuid : List Char)
      (s' : AgentState) (h : s.stage = .preparing) (hunchecked : s.compactionChecked = false)
      (henergy : SameEnergy s s') (hchecked : s'.compactionChecked = true)
      (hstage : s'.stage = .preparing) : PaceMove (.maybeCompactHistory numTurns archived uuid) s'
  | requested (tools : List Tool) (s' : AgentState) (h : s.stage = .preparing)
      (henergy : SameEnergy s s') (hchecked : s'.compactionChecked = s.compactionChecked)
      (hstage : s'.stage = .opening 1) : PaceMove (.request tools) s'
  | proceeded (label : Label) (s' : AgentState) (h : Proceeds s label s') : PaceMove label s'

end Moves

section Inversion

variable {cfg : AgentConfig} {s s' : AgentState} {label : Label}

@[refl] lemma SameEnergy.refl (s : AgentState) : SameEnergy s s := ⟨rfl, rfl⟩

lemma calls_conclude (round : Round) (record : ToolCallRecord) (outcome : ToolDispatchOutcome) :
    (round.conclude record outcome).calls = round.calls := by
  unfold Round.conclude
  split
  · rfl
  · split
    · rfl
    · split <;> rfl

lemma length_resolveTextCommandToolCalls {acceptsTextCommand : Bool} {visibleText : List Char}
    {toolCalls calls : List ToolCallRecord}
    (h : resolveTextCommandToolCalls acceptsTextCommand visibleText toolCalls = .ok calls) :
    calls.length = toolCalls.length := by
  unfold resolveTextCommandToolCalls at h
  dsimp only at h
  split at h
  · cases h
    rfl
  · split at h
    · split at h
      · split at h
        · cases h
        · cases h
          rfl
      · cases h
    · split at h
      · cases h
      · cases h
        rfl

/-- A call of the round has its outcome. -/
lemma proceeds_concludeCall {base : AgentState} {round : Round} {record : ToolCallRecord}
    {outcome : ToolDispatchOutcome} (hiterating : s.stage.iterating = true)
    (henergy : SameEnergy s base) (hchecked : base.compactionChecked = s.compactionChecked)
    (hiteration : label.isIteration = false) (houtside : label.isOutside = false)
    (hwork : 4 + 4 * round.calls.length < s.stage.work) :
    Proceeds s label (concludeCall base round record outcome) := by
  obtain ⟨output, hconclude⟩ := exists_concludeCall base round record outcome
  rw [hconclude]
  refine ⟨hiterating, henergy, hchecked, hiteration, .inl rfl, ?_⟩
  rw [houtside, if_neg Bool.false_ne_true]
  show 4 + 4 * (round.conclude record outcome).calls.length < _
  rwa [calls_conclude]

/-- An error of the model leads to another attempt, or out of the step. -/
lemma proceeds_handleLlmError {base : AgentState} {message : List Char} {attempt : Nat}
    (hiterating : s.stage.iterating = true) (henergy : SameEnergy s base)
    (hchecked : base.compactionChecked = s.compactionChecked)
    (hiteration : label.isIteration = false) (hwork : 6 + 3 * (3 - attempt) ≤ s.stage.work)
    : Proceeds s label (handleLlmError cfg base message attempt) := by
  by_cases hretries : retries cfg message attempt = true
  · have hattempt : attempt < 3 := of_decide_eq_true (Bool.and_eq_true_iff.mp hretries).2
    have hless : 5 + 3 * max 1 (3 - attempt) < s.stage.work := by omega
    rw [handleLlmError_of_retries hretries]
    refine ⟨hiterating, henergy, hchecked, hiteration, .inl rfl, ?_⟩
    show if label.isOutside then 5 + 3 * max 1 (3 - attempt) ≤ _ else 5 + 3 * max 1 (3 - attempt) < _
    split
    · omega
    · exact hless
  · rw [handleLlmError_of_not_retries (eq_false_of_ne_true hretries)]
    refine ⟨hiterating, henergy, hchecked, hiteration, .inr (.inr ⟨_, rfl, nofun⟩), ?_⟩
    show if label.isOutside then 0 ≤ _ else 0 < _
    split
    · exact Nat.zero_le _
    · omega

/-- The step returns, other than for want of energy. -/
lemma proceeds_returned {base : AgentState} {result : Except (List Char) RunExit}
    (hiterating : s.stage.iterating = true) (henergy : SameEnergy s base)
    (hchecked : base.compactionChecked = s.compactionChecked)
    (hiteration : label.isIteration = false) (hstage : base.stage = .returned result)
    (hresult : ∀ summary, result ≠ .ok (.energyDepleted summary)) (hwork : 0 < s.stage.work) :
    Proceeds s label base := by
  refine ⟨hiterating, henergy, hchecked, hiteration, .inr (.inr ⟨result, hstage, hresult⟩), ?_⟩
  rw [hstage]
  show if label.isOutside then 0 ≤ _ else 0 < _
  split
  · exact Nat.zero_le _
  · exact hwork

lemma proceeds_event {attempt : Nat} {acc : StreamAcc Char ToolCallRecord}
    {event : StreamEvent Char ToolCallRecord} (h : s.stage = .streaming attempt acc) :
    Proceeds s (.event event) (handleEvent cfg { s with woken := false } attempt acc event) := by
  have hiterating : s.stage.iterating = true := by rw [h]; rfl
  have hwork : s.stage.work = 6 + 3 * (3 - attempt) + 4 * acc.toolCalls.length := by rw [h]; rfl
  cases event with
  | text content =>
    refine ⟨hiterating, ⟨rfl, rfl⟩, rfl, rfl, .inl rfl, ?_⟩
    show 6 + 3 * (3 - attempt) + 4 * acc.toolCalls.length ≤ s.stage.work + 4
    omega
  | thought content =>
    refine ⟨hiterating, ⟨rfl, rfl⟩, rfl, rfl, .inl rfl, ?_⟩
    show 7 + 3 * (3 - attempt) + 4 * acc.toolCalls.length ≤ s.stage.work + 4
    omega
  | toolCall call =>
    refine ⟨hiterating, ⟨rfl, rfl⟩, rfl, rfl, .inl rfl, ?_⟩
    show 6 + 3 * (3 - attempt) + 4 * (acc.toolCalls ++ [call]).length ≤ s.stage.work + 4
    rw [List.length_append, List.length_singleton]
    omega
  | done =>
    refine ⟨hiterating, ⟨rfl, rfl⟩, rfl, rfl, .inl rfl, ?_⟩
    show 5 + 4 * acc.toolCalls.length ≤ s.stage.work + 4
    omega
  | error message =>
    exact proceeds_handleLlmError hiterating ⟨rfl, rfl⟩ rfl rfl (by omega)

lemma proceeds_recordAnswer {base : AgentState} {answer : List Char} {uncompleted : Nat}
    {denial : Option (List Char)} {written : Written} (hiterating : s.stage.iterating = true)
    (henergy : SameEnergy s base) (hchecked : base.compactionChecked = s.compactionChecked)
    (hwork : 5 ≤ s.stage.work) :
    Proceeds s (.respond uncompleted denial written)
      (recordAnswer cfg base answer uncompleted denial written) := by
  have hpos : 0 < s.stage.work := by omega
  unfold recordAnswer
  split
  · exact proceeds_returned hiterating henergy hchecked rfl rfl nofun hpos
  · split
    · exact ⟨hiterating, henergy, hchecked, rfl, .inl rfl, hwork⟩
    · exact proceeds_returned hiterating henergy hchecked rfl rfl nofun hpos

lemma proceeds_recordCalls {base : AgentState} {visibleText : List Char}
    {toolCalls : List ToolCallRecord} {uncompleted : Nat} {denial : Option (List Char)}
    {written : Written} (hiterating : s.stage.iterating = true) (henergy : SameEnergy s base)
    (hchecked : base.compactionChecked = s.compactionChecked)
    (hwork : s.stage.work = 5 + 4 * toolCalls.length) :
    Proceeds s (.respond uncompleted denial written)
      (recordCalls cfg base visibleText toolCalls) := by
  obtain ⟨output, hshown⟩ := exists_showVisibleText cfg base (trim visibleText) toolCalls
  unfold recordCalls
  rw [hshown]
  dsimp only
  split
  · next parts _ =>
    have hless : 3 < s.stage.work := by omega
    by_cases hparts : parts = []
    · rw [if_pos hparts]
      exact ⟨hiterating, henergy, hchecked, rfl, .inr (.inl rfl), hless⟩
    · rw [if_neg hparts]
      exact ⟨hiterating, henergy, hchecked, rfl, .inr (.inl rfl), hless⟩
  · next calls hcalls =>
    have hlength := length_resolveTextCommandToolCalls hcalls
    have hless : 4 + 4 * calls.length < s.stage.work := by omega
    exact ⟨hiterating, henergy, hchecked, rfl, .inl rfl, hless⟩

lemma proceeds_respond {text : List Char} {toolCalls : List ToolCallRecord} {uncompleted : Nat}
    {denial : Option (List Char)} {written : Written} (h : s.stage = .responded text toolCalls)
    (hs' : respond cfg s text toolCalls uncompleted denial written = some s') :
    Proceeds s (.respond uncompleted denial written) s' := by
  have hiterating : s.stage.iterating = true := by rw [h]; rfl
  have hwork : s.stage.work = 5 + 4 * toolCalls.length := by rw [h]; rfl
  have hpos : 0 < s.stage.work := by omega
  obtain ⟨visibleText, -, rfl⟩ := Option.map_eq_some_iff.mp hs'
  dsimp only
  split
  · split
    · exact proceeds_returned hiterating ⟨rfl, rfl⟩ rfl rfl rfl nofun hpos
    · have hless : 3 < s.stage.work := by omega
      exact ⟨hiterating, ⟨rfl, rfl⟩, rfl, rfl, .inr (.inl rfl), hless⟩
  · split
    · exact proceeds_returned hiterating ⟨rfl, rfl⟩ rfl rfl rfl nofun hpos
    · split
      · exact proceeds_recordAnswer hiterating ⟨rfl, rfl⟩ rfl (by omega)
      · exact proceeds_recordCalls hiterating ⟨rfl, rfl⟩ rfl hwork

lemma proceeds_nextCall {round : Round} {record : ToolCallRecord} {calls : List ToolCallRecord}
    {todosExist : Bool} (h : s.stage = .round round) (hcalls : round.calls = record :: calls) :
    Proceeds s (.nextCall todosExist)
      (nextCall cfg s { round with calls } record todosExist) := by
  have hiterating : s.stage.iterating = true := by rw [h]; rfl
  have hwork : s.stage.work = 8 + 4 * calls.length := by
    rw [h]
    show 4 + 4 * round.calls.length = _
    rw [hcalls, List.length_cons]
    omega
  have hanswered : 4 + 4 * calls.length < s.stage.work := by omega
  unfold nextCall
  split
  · exact ⟨hiterating, ⟨rfl, rfl⟩, rfl, rfl, .inl rfl, hanswered⟩
  · obtain ⟨output, hshown⟩ := exists_showToolThought s (extractToolThought record.1).2
    dsimp only
    rw [hshown]
    split
    · exact ⟨hiterating, ⟨rfl, rfl⟩, rfl, rfl, .inl rfl, hanswered⟩
    · split
      · exact ⟨hiterating, ⟨rfl, rfl⟩, rfl, rfl, .inl rfl, hanswered⟩
      · split
        · exact proceeds_concludeCall hiterating ⟨rfl, rfl⟩ rfl rfl rfl hanswered
        · split
          · exact proceeds_concludeCall hiterating ⟨rfl, rfl⟩ rfl rfl rfl hanswered
          · have hdispatched : 7 + 4 * calls.length < s.stage.work := by omega
            exact ⟨hiterating, ⟨rfl, rfl⟩, rfl, rfl, .inl rfl, hdispatched⟩

lemma proceeds_execute {round : Round} {record : ToolCallRecord} {todosExist : Bool}
    (h : s.stage = .dispatching round record) :
    Proceeds s (.execute todosExist) (execute cfg s round record todosExist) := by
  have hiterating : s.stage.iterating = true := by rw [h]; rfl
  have hwork : s.stage.work = 7 + 4 * round.calls.length := by rw [h]; rfl
  have hexecuting : 6 + 4 * round.calls.length < s.stage.work := by omega
  unfold execute
  split
  · exact ⟨hiterating, ⟨rfl, rfl⟩, rfl, rfl, .inl rfl, hexecuting⟩
  · split
    · exact proceeds_concludeCall hiterating ⟨rfl, rfl⟩ rfl rfl rfl (by omega)
    · exact ⟨hiterating, ⟨rfl, rfl⟩, rfl, rfl, .inl rfl, hexecuting⟩

lemma proceeds_toolDone {round : Round} {record : ToolCallRecord}
    {ending : UnifiedToolExecutor.InvokeEnd} (h : s.stage = .executing round record) :
    Proceeds s (.toolDone ending) (toolDone cfg s round record ending) := by
  have hiterating : s.stage.iterating = true := by rw [h]; rfl
  have hwork : s.stage.work = 6 + 4 * round.calls.length := by rw [h]; rfl
  obtain ⟨executionGuard, outcome, hdone⟩ := exists_toolDone cfg s round record ending
  rw [hdone]
  exact proceeds_concludeCall hiterating ⟨rfl, rfl⟩ rfl rfl rfl (by omega)

lemma proceeds_codeModeDone {round : Round} {record : ToolCallRecord} {shown result : List Char}
    {isError stopped : Bool} (h : s.stage = .inCodeMode round record) :
    Proceeds s (.codeModeDone shown result isError stopped)
      (codeModeDone cfg s round record shown result isError stopped) := by
  have hiterating : s.stage.iterating = true := by rw [h]; rfl
  have hwork : s.stage.work = 6 + 4 * round.calls.length := by rw [h]; rfl
  obtain ⟨output, executionGuard, cellRunning, outcome, hdone⟩ :=
    exists_codeModeDone cfg s round record shown result isError stopped
  rw [hdone]
  exact proceeds_concludeCall hiterating ⟨rfl, rfl⟩ rfl rfl rfl (by omega)

lemma proceeds_continueRun {base : AgentState} {round : Round} {loaded : TaskStateSnapshot}
    {written : Written} (hiterating : s.stage.iterating = true) (henergy : SameEnergy s base)
    (hchecked : base.compactionChecked = s.compactionChecked)
    (hiteration : label.isIteration = false) (houtside : label.isOutside = false)
    (hwork : 3 < s.stage.work) :
    Proceeds s label (continueRun cfg base round loaded written) := by
  unfold continueRun
  split
  · exact proceeds_returned hiterating henergy hchecked hiteration rfl nofun (by omega)
  · refine ⟨hiterating, henergy, hchecked, hiteration, .inr (.inl rfl), ?_⟩
    rw [houtside, if_neg Bool.false_ne_true]
    exact hwork

lemma proceeds_finishRound {round : Round} {progress : Option (Nat × Nat)} {uncompleted : Nat}
    {denial : Option (List Char)} {loaded : TaskStateSnapshot} {written : Written}
    (h : s.stage = .round round) :
    Proceeds s (.finishRound progress uncompleted denial loaded written)
      (finishRound cfg s round progress uncompleted denial loaded written) := by
  have hiterating : s.stage.iterating = true := by rw [h]; rfl
  have hwork : s.stage.work = 4 + 4 * round.calls.length := by rw [h]; rfl
  have hless : 3 < s.stage.work := by omega
  have hpos : 0 < s.stage.work := by omega
  obtain ⟨output, hshown⟩ := exists_reportProgress cfg s progress
  unfold finishRound
  rw [hshown]
  dsimp only
  split
  · exact proceeds_returned hiterating ⟨rfl, rfl⟩ rfl rfl rfl nofun hpos
  · by_cases hresponses : round.responses = []
    · simp only [if_pos hresponses]
      split
      · split
        · exact proceeds_continueRun hiterating ⟨rfl, rfl⟩ rfl rfl rfl hless
        · exact proceeds_returned hiterating ⟨rfl, rfl⟩ rfl rfl rfl nofun hpos
      · exact proceeds_continueRun hiterating ⟨rfl, rfl⟩ rfl rfl rfl hless
    · simp only [if_neg hresponses]
      split
      · split
        · exact proceeds_continueRun hiterating ⟨rfl, rfl⟩ rfl rfl rfl hless
        · exact proceeds_returned hiterating ⟨rfl, rfl⟩ rfl rfl rfl nofun hpos
      · exact proceeds_continueRun hiterating ⟨rfl, rfl⟩ rfl rfl rfl hless

lemma paceMove_checkLoopGuards {completed : Nat} {written : Written} (h : s.stage = .guards) :
    PaceMove cfg s (.checkLoopGuards completed written) (checkLoopGuards cfg s completed written) := by
  by_cases hcancelled : s.cancelled = true
  · rw [checkLoopGuards_of_cancelled cfg s hcancelled]
    exact .stopped _ _ _ h hcancelled ⟨rfl, rfl⟩ rfl rfl
  · unfold checkLoopGuards
    rw [if_neg hcancelled]
    dsimp only
    split
    · next hzero =>
      have hleft : s.energyPoints ≤ 1 := by omega
      split
      · next haudit =>
        refine .usedUp _ _ _ h (eq_false_of_ne_true hcancelled) hleft hzero rfl rfl ?_
        rw [if_pos haudit]
      · next haudit =>
        refine .usedUp _ _ _ h (eq_false_of_ne_true hcancelled) hleft hzero rfl rfl ?_
        rw [if_neg haudit]
    · next hleft =>
      exact .spent _ _ _ h (eq_false_of_ne_true hcancelled) (by omega) rfl rfl rfl rfl

lemma paceMove_summaryDone {completed : Option Nat} {summary : List Char} {written : Written}
    {archived : Nat → Written} {uuid : List Char} (h : s.stage = .summarizing completed) :
    PaceMove cfg s (.summaryDone summary written archived uuid)
      (summaryDone cfg s completed summary written archived uuid) := by
  cases completed with
  | none => exact .depleted _ _ _ _ _ h ⟨rfl, rfl⟩ rfl rfl
  | some completed =>
    obtain ⟨files, ctx, output, hdone, -⟩ :=
      exists_summaryDone cfg s completed summary written archived uuid
    rw [hdone]
    exact .refilled completed _ _ _ _ _ h rfl rfl rfl rfl

lemma unchecked_of_maybeCompactHistory {numTurns : Option Nat} {archived : Nat → Written}
    {uuid : List Char} (hstage : s.stage = .preparing)
    (h : agentStep cfg s (.maybeCompactHistory numTurns archived uuid) = some s') :
    s.compactionChecked = false := by
  simp only [agentStep, stageStep, hstage] at h
  split at h
  · cases h
  · next hunchecked => exact eq_false_of_ne_true hunchecked

lemma paceMove_beforeTurnStart {goal : List Char} {decision : ExtensionDecision}
    (h : s.stage = .starting goal) :
    PaceMove cfg s (.beforeTurnStart decision) (beforeTurnStart s decision) := by
  cases decision with
  | goOn => exact .decided _ goal _ h ⟨rfl, rfl⟩ rfl (.inl ⟨goal, h⟩)
  | intercept overlay =>
    cases overlay with
    | none => exact .decided _ goal _ h ⟨rfl, rfl⟩ rfl (.inl ⟨goal, h⟩)
    | some overlay => exact .decided _ goal _ h ⟨rfl, rfl⟩ rfl (.inl ⟨overlay, rfl⟩)
  | halt message => exact .decided _ goal _ h ⟨rfl, rfl⟩ rfl (.inr rfl)

/-- Every step of the loop is one of the moves. -/
theorem paceMove_of_step (h : agentStep cfg s label = some s') : PaceMove cfg s label s' := by
  cases agentStep_move h with
  | cancel => exact .outside _ _ rfl rfl ⟨rfl, rfl⟩ rfl rfl
  | nestedCall => exact .outside _ _ rfl rfl ⟨rfl, rfl⟩ rfl rfl
  | cellEnded => exact .outside _ _ rfl rfl ⟨rfl, rfl⟩ rfl rfl
  | acquireForeground hidle => exact .acquire _ hidle ⟨rfl, rfl⟩ rfl
  | call goal completed => exact .call goal completed _
  | beforeTurnStart goal decision hstage => exact paceMove_beforeTurnStart hstage
  | startTurn goal turnId loaded taskId hstage =>
    exact .started _ _ _ goal _ hstage ⟨rfl, rfl⟩ rfl rfl
  | checkLoopGuards completed written hstage => exact paceMove_checkLoopGuards hstage
  | requestSummary completed hstage => exact .reported completed _ hstage ⟨rfl, rfl⟩ rfl rfl
  | summaryDone completed summary written archived uuid hstage => exact paceMove_summaryDone hstage
  | maybeCompactHistory numTurns archived uuid hstage =>
    have hunchecked := unchecked_of_maybeCompactHistory hstage h
    obtain ⟨files, ctx, output, hcompact, -⟩ :=
      exists_maybeCompactHistory cfg s numTurns archived uuid
    rw [hcompact]
    exact .compacted _ _ _ _ hstage hunchecked ⟨rfl, rfl⟩ rfl hstage
  | request tools hstage => exact .requested tools _ hstage ⟨rfl, rfl⟩ rfl rfl
  | opened attempt hstage =>
    refine .proceeded _ _ ⟨by rw [hstage]; rfl, ⟨rfl, rfl⟩, rfl, rfl, .inl rfl, ?_⟩
    rw [hstage]
    show 6 + 3 * (3 - attempt) < 7 + 3 * (3 - attempt)
    omega
  | openFailed attempt message hstage =>
    refine .proceeded _ _ (proceeds_handleLlmError (by rw [hstage]; rfl) ⟨rfl, rfl⟩ rfl rfl ?_)
    rw [hstage]
    show 6 + 3 * (3 - attempt) ≤ 7 + 3 * (3 - attempt)
    omega
  | event attempt acc event hstage => exact .proceeded _ _ (proceeds_event hstage)
  | thoughtShown attempt acc content hstage =>
    refine .proceeded _ _ ⟨by rw [hstage]; rfl, ⟨rfl, rfl⟩, rfl, rfl, .inl rfl, ?_⟩
    rw [hstage]
    show 6 + 3 * (3 - attempt) + 4 * acc.toolCalls.length < 7 + 3 * (3 - attempt) +
      4 * acc.toolCalls.length
    omega
  | notified written hstage hwoken =>
    obtain ⟨attempt, hstage⟩ | ⟨attempt, acc, hstage⟩ := hstage
    · refine .proceeded _ _ (proceeds_returned (by rw [hstage]; rfl) ⟨rfl, rfl⟩ rfl rfl rfl nofun ?_)
      rw [hstage]
      show 0 < 7 + 3 * (3 - attempt)
      omega
    · refine .proceeded _ _ (proceeds_returned (by rw [hstage]; rfl) ⟨rfl, rfl⟩ rfl rfl rfl nofun ?_)
      rw [hstage]
      show 0 < 6 + 3 * (3 - attempt) + 4 * acc.toolCalls.length
      omega
  | retry attempt hstage =>
    refine .proceeded _ _ ⟨by rw [hstage]; rfl, ⟨rfl, rfl⟩, rfl, rfl, .inl rfl, ?_⟩
    rw [hstage]
    show 7 + 3 * (3 - (attempt + 1)) < 5 + 3 * max 1 (3 - attempt)
    omega
  | respond text toolCalls uncompleted denial written _ hstage hs' =>
    exact .proceeded _ _ (proceeds_respond hstage hs')
  | nextCall round record calls todosExist hstage hcalls =>
    exact .proceeded _ _ (proceeds_nextCall hstage hcalls)
  | execute round record todosExist hstage => exact .proceeded _ _ (proceeds_execute hstage)
  | toolDone round record ending hstage => exact .proceeded _ _ (proceeds_toolDone hstage)
  | codeModeDone round record shown result isError stopped hstage =>
    exact .proceeded _ _ (proceeds_codeModeDone hstage)
  | finishRound round progress uncompleted denial loaded written hstage =>
    exact .proceeded _ _ (proceeds_finishRound hstage)

end Inversion

/-! ## A run with a fixed budget -/

/-- The step has been called and has not returned. -/
def Stage.inLoop : Stage → Bool
  | .idle | .acquired | .returned _ => false
  | _ => true

/-- The response that came last is never stripped of its think blocks. -/
def Hangs (s : AgentState) : Prop :=
  ∃ text toolCalls, s.stage = .responded text toolCalls ∧ ¬ OpensFirst text

/-- The step has returned, or will not go on. -/
def AtEnd (s : AgentState) : Prop := (∃ result, s.stage = .returned result) ∨ Hangs s

/-- The step returns after at most as many iterations as it has energy, and for want of energy after
exactly as many. -/
structure MeetsBudget (cfg : AgentConfig) (labels : List Label) (s' : AgentState) : Prop where
  returns : ∃ result, s'.stage = .returned result
  atMost : labels.countP Label.isIteration ≤ cfg.initialEnergyBudget
  exact : ∀ summary, s'.stage = .returned (.ok (.energyDepleted summary)) →
    labels.countP Label.isIteration = cfg.initialEnergyBudget

/-- The head of the loop is not reached with one point left, unless the run is cancelled. -/
def sparesLastPoint (s : AgentState) : Label → Prop
  | .checkLoopGuards _ _ => s.cancelled = true ∨ 1 < s.energyPoints
  | _ => True

/-- What `k` iterations have left of `n` energy points. -/
def Accounts (n k : Nat) (s : AgentState) : Prop :=
  match s.stage with
  | .idle => False
  | .acquired => k ≤ n
  | .preparing => k + s.energyPoints + 1 = n ∧ 1 ≤ s.energyPoints
  | .reporting completed | .summarizing completed => completed = none ∧ k + 1 = n
  | .returned result => k ≤ n ∧ ∀ summary, result = .ok (.energyDepleted summary) → k + 1 = n
  | _ => k + s.energyPoints = n ∧ 1 ≤ s.energyPoints

/-- The energy is used up. -/
def Depleting (s : AgentState) : Prop :=
  (∃ completed, s.stage = .reporting completed) ∨ (∃ completed, s.stage = .summarizing completed) ∨
    ∃ summary, s.stage = .returned (.ok (.energyDepleted summary))

/-- What the loop still does on its own. -/
def potential (s : AgentState) : Nat :=
  if s.stage.inLoop then
    12 * s.energyPoints + s.stage.work + (if s.compactionChecked then 0 else 1)
  else 0

section Budget

variable {cfg : AgentConfig} {s s' : AgentState} {label : Label} {labels : List Label}
  {goal : List Char} {completed n k : Nat}

lemma accounts_iff_of_iterating (h : s.stage.iterating = true) :
    Accounts n k s ↔ k + s.energyPoints = n ∧ 1 ≤ s.energyPoints := by
  unfold Accounts
  generalize s.stage = stage at h
  cases stage <;> first | exact Iff.rfl | cases h

lemma Accounts.of_eq (h : Accounts n k s) (hstage : s'.stage = s.stage)
    (henergy : s'.energyPoints = s.energyPoints) : Accounts n k s' := by
  unfold Accounts at h ⊢
  rwa [hstage, henergy]

/-- Every step keeps the account. -/
lemma Accounts.step (h : Accounts n k s) (hautopilot : cfg.isAutopilot = false)
    (hcall : label.isCall = false) (hstep : agentStep cfg s label = some s') :
    Accounts n (k + if label.isIteration then 1 else 0) s' := by
  cases paceMove_of_step hstep with
  | outside _ _ hlabel hiteration henergy hchecked hstage =>
    rw [hiteration, if_neg Bool.false_ne_true]
    exact h.of_eq hstage henergy.1
  | acquire _ hidle henergy hstage =>
    have hle : k ≤ n := by
      unfold Accounts at h
      split at h
      · exact h.elim
      · exact h
      · omega
      · omega
      · omega
      · exact h.1
      · omega
    simp only [Accounts, hstage]
    exact hle
  | call goal completed => cases hcall
  | decided decision goal _ hs henergy hchecked hstage =>
    simp only [Accounts, hs] at h
    obtain ⟨goal', hstage⟩ | hstage := hstage
    · simp only [Accounts, hstage, henergy.1]
      exact h
    · simp only [Accounts, hstage]
      refine ⟨?_, nofun⟩
      show k ≤ n
      omega
  | started turnId loaded taskId goal _ hs henergy hchecked hstage =>
    simp only [Accounts, hs] at h
    simp only [Accounts, hstage, henergy.1]
    exact h
  | stopped completed written _ hs hcancelled henergy hchecked hstage =>
    simp only [Accounts, hs] at h
    simp only [Accounts, hstage]
    refine ⟨?_, nofun⟩
    show k ≤ n
    omega
  | spent completed written _ hs hcancelled hleft henergy hbase hchecked hstage =>
    simp only [Accounts, hs] at h
    simp only [Accounts, hstage, henergy]
    show k + (s.energyPoints - 1) + 1 = n ∧ 1 ≤ s.energyPoints - 1
    omega
  | usedUp completed written _ hs hcancelled hleft henergy hbase hchecked hstage =>
    simp only [Accounts, hs] at h
    simp only [Accounts, hstage]
    refine ⟨?_, ?_⟩
    · rw [hautopilot, if_neg (by simp)]
    · show k + 1 = n
      omega
  | reported completed _ hs henergy hchecked hstage =>
    simp only [Accounts, hs] at h
    simp only [Accounts, hstage]
    exact h
  | refilled completed summary written archived uuid _ hs henergy hbase hchecked hstage =>
    simp only [Accounts, hs] at h
    cases h.1
  | depleted summary written archived uuid _ hs henergy hchecked hstage =>
    simp only [Accounts, hs] at h
    simp only [Accounts, hstage]
    have hlast : k + 1 = n := h.2
    exact ⟨by show k ≤ n; omega, fun _ _ => hlast⟩
  | compacted numTurns archived uuid _ hs hunchecked henergy hchecked hstage =>
    exact h.of_eq (hstage.trans hs.symm) henergy.1
  | requested tools _ hs henergy hchecked hstage =>
    simp only [Accounts, hs] at h
    simp only [Accounts, hstage, henergy.1]
    show k + 1 + s.energyPoints = n ∧ 1 ≤ s.energyPoints
    omega
  | proceeded _ _ hproceeds =>
    obtain ⟨hleft, hpos⟩ := (accounts_iff_of_iterating hproceeds.iterating).mp h
    rw [hproceeds.isIteration, if_neg Bool.false_ne_true, Nat.add_zero]
    obtain hiterating | hguards | ⟨result, hreturned, hresult⟩ := hproceeds.stage
    · rw [accounts_iff_of_iterating hiterating, hproceeds.energy.1]
      exact ⟨hleft, hpos⟩
    · simp only [Accounts, hguards, hproceeds.energy.1]
      exact ⟨hleft, hpos⟩
    · simp only [Accounts, hreturned]
      exact ⟨by omega, fun summary heq => absurd heq (hresult summary)⟩

lemma accounts_beginStep (hbudget : 1 ≤ cfg.initialEnergyBudget) (s : AgentState)
    (goal : List Char) (completed : Nat) :
    Accounts cfg.initialEnergyBudget 0 (beginStep cfg s goal completed) := by
  unfold beginStep
  dsimp only
  split
  · exact ⟨Nat.zero_le _, nofun⟩
  · split
    · exact ⟨Nat.zero_le _, nofun⟩
    · exact ⟨Nat.zero_add _, hbudget⟩

lemma not_depleting_beginStep (s : AgentState) (goal : List Char) (completed : Nat) :
    ¬ Depleting (beginStep cfg s goal completed) := by
  unfold beginStep
  dsimp only
  split
  · simp [Depleting, AgentState.exit]
  · split
    · simp [Depleting, AgentState.exit]
    · simp [Depleting]

lemma potential_beginStep (s : AgentState) (goal : List Char) (completed : Nat) :
    potential (beginStep cfg s goal completed) ≤ 12 * cfg.initialEnergyBudget + 5 := by
  unfold beginStep
  dsimp only
  split
  · exact Nat.zero_le _
  · split
    · exact Nat.zero_le _
    · exact Nat.le_refl _

/-! ### The steps of the loop are bounded -/

lemma potential_of_eq (hstage : s'.stage = s.stage) (henergy : s'.energyPoints = s.energyPoints)
    (hchecked : s'.compactionChecked = s.compactionChecked) : potential s' = potential s := by
  rw [potential, potential, hstage, henergy, hchecked]

lemma potential_of_inLoop (h : s.stage.inLoop = true) : potential s =
    12 * s.energyPoints + s.stage.work + (if s.compactionChecked then 0 else 1) :=
  if_pos h

lemma potential_of_not_inLoop (h : s.stage.inLoop = false) : potential s = 0 :=
  if_neg (by rw [h]; exact Bool.false_ne_true)

lemma Stage.inLoop_of_iterating {stage : Stage} (h : stage.iterating = true) :
    stage.inLoop = true := by
  cases stage <;> first | rfl | cases h

/-- A step of the loop uses up what it still has to do; a word from outside adds a little. -/
lemma potential_step (h : Accounts n k s) (hcall : label.isCall = false)
    (hstep : agentStep cfg s label = some s') :
    potential s' + (if label.isOutside then 0 else 1) ≤
      potential s + (if label.isOutside then 4 else 0) := by
  cases paceMove_of_step hstep with
  | outside _ _ hlabel hiteration henergy hchecked hstage =>
    rw [potential_of_eq hstage henergy.1 hchecked, hlabel, if_pos rfl, if_pos rfl]
    omega
  | acquire _ hidle henergy hstage =>
    rw [potential_of_not_inLoop (s := s') (by rw [hstage]; rfl)]
    exact Nat.zero_le _
  | call goal completed => cases hcall
  | decided decision goal _ hs henergy hchecked hstage =>
    show potential s' + 0 ≤ potential s + 4
    obtain ⟨goal', hstage⟩ | hstage := hstage
    · rw [potential_of_inLoop (s := s') (by rw [hstage]; rfl),
        potential_of_inLoop (s := s) (by rw [hs]; rfl), henergy.1, hchecked, hstage, hs]
      exact Nat.le_add_right _ 4
    · rw [potential_of_not_inLoop (s := s') (by rw [hstage]; rfl)]
      exact Nat.zero_le _
  | started turnId loaded taskId goal _ hs henergy hchecked hstage =>
    rw [potential_of_inLoop (s := s') (by rw [hstage]; rfl),
      potential_of_inLoop (s := s) (by rw [hs]; rfl), henergy.1, hchecked, hstage, hs]
    show 12 * s.energyPoints + 3 + _ + 1 ≤ 12 * s.energyPoints + 4 + _ + 0
    omega
  | stopped completed written _ hs hcancelled henergy hchecked hstage =>
    rw [potential_of_not_inLoop (s := s') (by rw [hstage]; rfl),
      potential_of_inLoop (s := s) (by rw [hs]; rfl), hs]
    show 0 + 1 ≤ 12 * s.energyPoints + 3 + _ + 0
    omega
  | spent completed written _ hs hcancelled hleft henergy hbase hchecked hstage =>
    rw [potential_of_inLoop (s := s') (by rw [hstage]; rfl),
      potential_of_inLoop (s := s) (by rw [hs]; rfl), henergy, hchecked, hstage, hs]
    show 12 * (s.energyPoints - 1) + 14 + _ + 1 ≤ 12 * s.energyPoints + 3 + _ + 0
    omega
  | usedUp completed written _ hs hcancelled hleft henergy hbase hchecked hstage =>
    rw [potential_of_inLoop (s := s') (by rw [hstage]; rfl),
      potential_of_inLoop (s := s) (by rw [hs]; rfl), henergy, hchecked, hstage, hs]
    show 12 * 0 + 2 + _ + 1 ≤ 12 * s.energyPoints + 3 + _ + 0
    omega
  | reported completed _ hs henergy hchecked hstage =>
    rw [potential_of_inLoop (s := s') (by rw [hstage]; rfl),
      potential_of_inLoop (s := s) (by rw [hs]; rfl), henergy.1, hchecked, hstage, hs]
    show 12 * s.energyPoints + 1 + _ + 1 ≤ 12 * s.energyPoints + 2 + _ + 0
    omega
  | refilled completed summary written archived uuid _ hs henergy hbase hchecked hstage =>
    simp only [Accounts, hs] at h
    cases h.1
  | depleted summary written archived uuid _ hs henergy hchecked hstage =>
    rw [potential_of_not_inLoop (s := s') (by rw [hstage]; rfl),
      potential_of_inLoop (s := s) (by rw [hs]; rfl), hs]
    show 0 + 1 ≤ 12 * s.energyPoints + 1 + _ + 0
    omega
  | compacted numTurns archived uuid _ hs hunchecked henergy hchecked hstage =>
    rw [potential_of_inLoop (s := s') (by rw [hstage]; rfl),
      potential_of_inLoop (s := s) (by rw [hs]; rfl), henergy.1, hchecked, hstage, hs, hunchecked]
    exact Nat.le_refl _
  | requested tools _ hs henergy hchecked hstage =>
    rw [potential_of_inLoop (s := s') (by rw [hstage]; rfl),
      potential_of_inLoop (s := s) (by rw [hs]; rfl), henergy.1, hchecked, hstage, hs]
    show 12 * s.energyPoints + 13 + _ + 1 ≤ 12 * s.energyPoints + 14 + _ + 0
    omega
  | proceeded _ _ hproceeds =>
    have hwork := hproceeds.work
    rw [potential_of_inLoop (Stage.inLoop_of_iterating hproceeds.iterating)]
    obtain hiterating | hguards | ⟨result, hreturned, -⟩ := hproceeds.stage
    · rw [potential_of_inLoop (Stage.inLoop_of_iterating hiterating), hproceeds.energy.1,
        hproceeds.compactionChecked]
      split at hwork <;> split <;> omega
    · rw [potential_of_inLoop (s := s') (by rw [hguards]; rfl), hproceeds.energy.1,
        hproceeds.compactionChecked]
      split at hwork <;> split <;> omega
    · rw [potential_of_not_inLoop (s := s') (by rw [hreturned]; rfl)]
      split at hwork <;> split <;> omega

/-- How many steps the loop takes on its own. -/
lemma own_steps_le (h : Accounts n k s) (hautopilot : cfg.isAutopilot = false)
    (hcall : ∀ label ∈ labels, label.isCall = false)
    (hrun : run (agentStep cfg) s labels = some s') :
    labels.countP (fun label => !label.isOutside) + potential s' ≤
      potential s + 4 * labels.countP Label.isOutside := by
  induction labels generalizing s k with
  | nil =>
    cases hrun
    simp
  | cons label labels ih =>
    obtain ⟨t, hstep, htail⟩ := run_cons_eq_some.mp hrun
    have hlabel := hcall label List.mem_cons_self
    have hrest := ih (h.step hautopilot hlabel hstep)
      (fun label' hmem => hcall label' (List.mem_cons_of_mem _ hmem)) htail
    have hfirst := potential_step h hlabel hstep
    rw [List.countP_cons, List.countP_cons]
    cases houtside : label.isOutside with
    | false =>
      simp only [houtside, Bool.false_eq_true, if_false, Bool.not_false, if_true] at hfirst ⊢
      omega
    | true =>
      simp only [houtside, if_true, Bool.not_true, Bool.false_eq_true, if_false] at hfirst ⊢
      omega

/-! ### The last point -/

/-- While the last point is spared, the energy is not used up. -/
lemma not_depleting_step (h : ¬ Depleting s) (hspares : sparesLastPoint s label)
    (hcall : label.isCall = false) (hstep : agentStep cfg s label = some s') :
    ¬ Depleting s' := by
  cases paceMove_of_step hstep with
  | outside _ _ hlabel hiteration henergy hchecked hstage => rwa [Depleting, hstage]
  | acquire _ hidle henergy hstage => simp [Depleting, hstage]
  | call goal completed => cases hcall
  | decided decision goal _ hs henergy hchecked hstage =>
    obtain ⟨goal', hstage⟩ | hstage := hstage <;> simp [Depleting, hstage]
  | started turnId loaded taskId goal _ hs henergy hchecked hstage => simp [Depleting, hstage]
  | stopped completed written _ hs hcancelled henergy hchecked hstage => simp [Depleting, hstage]
  | spent completed written _ hs hcancelled hleft henergy hbase hchecked hstage =>
    simp [Depleting, hstage]
  | usedUp completed written _ hs hcancelled hleft henergy hbase hchecked hstage =>
    obtain hcancelled' | hleft' := hspares
    · rw [hcancelled] at hcancelled'
      cases hcancelled'
    · exact absurd hleft' (Nat.not_lt.mpr hleft)
  | reported completed _ hs henergy hchecked hstage => exact absurd (.inl ⟨_, hs⟩) h
  | refilled completed summary written archived uuid _ hs henergy hbase hchecked hstage =>
    simp [Depleting, hstage]
  | depleted summary written archived uuid _ hs henergy hchecked hstage =>
    exact absurd (.inr (.inl ⟨_, hs⟩)) h
  | compacted numTurns archived uuid _ hs hunchecked henergy hchecked hstage =>
    simp [Depleting, hstage]
  | requested tools _ hs henergy hchecked hstage => simp [Depleting, hstage]
  | proceeded _ _ hproceeds =>
    obtain hiterating | hguards | ⟨result, hreturned, hresult⟩ := hproceeds.stage
    · rintro (⟨completed, hstage⟩ | ⟨completed, hstage⟩ | ⟨summary, hstage⟩) <;>
        rw [hstage] at hiterating <;> cases hiterating
    · simp [Depleting, hguards]
    · simpa [Depleting, hreturned] using hresult

/-- Once the energy is used up, a run without fresh energy only ends in one way. -/
lemma depleting_step (h : Depleting s ∨ s.stage = .acquired) (haccounts : Accounts n k s)
    (hcall : label.isCall = false) (hstep : agentStep cfg s label = some s') :
    Depleting s' ∨ s'.stage = .acquired := by
  cases paceMove_of_step hstep with
  | outside _ _ hlabel hiteration henergy hchecked hstage => rwa [Depleting, hstage]
  | acquire _ hidle henergy hstage => exact .inr hstage
  | call goal completed => cases hcall
  | reported completed _ hs henergy hchecked hstage => exact .inl (.inr (.inl ⟨_, hstage⟩))
  | refilled completed summary written archived uuid _ hs henergy hbase hchecked hstage =>
    simp only [Accounts, hs] at haccounts
    cases haccounts.1
  | depleted summary written archived uuid _ hs henergy hchecked hstage =>
    exact .inl (.inr (.inr ⟨_, hstage⟩))
  | decided _ _ _ hs | started _ _ _ _ _ hs | stopped _ _ _ hs | spent _ _ _ hs | usedUp _ _ _ hs
  | compacted _ _ _ _ hs | requested _ _ hs => simp [Depleting, hs] at h
  | proceeded _ _ hproceeds =>
    have hiterating := hproceeds.iterating
    obtain (⟨completed, hstage⟩ | ⟨completed, hstage⟩ | ⟨summary, hstage⟩) | hstage := h <;>
      rw [hstage] at hiterating <;> cases hiterating

/-! ### The step goes on -/

/-- The stripping of the think blocks ends on exactly the texts that open a block first. -/
lemma exists_stripThinkBlocks_iff {text : List Char} :
    (∃ visible, stripThinkBlocks text = some visible) ↔ OpensFirst text := by
  constructor
  · rintro ⟨visible, hstrip⟩
    exact opensFirst_of_stripLoop hstrip
  · intro h
    obtain ⟨rounds, hrounds⟩ := stripLoop_eq_stripThinkingLoop h
    exact ⟨_, stripLoop_fuel rounds (hrounds text.length (Nat.le_refl _))⟩

/-- The user cancels, or a cell of the code mode does something. -/
def Label.isDisturbance : Label → Bool
  | .cancel | .nestedCall | .cellEnded => true
  | _ => false

/-- The step can go on. -/
def Advances (cfg : AgentConfig) (s : AgentState) : Prop :=
  ∃ label, label.isDisturbance = false ∧ (agentStep cfg s label).isSome = true

lemma advances_round {round : Round} (h : s.stage = .round round) : Advances cfg s := by
  cases hcalls : round.calls with
  | nil =>
    exact ⟨.finishRound none 0 none .empty .whole, rfl, by simp [agentStep, stageStep, h, hcalls]⟩
  | cons record calls =>
    exact ⟨.nextCall false, rfl, by simp [agentStep, stageStep, h, hcalls]⟩

/-- A step that has not returned goes on, unless it hangs. -/
lemma advances_of_inLoop (h : s.stage.inLoop = true) : Hangs s ∨ Advances cfg s := by
  cases hstage : s.stage with
  | idle | acquired | returned => rw [hstage] at h; cases h
  | starting goal =>
    exact .inr ⟨.startTurn [] .empty [], rfl, by simp [agentStep, stageStep, hstage]⟩
  | guards =>
    exact .inr ⟨.checkLoopGuards 0 .whole, rfl, by simp [agentStep, stageStep, hstage]⟩
  | reporting completed =>
    exact .inr ⟨.requestSummary, rfl, by simp [agentStep, stageStep, hstage]⟩
  | summarizing completed =>
    exact .inr ⟨.summaryDone [] .whole (fun _ => .whole) [], rfl, by simp [agentStep, stageStep, hstage]⟩
  | preparing =>
    cases hchecked : s.compactionChecked with
    | false =>
      exact .inr ⟨.maybeCompactHistory none (fun _ => .whole) [], rfl, by
        simp [agentStep, stageStep, hstage, hchecked]⟩
    | true =>
      exact .inr ⟨.request [], rfl, by simp [agentStep, stageStep, hstage, hchecked]⟩
  | opening attempt =>
    exact .inr ⟨.opened, rfl, by simp [agentStep, stageStep, hstage]⟩
  | streaming attempt acc =>
    exact .inr ⟨.event .done, rfl, by simp [agentStep, stageStep, hstage]⟩
  | showingThought attempt acc content =>
    exact .inr ⟨.thoughtShown, rfl, by simp [agentStep, stageStep, hstage]⟩
  | backingOff attempt =>
    exact .inr ⟨.retry, rfl, by simp [agentStep, stageStep, hstage]⟩
  | responded text toolCalls =>
    by_cases hopens : OpensFirst text
    · obtain ⟨visible, hstrip⟩ := exists_stripThinkBlocks_iff.mpr hopens
      exact .inr ⟨.respond 0 none .whole, rfl, by
        simp [agentStep, stageStep, hstage, respond, hstrip]⟩
    · exact .inl ⟨text, toolCalls, hstage, hopens⟩
  | round round => exact .inr (advances_round hstage)
  | dispatching round record =>
    exact .inr ⟨.execute false, rfl, by simp [agentStep, stageStep, hstage]⟩
  | executing round record =>
    exact .inr ⟨.toolDone .timedOut, rfl, by simp [agentStep, stageStep, hstage, isCancelledEnd]⟩
  | inCodeMode round record =>
    exact .inr ⟨.codeModeDone [] [] false false, rfl, by simp [agentStep, stageStep, hstage]⟩

/-! ### The budget -/

lemma accounts_run (h : Accounts n k s) (hautopilot : cfg.isAutopilot = false)
    (hcall : ∀ label ∈ labels, label.isCall = false)
    (hrun : run (agentStep cfg) s labels = some s') :
    Accounts n (k + labels.countP Label.isIteration) s' :=
  run_counted (Accounts n) Label.isIteration
    (fun _ _ _ _ hs hlabel hstep => hs.step hautopilot hlabel hstep) h (along_of_forall hcall s) hrun

/-- While the last point is spared, no run ends for want of energy. -/
lemma not_depleting_run (h : ¬ Depleting s) (hcall : ∀ label ∈ labels, label.isCall = false)
    (hspares : Along (agentStep cfg) sparesLastPoint s labels)
    (hrun : run (agentStep cfg) s labels = some s') : ¬ Depleting s' := by
  induction labels generalizing s with
  | nil =>
    cases hrun
    exact h
  | cons label labels ih =>
    obtain ⟨t, hstep, htail⟩ := run_cons_eq_some.mp hrun
    exact ih (not_depleting_step h hspares.1 (hcall label List.mem_cons_self) hstep)
      (fun label' hmem => hcall label' (List.mem_cons_of_mem _ hmem)) (hspares.2 t hstep) htail

lemma depleting_run (h : Depleting s ∨ s.stage = .acquired) (haccounts : Accounts n k s)
    (hautopilot : cfg.isAutopilot = false) (hcall : ∀ label ∈ labels, label.isCall = false)
    (hrun : run (agentStep cfg) s labels = some s') : Depleting s' ∨ s'.stage = .acquired := by
  induction labels generalizing s k with
  | nil =>
    cases hrun
    exact h
  | cons label labels ih =>
    obtain ⟨t, hstep, htail⟩ := run_cons_eq_some.mp hrun
    have hlabel := hcall label List.mem_cons_self
    exact ih (depleting_step h haccounts hlabel hstep) (haccounts.step hautopilot hlabel hstep)
      (fun label' hmem => hcall label' (List.mem_cons_of_mem _ hmem)) htail

/-- A run that goes on to its end behind the last point ends for want of energy. -/
lemma depleted_of_not_along (haccounts : Accounts n k s) (hautopilot : cfg.isAutopilot = false)
    (hcall : ∀ label ∈ labels, label.isCall = false)
    (hrun : run (agentStep cfg) s labels = some s') (hend : AtEnd s')
    (h : ¬ Along (agentStep cfg) sparesLastPoint s labels) :
    ∃ summary, s'.stage = .returned (.ok (.energyDepleted summary)) := by
  obtain ⟨before, label, behind, t, u, rfl, hbefore, hstep, hbehind, hlast⟩ :=
    exists_split_of_not_along hrun h
  have ht := accounts_run haccounts hautopilot
    (fun label' hmem => hcall label' (List.mem_append_left _ hmem)) hbefore
  have hlabel : label.isCall = false := hcall label (by simp)
  have hu := ht.step hautopilot hlabel hstep
  obtain ⟨completed, written, rfl⟩ :
      ∃ completed written, label = .checkLoopGuards completed written := by
    cases label <;> first | exact ⟨_, _, rfl⟩ | exact absurd trivial hlast
  have hdepleting : Depleting u := by
    cases agentStep_move hstep with
    | checkLoopGuards _ _ hguards =>
      cases paceMove_of_step hstep with
      | usedUp _ _ _ hs hcancelled hleft henergy hbase hchecked hstage => exact .inl ⟨_, hstage⟩
      | stopped _ _ _ hs hcancelled => exact absurd (.inl hcancelled) hlast
      | spent _ _ _ hs hcancelled hleft => exact absurd (.inr hleft) hlast
      | outside _ _ houtside => cases houtside
      | proceeded _ _ hproceeds =>
        have hiterating := hproceeds.iterating
        rw [hguards] at hiterating
        cases hiterating
  have hlater := depleting_run (.inl hdepleting) hu hautopilot
    (fun label' hmem => hcall label' (by simp [hmem])) hbehind
  obtain ⟨result, hreturned⟩ | ⟨text, toolCalls, hhung, -⟩ := hend
  · simpa [Depleting, hreturned] using hlater
  · simp [Depleting, hhung] at hlater

/-- A run without autopilot takes a bounded number of steps, is never stuck unless it hangs, and, when
it ends, has met its budget exactly if the last point was spared and it does not hang. -/
theorem meetsBudget_iff (hautopilot : cfg.isAutopilot = false)
    (hbudget : 1 ≤ cfg.initialEnergyBudget) (hstage : s.stage = .acquired)
    (hcall : ∀ label ∈ labels, label.isCall = false)
    (hrun : run (agentStep cfg) s (.call goal completed :: labels) = some s') :
    labels.countP (fun label => !label.isOutside) ≤
        12 * cfg.initialEnergyBudget + 5 + 4 * labels.countP Label.isOutside ∧
      (s'.stage.inLoop = true → Hangs s' ∨ Advances cfg s') ∧
      (AtEnd s' → (MeetsBudget cfg labels s' ↔
        Along (agentStep cfg) sparesLastPoint s (.call goal completed :: labels) ∧ ¬ Hangs s')) := by
  obtain ⟨t, hbegin, htail⟩ := run_cons_eq_some.mp hrun
  have ht : t = beginStep cfg s goal completed := by
    simp only [agentStep, stageStep, hstage] at hbegin
    exact (Option.some.inj hbegin).symm
  have haccounts : Accounts cfg.initialEnergyBudget 0 t :=
    ht ▸ accounts_beginStep hbudget s goal completed
  have hfresh : ¬ Depleting t := ht ▸ not_depleting_beginStep s goal completed
  have hpotential : potential t ≤ 12 * cfg.initialEnergyBudget + 5 :=
    ht ▸ potential_beginStep s goal completed
  have hend := accounts_run haccounts hautopilot hcall htail
  rw [Nat.zero_add] at hend
  refine ⟨?_, advances_of_inLoop, fun hatEnd => ⟨?_, ?_⟩⟩
  · have hown := own_steps_le haccounts hautopilot hcall htail
    omega
  · intro hmeets
    obtain ⟨result, hreturned⟩ := hmeets.returns
    refine ⟨⟨trivial, fun t' ht' => ?_⟩, ?_⟩
    · obtain rfl : t = t' := Option.some.inj (hbegin.symm.trans ht')
      by_contra hnot
      obtain ⟨summary, hdepleted⟩ :=
        depleted_of_not_along haccounts hautopilot hcall htail hatEnd hnot
      have hexact := hmeets.exact summary hdepleted
      simp only [Accounts, hdepleted] at hend
      have hless := hend.2 summary rfl
      omega
    · rintro ⟨text, toolCalls, hhung, -⟩
      rw [hreturned] at hhung
      cases hhung
  · rintro ⟨halong, hnotHung⟩
    obtain ⟨result, hreturned⟩ := hatEnd.resolve_right hnotHung
    have hnotDepleting := not_depleting_run hfresh hcall (halong.2 t hbegin) htail
    simp only [Accounts, hreturned] at hend
    exact ⟨⟨result, hreturned⟩, hend.1, fun summary hdepleted =>
      absurd (.inr (.inr ⟨summary, hdepleted⟩)) hnotDepleting⟩

end Budget

/-- A step of a subagent with one energy point, up to its end. -/
def lastWords : List Label :=
  [.startTurn "turn".toList .empty "task".toList, .checkLoopGuards 0 .whole, .requestSummary,
    .summaryDone "Nothing done".toList .whole (fun _ => .whole) []]

def onePointConfig : AgentConfig :=
  { plainConfig false with isSubagent := true }.setInitialEnergyBudget 1

def acquiredState : AgentState := { stage := .acquired }

/-- The state that the labels lead to. -/
def stateAfter (cfg : AgentConfig) (labels : List Label) : AgentState :=
  (run (agentStep cfg) acquiredState labels).getD {}

theorem meetsBudget_iff_lastWords :
    MeetsBudget onePointConfig lastWords
        (stateAfter onePointConfig (.call "Fix it".toList 0 :: lastWords)) ↔
      Along (agentStep onePointConfig) sparesLastPoint acquiredState
          (.call "Fix it".toList 0 :: lastWords) ∧
        ¬ Hangs (stateAfter onePointConfig (.call "Fix it".toList 0 :: lastWords)) :=
  (meetsBudget_iff rfl (Nat.le_refl 1) rfl (by decide) rfl).2.2 (.inl ⟨_, rfl⟩)

/-- With one point the model is not asked at all. -/
theorem not_meetsBudget_lastWords :
    (run (agentStep onePointConfig) acquiredState (.call "Fix it".toList 0 :: lastWords)).isSome ∧
      (stateAfter onePointConfig (.call "Fix it".toList 0 :: lastWords)).stage =
        .returned (.ok (.energyDepleted "Nothing done".toList)) ∧
      lastWords.countP Label.isIteration = 0 ∧
      ¬ MeetsBudget onePointConfig lastWords
        (stateAfter onePointConfig (.call "Fix it".toList 0 :: lastWords)) := by
  have hstage : (stateAfter onePointConfig (.call "Fix it".toList 0 :: lastWords)).stage =
      .returned (.ok (.energyDepleted "Nothing done".toList)) := rfl
  refine ⟨rfl, hstage, rfl, fun h => ?_⟩
  exact absurd (h.exact _ hstage) (show (0 : Nat) ≠ 1 by decide)

end RustyClaw.AgentLoop
