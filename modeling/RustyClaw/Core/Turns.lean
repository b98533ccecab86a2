import RustyClaw.Core.Pairing

/-!
# Turns that are lost

`step` starts a turn and ends it before it returns, which puts the turn into the history; a turn
that is not ended is overwritten by the next one.  Two of the ways out do not end the turn: a
request that fails for good, and a round that the execution guard has stopped.

`noTurnLost_iff` says that these are the only ones: no turn is lost in a run if and only if none of
its steps is such a way out (`KeepsTurn`).
-/

namespace RustyClaw.AgentLoop

open Context Glyph Streaming Transition
open Json hiding str

/-! ## The state of the turn -/

/-- The started turn is the current one; the responses in it may have been cut down. -/
def Unfinished (s : AgentState) : Prop :=
  ∃ turn started, s.ctx.currentTurn = some turn ∧ s.started = some started ∧ turn.CutFrom started

/-- There is no current turn, and the started one is the last of the history. -/
def Ended (s : AgentState) : Prop :=
  s.ctx.currentTurn = none ∧ ∀ started, s.started = some started →
    ∃ last, s.ctx.dialogueHistory.getLast? = some last ∧ last.CutFrom started

/-- What holds of the started turn at the stage of the loop. -/
def TurnKept (s : AgentState) : Prop :=
  match s.stage with
  | .idle => s.ctx.currentTurn = none
  | .acquired | .starting _ => s.ctx.currentTurn = none ∧ s.started = none
  | .returned _ => Ended s
  | _ => Unfinished s

/-- The step does not return without having ended the turn. -/
def KeepsTurn (cfg : AgentConfig) (s : AgentState) : Label → Prop
  | .openFailed message => ∀ attempt, s.stage = .opening attempt →
    retries cfg message attempt = true
  | .event (.error message) => ∀ attempt acc, s.stage = .streaming attempt acc →
    retries cfg (streamErrorText message) attempt = true
  | .finishRound .. => ∀ round, s.stage = .round round → round.calls = [] →
    round.responses.any isMeltdown = false
  | _ => True

section Invariant

variable {cfg : AgentConfig} {s s' : AgentState}

lemma Unfinished.congr (hs : Unfinished s) (hturn : s'.ctx.currentTurn = s.ctx.currentTurn)
    (hstarted : s'.started = s.started) : Unfinished s' := by
  obtain ⟨turn, started, hcurrent, hsome, hcut⟩ := hs
  exact ⟨turn, started, hturn.trans hcurrent, hstarted.trans hsome, hcut⟩

lemma Unfinished.addMessage (hs : Unfinished s) (message : Message Char) :
    Unfinished (s.addMessage message) := by
  obtain ⟨turn, started, hcurrent, hstarted, hcut⟩ := hs
  refine ⟨_, _, congrArg (Option.map _) hcurrent, congrArg (Option.map _) hstarted, ?_⟩
  exact hcut.addMessage message

/-- A turn that is ended is the last of the history. -/
lemma Unfinished.endTurn (hs : Unfinished s) (written : Written) : Ended (s.endTurn written) := by
  obtain ⟨turn, started, hcurrent, hstarted, hcut⟩ := hs
  rw [AgentState.endTurn, Context.endTurn, hcurrent]
  refine ⟨rfl, fun started' hstarted' => ⟨turn, List.getLast?_concat, ?_⟩⟩
  rw [hstarted] at hstarted'
  cases hstarted'
  exact hcut

lemma Unfinished.finalizeExit (hs : Unfinished s) (exit : RunExit) (written : Written) :
    TurnKept (s.finalizeExit exit written) := hs.endTurn written

lemma Unfinished.reconcile (hs : Unfinished s) (loaded : TaskStateSnapshot) :
    Unfinished (reconcileAfterToolCalls cfg s loaded) := by
  obtain ⟨turn, started, hcurrent, hstarted, hcut⟩ := hs
  have hreconciled : ∃ turn',
      (reconcileAfterToolCalls cfg s loaded).ctx.currentTurn = some turn' := by
    unfold reconcileAfterToolCalls
    dsimp only
    rw [compressCurrentTurn, hcurrent]
    exact ⟨_, rfl⟩
  obtain ⟨turn', hturn'⟩ := hreconciled
  obtain ⟨turn'', hcurrent', hcut'⟩ := cutFrom_currentTurn hturn'
  rw [hcurrent] at hcurrent'
  cases hcurrent'
  exact ⟨turn', started, hturn', hstarted, hcut'.trans hcut⟩

/-! ### Before the turn -/

lemma TurnKept.currentTurn (hs : TurnKept s) (h : s.stage.running = false) :
    s.ctx.currentTurn = none := by
  unfold TurnKept at hs
  cases hstage : s.stage with
  | idle =>
    rw [hstage] at hs
    exact hs
  | returned result =>
    rw [hstage] at hs
    exact hs.1
  | _ =>
    rw [hstage] at h
    cases h

lemma kept_exit (hturn : s.ctx.currentTurn = none) (hstarted : s.started = none)
    (result : Except (List Char) RunExit) : TurnKept (s.exit result) := by
  refine ⟨hturn, fun started hsome => ?_⟩
  change s.started = some started at hsome
  rw [hstarted] at hsome
  cases hsome

lemma kept_beginStep (hturn : s.ctx.currentTurn = none) (hstarted : s.started = none)
    (goal : List Char) (completed : Nat) : TurnKept (beginStep cfg s goal completed) := by
  unfold beginStep
  dsimp only
  split
  · exact kept_exit hturn hstarted _
  · split
    · exact kept_exit hturn hstarted _
    · exact ⟨hturn, hstarted⟩

lemma kept_beforeTurnStart {goal : List Char} (hstage : s.stage = .starting goal)
    (hturn : s.ctx.currentTurn = none) (hstarted : s.started = none)
    (decision : ExtensionDecision) : TurnKept (beforeTurnStart s decision) := by
  have hs : TurnKept s := by
    unfold TurnKept
    rw [hstage]
    exact ⟨hturn, hstarted⟩
  unfold beforeTurnStart
  split
  · exact hs
  · exact hs
  · exact ⟨hturn, hstarted⟩
  · next message =>
    exact kept_exit (s := (s.onText message).onText "\n".toList) hturn hstarted _

/-! ### The steps of a turn -/

lemma Unfinished.checkLoopGuards (hs : Unfinished s) (completed : Nat) (written : Written) :
    TurnKept (checkLoopGuards cfg s completed written) := by
  by_cases hcancelled : s.cancelled = true
  · rw [checkLoopGuards_of_cancelled cfg s hcancelled]
    exact hs.finalizeExit _ _
  · obtain ⟨energyPoints, output, stage, hguards, hnext⟩ :=
      exists_checkLoopGuards cfg s (eq_false_of_ne_true hcancelled) completed written
    rw [hguards]
    obtain rfl | ⟨completed, rfl⟩ := hnext
    · exact hs.congr rfl rfl
    · exact hs.congr rfl rfl

lemma Unfinished.summaryDone (hs : Unfinished s) (completed : Option Nat) (summary : List Char)
    (written : Written) (archived : Nat → Written) (uuid : List Char) :
    TurnKept (summaryDone cfg s completed summary written archived uuid) := by
  cases completed with
  | none => exact hs.finalizeExit _ _
  | some completed =>
    obtain ⟨files, ctx, output, hdone, hturn⟩ :=
      exists_summaryDone cfg s completed summary written archived uuid
    rw [hdone]
    exact hs.congr hturn rfl

lemma Unfinished.maybeCompactHistory (hs : Unfinished s) (hstage : s.stage = .preparing)
    (numTurns : Option Nat) (archived : Nat → Written) (uuid : List Char) :
    TurnKept (maybeCompactHistory cfg s numTurns archived uuid) := by
  obtain ⟨files, ctx, output, hcompact, hturn⟩ :=
    exists_maybeCompactHistory cfg s numTurns archived uuid
  rw [hcompact]
  unfold TurnKept
  dsimp only
  rw [hstage]
  exact hs.congr hturn rfl

lemma Unfinished.handleLlmError (hs : Unfinished s) {message : List Char} {attempt : Nat}
    (hretries : retries cfg message attempt = true) :
    TurnKept (handleLlmError cfg s message attempt) := by
  rw [handleLlmError_of_retries hretries]
  exact hs.congr rfl rfl

lemma Unfinished.recordAnswer (hs : Unfinished s) (answer : List Char) (uncompleted : Nat)
    (denial : Option (List Char)) (written : Written) :
    TurnKept (recordAnswer cfg s answer uncompleted denial written) := by
  unfold AgentLoop.recordAnswer
  split
  · exact hs.finalizeExit _ _
  · split
    · next reason _ =>
      have hshown : Unfinished (s.onText ("[System] ".toList ++ reason ++ "\n".toList)) := hs
      exact (hshown.addMessage _).congr rfl rfl
    · have hfinished : Unfinished ((AgentState.onText { s with task := s.task.finish answer }
        answer).onText "\n".toList) := hs
      exact hfinished.finalizeExit _ _

lemma Unfinished.recordCalls (hs : Unfinished s) (visibleText : List Char)
    (toolCalls : List ToolCallRecord) : TurnKept (recordCalls cfg s visibleText toolCalls) := by
  obtain ⟨output, hshown⟩ := exists_showVisibleText cfg s (trim visibleText) toolCalls
  have hs' : Unfinished { s with output } := hs
  unfold AgentLoop.recordCalls
  rw [hshown]
  dsimp only
  split
  · show Unfinished _
    split
    · exact hs'.congr rfl rfl
    · exact (hs'.addMessage _).congr rfl rfl
  · exact hs'.congr rfl rfl

lemma Unfinished.respond (hs : Unfinished s) {fullText : List Char}
    {toolCalls : List ToolCallRecord} {uncompleted : Nat} {denial : Option (List Char)}
    {written : Written}
    (h : respond cfg s fullText toolCalls uncompleted denial written = some s') : TurnKept s' := by
  obtain ⟨visibleText, -, rfl⟩ := Option.map_eq_some_iff.mp h
  have hs' : Unfinished { s with consecutiveEmptyResponses := 0 } := hs
  split
  · dsimp only
    split
    · have hempty : Unfinished
        { s with consecutiveEmptyResponses := s.consecutiveEmptyResponses + 1 } := hs
      exact hempty.finalizeExit _ _
    · exact hs.congr rfl rfl
  · split
    · have hshown : Unfinished (AgentState.onText { s with consecutiveEmptyResponses := 0 }
        canaryMessage.toList) := hs
      exact (hshown.addMessage _).finalizeExit _ _
    · split
      · exact (hs'.addMessage _).recordAnswer _ _ _ _
      · exact (hs'.addMessage _).recordCalls _ _

lemma Unfinished.concludeCall (hs : Unfinished s) (round : Round) (record : ToolCallRecord)
    (outcome : ToolDispatchOutcome) : TurnKept (concludeCall s round record outcome) := by
  obtain ⟨output, hconclude⟩ := exists_concludeCall s round record outcome
  rw [hconclude]
  exact hs.congr rfl rfl

lemma Unfinished.nextCall (hs : Unfinished s) (round : Round) (record : ToolCallRecord)
    (todosExist : Bool) : TurnKept (nextCall cfg s round record todosExist) := by
  unfold AgentLoop.nextCall
  split
  · exact hs.congr rfl rfl
  · dsimp only
    obtain ⟨output, hshown⟩ := exists_showToolThought s (extractToolThought record.1).2
    have hs' : Unfinished { s with output } := hs
    rw [hshown]
    split
    · exact hs'.congr rfl rfl
    · split
      · exact hs'.congr rfl rfl
      · split
        · exact hs'.concludeCall _ _ _
        · split
          · exact hs'.concludeCall _ _ _
          · exact hs'.congr rfl rfl

lemma Unfinished.execute (hs : Unfinished s) (round : Round) (record : ToolCallRecord)
    (todosExist : Bool) : TurnKept (execute cfg s round record todosExist) := by
  unfold AgentLoop.execute
  split
  · exact hs.congr rfl rfl
  · split
    · exact hs.concludeCall _ _ _
    · exact hs.congr rfl rfl

lemma Unfinished.continueRun (hs : Unfinished s) (round : Round) (loaded : TaskStateSnapshot)
    (written : Written) : TurnKept (continueRun cfg s round loaded written) := by
  unfold AgentLoop.continueRun
  split
  · exact hs.finalizeExit _ _
  · exact (hs.reconcile loaded).congr rfl rfl

lemma Unfinished.finishRound (hs : Unfinished s) {round : Round}
    (hround : round.responses.any isMeltdown = false) (progress : Option (Nat × Nat))
    (uncompleted : Nat) (denial : Option (List Char)) (loaded : TaskStateSnapshot)
    (written : Written) :
    TurnKept (finishRound cfg s round progress uncompleted denial loaded written) := by
  obtain ⟨output, hreported⟩ := exists_reportProgress cfg s progress
  unfold AgentLoop.finishRound
  rw [hreported]
  dsimp only
  rw [if_neg (by simp [hround])]
  generalize hclosed : (if round.responses = [] then { s with output }
    else AgentState.addMessage { s with output } (functionMessage round.responses)) = closed
  have hunfinished : Unfinished closed := by
    rw [← hclosed]
    split
    · exact hs.congr rfl rfl
    · exact Unfinished.addMessage (hs.congr rfl rfl) _
  split
  · split
    · next reason _ =>
      have hdenied : Unfinished (denyFinish closed reason) := hunfinished
      exact hdenied.continueRun _ _ _
    · have hfinished : Unfinished
        { closed with task := closed.task.finish closed.task.summary } := hunfinished
      exact hfinished.finalizeExit _ _
  · exact hunfinished.continueRun _ _ _

/-! ### Steps -/

lemma TurnKept.step {label : Label} (hs : TurnKept s) (hkeeps : KeepsTurn cfg s label)
    (h : agentStep cfg s label = some s') : TurnKept s' := by
  have hat := hs
  unfold TurnKept at hat
  cases agentStep_move h with
  | cancel => exact hs
  | nestedCall hcell => exact hs
  | cellEnded => exact hs
  | acquireForeground hidle =>
    exact ⟨hs.currentTurn hidle, rfl⟩
  | call goal completed hstage =>
    rw [hstage] at hat
    exact kept_beginStep hat.1 hat.2 goal completed
  | beforeTurnStart goal decision hstage =>
    rw [hstage] at hat
    exact kept_beforeTurnStart hstage hat.1 hat.2 decision
  | startTurn goal turnId loaded taskId hstage => exact ⟨_, _, rfl, rfl, .refl _⟩
  | checkLoopGuards completed written hstage =>
    rw [hstage] at hat
    exact hat.checkLoopGuards completed written
  | requestSummary completed hstage =>
    rw [hstage] at hat
    exact hat.congr rfl rfl
  | summaryDone completed summary written archived uuid hstage =>
    rw [hstage] at hat
    exact hat.summaryDone completed summary written archived uuid
  | maybeCompactHistory numTurns archived uuid hstage =>
    rw [hstage] at hat
    exact hat.maybeCompactHistory hstage numTurns archived uuid
  | request tools hstage =>
    rw [hstage] at hat
    exact hat.congr rfl rfl
  | opened attempt hstage =>
    rw [hstage] at hat
    exact hat.congr rfl rfl
  | openFailed attempt message hstage =>
    rw [hstage] at hat
    exact hat.handleLlmError (hkeeps attempt hstage)
  | event attempt acc event hstage =>
    rw [hstage] at hat
    have hunfinished : Unfinished { s with woken := false } := hat
    obtain ⟨message, rfl⟩ | ⟨output, stage, hevent, hnext⟩ :=
      exists_handleEvent cfg { s with woken := false } attempt acc event
    · exact hunfinished.handleLlmError (hkeeps attempt acc hstage)
    · rw [hevent]
      obtain ⟨acc, rfl⟩ | ⟨content, rfl⟩ | ⟨text, toolCalls, rfl⟩ := hnext
      · exact hat.congr rfl rfl
      · exact hat.congr rfl rfl
      · exact hat.congr rfl rfl
  | thoughtShown attempt acc content hstage =>
    rw [hstage] at hat
    exact hat.congr rfl rfl
  | notified written hstage hwoken =>
    obtain ⟨attempt, hstage⟩ | ⟨attempt, acc, hstage⟩ := hstage
    · rw [hstage] at hat
      exact hat.finalizeExit _ _
    · rw [hstage] at hat
      exact hat.finalizeExit _ _
  | retry attempt hstage =>
    rw [hstage] at hat
    exact hat.congr rfl rfl
  | respond text toolCalls uncompleted denial written _ hstage hs' =>
    rw [hstage] at hat
    exact hat.respond hs'
  | nextCall round record calls todosExist hstage hcalls =>
    rw [hstage] at hat
    exact hat.nextCall _ _ _
  | execute round record todosExist hstage =>
    rw [hstage] at hat
    exact hat.execute _ _ _
  | toolDone round record ending hstage =>
    rw [hstage] at hat
    obtain ⟨executionGuard, outcome, hdone⟩ := exists_toolDone cfg s round record ending
    have hunfinished : Unfinished { s with executionGuard } := hat
    rw [hdone]
    exact hunfinished.concludeCall _ _ _
  | codeModeDone round record shown result isError stopped hstage =>
    rw [hstage] at hat
    obtain ⟨output, executionGuard, cellRunning, outcome, hdone⟩ :=
      exists_codeModeDone cfg s round record shown result isError stopped
    have hunfinished : Unfinished { s with output, executionGuard, cellRunning } := hat
    rw [hdone]
    exact hunfinished.concludeCall _ _ _
  | finishRound round progress uncompleted denial loaded written hstage hcalls =>
    rw [hstage] at hat
    exact hat.finishRound (hkeeps round hstage hcalls) progress uncompleted denial loaded written

end Invariant

/-! ## The result -/

structure NoTurnLost (cfg : AgentConfig) (s : AgentState) (labels : List Label) : Prop where
  /-- when `step` returns, the turn that it has started is the last of the history -/
  ended : ∀ done rest t result, labels = done ++ rest →
    run (agentStep cfg) (betweenSteps s) done = some t → t.stage = .returned result → Ended t
  /-- a turn that is started does not overwrite one -/
  overwritesNone : ∀ done rest t goal, labels = done ++ rest →
    run (agentStep cfg) (betweenSteps s) done = some t → t.stage = .starting goal →
      t.ctx.currentTurn = none

section Result

variable {cfg : AgentConfig} {s : AgentState} {labels done rest : List Label} {t : AgentState}

lemma kept_of_along (hkeeps : Along (agentStep cfg) (KeepsTurn cfg) (betweenSteps s) done)
    (hrun : run (agentStep cfg) (betweenSteps s) done = some t) : TurnKept t := by
  have hinitial : TurnKept (betweenSteps s) := by
    show (betweenSteps s).ctx.currentTurn = none
    rfl
  exact run_invariant_of_along TurnKept (fun _ _ _ hs hkeeps hstep => hs.step hkeeps hstep) hinitial
    hkeeps hrun

/-- A step that does not keep the turn returns and leaves it unfinished. -/
lemma exists_lost {label : Label} (ht : TurnKept t) (hlost : ¬ KeepsTurn cfg t label) :
    ∃ t' result, agentStep cfg t label = some t' ∧ t'.stage = .returned result ∧ Unfinished t' := by
  unfold TurnKept at ht
  cases label with
  | openFailed message =>
    simp only [KeepsTurn, not_forall, Bool.not_eq_true] at hlost
    obtain ⟨attempt, hstage, hretries⟩ := hlost
    rw [hstage] at ht
    refine ⟨t.exit (.error message), _, ?_, rfl, ht⟩
    simp only [agentStep, stageStep, hstage, handleLlmError_of_not_retries hretries]
  | event event =>
    cases event with
    | error message =>
      simp only [KeepsTurn, not_forall, Bool.not_eq_true] at hlost
      obtain ⟨attempt, acc, hstage, hretries⟩ := hlost
      rw [hstage] at ht
      refine ⟨AgentState.exit { t with woken := false } (.error (streamErrorText message)), _, ?_,
        rfl, ht⟩
      simp only [agentStep, stageStep, hstage, handleEvent, handleLlmError_of_not_retries hretries]
    | _ => exact absurd trivial hlost
  | finishRound progress uncompleted denial loaded written =>
    simp only [KeepsTurn, not_forall, Bool.not_eq_false] at hlost
    obtain ⟨round, hstage, hcalls, hmeltdown⟩ := hlost
    rw [hstage] at ht
    obtain ⟨output, hreported⟩ := exists_reportProgress cfg t progress
    refine ⟨AgentState.exit { t with output } (.ok (.autopilotStalled stalledMessage.toList)), _,
      ?_, rfl, ht⟩
    simp only [agentStep, stageStep, hstage, if_pos hcalls, finishRound, hreported,
      if_pos hmeltdown]
  | _ => exact absurd trivial hlost

/-- No turn is lost in a run if and only if all of its steps keep the turn. -/
theorem noTurnLost_iff (cfg : AgentConfig) (s : AgentState) (labels : List Label) :
    NoTurnLost cfg s labels ↔ Along (agentStep cfg) (KeepsTurn cfg) (betweenSteps s) labels := by
  constructor
  · intro hnone
    by_contra hlost
    obtain ⟨pre, label, post, t, hsplit, hrun, halong, hfail⟩ := exists_first_of_not_along hlost
    obtain ⟨t', result, hstep, hreturned, turn, started, hcurrent, -⟩ :=
      exists_lost (kept_of_along halong hrun) hfail
    have hrun' : run (agentStep cfg) (betweenSteps s) (pre ++ [label]) = some t' :=
      run_append_eq_some.mpr ⟨t, hrun, by simp [hstep]⟩
    have hended := hnone.ended (pre ++ [label]) post t' result (by simp [hsplit]) hrun' hreturned
    rw [hended.1] at hcurrent
    cases hcurrent
  · intro halong
    constructor
    case ended =>
      rintro done rest t result rfl hrun hstage
      have ht := kept_of_along halong.left hrun
      unfold TurnKept at ht
      rwa [hstage] at ht
    case overwritesNone =>
      rintro done rest t goal rfl hrun hstage
      have ht := kept_of_along halong.left hrun
      unfold TurnKept at ht
      rw [hstage] at ht
      exact ht.1

/-! ### Two turns that are lost -/

lemma not_noTurnLost_of_run (h : (run (agentStep cfg) (betweenSteps s) labels).any fun t =>
    (t.stage matches .returned _) && t.ctx.currentTurn.isSome) :
    ¬ NoTurnLost cfg s labels := by
  intro hnone
  obtain ⟨t, hrun, ht⟩ := (Option.any_eq_true ..).mp h
  rw [Bool.and_eq_true] at ht
  obtain ⟨hreturned, hcurrent⟩ := ht
  cases hstage : t.stage with
  | returned result =>
    have hended := hnone.ended labels [] t result (by simp) hrun hstage
    rw [hended.1] at hcurrent
    cases hcurrent
  | _ =>
    rw [hstage] at hreturned
    cases hreturned

end Result

/-- The provider refuses the request. -/
def refusedRequest : List Label := firstRequest [] ++ [.openFailed "Invalid API key".toList]

/-- The model calls the same tool six times in one response. -/
def sixEqualCalls : List Label :=
  let call : ToolCallRecord :=
    ({ name := "read_file".toList, args := .object [("path", .str "a".toList)] }, none)
  firstRequest [{ name := "read_file", hasSideEffects := false }] ++ [.opened] ++
    List.replicate 6 (.event (.toolCall call)) ++ [.event .done, .respond 0 none .whole] ++
    (List.replicate 6 [.nextCall true, .execute true, .toolDone (.returned (.ok "text"))]).flatten ++
    [.finishRound none 0 none .empty .whole]

theorem not_noTurnLost :
    ¬ NoTurnLost (plainConfig false) {} refusedRequest ∧
      ¬ NoTurnLost (plainConfig true) {} sixEqualCalls :=
  ⟨not_noTurnLost_of_run (by decide +kernel), not_noTurnLost_of_run (by decide +kernel)⟩

end RustyClaw.AgentLoop
