import RustyClaw.Library.Transition
import RustyClaw.Tools.Invocation

/-!
# The step budget of a tool round

A tool round gets a number of steps and makes one `StepBudgetHandle` of it, from which every
ordinary top-level call takes a step.  An `exec` call takes none; it starts a cell with a handle
of its own, which holds what the top-level handle holds at this moment, and the nested calls of
the cell take their steps from there, while the round goes on and even after it has ended.

So the design's one shared budget is one budget for each cell.  `SharedBudget` is what the
design promises, `sharedBudget_of_current` the part that holds: when a call is only ever
admitted through a handle that no admitted call has passed by, the round and its cells together
stay within the budget.

A handle is *current* as long as every call admitted since the beginning of the round went
through it, or through the handle it was copied from before the copy was made.
-/

namespace RustyClaw.CodeMode

open Transition

/-! ## Contexts and delegation -/

/-- `is_code_mode_nested_tool`. -/
def isCodeModeNestedTool (toolName : String) : Bool :=
  !(["exec", "wait", "ask_user_question", "subagent", "task_plan", "manage_schedule",
    "send_telegram_message"].contains toolName)

/-- The `remaining_steps` a tool is told: what the handle holds, bounded by the budget that a
subagent has inherited (`SkillRuntime::enrich_tool_context`). -/
def reportedSteps (inherited : Option Nat) (left : Nat) : Nat :=
  match inherited with
  | none => left
  | some steps => max (min left steps) 1

/-- The `max_steps` of a subagent (`effective_limits` under a reported budget). -/
def effectiveMaxSteps (reported : Nat) (requested : Option Nat) : Nat :=
  let parent := max reported 1
  min (max (requested.getD parent) 1) (max (parent / 2) 1)

lemma reportedSteps_le (inherited : Option Nat) (left : Nat) :
    reportedSteps inherited left ≤ max left 1 := by
  cases inherited <;> simp only [reportedSteps] <;> omega

lemma effectiveMaxSteps_le {reported left : Nat} (requested : Option Nat)
    (h : reported ≤ max left 1) (hleft : 0 < left) :
    effectiveMaxSteps reported requested ≤ left := by
  simp only [effectiveMaxSteps]
  omega

/-! ## The round -/

/-- The round itself, or one of the cells it has started. -/
inductive Caller where
  | topLevel
  | nested (cell : Nat)
  deriving DecidableEq, Repr

/-- What the calls through one handle are doing.  There is one at a time: top-level calls are
made in sequence, and those of a cell hold the lock of its executor. -/
inductive HandlePhase where
  | idle
  | prepared (reported : Nat)
  | executing (reported : Nat)
  deriving DecidableEq, Repr

def HandlePhase.isBusy : HandlePhase → Bool
  | .idle => false
  | _ => true

structure Handle where
  budget : Nat
  phase : HandlePhase
  current : Bool
  deriving DecidableEq, Repr

inductive BudgetEvent where
  | invoked (caller : Caller) (reported : Nat)
  | delegated (maxSteps : Nat)
  deriving DecidableEq, Repr

def BudgetEvent.isInvoked : BudgetEvent → Bool
  | .invoked _ _ => true
  | .delegated _ => false

/-- `admitted`, `log` and the `current` of the handles are ghosts. -/
structure RoundState where
  handles : Caller → Option Handle
  nextCell : Nat
  admitted : Nat
  log : List BudgetEvent

def RoundState.initial (remainingSteps : Nat) : RoundState :=
  { handles := Function.update (fun _ => none) .topLevel
      (some { budget := remainingSteps, phase := .idle, current := true })
    nextCell := 0
    admitted := 0
    log := [] }

def RoundState.setHandle (s : RoundState) (caller : Caller) (handle : Handle) : RoundState :=
  { s with handles := Function.update s.handles caller (some handle) }

/-- The executor a caller goes through: a cell shows its program the nested tools only. -/
def executorOf (currentTools : List Tool) (isAutopilot : Bool) (caller : Caller) :
    UnifiedToolExecutor :=
  let names := currentTools.map Tool.name
  { currentTools := currentTools
    visibleTools := match caller with
      | .topLevel => names
      | .nested _ => names.filter isCodeModeNestedTool
    isAutopilot := isAutopilot }

def Caller.origin : Caller → ToolCallOrigin
  | .topLevel => .topLevel
  | .nested _ => .codeModeNested

/-- Another handle has admitted a call. -/
def Handle.pass (handle : Handle) : Handle := { handle with current := false }

inductive RoundLabel where
  /-- An `exec` call starts a cell. -/
  | startCell
  /-- An ordinary call up to the tool context. -/
  | accept (caller : Caller) (todosExist : Bool) (toolName : String) (args : Json Char)
  /-- `Tool::execute` begins. -/
  | invoke (caller : Caller)
  /-- A call that was admitted ends before its tool has begun. -/
  | interrupt (caller : Caller)
  /-- The executing top-level tool is a subagent that asks for this many steps. -/
  | delegate (requested : Option Nat)
  | return (caller : Caller)

section Steps

variable (currentTools : List Tool) (isAutopilot : Bool) (inherited : Option Nat)

/-- The budget after the call, when the executor of the caller admits it. -/
def admission (caller : Caller) (handle : Handle) (todosExist : Bool) (toolName : String)
    (args : Json Char) : Option Nat :=
  if handle.phase = .idle then
    ((executorOf currentTools isAutopilot caller).checkRequest todosExist handle.budget
      { toolName := toolName, args := args, origin := caller.origin }).toOption
  else none

def roundStep (s : RoundState) : RoundLabel → Option RoundState
  | .startCell =>
    match s.handles .topLevel with
    | some handle =>
      if handle.phase = .idle then
        some { s.setHandle (.nested s.nextCell) handle with nextCell := s.nextCell + 1 }
      else none
    | none => none
  | .accept caller todosExist toolName args =>
    match s.handles caller with
    | some handle =>
      match admission currentTools isAutopilot caller handle todosExist toolName args with
      | some left =>
        let others := { s with handles := fun c => (s.handles c).map Handle.pass }
        some { others.setHandle caller
            { handle with budget := left, phase := .prepared (reportedSteps inherited left) } with
          admitted := s.admitted + 1 }
      | none => some s
    | none => none
  | .invoke caller =>
    match s.handles caller with
    | some ⟨budget, .prepared reported, current⟩ =>
      some { s.setHandle caller ⟨budget, .executing reported, current⟩ with
        log := s.log ++ [.invoked caller reported] }
    | _ => none
  | .interrupt caller =>
    match s.handles caller with
    | some ⟨budget, .prepared _, current⟩ => some (s.setHandle caller ⟨budget, .idle, current⟩)
    | _ => none
  | .delegate requested =>
    match s.handles .topLevel with
    | some ⟨_, .executing reported, _⟩ =>
      some { s with log := s.log ++ [.delegated (effectiveMaxSteps reported requested)] }
    | _ => none
  | .return caller =>
    match s.handles caller with
    | some ⟨budget, .executing _, current⟩ => some (s.setHandle caller ⟨budget, .idle, current⟩)
    | _ => none

end Steps

/-! ## The promise and the condition -/

def invocations (log : List BudgetEvent) : Nat := log.countP BudgetEvent.isInvoked

/-- One budget of `n` steps for the round and everything it starts. -/
structure SharedBudget (n : Nat) (log : List BudgetEvent) : Prop where
  total : invocations log ≤ n
  reported : ∀ pre caller steps post, log = pre ++ .invoked caller steps :: post →
    steps + invocations pre ≤ n
  delegated : ∀ pre steps post, log = pre ++ .delegated steps :: post →
    steps + invocations pre ≤ n

/-- A call is only admitted through a current handle, and a subagent is not started by the call
that took the last step. -/
def CurrentStep (currentTools : List Tool) (isAutopilot : Bool) (s : RoundState) :
    RoundLabel → Prop
  | .accept caller todosExist toolName args => ∀ handle, s.handles caller = some handle →
      (admission currentTools isAutopilot caller handle todosExist toolName args).isSome →
      handle.current = true
  | .delegate _ => ∀ handle, s.handles .topLevel = some handle → 0 < handle.budget
  | _ => True

/-! ## The invariant -/

/-- What a round under the condition keeps: a current handle holds what is left of `n`, at most
one call is under way, and its handle is the only current one. -/
structure Balanced (n : Nat) (s : RoundState) : Prop where
  current : ∀ caller handle, s.handles caller = some handle → handle.current = true →
    handle.budget + s.admitted = n
  busy : ∀ caller handle, s.handles caller = some handle → handle.phase.isBusy = true →
    handle.current = true ∧ ∀ caller' handle', s.handles caller' = some handle' →
      caller' ≠ caller → handle'.current = false ∧ handle'.phase.isBusy = false
  prepared : ∀ caller handle steps, s.handles caller = some handle →
    handle.phase = .prepared steps →
      steps ≤ max handle.budget 1 ∧ invocations s.log + 1 ≤ s.admitted
  executing : ∀ caller handle steps, s.handles caller = some handle →
    handle.phase = .executing steps → steps ≤ max handle.budget 1
  admitted : invocations s.log ≤ s.admitted ∧ s.admitted ≤ n
  shared : SharedBudget n s.log

variable {n : Nat} {s s' : RoundState} {caller : Caller} {handle handle' : Handle}

/-- A handle after one was set: it is that one, or it was there before. -/
lemma setHandle_cases {c : Caller} {x : Handle}
    (h : (s.setHandle caller handle).handles c = some x) :
    c = caller ∧ x = handle ∨ c ≠ caller ∧ s.handles c = some x := by
  by_cases hc : c = caller
  · subst hc
    exact .inl ⟨rfl, by simpa [RoundState.setHandle] using h.symm⟩
  · exact .inr ⟨hc, by simpa [RoundState.setHandle, hc] using h⟩

lemma invocations_concat (log : List BudgetEvent) (e : BudgetEvent) :
    invocations (log ++ [e]) = invocations log + if e.isInvoked then 1 else 0 := by
  simp [invocations, List.countP_append, List.countP_singleton]

/-- The log grows by an event that keeps the promise. -/
lemma SharedBudget.concat {log : List BudgetEvent} {e : BudgetEvent} (h : SharedBudget n log)
    (htotal : invocations (log ++ [e]) ≤ n)
    (hreported : ∀ caller steps, e = .invoked caller steps → steps + invocations log ≤ n)
    (hdelegated : ∀ steps, e = .delegated steps → steps + invocations log ≤ n) :
    SharedBudget n (log ++ [e]) where
  total := htotal
  reported pre caller steps post heq := by
    rcases List.eq_nil_or_concat post with rfl | ⟨post, last, rfl⟩
    · obtain ⟨rfl, he⟩ := List.append_inj' heq rfl
      exact hreported caller steps (by simpa using he)
    · have hcut : log = pre ++ .invoked caller steps :: post := by
        have heq' : log ++ [e] = (pre ++ .invoked caller steps :: post) ++ [last] := by
          simpa using heq
        exact (List.append_inj' heq' rfl).1
      exact h.reported pre caller steps post hcut
  delegated pre steps post heq := by
    rcases List.eq_nil_or_concat post with rfl | ⟨post, last, rfl⟩
    · obtain ⟨rfl, he⟩ := List.append_inj' heq rfl
      exact hdelegated steps (by simpa using he)
    · have hcut : log = pre ++ .delegated steps :: post := by
        have heq' : log ++ [e] = (pre ++ .delegated steps :: post) ++ [last] := by
          simpa using heq
        exact (List.append_inj' heq' rfl).1
      exact h.delegated pre steps post hcut

lemma Balanced.initial (n : Nat) : Balanced n (.initial n) := by
  have hhandles : ∀ caller handle, (RoundState.initial n).handles caller = some handle →
      handle = { budget := n, phase := .idle, current := true } := by
    intro caller handle h
    cases caller with
    | topLevel => simpa [RoundState.initial] using h.symm
    | nested cell => simp [RoundState.initial] at h
  refine ⟨?_, ?_, ?_, ?_, ⟨le_rfl, Nat.zero_le n⟩, ⟨Nat.zero_le n, ?_, ?_⟩⟩
  · intro caller handle h _
    rw [hhandles caller handle h]
    rfl
  · intro caller handle h hbusy
    rw [hhandles caller handle h] at hbusy
    cases hbusy
  · intro caller handle steps h hphase
    rw [hhandles caller handle h] at hphase
    cases hphase
  · intro caller handle steps h hphase
    rw [hhandles caller handle h] at hphase
    cases hphase
  · intro pre caller steps post h
    simp [RoundState.initial] at h
  · intro pre steps post h
    simp [RoundState.initial] at h

/-- A handle becomes idle. -/
lemma Balanced.setIdle (h : Balanced n s) (hcaller : s.handles caller = some handle) :
    Balanced n (s.setHandle caller { handle with phase := .idle }) where
  current c x hx hcur := by
    rcases setHandle_cases hx with ⟨rfl, rfl⟩ | ⟨-, hx⟩
    · exact h.current c handle hcaller hcur
    · exact h.current c x hx hcur
  busy c x hx hbusy := by
    rcases setHandle_cases hx with ⟨rfl, rfl⟩ | ⟨-, hx⟩
    · cases hbusy
    · obtain ⟨hcur, hothers⟩ := h.busy c x hx hbusy
      refine ⟨hcur, fun c' y hy hne => ?_⟩
      rcases setHandle_cases hy with ⟨rfl, rfl⟩ | ⟨-, hy⟩
      · exact ⟨(hothers c' handle hcaller hne).1, rfl⟩
      · exact hothers c' y hy hne
  prepared c x steps hx hphase := by
    rcases setHandle_cases hx with ⟨rfl, rfl⟩ | ⟨-, hx⟩
    · cases hphase
    · exact h.prepared c x steps hx hphase
  executing c x steps hx hphase := by
    rcases setHandle_cases hx with ⟨rfl, rfl⟩ | ⟨-, hx⟩
    · cases hphase
    · exact h.executing c x steps hx hphase
  admitted := h.admitted
  shared := h.shared

/-- A cell starts with a copy of the idle top-level handle. -/
lemma Balanced.startCell (h : Balanced n s) (htop : s.handles .topLevel = some handle)
    (hidle : handle.phase = .idle) :
    Balanced n { s.setHandle (.nested s.nextCell) handle with nextCell := s.nextCell + 1 } where
  current c x hx hcur := by
    rcases setHandle_cases hx with ⟨rfl, rfl⟩ | ⟨-, hx⟩
    · exact h.current _ x htop hcur
    · exact h.current c x hx hcur
  busy c x hx hbusy := by
    rcases setHandle_cases hx with ⟨rfl, rfl⟩ | ⟨hc, hx⟩
    · rw [hidle] at hbusy
      cases hbusy
    · obtain ⟨hcur, hothers⟩ := h.busy c x hx hbusy
      refine ⟨hcur, fun c' y hy hne => ?_⟩
      rcases setHandle_cases hy with ⟨rfl, rfl⟩ | ⟨-, hy⟩
      · -- The top-level handle is idle, so it is not the busy one.
        refine hothers _ y htop ?_
        rintro rfl
        obtain rfl : y = x := Option.some.inj (htop.symm.trans hx)
        rw [hidle] at hbusy
        cases hbusy
      · exact hothers c' y hy hne
  prepared c x steps hx hphase := by
    rcases setHandle_cases hx with ⟨rfl, rfl⟩ | ⟨-, hx⟩
    · exact h.prepared _ x steps htop hphase
    · exact h.prepared c x steps hx hphase
  executing c x steps hx hphase := by
    rcases setHandle_cases hx with ⟨rfl, rfl⟩ | ⟨-, hx⟩
    · exact h.executing _ x steps htop hphase
    · exact h.executing c x steps hx hphase
  admitted := h.admitted
  shared := h.shared

/-- When an idle current handle admits a call, no other call is under way. -/
lemma Balanced.not_busy (h : Balanced n s) (hcaller : s.handles caller = some handle)
    (hidle : handle.phase = .idle) (hcur : handle.current = true) {c : Caller} {x : Handle}
    (hx : s.handles c = some x) : x.phase.isBusy = false := by
  by_contra hbusy
  obtain ⟨-, hothers⟩ := h.busy c x hx (by simpa using hbusy)
  by_cases hc : caller = c
  · subst hc
    obtain rfl : handle = x := Option.some.inj (hcaller.symm.trans hx)
    simp [hidle, HandlePhase.isBusy] at hbusy
  · have hstale := (hothers caller handle hcaller hc).1
    rw [hcur] at hstale
    cases hstale

/-- A call is admitted through a current handle. -/
lemma Balanced.accept (h : Balanced n s) (hcaller : s.handles caller = some handle)
    (hidle : handle.phase = .idle) (hcur : handle.current = true) {left : Nat}
    (hleft : handle.budget = left + 1) (inherited : Option Nat) :
    Balanced n { { s with handles := fun c => (s.handles c).map Handle.pass }.setHandle caller
        { handle with budget := left, phase := .prepared (reportedSteps inherited left) } with
      admitted := s.admitted + 1 } := by
  have hbudget := h.current caller handle hcaller hcur
  -- Every other handle has been passed by, and its call is not under way.
  have hpassed : ∀ c x, (s.handles c).map Handle.pass = some x →
      x.current = false ∧ x.phase.isBusy = false := by
    intro c x hx
    obtain ⟨y, hy, rfl⟩ := Option.map_eq_some_iff.mp hx
    have hidle' : y.phase.isBusy = false := h.not_busy hcaller hidle hcur hy
    exact ⟨rfl, hidle'⟩
  refine ⟨?_, ?_, ?_, ?_, ?_, h.shared⟩
  · intro c x hx hxcur
    rcases setHandle_cases hx with ⟨rfl, rfl⟩ | ⟨-, hx⟩
    · change left + (s.admitted + 1) = n
      omega
    · rw [(hpassed c x hx).1] at hxcur
      cases hxcur
  · intro c x hx hbusy
    rcases setHandle_cases hx with ⟨rfl, rfl⟩ | ⟨-, hx⟩
    · refine ⟨hcur, fun c' y hy hne => ?_⟩
      rcases setHandle_cases hy with ⟨rfl, rfl⟩ | ⟨-, hy⟩
      · exact absurd rfl hne
      · exact hpassed c' y hy
    · rw [(hpassed c x hx).2] at hbusy
      cases hbusy
  · intro c x steps hx hphase
    rcases setHandle_cases hx with ⟨rfl, rfl⟩ | ⟨-, hx⟩
    · cases hphase
      exact ⟨reportedSteps_le inherited left, Nat.succ_le_succ h.admitted.1⟩
    · have hidle' := (hpassed c x hx).2
      rw [hphase] at hidle'
      cases hidle'
  · intro c x steps hx hphase
    rcases setHandle_cases hx with ⟨rfl, rfl⟩ | ⟨-, hx⟩
    · cases hphase
    · have hidle' := (hpassed c x hx).2
      rw [hphase] at hidle'
      cases hidle'
  · refine ⟨h.admitted.1.trans (Nat.le_succ _), ?_⟩
    change s.admitted + 1 ≤ n
    omega

/-- A prepared tool begins. -/
lemma Balanced.invoke (h : Balanced n s) (hcaller : s.handles caller = some handle)
    {steps : Nat} (hphase : handle.phase = .prepared steps) :
    Balanced n { s.setHandle caller { handle with phase := .executing steps } with
      log := s.log ++ [.invoked caller steps] } := by
  have hcount := invocations_concat s.log (.invoked caller steps)
  simp only [BudgetEvent.isInvoked, if_true] at hcount
  obtain ⟨hcur, hothers⟩ := h.busy caller handle hcaller (by rw [hphase]; rfl)
  obtain ⟨hsteps, hadmitted⟩ := h.prepared caller handle steps hcaller hphase
  have hbudget := h.current caller handle hcaller hcur
  have hle := h.admitted.2
  refine ⟨?_, ?_, ?_, ?_, ⟨hcount.le.trans hadmitted, hle⟩, ?_⟩
  · intro c x hx hxcur
    rcases setHandle_cases hx with ⟨rfl, rfl⟩ | ⟨-, hx⟩
    · exact hbudget
    · exact h.current c x hx hxcur
  · intro c x hx hbusy
    rcases setHandle_cases hx with ⟨rfl, rfl⟩ | ⟨hc, hx⟩
    · refine ⟨hcur, fun c' y hy hne => ?_⟩
      rcases setHandle_cases hy with ⟨rfl, rfl⟩ | ⟨-, hy⟩
      · exact absurd rfl hne
      · exact hothers c' y hy hne
    · rw [(hothers c x hx hc).2] at hbusy
      cases hbusy
  · intro c x k hx hxphase
    rcases setHandle_cases hx with ⟨rfl, rfl⟩ | ⟨hc, hx⟩
    · cases hxphase
    · have hidle := (hothers c x hx hc).2
      rw [hxphase] at hidle
      cases hidle
  · intro c x k hx hxphase
    rcases setHandle_cases hx with ⟨rfl, rfl⟩ | ⟨-, hx⟩
    · cases hxphase
      exact hsteps
    · exact h.executing c x k hx hxphase
  · refine h.shared.concat (by omega) ?_ nofun
    rintro _ _ ⟨rfl, rfl⟩
    omega

/-- A subagent is started by the executing top-level tool. -/
lemma Balanced.delegate (h : Balanced n s) (htop : s.handles .topLevel = some handle)
    {reported : Nat} (hphase : handle.phase = .executing reported) (hleft : 0 < handle.budget)
    (requested : Option Nat) :
    Balanced n { s with
      log := s.log ++ [.delegated (effectiveMaxSteps reported requested)] } := by
  have hcount := invocations_concat s.log (.delegated (effectiveMaxSteps reported requested))
  simp only [BudgetEvent.isInvoked, Bool.false_eq_true, if_false, Nat.add_zero] at hcount
  have hcur := (h.busy _ handle htop (by rw [hphase]; rfl)).1
  have hbudget := h.current _ handle htop hcur
  have hsteps := effectiveMaxSteps_le requested (h.executing _ handle reported htop hphase) hleft
  obtain ⟨hinvoked, hle⟩ := h.admitted
  refine ⟨h.current, h.busy, ?_, h.executing, by rw [hcount]; exact h.admitted, ?_⟩
  · intro c x k hx hxphase
    rw [hcount]
    exact h.prepared c x k hx hxphase
  · refine h.shared.concat (by omega) nofun ?_
    rintro _ ⟨rfl⟩
    omega

/-! ## Runs -/

section Runs

variable {currentTools : List Tool} {isAutopilot : Bool} {inherited : Option Nat}

/-- An admitted call takes one step from an idle handle. -/
lemma admission_eq_some {todosExist : Bool} {toolName : String} {args : Json Char}
    {left : Nat}
    (h : admission currentTools isAutopilot caller handle todosExist toolName args = some left) :
    handle.phase = .idle ∧ handle.budget = left + 1 := by
  unfold admission at h
  split_ifs at h with hidle
  refine ⟨hidle, ?_⟩
  cases hcheck : (executorOf currentTools isAutopilot caller).checkRequest todosExist handle.budget
      { toolName := toolName, args := args, origin := caller.origin } with
  | error message =>
    rw [hcheck] at h
    cases h
  | ok budget =>
    rw [hcheck] at h
    obtain rfl : budget = left := by simpa [Except.toOption] using h
    exact (UnifiedToolExecutor.checkRequest_eq_ok hcheck).2

lemma Balanced.step {label : RoundLabel} (h : Balanced n s)
    (hcond : CurrentStep currentTools isAutopilot s label)
    (hstep : roundStep currentTools isAutopilot inherited s label = some s') :
    Balanced n s' := by
  unfold roundStep at hstep
  split at hstep
  case h_1 =>
    split at hstep
    case h_1 handle htop =>
      split_ifs at hstep with hidle
      cases hstep
      exact h.startCell htop hidle
    case h_2 => cases hstep
  case h_2 caller todosExist toolName args =>
    split at hstep
    case h_1 handle hcaller =>
      split at hstep
      case h_1 left hadmission =>
        cases hstep
        obtain ⟨hidle, hleft⟩ := admission_eq_some hadmission
        exact h.accept hcaller hidle (hcond handle hcaller (by rw [hadmission]; rfl)) hleft
          inherited
      case h_2 =>
        cases hstep
        exact h
    case h_2 => cases hstep
  case h_3 caller =>
    split at hstep
    case h_1 budget reported current hcaller =>
      cases hstep
      exact h.invoke hcaller rfl
    case h_2 => cases hstep
  case h_4 caller =>
    split at hstep
    case h_1 budget reported current hcaller =>
      cases hstep
      exact h.setIdle hcaller
    case h_2 => cases hstep
  case h_5 requested =>
    split at hstep
    case h_1 budget reported current htop =>
      cases hstep
      exact h.delegate htop rfl (hcond _ htop) requested
    case h_2 => cases hstep
  case h_6 caller =>
    split at hstep
    case h_1 budget reported current hcaller =>
      cases hstep
      exact h.setIdle hcaller
    case h_2 => cases hstep

/-- A round and the cells it starts stay within the round's budget, in every run that admits
calls through current handles only and delegates only while a step is left. -/
theorem sharedBudget_of_current {labels : List RoundLabel}
    (hcond : Along (roundStep currentTools isAutopilot inherited)
      (CurrentStep currentTools isAutopilot) (.initial n) labels)
    (hrun : run (roundStep currentTools isAutopilot inherited) (.initial n) labels = some s) :
    SharedBudget n s.log := by
  have hbalanced : Balanced n s :=
    run_invariant_of_along _ (fun s label s' h hc hs => h.step hc hs) (.initial n) hcond hrun
  exact hbalanced.shared

end Runs

def budgetTools : List Tool :=
  [{ name := "exec" }, { name := "read_file", hasSideEffects := false }, { name := "subagent" }]

/-- A read, then a subagent that asks for ten steps. -/
def delegatingRun : List RoundLabel :=
  [.accept .topLevel false "read_file" .null, .invoke .topLevel, .return .topLevel,
    .accept .topLevel false "subagent" .null, .invoke .topLevel, .delegate (some 10)]

theorem sharedBudget_delegating :
    ∃ s, run (roundStep budgetTools false none) (.initial 5) delegatingRun = some s ∧
      SharedBudget 5 s.log := by
  obtain ⟨s, hs⟩ :
      ∃ s, run (roundStep budgetTools false none) (.initial 5) delegatingRun = some s :=
    Option.isSome_iff_exists.mp (by decide +kernel)
  refine ⟨s, hs, sharedBudget_of_current ?_ hs⟩
  refine ⟨?_, fun s₁ h₁ => ⟨trivial, fun s₂ h₂ => ⟨trivial, fun s₃ h₃ =>
    ⟨?_, fun s₄ h₄ => ⟨trivial, fun s₅ h₅ => ⟨?_, fun _ _ => trivial⟩⟩⟩⟩⟩⟩
  · rintro handle ⟨rfl⟩ -
    rfl
  · cases h₁; cases h₂; cases h₃
    rintro handle ⟨rfl⟩ -
    rfl
  · cases h₁; cases h₂; cases h₃; cases h₄; cases h₅
    rintro handle ⟨rfl⟩
    decide

/-- A budget of one step: a cell is started and makes a nested call, then the round makes a
call of its own. -/
def driftingRun : List RoundLabel :=
  [.startCell, .accept (.nested 0) false "read_file" .null, .invoke (.nested 0),
    .return (.nested 0), .accept .topLevel false "read_file" .null, .invoke .topLevel]

/-- Two tools are executed on a budget of one step. -/
theorem not_sharedBudget_drifting :
    ¬ ∀ (currentTools : List Tool) (isAutopilot : Bool) (inherited : Option Nat) (n : Nat)
      (labels : List RoundLabel) (s : RoundState),
      run (roundStep currentTools isAutopilot inherited) (.initial n) labels = some s →
        SharedBudget n s.log := by
  intro h
  obtain ⟨s, hs⟩ :
      ∃ s, run (roundStep budgetTools false none) (.initial 1) driftingRun = some s :=
    Option.isSome_iff_exists.mp (by decide +kernel)
  have hcount : (run (roundStep budgetTools false none) (.initial 1) driftingRun).map
      (fun s => invocations s.log) = some 2 := by
    decide +kernel
  rw [hs, Option.map_some, Option.some.injEq] at hcount
  have htotal := (h budgetTools false none 1 driftingRun s hs).total
  omega

end RustyClaw.CodeMode
