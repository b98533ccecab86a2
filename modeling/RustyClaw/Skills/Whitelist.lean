import RustyClaw.CodeMode.Budget
import RustyClaw.Skills.Policy
import RustyClaw.Subagent.CallChain

/-!
# The whitelist of the active skill

A session's `SkillRuntime` holds at most one invocation.  A command at the beginning of a turn
activates a skill, in place of the one that may be active; a finished turn deactivates it.  Every
iteration of a turn resolves its tools anew, and `before_tool_resolution` filters them by the
whitelist of the active skill.  The model is sent this list, its calls are dispatched on this list,
and an `exec` call builds the executor of its cell from this list.

The cell keeps the list.  It may go on running when the turn has ended, and then a skill may be
activated over it: its nested calls are still dispatched on the tools from before.  So the
whitelist is enforced exactly as far as no such call leaves it.  `enforced_iff` says this of every
run: all that is executed under a skill is in the closure of its whitelist, if and only if every
call of a cell whose tools were resolved before the skill was activated is.
`enforced_of_quietActivations` is the discipline that would be enough, `not_enforced` the run in
which a skill that may only read has a file written.

The model is one session.  Whether a cell is started, a call is denied or interrupted, what a tool
returns and when, and how a turn ends is up to the run.  A subagent is a session of its own, with a
runtime of its own.  Three fields are ghosts that no transition reads: the `declared` of an
invocation, `since` of a holder with `activations`, and `log`.
-/

namespace RustyClaw.Skills

open CallChain CodeMode Glyph Transition

/-! ## Activation -/

/-- What the runtime reads of a `SkillDef`. -/
structure SkillDef where
  name : List Char
  suggestOnly : Bool := false
  allowedTools : List String

/-- A skill as its call chain sees it. -/
def SkillDef.chained (skill : SkillDef) : CallChain.SkillDef :=
  { name := skill.name
    suggestOnly := skill.suggestOnly
    interactive := (canonicalizeTools skill.allowedTools).contains "ask_user_question" }

abbrev SkillRegistry := List Char → Option SkillDef

def chainedRegistry (registry : SkillRegistry) : CallChain.SkillRegistry :=
  fun name => (registry name).map SkillDef.chained

structure SkillInvocation where
  skillName : List Char
  /-- `allowed_tools`, which is canonical -/
  allowedTools : List String
  /-- whether a `pending_interaction` is kept -/
  pendingInteraction : Bool := false
  callChainContext : CallChainContext
  /-- the whitelist as the skill declares it -/
  declared : List String

def SkillDef.invoke (skill : SkillDef) (context : CallChainContext) : SkillInvocation :=
  { skillName := skill.name
    allowedTools := canonicalizeTools skill.allowedTools
    callChainContext := context
    declared := skill.allowedTools }

/-- `activate_skill_from_command`: the invocation it makes, if the input is a command. -/
def activateSkillFromCommand (registry : SkillRegistry) (inherited : Option CallChainContext)
    (newRoot : Nat) (input : List Char) (argsOk : Bool) :
    Except String (Option SkillInvocation) :=
  match CallChain.activateSkillFromCommand (chainedRegistry registry) inherited newRoot input
      argsOk with
  | .error message => .error message
  | .ok none => .ok none
  | .ok (some context) =>
    .ok (((commandName input).bind registry).map fun skill => skill.invoke context)

/-! ## The session -/

/-- What the calls on one tool list are doing.  There is one call at a time: those of a turn are
made in sequence, and those of a cell hold the lock of its executor. -/
inductive CallPhase where
  | idle
  | prepared (toolName : String)
  | executing
  deriving DecidableEq, Repr

/-- A resolved tool list in use, by the current iteration or by a cell.  `since` tells how many
activations there were when it was resolved. -/
structure Holder where
  tools : List Tool
  phase : CallPhase := .idle
  since : Nat
  deriving DecidableEq, Repr

/-- A tool that was executed, and the declared whitelist of the skill that was active. -/
structure Execution where
  toolName : String
  declared : Option (List String)
  deriving DecidableEq, Repr

structure Session where
  invocation : Option SkillInvocation := none
  running : Bool := false
  holders : Caller → Option Holder := fun _ => none
  nextCell : Nat := 0
  activations : Nat := 0
  log : List Execution := []

namespace Session

def setHolder (s : Session) (caller : Caller) (holder : Option Holder) : Session :=
  { s with holders := Function.update s.holders caller holder }

@[simp, grind =] lemma holders_setHolder (s : Session) (caller c : Caller) (holder : Option Holder) :
    (s.setHolder caller holder).holders c = if c = caller then holder else s.holders c :=
  Function.update_apply ..

@[simp, grind =] lemma activations_setHolder (s : Session) (caller : Caller)
    (holder : Option Holder) : (s.setHolder caller holder).activations = s.activations := rfl

def record (s : Session) (toolName : String) : Session :=
  { s with log :=
      s.log ++ [{ toolName := toolName, declared := s.invocation.map SkillInvocation.declared }] }

@[simp, grind =] lemma holders_record (s : Session) (toolName : String) :
    (s.record toolName).holders = s.holders := rfl

@[simp, grind =] lemma activations_record (s : Session) (toolName : String) :
    (s.record toolName).activations = s.activations := rfl

/-- No call of the turn is under way. -/
def topIdle (s : Session) : Bool :=
  match s.holders .topLevel with
  | some holder => holder.phase = .idle
  | none => true

end Session

inductive SessionMove where
  /-- `step` is called with a message of the user. -/
  | beginTurn (input : List Char) (argsOk : Bool)
  /-- An iteration begins, with a model that supports code mode or does not. -/
  | resolveTools (supportsCodeMode : Bool)
  /-- An ordinary call up to the tool context. -/
  | accept (caller : Caller) (todosExist : Bool) (budget : Nat) (toolName : String)
      (args : Json Char)
  /-- `Tool::execute` begins. -/
  | invoke (caller : Caller)
  /-- An accepted call ends before its tool has begun. -/
  | interrupt (caller : Caller)
  /-- `Tool::execute` ends, with an effect that awaits the user or without. -/
  | return (caller : Caller) (awaitUser : Bool)
  /-- A call of `exec` or `wait`, which starts a cell or does not. -/
  | codeMode (toolName : String) (started : Bool)
  | endCell (cell : Nat)
  /-- The turn ends, with its finish committed or otherwise. -/
  | endTurn (finished : Bool)

def isCodeModeEntry (toolName : String) : Bool := toolName == "exec" || toolName == "wait"

/-- `SkillRuntime::before_tool_resolution`. -/
def beforeToolResolution (invocation : Option SkillInvocation) (tools : List Tool) : List Tool :=
  match invocation with
  | none => tools
  | some invocation =>
    if invocation.allowedTools.isEmpty then tools
    else filterToolsByAllowedNames tools invocation.allowedTools

/-- `load_current_tools`: of the extensions only the skill runtime filters. -/
def loadCurrentTools (tools : List Tool) (invocation : Option SkillInvocation)
    (supportsCodeMode : Bool) : List Tool :=
  let currentTools := beforeToolResolution invocation tools
  if supportsCodeMode then currentTools
  else currentTools.filter fun tool => !isCodeModeEntry tool.name

section Steps

variable (registry : SkillRegistry) (inherited : Option CallChainContext) (tools : List Tool)
  (isAutopilot : Bool)

/-- `SkillRuntime::before_turn_start`; an error halts the turn. -/
def beforeTurnStart (s : Session) (input : List Char) (argsOk : Bool) : Except String Session :=
  match s.invocation with
  | some invocation =>
    if invocation.pendingInteraction then
      .ok { s with invocation := some { invocation with pendingInteraction := false } }
    else activate s
  | none => activate s
where
  activate (s : Session) : Except String Session :=
    match activateSkillFromCommand registry inherited s.activations input argsOk with
    | .error message => .error message
    | .ok none => .ok s
    | .ok (some invocation) =>
      .ok { s with invocation := some invocation, activations := s.activations + 1 }

/-- `step` up to its loop. -/
def beginTurn (s : Session) (input : List Char) (argsOk : Bool) : Option Session :=
  if s.running then none
  else if (trim input).isEmpty then some s
  else
    match beforeTurnStart registry inherited s input argsOk with
    | .error _ => some s
    | .ok started => some { started with running := true }

def sessionStep (s : Session) : SessionMove → Option Session
  | .beginTurn input argsOk => beginTurn registry inherited s input argsOk
  | .resolveTools supportsCodeMode =>
    if s.running && s.topIdle then
      some (s.setHolder .topLevel
        (some { tools := loadCurrentTools tools s.invocation supportsCodeMode
                since := s.activations }))
    else none
  | .accept caller todosExist budget toolName args =>
    match s.holders caller with
    | some ⟨held, .idle, since⟩ =>
      if caller = .topLevel && isCodeModeEntry toolName then none
      else
        match (executorOf held isAutopilot caller).checkRequest todosExist budget
            { toolName := toolName, args := args, origin := caller.origin } with
        | .error _ => some s
        | .ok _ => some (s.setHolder caller (some ⟨held, .prepared toolName, since⟩))
    | _ => none
  | .invoke caller =>
    match s.holders caller with
    | some ⟨held, .prepared toolName, since⟩ =>
      some ((s.setHolder caller (some ⟨held, .executing, since⟩)).record toolName)
    | _ => none
  | .interrupt caller =>
    match s.holders caller with
    | some ⟨held, .prepared _, since⟩ => some (s.setHolder caller (some ⟨held, .idle, since⟩))
    | _ => none
  | .return caller awaitUser =>
    match s.holders caller with
    | some ⟨held, .executing, since⟩ =>
      let returned := s.setHolder caller (some ⟨held, .idle, since⟩)
      if caller = .topLevel && awaitUser then
        some { returned with invocation := s.invocation.map fun invocation =>
          { invocation with pendingInteraction := true } }
      else some returned
    | _ => none
  | .codeMode toolName started =>
    match s.holders .topLevel with
    | some ⟨held, .idle, since⟩ =>
      if !isCodeModeEntry toolName then none
      else if !(held.any fun tool => tool.name = toolName) then some s
      else if toolName == "exec" && started then
        some { (s.setHolder (.nested s.nextCell) (some ⟨held, .idle, since⟩)).record toolName with
          nextCell := s.nextCell + 1 }
      else some (s.record toolName)
    | _ => none
  | .endCell cell => some (s.setHolder (.nested cell) none)
  | .endTurn finished =>
    if s.running && s.topIdle then
      some { s.setHolder .topLevel none with
        running := false
        invocation := if finished then none else s.invocation }
    else none

end Steps

/-! ## The promise and the condition -/

/-- The canonical name of the tool is in the closure of the active skill's whitelist. -/
def Execution.Enforced (execution : Execution) : Prop :=
  ∀ declared ∈ execution.declared, declared ≠ [] →
    InClosure declared (canonicalName execution.toolName)

def Enforced (s : Session) : Prop := ∀ execution ∈ s.log, execution.Enforced

/-- A cell whose tools were resolved before the active skill was activated calls a tool of that
skill's whitelist. -/
def WithinStep (s : Session) : SessionMove → Prop
  | .invoke (.nested cell) => ∀ held toolName since,
      s.holders (.nested cell) = some ⟨held, .prepared toolName, since⟩ → since < s.activations →
      ∀ invocation ∈ s.invocation, invocation.allowedTools ≠ [] →
        canCallWithAllowedNames invocation.allowedTools (canonicalName toolName) = true
  | _ => True

/-- A turn begins with no cell alive. -/
def QuietActivation (s : Session) : SessionMove → Prop
  | .beginTurn _ _ => ∀ cell, s.holders (.nested cell) = none
  | _ => True

/-! ## What a held tool list keeps -/

def SkillInvocation.Allows (invocation : SkillInvocation) (toolName : String) : Prop :=
  invocation.allowedTools ≠ [] → canCallWithAllowedNames invocation.allowedTools toolName = true

/-- A tool list that was resolved under the present activation is filtered by its skill, and the
call that is prepared on it is one of its tools. -/
structure Holder.Filtered (activations : Nat) (invocation : Option SkillInvocation)
    (holder : Holder) : Prop where
  since_le : holder.since ≤ activations
  allows : holder.since = activations → ∀ active ∈ invocation, ∀ tool ∈ holder.tools,
    active.Allows tool.name
  prepared : ∀ toolName, holder.phase = .prepared toolName →
    ∃ tool ∈ holder.tools, tool.name = toolName

structure Filtered (s : Session) : Prop where
  canonical : ∀ invocation ∈ s.invocation,
    invocation.allowedTools = canonicalizeTools invocation.declared
  holders : ∀ caller holder, s.holders caller = some holder →
    holder.Filtered s.activations s.invocation
  /-- The list of a turn was resolved in that turn. -/
  top : ∀ holder, s.holders .topLevel = some holder →
    s.running = true ∧ holder.since = s.activations

variable {registry : SkillRegistry} {inherited : Option CallChainContext} {tools : List Tool}
  {isAutopilot : Bool} {s s' : Session} {caller : Caller} {holder : Holder}

lemma mem_beforeToolResolution {invocation : SkillInvocation} {tool : Tool}
    (h : tool ∈ beforeToolResolution (some invocation) tools) : invocation.Allows tool.name := by
  intro hne
  have hempty : invocation.allowedTools.isEmpty = false := by simpa using hne
  simp only [beforeToolResolution, hempty] at h
  exact mem_filterToolsByAllowedNames h hne

/-- The tools of an iteration are filtered by the skill that is active. -/
lemma mem_loadCurrentTools {invocation : SkillInvocation} {supportsCodeMode : Bool} {tool : Tool}
    (h : tool ∈ loadCurrentTools tools (some invocation) supportsCodeMode) :
    invocation.Allows tool.name := by
  have hmem : tool ∈ beforeToolResolution (some invocation) tools := by
    unfold loadCurrentTools at h
    split at h
    · exact h
    · exact (List.mem_filter.mp h).1
  exact mem_beforeToolResolution hmem

lemma filtered_loadCurrentTools (tools : List Tool) (activations : Nat)
    (invocation : Option SkillInvocation) (supportsCodeMode : Bool) :
    Holder.Filtered activations invocation
      { tools := loadCurrentTools tools invocation supportsCodeMode, since := activations } where
  since_le := le_rfl
  allows _ active hactive tool htool := by
    obtain rfl := Option.mem_def.mp hactive
    exact mem_loadCurrentTools htool
  prepared toolName h := by cases h

/-- What is kept only depends on the tool list when no call is prepared. -/
lemma Holder.Filtered.setPhase {activations : Nat} {invocation : Option SkillInvocation}
    {held : List Tool} {phase phase' : CallPhase} {since : Nat}
    (h : Holder.Filtered activations invocation ⟨held, phase, since⟩)
    (hprepared : ∀ toolName, phase' = .prepared toolName → ∃ tool ∈ held, tool.name = toolName) :
    Holder.Filtered activations invocation ⟨held, phase', since⟩ :=
  ⟨h.since_le, h.allows, hprepared⟩

lemma Filtered.setHolder (h : Filtered s)
    (hholder : holder.Filtered s.activations s.invocation)
    (htop : caller = .topLevel → s.running = true ∧ holder.since = s.activations) :
    Filtered (s.setHolder caller (some holder)) where
  canonical := h.canonical
  holders c x hx := by
    by_cases hc : c = caller
    · subst hc
      obtain rfl : holder = x := by simpa [Session.setHolder] using hx
      exact hholder
    · exact h.holders c x (by simpa [Session.setHolder, hc] using hx)
  top x hx := by
    by_cases hc : .topLevel = caller
    · subst hc
      obtain rfl : holder = x := by simpa [Session.setHolder] using hx
      exact htop rfl
    · exact h.top x (by simpa [Session.setHolder, hc] using hx)

/-- A list goes on being used, in another phase. -/
lemma Filtered.setPhase {held : List Tool} {phase phase' : CallPhase} {since : Nat}
    (h : Filtered s) (hcaller : s.holders caller = some ⟨held, phase, since⟩)
    (hprepared : ∀ toolName, phase' = .prepared toolName → ∃ tool ∈ held, tool.name = toolName) :
    Filtered (s.setHolder caller (some ⟨held, phase', since⟩)) := by
  refine h.setHolder ((h.holders caller _ hcaller).setPhase hprepared) fun htop => ?_
  subst htop
  exact h.top ⟨held, phase, since⟩ hcaller

lemma Filtered.dropHolder (h : Filtered s) (caller : Caller) :
    Filtered (s.setHolder caller none) where
  canonical := h.canonical
  holders c x hx := by
    by_cases hc : c = caller
    · subst hc
      simp [Session.setHolder] at hx
    · exact h.holders c x (by simpa [Session.setHolder, hc] using hx)
  top x hx := by
    by_cases hc : .topLevel = caller
    · subst hc
      simp [Session.setHolder] at hx
    · exact h.top x (by simpa [Session.setHolder, hc] using hx)

lemma Filtered.record (h : Filtered s) (toolName : String) : Filtered (s.record toolName) :=
  ⟨h.canonical, h.holders, h.top⟩

/-- The runtime notes on its invocation whether it waits for the user. -/
lemma Filtered.setPending (h : Filtered s) (pending : Bool) :
    Filtered { s with invocation := s.invocation.map fun invocation =>
      { invocation with pendingInteraction := pending } } where
  canonical invocation hmem := by
    obtain ⟨active, hactive, rfl⟩ := Option.map_eq_some_iff.mp hmem
    exact h.canonical active hactive
  holders c x hx := by
    obtain ⟨hsince, hallows, hprepared⟩ := h.holders c x hx
    refine ⟨hsince, fun heq invocation hmem tool htool => ?_, hprepared⟩
    obtain ⟨active, hactive, rfl⟩ := Option.map_eq_some_iff.mp hmem
    exact hallows heq active hactive tool htool
  top := h.top

/-- Without an active skill nothing is asked of the lists. -/
lemma Filtered.deactivate (h : Filtered s) : Filtered { s with invocation := none } where
  canonical _ hmem := by cases hmem
  holders c x hx := by
    refine ⟨(h.holders c x hx).since_le, fun _ active hmem => ?_, (h.holders c x hx).prepared⟩
    cases hmem
  top := h.top

/-- A new activation makes every list one from before it. -/
lemma Filtered.activate {invocation : SkillInvocation} (h : Filtered s)
    (hidle : s.running = false)
    (hcanonical : invocation.allowedTools = canonicalizeTools invocation.declared) :
    Filtered { s with invocation := some invocation, activations := s.activations + 1 } where
  canonical active hmem := by
    obtain rfl := Option.some_inj.mp hmem
    exact hcanonical
  holders c x hx := by
    have hsince := (h.holders c x hx).since_le
    refine ⟨Nat.le_succ_of_le hsince, fun heq => ?_, (h.holders c x hx).prepared⟩
    change x.since = s.activations + 1 at heq
    omega
  top x hx := by
    rw [(h.top x hx).1] at hidle
    cases hidle

lemma activateSkillFromCommand_canonical {newRoot : Nat} {input : List Char} {argsOk : Bool}
    {invocation : SkillInvocation}
    (h : activateSkillFromCommand registry inherited newRoot input argsOk = .ok (some invocation)) :
    invocation.allowedTools = canonicalizeTools invocation.declared := by
  unfold activateSkillFromCommand at h
  split at h
  · cases h
  · cases h
  · obtain ⟨skill, -, rfl⟩ := Option.map_eq_some_iff.mp (Except.ok.inj h)
    rfl

/-! ## One step -/

lemma Filtered.initial : Filtered {} where
  canonical _ hmem := by cases hmem
  holders _ _ h := by cases h
  top _ h := by cases h

lemma Filtered.setRunning (h : Filtered s) : Filtered { s with running := true } :=
  ⟨h.canonical, h.holders, fun holder hx => ⟨rfl, (h.top holder hx).2⟩⟩

/-- A turn that begins keeps the invocation, up to what it waits for, or makes a new one. -/
lemma Filtered.beforeTurnStart {started : Session} {input : List Char} {argsOk : Bool}
    (h : Filtered s) (hidle : s.running = false)
    (hstart : beforeTurnStart registry inherited s input argsOk = .ok started) :
    Filtered started := by
  have hactivate : beforeTurnStart.activate registry inherited input argsOk s = .ok started →
      Filtered started := by
    intro hactivated
    unfold beforeTurnStart.activate at hactivated
    split at hactivated
    · cases hactivated
    · obtain rfl := Except.ok.inj hactivated
      exact h
    · next hcommand =>
      obtain rfl := Except.ok.inj hactivated
      exact h.activate hidle (activateSkillFromCommand_canonical hcommand)
  unfold Skills.beforeTurnStart at hstart
  split at hstart
  · next invocation hinvocation =>
    split at hstart
    · obtain rfl := Except.ok.inj hstart
      have hpending := h.setPending false
      rw [hinvocation] at hpending
      exact hpending
    · exact hactivate hstart
  · exact hactivate hstart

lemma Filtered.beginTurn {input : List Char} {argsOk : Bool} (h : Filtered s)
    (hstep : beginTurn registry inherited s input argsOk = some s') : Filtered s' := by
  unfold Skills.beginTurn at hstep
  split at hstep
  · cases hstep
  · next hrunning =>
    split at hstep
    · obtain rfl := Option.some_inj.mp hstep
      exact h
    · split at hstep
      · obtain rfl := Option.some_inj.mp hstep
        exact h
      · next hstart =>
        obtain rfl := Option.some_inj.mp hstep
        exact (h.beforeTurnStart (Bool.eq_false_iff.mpr hrunning) hstart).setRunning

/-- A call that the executor admits names one of its tools. -/
lemma exists_tool_of_checkRequest {held : List Tool} {todosExist : Bool} {budget left : Nat}
    {request : ToolExecutionRequest}
    (h : (executorOf held isAutopilot caller).checkRequest todosExist budget request = .ok left) :
    ∃ tool ∈ held, tool.name = request.toolName := by
  obtain ⟨⟨hfound, -⟩, -⟩ := UnifiedToolExecutor.checkRequest_eq_ok h
  obtain ⟨tool, htool⟩ := Option.isSome_iff_exists.mp hfound
  exact ⟨tool, List.mem_of_find?_eq_some htool, by simpa using List.find?_some htool⟩

/-- What a move does where it is possible. -/
inductive Effect (registry : SkillRegistry) (inherited : Option CallChainContext)
    (tools : List Tool) (s : Session) : SessionMove → Session → Prop
  | begun {input argsOk started} (h : beginTurn registry inherited s input argsOk = some started) :
    Effect registry inherited tools s (.beginTurn input argsOk) started
  | resolved {supportsCodeMode} (h : s.running = true) :
    Effect registry inherited tools s (.resolveTools supportsCodeMode)
      (s.setHolder .topLevel (some
        { tools := loadCurrentTools tools s.invocation supportsCodeMode, since := s.activations }))
  | refused {move} (h : ∀ caller, move ≠ .invoke caller) : Effect registry inherited tools s move s
  | accepted {caller todosExist budget args held since tool}
    (h : s.holders caller = some ⟨held, .idle, since⟩) (htool : tool ∈ held) :
    Effect registry inherited tools s (.accept caller todosExist budget tool.name args)
      (s.setHolder caller (some ⟨held, .prepared tool.name, since⟩))
  | invoked {caller held toolName since}
    (h : s.holders caller = some ⟨held, .prepared toolName, since⟩) :
    Effect registry inherited tools s (.invoke caller)
      ((s.setHolder caller (some ⟨held, .executing, since⟩)).record toolName)
  | interrupted {caller held toolName since}
    (h : s.holders caller = some ⟨held, .prepared toolName, since⟩) :
    Effect registry inherited tools s (.interrupt caller)
      (s.setHolder caller (some ⟨held, .idle, since⟩))
  | returned {caller awaitUser held since}
    (h : s.holders caller = some ⟨held, .executing, since⟩) :
    Effect registry inherited tools s (.return caller awaitUser)
      (s.setHolder caller (some ⟨held, .idle, since⟩))
  | awaiting {caller awaitUser held since}
    (h : s.holders caller = some ⟨held, .executing, since⟩) :
    Effect registry inherited tools s (.return caller awaitUser)
      { s.setHolder caller (some ⟨held, .idle, since⟩) with
        invocation := s.invocation.map fun invocation =>
          { invocation with pendingInteraction := true } }
  | cellStarted {started held since tool}
    (h : s.holders .topLevel = some ⟨held, .idle, since⟩) (htool : tool ∈ held) :
    Effect registry inherited tools s (.codeMode tool.name started)
      { (s.setHolder (.nested s.nextCell) (some ⟨held, .idle, since⟩)).record tool.name with
        nextCell := s.nextCell + 1 }
  | codeModeUsed {started held since tool}
    (h : s.holders .topLevel = some ⟨held, .idle, since⟩) (htool : tool ∈ held) :
    Effect registry inherited tools s (.codeMode tool.name started) (s.record tool.name)
  | cellEnded {cell} :
    Effect registry inherited tools s (.endCell cell) (s.setHolder (.nested cell) none)
  | turnEnded {finished} :
    Effect registry inherited tools s (.endTurn finished)
      { s.setHolder .topLevel none with
        running := false
        invocation := if finished then none else s.invocation }

/-- The cases of a move, with the guards that the invariants need. -/
lemma effect_of_step {move : SessionMove}
    (hstep : sessionStep registry inherited tools isAutopilot s move = some s') :
    Effect registry inherited tools s move s' := by
  cases move with
  | beginTurn input argsOk => exact .begun hstep
  | resolveTools supportsCodeMode =>
    simp only [sessionStep] at hstep
    split at hstep
    · next hready =>
      obtain rfl := Option.some_inj.mp hstep
      exact .resolved (Bool.and_eq_true_iff.mp hready).1
    · cases hstep
  | accept caller todosExist budget toolName args =>
    simp only [sessionStep] at hstep
    split at hstep
    · next hcaller =>
      split at hstep
      · cases hstep
      · split at hstep
        · obtain rfl := Option.some_inj.mp hstep
          exact .refused (by simp)
        · next hadmitted =>
          obtain rfl := Option.some_inj.mp hstep
          obtain ⟨tool, htool, hname⟩ := exists_tool_of_checkRequest hadmitted
          obtain rfl : tool.name = toolName := hname
          exact .accepted hcaller htool
    · cases hstep
  | invoke caller =>
    simp only [sessionStep] at hstep
    split at hstep
    · next hcaller =>
      obtain rfl := Option.some_inj.mp hstep
      exact .invoked hcaller
    · cases hstep
  | interrupt caller =>
    simp only [sessionStep] at hstep
    split at hstep
    · next hcaller =>
      obtain rfl := Option.some_inj.mp hstep
      exact .interrupted hcaller
    · cases hstep
  | «return» caller awaitUser =>
    simp only [sessionStep] at hstep
    split at hstep
    · next hcaller =>
      split at hstep
      · obtain rfl := Option.some_inj.mp hstep
        exact .awaiting hcaller
      · obtain rfl := Option.some_inj.mp hstep
        exact .returned hcaller
    · cases hstep
  | codeMode toolName started =>
    simp only [sessionStep] at hstep
    split at hstep
    · next held since htop =>
      split_ifs at hstep with hentry hfound hexec
      · obtain rfl := Option.some_inj.mp hstep
        exact .refused (by simp)
      all_goals
        obtain rfl := Option.some_inj.mp hstep
        obtain ⟨tool, htool, rfl⟩ : ∃ tool ∈ held, tool.name = toolName := by simpa using hfound
      · exact .cellStarted htop htool
      · exact .codeModeUsed htop htool
    · cases hstep
  | endCell cell =>
    obtain rfl := Option.some_inj.mp hstep
    exact .cellEnded
  | endTurn finished =>
    simp only [sessionStep] at hstep
    split at hstep
    · obtain rfl := Option.some_inj.mp hstep
      exact .turnEnded
    · cases hstep

/-- Every move keeps the tool lists filtered. -/
lemma Filtered.step {move : SessionMove} (h : Filtered s)
    (heffect : Effect registry inherited tools s move s') : Filtered s' := by
  cases heffect with
  | begun hbegun => exact h.beginTurn hbegun
  | resolved hrunning => exact h.setHolder (filtered_loadCurrentTools ..) fun _ => ⟨hrunning, rfl⟩
  | refused => exact h
  | accepted hcaller htool =>
    apply h.setPhase hcaller
    intro name hname
    exact ⟨_, htool, CallPhase.prepared.inj hname⟩
  | invoked hcaller =>
    apply Filtered.record
    exact h.setPhase hcaller fun name hname => by cases hname
  | interrupted hcaller => exact h.setPhase hcaller fun name hname => by cases hname
  | returned hcaller => exact h.setPhase hcaller fun name hname => by cases hname
  | awaiting hcaller =>
    exact Filtered.setPending (h.setPhase hcaller fun name hname => by cases hname) true
  | cellStarted htop =>
    have hcell : Filtered (s.setHolder (.nested s.nextCell) (some _)) :=
      h.setHolder (h.holders _ _ htop) fun hnested => by cases hnested
    exact ⟨hcell.canonical, hcell.holders, hcell.top⟩
  | codeModeUsed => exact h.record _
  | cellEnded => exact h.dropHolder _
  | @turnEnded finished =>
    have hdropped := h.dropHolder .topLevel
    have hended : Filtered { s.setHolder .topLevel none with running := false } := by
      refine ⟨hdropped.canonical, hdropped.holders, fun holder hx => ?_⟩
      simp [Session.setHolder] at hx
    cases finished with
    | true => exact hended.deactivate
    | false => exact hended

/-- The beginning of a turn executes nothing, and no list comes into use. -/
lemma beginTurn_frame {input : List Char} {argsOk : Bool}
    (h : beginTurn registry inherited s input argsOk = some s') :
    s'.log = s.log ∧ s'.holders = s.holders := by
  simp only [Skills.beginTurn, Skills.beforeTurnStart, Skills.beforeTurnStart.activate] at h
  grind

lemma enforced_record {toolName : String} :
    Enforced (s.record toolName) ↔ Enforced s ∧ ∀ invocation ∈ s.invocation,
      invocation.declared ≠ [] → InClosure invocation.declared (canonicalName toolName) := by
  simp [Enforced, Session.record, Execution.Enforced, or_imp, forall_and]

/-- A tool of a list that was resolved under the present activation is in the closure of the active
skill's whitelist. -/
lemma Filtered.inClosure {tool : Tool} {invocation : SkillInvocation} (h : Filtered s)
    (hholder : s.holders caller = some holder) (hsince : holder.since = s.activations)
    (htool : tool ∈ holder.tools) (hactive : invocation ∈ s.invocation)
    (hne : invocation.declared ≠ []) :
    InClosure invocation.declared (canonicalName tool.name) := by
  have hcanonical := h.canonical invocation hactive
  apply inClosure_canonicalName
  rw [← hcanonical]
  apply (h.holders caller holder hholder).allows hsince invocation hactive tool htool
  rw [hcanonical]
  exact fun hnil => hne (canonicalizeTools_eq_nil_iff.mp hnil)

/-- What the condition says of one move, in terms of the declared whitelist. -/
lemma Filtered.withinStep_invoke_iff {cell : Nat} {held : List Tool} {toolName : String}
    {since : Nat} (h : Filtered s)
    (hcell : s.holders (.nested cell) = some ⟨held, .prepared toolName, since⟩) :
    WithinStep s (.invoke (.nested cell)) ↔ (since < s.activations → ∀ invocation ∈ s.invocation,
      invocation.declared ≠ [] → InClosure invocation.declared (canonicalName toolName)) := by
  have hpermitted : ∀ invocation ∈ s.invocation,
      ((invocation.allowedTools ≠ [] →
          canCallWithAllowedNames invocation.allowedTools (canonicalName toolName) = true) ↔
        (invocation.declared ≠ [] →
          InClosure invocation.declared (canonicalName toolName))) := by
    intro invocation hactive
    rw [h.canonical invocation hactive, ne_eq, canonicalizeTools_eq_nil_iff,
      canCallWithAllowedNames_iff]
  constructor
  · intro hwithin hlt invocation hactive
    exact (hpermitted invocation hactive).mp (hwithin held toolName since hcell hlt invocation hactive)
  · intro hclosure held' name since' hcell' hlt invocation hactive
    obtain ⟨⟩ := hcell.symm.trans hcell'
    exact (hpermitted invocation hactive).mpr (hclosure hlt invocation hactive)

/-- A move keeps the promise if and only if it meets the condition. -/
theorem enforced_step_iff {move : SessionMove} (h : Filtered s)
    (heffect : Effect registry inherited tools s move s') :
    Enforced s' ↔ Enforced s ∧ WithinStep s move := by
  cases heffect with
  | begun hbegun =>
    rw [Enforced, (beginTurn_frame hbegun).1]
    exact (and_iff_left trivial).symm
  | refused hmove =>
    refine (and_iff_left ?_).symm
    cases move with
    | invoke caller => exact absurd rfl (hmove caller)
    | _ => trivial
  | @invoked caller held toolName since hcaller =>
    rw [enforced_record]
    refine and_congr_right fun _ => ?_
    obtain ⟨tool, htool, hname⟩ := (h.holders caller _ hcaller).prepared toolName rfl
    have hcurrent : since = s.activations → ∀ invocation ∈ s.invocation,
        invocation.declared ≠ [] → InClosure invocation.declared (canonicalName toolName) := by
      intro hsince invocation hactive hne
      rw [← hname]
      exact h.inClosure hcaller hsince htool hactive hne
    cases caller with
    | topLevel => exact iff_of_true (hcurrent (h.top _ hcaller).2) trivial
    | nested cell =>
      rw [h.withinStep_invoke_iff hcaller]
      have hle : since ≤ s.activations := (h.holders _ _ hcaller).since_le
      refine ⟨fun hclosure _ => hclosure, fun hclosure => ?_⟩
      rcases hle.lt_or_eq with hlt | heq
      · exact hclosure hlt
      · exact hcurrent heq
  | cellStarted htop htool | codeModeUsed htop htool =>
    refine Iff.trans enforced_record (and_congr_right fun _ => iff_of_true ?_ trivial)
    intro invocation hactive hne
    exact h.inClosure htop (h.top _ htop).2 htool hactive hne
  | _ => exact (and_iff_left trivial).symm

/-! ## Runs -/

lemma enforced_run_iff {moves : List SessionMove} (h : Filtered s)
    (hrun : run (sessionStep registry inherited tools isAutopilot) s moves = some s') :
    Enforced s' ↔
      Enforced s ∧ Along (sessionStep registry inherited tools isAutopilot) WithinStep s moves := by
  induction moves generalizing s with
  | nil =>
    obtain rfl := Option.some_inj.mp hrun
    exact (and_iff_left trivial).symm
  | cons move moves ih =>
    obtain ⟨t, hstep, htail⟩ := run_cons_eq_some.mp hrun
    have heffect := effect_of_step hstep
    rw [ih (h.step heffect) htail, enforced_step_iff h heffect, and_assoc]
    refine and_congr_right fun _ => and_congr_right fun _ => ⟨fun hrest u hu => ?_, fun hrest => ?_⟩
    · obtain rfl := Option.some_inj.mp (hstep.symm.trans hu)
      exact hrest
    · exact hrest t hstep

/-- In every run, all that was executed under a skill with a whitelist is in the closure of the
whitelist, if and only if no cell has called a tool outside it on tools from before the skill's
activation. -/
theorem enforced_iff {moves : List SessionMove}
    (hrun : run (sessionStep registry inherited tools isAutopilot) {} moves = some s) :
    Enforced s ↔
      Along (sessionStep registry inherited tools isAutopilot) WithinStep {} moves := by
  rw [enforced_run_iff .initial hrun]
  exact and_iff_right fun execution hmem => by cases hmem

/-- The skill `review` may read files and run code. -/
def reviewOnly : SkillRegistry := fun name =>
  if name = "review".toList then
    some { name := "review".toList, allowedTools := ["Read", "exec"] }
  else none

def someTools : List Tool :=
  [{ name := "exec" }, { name := "wait" }, { name := "read_file", hasSideEffects := false },
    { name := "write_file" }, { name := "task_plan" }]

/-- A turn without a skill starts a cell and ends; the next one activates `review`, and the cell
calls a tool. -/
def callAcrossActivation (toolName : String) : List SessionMove :=
  [.beginTurn "start a job".toList true, .resolveTools true, .codeMode "exec" true, .endTurn true,
    .beginTurn "/review".toList true, .accept (.nested 0) true 5 toolName .null,
    .invoke (.nested 0)]

lemma log_callAcrossActivation (toolName : String) (h : toolName ∈ ["read_file", "write_file"]) :
    (run (sessionStep reviewOnly none someTools false) {} (callAcrossActivation toolName)).map
      Session.log = some [⟨"exec", none⟩, ⟨toolName, some ["Read", "exec"]⟩] := by
  rcases List.mem_pair.mp h with rfl | rfl
  · decide
  · decide

/-- A cell from before the activation may still call the tools of the skill. -/
theorem enforced_iff_read_file :
    ∃ s, run (sessionStep reviewOnly none someTools false) {}
        (callAcrossActivation "read_file") = some s ∧
      (Enforced s ↔ Along (sessionStep reviewOnly none someTools false) WithinStep {}
        (callAcrossActivation "read_file")) := by
  obtain ⟨s, hrun, -⟩ :=
    Option.map_eq_some_iff.mp (log_callAcrossActivation "read_file" (by decide))
  exact ⟨s, hrun, enforced_iff hrun⟩

/-- The file is written although the skill that is active may not write. -/
theorem not_enforced :
    ¬ ∀ (registry : SkillRegistry) (inherited : Option CallChainContext) (tools : List Tool)
      (isAutopilot : Bool) (moves : List SessionMove) (s : Session),
      run (sessionStep registry inherited tools isAutopilot) {} moves = some s → Enforced s := by
  intro hall
  obtain ⟨s, hrun, hlog⟩ :=
    Option.map_eq_some_iff.mp (log_callAcrossActivation "write_file" (by decide))
  have hmem : ⟨"write_file", some ["Read", "exec"]⟩ ∈ s.log := by
    rw [hlog]
    decide
  have hclosure := hall reviewOnly none someTools false _ s hrun _ hmem ["Read", "exec"] rfl
    (by decide)
  exact absurd hclosure (by decide)

/-! ## Activation without cells -/

/-- Every tool list in use was resolved under the present activation. -/
def Current (s : Session) : Prop :=
  ∀ caller holder, s.holders caller = some holder → holder.since = s.activations

lemma Current.withinStep (h : Current s) (move : SessionMove) : WithinStep s move := by
  cases move with
  | invoke caller =>
    cases caller with
    | topLevel => trivial
    | nested cell =>
      intro held toolName since hcell hlt
      have hsince : since = s.activations := h _ _ hcell
      omega
  | _ => trivial

/-- Where no list is in use, every one of them is current. -/
lemma current_of_holders_eq (hnested : ∀ cell, s.holders (.nested cell) = none)
    (htop : s.holders .topLevel = none) (hsame : s'.holders = s.holders) : Current s' := by
  intro caller holder hcaller
  rw [hsame] at hcaller
  cases caller with
  | topLevel =>
    rw [htop] at hcaller
    cases hcaller
  | nested cell =>
    rw [hnested cell] at hcaller
    cases hcaller

lemma Current.setHolder {holder : Option Holder} (h : Current s)
    (hholder : ∀ x ∈ holder, x.since = s.activations) : Current (s.setHolder caller holder) := by
  intro c x hx
  rw [Session.holders_setHolder] at hx
  split at hx
  · exact hholder x hx
  · exact h c x hx

/-- A list goes on being used. -/
lemma Current.setPhase {held : List Tool} {phase phase' : CallPhase} {since : Nat} (h : Current s)
    (hcaller : s.holders caller = some ⟨held, phase, since⟩) (caller' : Caller) :
    Current (s.setHolder caller' (some ⟨held, phase', since⟩)) := by
  apply h.setHolder
  intro x hx
  obtain rfl := Option.some_inj.mp hx
  exact h caller ⟨held, phase, since⟩ hcaller

lemma Current.step {move : SessionMove} (h : Current s) (hfiltered : Filtered s)
    (hquiet : QuietActivation s move) (heffect : Effect registry inherited tools s move s') :
    Current s' := by
  cases heffect with
  | begun hbegun =>
    have htop : s.running = false → s.holders .topLevel = none := by
      intro hidle
      by_contra hsome
      obtain ⟨holder, hholder⟩ := Option.ne_none_iff_exists'.mp hsome
      rw [(hfiltered.top holder hholder).1] at hidle
      cases hidle
    cases hrunning : s.running with
    | true => simp [Skills.beginTurn, hrunning] at hbegun
    | false => exact current_of_holders_eq hquiet (htop hrunning) (beginTurn_frame hbegun).2
  | resolved =>
    apply h.setHolder
    intro x hx
    obtain rfl := Option.some_inj.mp hx
    rfl
  | refused => exact h
  | accepted hcaller => exact h.setPhase hcaller _
  | invoked hcaller => exact h.setPhase hcaller _
  | interrupted hcaller => exact h.setPhase hcaller _
  | returned hcaller => exact h.setPhase hcaller _
  | awaiting hcaller => exact h.setPhase hcaller _
  | cellStarted htop => exact h.setPhase htop _
  | codeModeUsed => exact h
  | cellEnded => exact h.setHolder fun x hx => by cases hx
  | turnEnded => exact h.setHolder fun x hx => by cases hx

/-- If no turn begins while a cell is alive, the whitelist is enforced. -/
theorem enforced_of_quietActivations {moves : List SessionMove}
    (hrun : run (sessionStep registry inherited tools isAutopilot) {} moves = some s)
    (hquiet : Along (sessionStep registry inherited tools isAutopilot) QuietActivation {} moves) :
    Enforced s := by
  have hkept : Filtered s ∧ Current s ∧ Enforced s := by
    apply run_invariant_of_along (fun t => Filtered t ∧ Current t ∧ Enforced t) ?_ ?_ hquiet hrun
    · rintro t move t' ⟨hfiltered, hcurrent, henforced⟩ hquiet hstep
      have heffect := effect_of_step hstep
      exact ⟨hfiltered.step heffect, hcurrent.step hfiltered hquiet heffect,
        (enforced_step_iff hfiltered heffect).mpr ⟨henforced, hcurrent.withinStep move⟩⟩
    · refine ⟨.initial, fun caller holder hcaller => ?_, fun execution hmem => ?_⟩
      · cases hcaller
      · cases hmem
  exact hkept.2.2

end RustyClaw.Skills
