import Mathlib.Data.List.Nodup
import RustyClaw.Library.Glyph
import RustyClaw.Library.Transition

/-!
# Call chains of delegated skills

A skill may delegate work to a subagent, which may activate a skill and delegate again.  The chain
of skills above a session travels with the delegation: `CallChainContext` holds the lineage and a
counter that all contexts derived from one root share.  `activate_skill` refuses a skill that is
in the lineage already and one that would make it longer than three; the `subagent` tool refuses to
delegate when the counter has reached six, and counts a delegation that it admits.

The model is a root session and everything delegated below it.  A shared counter is a number, a
context its lineage and the number of its counter.  A delegation is checked, registered and started
in separate steps, and any number of them may be under way.

`lineagesBounded` holds in every run: the lineage of every active skill has distinct names and at
most three of them.  The bound on the delegations does not: a session without an active skill has
no context, so nothing is checked and nothing is counted.  `callChainBounded` says when it does: when
every delegation is checked against the counter of the earlier ones, and no two of them are between
their check and their count.  `not_callChainBounded` delegates seven times from a root without a
skill.
-/

namespace RustyClaw.CallChain

open Glyph Transition

/-! ## Contexts -/

def maxCallChainCallsPerRootRequest : Nat := 6

def maxCallChainDepth : Nat := 3

structure CallChainFrame where
  skillName : List Char
  depth : Nat
  deriving DecidableEq, Repr

/-- The lineage of a session's skill, and the number of the counter in `total_calls`. -/
structure CallChainContext where
  lineage : List CallChainFrame
  totalCalls : Nat
  deriving DecidableEq, Repr

namespace CallChainContext

def newRoot (counter : Nat) : CallChainContext := { lineage := [], totalCalls := counter }

variable (context : CallChainContext) (skillName : List Char)

def lineageNames : List (List Char) := context.lineage.map CallChainFrame.skillName

def containsSkill : Bool := context.lineage.any fun frame => frame.skillName = skillName

def currentDepth : Nat := context.lineage.length

def appendFrame : CallChainContext :=
  { context with
    lineage := context.lineage ++ [{ skillName := skillName, depth := context.lineage.length + 1 }] }

end CallChainContext

/-! ## Activation -/

structure SkillDef where
  name : List Char
  /-- the trigger is `SuggestOnly` -/
  suggestOnly : Bool := false
  /-- `ask_user_question` is among the allowed tools -/
  interactive : Bool := false

/-- The skills that are there, by the name after the slash. -/
abbrev SkillRegistry := List Char → Option SkillDef

/-- `activate_skill`: the context of the activated skill.  `newRoot` is the counter that is made
where no context was inherited. -/
def activateSkill (inherited : Option CallChainContext) (newRoot : Nat) (skill : SkillDef) :
    Except String CallChainContext :=
  let parentContext := inherited.getD (CallChainContext.newRoot newRoot)
  let callChainContext := parentContext.appendFrame skill.name
  if parentContext.containsSkill skill.name then
    .error ("Denied delegated skill run: cycle detected: " ++
      " -> ".intercalate (callChainContext.lineageNames.map String.ofList))
  else if maxCallChainDepth < callChainContext.currentDepth then
    .error ("Denied delegated skill run: max call chain depth exceeded (" ++
      toString maxCallChainDepth ++ ")")
  else if inherited.isSome && skill.interactive then
    .error ("Denied delegated skill run: skill '" ++ String.ofList skill.name ++
      "' is interactive and can only run at the top level.")
  else .ok callChainContext

/-- The name after the slash of a command. -/
def commandName (input : List Char) : Option (List Char) :=
  match trim input with
  | '/' :: rest =>
    let name := rest.takeWhile fun c => c ≠ ' '
    if name.isEmpty then none else some name
  | _ => none

/-- `activate_skill_from_command`: no skill, the context of the skill it activates, or an error.
`argsOk` tells whether the arguments parse and fit the skill's parameters. -/
def activateSkillFromCommand (registry : SkillRegistry) (inherited : Option CallChainContext)
    (newRoot : Nat) (input : List Char) (argsOk : Bool) :
    Except String (Option CallChainContext) :=
  match commandName input with
  | none => .ok none
  | some skillName =>
    match registry skillName with
    | none =>
      if skillName = "skill".toList then .error "Usage: /<skill_name> [activation args]"
      else .ok none
    | some skill =>
      if skill.suggestOnly then
        .error ("Skill '" ++ String.ofList skill.name ++
          "' is suggest_only and cannot be activated manually.")
      else if argsOk = false then .error "Invalid activation args."
      else (activateSkill inherited newRoot skill).map some

/-- `build_skill_activation_command`, for arguments in JSON. -/
def buildSkillActivationCommand (skillName : List Char) (jsonArgs : Option (List Char)) :
    List Char :=
  match jsonArgs with
  | some jsonArgs => '/' :: skillName ++ ' ' :: jsonArgs
  | none => '/' :: skillName

/-! ## The sessions of one root -/

inductive Phase where
  /-- a subagent whose `step` was not called yet -/
  | built
  | running
  | ended
  deriving DecidableEq, Repr

/-- A session and its `SkillRuntime`. -/
structure Session where
  initialInput : List Char := []
  /-- `call_chain_seed.inherited_context` -/
  inheritedContext : Option CallChainContext := none
  /-- the context of the active skill -/
  invocation : Option CallChainContext := none
  /-- whether the session has the `subagent` tool -/
  subagentTool : Bool
  phase : Phase

/-- What `enrich_tool_context` puts into a tool's context. -/
def Session.callChainContext (session : Session) : Option CallChainContext :=
  match session.invocation with
  | some context => some context
  | none => session.inheritedContext

inductive Request where
  | goal (goal : List Char)
  | skill (skillName : List Char) (skillArgs : Option (List Char))
  deriving DecidableEq, Repr

/-- A call of the `subagent` tool with the context it was given. -/
structure Call where
  context : Option CallChainContext
  request : Request
  deriving DecidableEq, Repr

structure Tree where
  sessions : List Session := [{ subagentTool := true, phase := .running }]
  /-- the value of every shared counter -/
  counters : Nat → Nat := fun _ => 0
  /-- how many counters were made -/
  roots : Nat := 0
  opened : List Call := []
  /-- calls that were admitted and not counted yet -/
  checked : List Call := []
  /-- calls that were counted and whose run has not started yet -/
  registered : List Call := []
  /-- the counters that admitted calls were checked against -/
  admitted : List (Option Nat) := []
  /-- how many delegated runs were started -/
  started : Nat := 0

inductive TreeMove where
  /-- the root's user says something -/
  | userInput (input : List Char) (argsOk : Bool)
  /-- a session finishes, and its skill is deactivated -/
  | deactivate (session : Nat)
  /-- a session calls the `subagent` tool -/
  | openCall (session : Nat) (request : Request)
  /-- `make_raw_execution_request` or `make_skill_execution_request` -/
  | check (call : Nat)
  /-- `register_call_chain_use` -/
  | register (call : Nat)
  /-- the runtime starts the run, or refuses it -/
  | start (call : Nat) (accepted : Bool)
  /-- the `step` of a delegated run begins -/
  | begin (session : Nat) (argsOk : Bool)
  | stop (session : Nat)
  deriving DecidableEq, Repr

/-- `validate_nested_budget`. -/
def withinBudget (t : Tree) (context : Option CallChainContext) : Bool :=
  match context with
  | none => true
  | some context => t.counters context.totalCalls < maxCallChainCallsPerRootRequest

/-- The input, the inherited context and the `subagent` tool of the session that a request makes;
`newRoot` is the counter that is made where a skill is delegated without a context. -/
def Request.session (request : Request) (context : Option CallChainContext) (newRoot : Nat)
    (nestedTool : Bool) : Session :=
  match request with
  | .goal text =>
    { initialInput := text, inheritedContext := context, subagentTool := false, phase := .built }
  | .skill skillName skillArgs =>
    { initialInput := buildSkillActivationCommand (trim skillName) skillArgs
      inheritedContext := some (context.getD (CallChainContext.newRoot newRoot))
      subagentTool := nestedTool
      phase := .built }

/-- A skill needs a name. -/
def Request.isEmpty : Request → Bool
  | .goal _ => false
  | .skill skillName _ => (trim skillName).isEmpty

/-- The `subagent` tool goes on with a call. -/
def admits (t : Tree) (call : Call) : Bool :=
  withinBudget t call.context && !call.request.isEmpty

section Step

variable (registry : SkillRegistry) (nestedTool : Bool)

/-- `before_turn_start` of a session's skill runtime. -/
def beforeTurnStart (t : Tree) (index : Nat) (session : Session) (input : List Char)
    (argsOk : Bool) : Tree :=
  match activateSkillFromCommand registry session.inheritedContext t.roots input argsOk with
  | .error _ =>
    { t with
      roots := t.roots + 1
      sessions := t.sessions.set index
        { session with phase := if index = 0 then .running else .ended } }
  | .ok none => { t with sessions := t.sessions.set index { session with phase := .running } }
  | .ok (some context) =>
    { t with
      roots := t.roots + 1
      sessions := t.sessions.set index
        { session with invocation := some context, phase := .running } }

def treeStep (t : Tree) : TreeMove → Option Tree
  | .userInput input argsOk =>
    (t.sessions[0]?).map fun session => beforeTurnStart registry t 0 session input argsOk
  | .deactivate index =>
    (t.sessions[index]?).map fun session =>
      { t with sessions := t.sessions.set index { session with invocation := none } }
  | .openCall index request =>
    match t.sessions[index]? with
    | some session =>
      if session.subagentTool && session.phase = .running then
        some { t with
          opened := t.opened ++ [{ context := session.callChainContext, request := request }] }
      else none
    | none => none
  | .check index =>
    match t.opened[index]? with
    | some call =>
      if admits t call then
        some { t with
          opened := t.opened.eraseIdx index
          checked := t.checked ++ [call]
          admitted := call.context.map CallChainContext.totalCalls :: t.admitted }
      else some { t with opened := t.opened.eraseIdx index }
    | none => none
  | .register index =>
    match t.checked[index]? with
    | some call =>
      let counters := match call.context with
        | some context => Function.update t.counters context.totalCalls
            (t.counters context.totalCalls + 1)
        | none => t.counters
      some { t with
        counters := counters
        checked := t.checked.eraseIdx index
        registered := t.registered ++ [call] }
    | none => none
  | .start index accepted =>
    match t.registered[index]? with
    | some call =>
      if accepted then
        some { t with
          registered := t.registered.eraseIdx index
          roots := t.roots + 1
          sessions := t.sessions ++ [call.request.session call.context t.roots nestedTool]
          started := t.started + 1 }
      else some { t with registered := t.registered.eraseIdx index }
    | none => none
  | .begin index argsOk =>
    match t.sessions[index]? with
    | some session =>
      if session.phase = .built then
        some (beforeTurnStart registry t index session session.initialInput argsOk)
      else none
    | none => none
  | .stop index =>
    match t.sessions[index]? with
    | some session =>
      if index = 0 then none
      else some { t with sessions := t.sessions.set index { session with phase := .ended } }
    | none => none

end Step

/-! ## Lineages -/

/-- Distinct names, and not more than the limit. -/
def CallChainContext.Bounded (context : CallChainContext) : Prop :=
  context.lineageNames.Nodup ∧ context.lineage.length ≤ maxCallChainDepth

/-- Every context in a session is bounded. -/
def Session.Bounded (session : Session) : Prop :=
  (∀ context ∈ session.inheritedContext, context.Bounded) ∧
    ∀ context ∈ session.invocation, context.Bounded

structure LineagesBounded (t : Tree) : Prop where
  sessions : ∀ session ∈ t.sessions, session.Bounded
  opened : ∀ call ∈ t.opened, ∀ context ∈ call.context, context.Bounded
  checked : ∀ call ∈ t.checked, ∀ context ∈ call.context, context.Bounded
  registered : ∀ call ∈ t.registered, ∀ context ∈ call.context, context.Bounded

section Lineages

variable {registry : SkillRegistry} {nestedTool : Bool} {t t' : Tree}
  {inherited : Option CallChainContext} {context : CallChainContext} {session : Session}

lemma bounded_newRoot (counter : Nat) : (CallChainContext.newRoot counter).Bounded :=
  ⟨List.nodup_nil, Nat.zero_le _⟩

lemma containsSkill_eq_false {skillName : List Char} :
    context.containsSkill skillName = false ↔ skillName ∉ context.lineageNames := by
  simp [CallChainContext.containsSkill, CallChainContext.lineageNames]

/-- A skill that is activated has a bounded lineage. -/
lemma bounded_activateSkill {newRoot : Nat} {skill : SkillDef}
    (hinherited : ∀ context ∈ inherited, context.Bounded)
    (h : activateSkill inherited newRoot skill = .ok context) : context.Bounded := by
  have hparent : (inherited.getD (CallChainContext.newRoot newRoot)).Bounded := by
    cases inherited with
    | none => exact bounded_newRoot newRoot
    | some parent => exact hinherited parent rfl
  unfold activateSkill at h
  generalize inherited.getD (CallChainContext.newRoot newRoot) = parent at hparent h
  dsimp only at h
  by_cases hcycle : parent.containsSkill skill.name = true
  · rw [if_pos hcycle] at h
    cases h
  · rw [if_neg hcycle] at h
    by_cases hdepth : maxCallChainDepth < (parent.appendFrame skill.name).currentDepth
    · rw [if_pos hdepth] at h
      cases h
    · rw [if_neg hdepth] at h
      split at h <;> cases h
      refine ⟨?_, Nat.le_of_not_lt hdepth⟩
      have hfresh := containsSkill_eq_false.mp (Bool.eq_false_iff.mpr hcycle)
      have hnames : (parent.appendFrame skill.name).lineageNames =
          parent.lineageNames ++ [skill.name] := by
        simp [CallChainContext.appendFrame, CallChainContext.lineageNames]
      rw [hnames, List.nodup_append]
      refine ⟨hparent.1, List.nodup_singleton _, fun name hname other hother heq => ?_⟩
      rw [List.mem_singleton] at hother
      exact hfresh (hother ▸ heq ▸ hname)

lemma bounded_activateSkillFromCommand {newRoot : Nat} {input : List Char} {argsOk : Bool}
    (hinherited : ∀ context ∈ inherited, context.Bounded)
    (h : activateSkillFromCommand registry inherited newRoot input argsOk = .ok (some context)) :
    context.Bounded := by
  unfold activateSkillFromCommand at h
  split at h
  · cases h
  · split at h
    · split at h <;> cases h
    · rename_i skillName skill hskill
      split at h
      · cases h
      · split at h
        · cases h
        · cases hactivate : activateSkill inherited newRoot skill with
          | error message =>
            rw [hactivate] at h
            cases h
          | ok activated =>
            rw [hactivate] at h
            cases h
            exact bounded_activateSkill hinherited hactivate

lemma LineagesBounded.set (h : LineagesBounded t) {index : Nat} (hsession : session.Bounded)
    (roots : Nat) :
    LineagesBounded { t with roots := roots, sessions := t.sessions.set index session } := by
  refine ⟨fun other hother => ?_, h.opened, h.checked, h.registered⟩
  rcases List.mem_or_eq_of_mem_set hother with hold | rfl
  · exact h.sessions other hold
  · exact hsession

lemma LineagesBounded.beforeTurnStart (h : LineagesBounded t) {index : Nat}
    (hmem : session ∈ t.sessions) (input : List Char) (argsOk : Bool) :
    LineagesBounded (beforeTurnStart registry t index session input argsOk) := by
  obtain ⟨hinherited, hinvocation⟩ := h.sessions session hmem
  unfold CallChain.beforeTurnStart
  split
  · have hsession : Session.Bounded
        { session with phase := if index = 0 then .running else .ended } :=
      ⟨hinherited, hinvocation⟩
    exact h.set hsession _
  · have hsession : Session.Bounded { session with phase := .running } :=
      ⟨hinherited, hinvocation⟩
    exact h.set hsession _
  · rename_i context hactivate
    have hsession : Session.Bounded
        { session with invocation := some context, phase := .running } := by
      refine ⟨hinherited, fun other hother => ?_⟩
      obtain rfl := Option.some.inj hother
      exact bounded_activateSkillFromCommand hinherited hactivate
    exact h.set hsession _

lemma bounded_requestSession {call : Call} (hcall : ∀ context ∈ call.context, context.Bounded)
    (newRoot : Nat) : (call.request.session call.context newRoot nestedTool).Bounded := by
  cases hrequest : call.request with
  | goal text => exact ⟨hcall, by simp [Request.session]⟩
  | skill skillName skillArgs =>
    refine ⟨fun context hcontext => ?_, by simp [Request.session]⟩
    obtain rfl := Option.some.inj hcontext
    cases hparent : call.context with
    | none => exact bounded_newRoot newRoot
    | some parent => exact hcall parent hparent

lemma bounded_callChainContext (h : session.Bounded) :
    ∀ context ∈ session.callChainContext, context.Bounded := by
  intro context hcontext
  unfold Session.callChainContext at hcontext
  split at hcontext
  · rename_i invocation hinvocation
    obtain rfl := Option.some.inj hcontext
    exact h.2 _ hinvocation
  · exact h.1 context hcontext

lemma lineagesBounded_step {move : TreeMove} (h : LineagesBounded t)
    (hstep : treeStep registry nestedTool t move = some t') : LineagesBounded t' := by
  cases move with
  | userInput input argsOk =>
    obtain ⟨session, hsession, rfl⟩ := Option.map_eq_some_iff.mp hstep
    exact h.beforeTurnStart (List.mem_of_getElem? hsession) input argsOk
  | deactivate index =>
    obtain ⟨session, hsession, rfl⟩ := Option.map_eq_some_iff.mp hstep
    have hbounded := h.sessions session (List.mem_of_getElem? hsession)
    have hnone : Session.Bounded { session with invocation := none } := ⟨hbounded.1, by simp⟩
    exact h.set hnone t.roots
  | openCall index request =>
    simp only [treeStep] at hstep
    split at hstep <;> try cases hstep
    rename_i session hsession
    split at hstep <;> cases hstep
    have hbounded := h.sessions session (List.mem_of_getElem? hsession)
    refine ⟨h.sessions, fun call hcall => ?_, h.checked, h.registered⟩
    rcases List.mem_append.mp hcall with hold | hnew
    · exact h.opened call hold
    · rw [List.mem_singleton.mp hnew]
      exact bounded_callChainContext hbounded
  | check index =>
    simp only [treeStep] at hstep
    split at hstep <;> try cases hstep
    rename_i call hcall
    have hbounded := h.opened call (List.mem_of_getElem? hcall)
    have hopened : ∀ other ∈ t.opened.eraseIdx index, ∀ context ∈ other.context,
        context.Bounded := fun other hother => h.opened other (List.mem_of_mem_eraseIdx hother)
    split at hstep <;> cases hstep
    · refine ⟨h.sessions, hopened, fun other hother => ?_, h.registered⟩
      rcases List.mem_append.mp hother with hold | hnew
      · exact h.checked other hold
      · rw [List.mem_singleton.mp hnew]
        exact hbounded
    · exact ⟨h.sessions, hopened, h.checked, h.registered⟩
  | register index =>
    simp only [treeStep] at hstep
    split at hstep <;> cases hstep
    rename_i call hcall
    have hbounded := h.checked call (List.mem_of_getElem? hcall)
    refine ⟨h.sessions, h.opened, fun other hother => h.checked other
      (List.mem_of_mem_eraseIdx hother), fun other hother => ?_⟩
    rcases List.mem_append.mp hother with hold | hnew
    · exact h.registered other hold
    · rw [List.mem_singleton.mp hnew]
      exact hbounded
  | start index accepted =>
    simp only [treeStep] at hstep
    split at hstep <;> try cases hstep
    rename_i call hcall
    have hbounded := h.registered call (List.mem_of_getElem? hcall)
    have hregistered : ∀ other ∈ t.registered.eraseIdx index, ∀ context ∈ other.context,
        context.Bounded := fun other hother =>
      h.registered other (List.mem_of_mem_eraseIdx hother)
    split at hstep <;> cases hstep
    · refine ⟨fun other hother => ?_, h.opened, h.checked, hregistered⟩
      rcases List.mem_append.mp hother with hold | hnew
      · exact h.sessions other hold
      · rw [List.mem_singleton.mp hnew]
        exact bounded_requestSession hbounded t.roots
    · exact ⟨h.sessions, h.opened, h.checked, hregistered⟩
  | begin index argsOk =>
    simp only [treeStep] at hstep
    split at hstep <;> try cases hstep
    rename_i session hsession
    split at hstep <;> cases hstep
    exact h.beforeTurnStart (List.mem_of_getElem? hsession) _ argsOk
  | stop index =>
    simp only [treeStep] at hstep
    split at hstep <;> try cases hstep
    rename_i session hsession
    split at hstep <;> cases hstep
    have hbounded := h.sessions session (List.mem_of_getElem? hsession)
    have hended : Session.Bounded { session with phase := .ended } := hbounded
    exact h.set hended t.roots

end Lineages

/-- In every run, every skill that is active has a lineage of distinct names, and of not more than
the limit. -/
theorem lineagesBounded {registry : SkillRegistry} {nestedTool : Bool} {moves : List TreeMove}
    {t : Tree} (hrun : run (treeStep registry nestedTool) {} moves = some t) :
    LineagesBounded t := by
  have hinit : LineagesBounded {} := by
    refine ⟨fun session hsession => ?_, by simp, by simp, by simp⟩
    rw [List.mem_singleton.mp hsession]
    exact ⟨by simp, by simp⟩
  exact run_invariant LineagesBounded (fun _ _ _ h hs => lineagesBounded_step h hs) hinit hrun

/-! ## Delegations -/

/-- A delegation is admitted only with a context, against the counter that the earlier ones were
checked against, and when all of them are counted. -/
def Counted (t : Tree) : TreeMove → Prop
  | .check index => ∀ call ∈ t.opened[index]?, admits t call = true →
      call.context ≠ none ∧ t.checked = [] ∧
        ∀ other ∈ t.admitted, other = call.context.map CallChainContext.totalCalls
  | _ => True

/-- The counter that admitted calls share has counted all of them but those that are checked. -/
structure Accounted (t : Tree) : Prop where
  checked : ∀ call ∈ t.checked, ∃ context, call.context = some context ∧
    some context.totalCalls ∈ t.admitted
  counted : ∀ counter, (∀ other ∈ t.admitted, other = some counter) →
    t.admitted.length ≤ t.counters counter + t.checked.length
  bounded : t.admitted.length ≤ maxCallChainCallsPerRootRequest
  started : t.started + t.registered.length + t.checked.length ≤ t.admitted.length

section Delegations

variable {registry : SkillRegistry} {nestedTool : Bool} {t t' : Tree}

/-- What the sessions do does not touch the account. -/
lemma Accounted.sessions (h : Accounted t) (sessions : List Session) (roots : Nat)
    (opened : List Call) :
    Accounted { t with sessions := sessions, roots := roots, opened := opened } :=
  ⟨h.checked, h.counted, h.bounded, h.started⟩

lemma Accounted.beforeTurnStart (h : Accounted t) (index : Nat) (session : Session)
    (input : List Char) (argsOk : Bool) :
    Accounted (beforeTurnStart registry t index session input argsOk) := by
  unfold CallChain.beforeTurnStart
  split <;> exact h.sessions _ _ _

lemma length_eraseIdx_of_getElem? {calls : List Call} {index : Nat} {call : Call}
    (h : calls[index]? = some call) : (calls.eraseIdx index).length + 1 = calls.length := by
  have hlt : index < calls.length := by
    by_contra hge
    rw [List.getElem?_eq_none (Nat.le_of_not_lt hge)] at h
    cases h
  rw [List.length_eraseIdx_of_lt hlt]
  omega

lemma accounted_step {move : TreeMove} (h : Accounted t) (hcounted : Counted t move)
    (hstep : treeStep registry nestedTool t move = some t') : Accounted t' := by
  cases move with
  | userInput input argsOk =>
    obtain ⟨session, -, rfl⟩ := Option.map_eq_some_iff.mp hstep
    exact h.beforeTurnStart 0 session input argsOk
  | deactivate index =>
    obtain ⟨session, -, rfl⟩ := Option.map_eq_some_iff.mp hstep
    exact h.sessions _ _ _
  | openCall index request =>
    simp only [treeStep] at hstep
    split at hstep <;> try cases hstep
    split at hstep <;> cases hstep
    exact h.sessions _ _ _
  | check index =>
    simp only [treeStep] at hstep
    split at hstep <;> try cases hstep
    rename_i call hcall
    split at hstep <;> cases hstep
    · rename_i hadmits
      obtain ⟨hcontext, hchecked, hadmitted⟩ := hcounted call hcall hadmits
      obtain ⟨context, hsome⟩ := Option.ne_none_iff_exists'.mp hcontext
      rw [hsome] at hadmitted
      -- The counter was below the limit, and it has counted every admitted call.
      have hbudget : t.counters context.totalCalls < maxCallChainCallsPerRootRequest := by
        simpa [admits, withinBudget, hsome] using (Bool.and_eq_true_iff.mp hadmits).1
      have hlength := h.counted context.totalCalls hadmitted
      have hstarted := h.started
      rw [hchecked, List.length_nil] at hlength hstarted
      refine ⟨fun other hother => ?_, fun counter hall => ?_, ?_, ?_⟩
      · rw [hchecked, List.nil_append, List.mem_singleton] at hother
        rw [hother, hsome]
        exact ⟨context, rfl, List.mem_cons_self⟩
      · have hcounter : some context.totalCalls = some counter := by
          have hhead := hall _ List.mem_cons_self
          rwa [hsome] at hhead
        obtain rfl := Option.some.inj hcounter
        simp only [List.length_cons, hchecked, List.nil_append, List.length_nil]
        omega
      · simp only [List.length_cons]
        omega
      · simp only [List.length_cons, hchecked, List.nil_append, List.length_nil]
        omega
    · exact h.sessions _ _ _
  | register index =>
    simp only [treeStep] at hstep
    split at hstep <;> cases hstep
    rename_i call hcall
    have hmem := List.mem_of_getElem? hcall
    have hlength := length_eraseIdx_of_getElem? hcall
    obtain ⟨context, hsome, hadmitted⟩ := h.checked call hmem
    refine ⟨fun other hother => h.checked other (List.mem_of_mem_eraseIdx hother),
      fun counter hall => ?_, h.bounded, ?_⟩
    · have hold := h.counted counter hall
      have hcounter : context.totalCalls = counter := Option.some.inj (hall _ hadmitted)
      simp only [hsome, hcounter, Function.update_self]
      omega
    · have hold := h.started
      simp only [List.length_append, List.length_singleton]
      omega
  | start index accepted =>
    simp only [treeStep] at hstep
    split at hstep <;> try cases hstep
    rename_i call hcall
    have hlength := length_eraseIdx_of_getElem? hcall
    have hold := h.started
    split at hstep <;> cases hstep
    · refine ⟨h.checked, h.counted, h.bounded, ?_⟩
      show t.started + 1 + (t.registered.eraseIdx index).length + t.checked.length ≤
        t.admitted.length
      omega
    · refine ⟨h.checked, h.counted, h.bounded, ?_⟩
      show t.started + (t.registered.eraseIdx index).length + t.checked.length ≤
        t.admitted.length
      omega
  | begin index argsOk =>
    simp only [treeStep] at hstep
    split at hstep <;> try cases hstep
    split at hstep <;> cases hstep
    exact h.beforeTurnStart index _ _ argsOk
  | stop index =>
    simp only [treeStep] at hstep
    split at hstep <;> try cases hstep
    split at hstep <;> cases hstep
    exact h.sessions _ _ _

end Delegations

/-! ## The limits -/

/-- The lineage of every active skill has distinct names and is not longer than the limit, and not
more runs than the limit were started below the root. -/
def CallChainBounded (t : Tree) : Prop :=
  (∀ session ∈ t.sessions, ∀ context ∈ session.invocation, context.lineageNames.Nodup ∧
      context.lineage.length ≤ maxCallChainDepth) ∧
    t.started ≤ maxCallChainCallsPerRootRequest

instance (t : Tree) : ∀ move, Decidable (Counted t move)
  | .check index =>
    have : ∀ call : Call, Decidable (call.context ≠ none) := fun call =>
      decidable_of_iff (call.context.isSome = true) (by simp [Option.isSome_iff_ne_none])
    have : Decidable (t.checked = []) :=
      decidable_of_iff (t.checked.isEmpty = true) (by simp)
    inferInstanceAs (Decidable (∀ call ∈ t.opened[index]?, admits t call = true →
      call.context ≠ none ∧ t.checked = [] ∧
        ∀ other ∈ t.admitted, other = call.context.map CallChainContext.totalCalls))
  | .userInput _ _ | .deactivate _ | .openCall _ _ | .register _ | .start _ _ | .begin _ _
  | .stop _ => isTrue trivial

/-- Where every delegation is checked against the counter of the earlier ones and finds them
counted, the limits hold. -/
theorem callChainBounded {registry : SkillRegistry} {nestedTool : Bool} {moves : List TreeMove}
    {t : Tree} (hrun : run (treeStep registry nestedTool) {} moves = some t)
    (hcounted : Along (treeStep registry nestedTool) Counted {} moves) : CallChainBounded t := by
  have hlineages := lineagesBounded hrun
  have hinit : Accounted {} :=
    ⟨by simp, fun counter _ => Nat.zero_le _, Nat.zero_le _, Nat.le_refl _⟩
  have haccounted : Accounted t :=
    run_invariant_of_along Accounted (fun _ _ _ h hP hs => accounted_step h hP hs) hinit
      hcounted hrun
  refine ⟨fun session hsession => (hlineages.sessions session hsession).2, ?_⟩
  have hstarted := haccounted.started
  have hbounded := haccounted.bounded
  omega

/-- Every skill there is: its name is the command. -/
def anySkill : SkillRegistry := fun name => some { name := name }

/-- A whole delegation of the root. -/
def delegation (request : Request) : List TreeMove :=
  [.openCall 0 request, .check 0, .register 0, .start 0 true]

/-- A root skill delegates to another skill. -/
theorem callChainBounded_delegated :
    ∃ t, run (treeStep anySkill false) {} ([.userInput ['/', 'a'] true] ++
        delegation (.skill ['b'] none) ++ [.begin 1 true]) = some t ∧ t.started = 1 ∧
      CallChainBounded t := by
  have hstarted : (run (treeStep anySkill false) {} ([.userInput ['/', 'a'] true] ++
      delegation (.skill ['b'] none) ++ [.begin 1 true])).map Tree.started = some 1 := by
    decide +kernel
  obtain ⟨t, hrun, ht⟩ := Option.map_eq_some_iff.mp hstarted
  exact ⟨t, hrun, ht, callChainBounded hrun (by decide +kernel)⟩

/-- A root without a skill delegates seven times. -/
theorem not_callChainBounded :
    ¬ ∀ (registry : SkillRegistry) (nestedTool : Bool) (moves : List TreeMove) (t : Tree),
      run (treeStep registry nestedTool) {} moves = some t → CallChainBounded t := by
  intro hclaim
  have hstarted : (run (treeStep anySkill false) {}
      (List.replicate 7 (delegation (.goal ['g']))).flatten).map Tree.started = some 7 := by
    decide +kernel
  obtain ⟨t, hrun, ht⟩ := Option.map_eq_some_iff.mp hstarted
  have hbounded := (hclaim anySkill false _ t hrun).2
  rw [ht] at hbounded
  exact absurd hbounded (by decide)

end RustyClaw.CallChain
