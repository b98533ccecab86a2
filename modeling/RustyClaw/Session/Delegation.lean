import RustyClaw.Library.Transition
import RustyClaw.Tools.Invocation
import RustyClaw.Tools.Sandbox

/-!
# Delegation and the sandbox

A tool sees the sandbox through its `ToolContext`, and the context gets it from the extensions of
the session that calls the tool: `prepare_tool_context` starts without a sandbox and lets every
extension of the session enrich the context.  `build_agent_session` gives a session of a front end
a `SandboxExtension` when the configuration asks for one.  `build_subagent_session` builds the
sessions that a `subagent` call delegates to, and gives them a `SkillRuntime` and nothing else.

So the sandbox ends where delegation begins.  `sandboxSurvives_iff` says, over runs with any number
of sessions and spawns of any depth, that a descendant's tools are held to the policy of the
context that spawned it exactly when there was no policy to be held to.
-/

namespace RustyClaw.Session

open Transition Sandbox

/-! ## Tool contexts -/

structure CallChainBudget where
  remainingSteps : Option Nat := none
  remainingTimeoutSec : Option Nat := none
  deriving DecidableEq, Repr

/-- `SandboxEnforcer`, with the OS sandbox that was detected. -/
structure SandboxEnforcer where
  osSandbox : Option UnixPath
  defaultPolicy : SandboxPolicy

def SandboxEnforcer.isAvailable (enforcer : SandboxEnforcer) : Bool := enforcer.osSandbox.isSome

variable {κ τ : Type}

/-- `κ` stands for the frames of a call chain and `τ` for the correlation ids of a trace. -/
structure ToolContext (κ τ : Type) where
  sessionId : String
  replyTo : String
  visibleTools : List String := []
  activeSkillName : Option String := none
  callChainContext : Option κ := none
  callChainBudget : CallChainBudget := {}
  trace : Option τ := none
  sandbox : Option SandboxEnforcer := none

structure CallChainSeed (κ : Type) where
  inheritedContext : Option κ := none
  inheritedBudget : CallChainBudget := {}

/-- A skill in the middle of an invocation. -/
structure SkillInvocation (κ : Type) where
  skillName : String
  callChainContext : κ

/-! ## Extensions -/

inductive ExecutionExtension (κ : Type) where
  | skillRuntime (seed : CallChainSeed κ)
  | subagentNotification
  | sandbox (enforcer : SandboxEnforcer)

/-- The smaller of a reported and an inherited limit, and at least one. -/
def inheritLimit (reported inherited : Option Nat) : Option Nat :=
  match inherited with
  | none => reported
  | some limit => some (max (min (reported.getD limit) limit) 1)

/-- `enrich_tool_context` of an extension; `invocation` is what the session's `SkillRuntime` is
invoking at this moment. -/
def ExecutionExtension.enrichToolContext (invocation : Option (SkillInvocation κ))
    (ctx : ToolContext κ τ) : ExecutionExtension κ → ToolContext κ τ
  | .skillRuntime seed =>
    let ctx := match invocation with
      | some invocation => { ctx with
          activeSkillName := some invocation.skillName
          callChainContext := some invocation.callChainContext }
      | none =>
        match seed.inheritedContext with
        | some inherited => { ctx with callChainContext := some inherited }
        | none => ctx
    { ctx with
      callChainBudget :=
        { remainingSteps :=
            inheritLimit ctx.callChainBudget.remainingSteps seed.inheritedBudget.remainingSteps
          remainingTimeoutSec :=
            inheritLimit ctx.callChainBudget.remainingTimeoutSec
              seed.inheritedBudget.remainingTimeoutSec } }
  | .subagentNotification => ctx
  | .sandbox enforcer => { ctx with sandbox := some enforcer }

/-! ## Sessions -/

structure AgentSession (κ : Type) where
  sessionId : String
  replyTo : String
  isSubagent : Bool
  tools : List Tool
  extensions : List (ExecutionExtension κ)

def osSandboxMissing (hint : String) : String :=
  s!"Sandbox: OS-level isolation is required but not available. {hint}"

/-- `build_agent_session`.  The tools of the session manager are completed by those that belong to
the session. -/
def buildAgentSession (host : Host) (sessionId replyTo : String) (tools : List Tool)
    (config : SandboxConfig) (osSandbox : Option UnixPath) (hint : String) :
    Except String (AgentSession κ) :=
  let extensions : List (ExecutionExtension κ) := [.skillRuntime {}, .subagentNotification]
  let session : AgentSession κ :=
    { sessionId := sessionId, replyTo := replyTo, isSubagent := false
      tools := tools ++ [⟨"task_plan", true⟩, ⟨"ask_user_question", true⟩, ⟨"subagent", true⟩]
      extensions := extensions }
  if config.parsedLevel ≠ .unrestricted then
    let workDir := host.currentDir.getD [.curDir]
    let enforcer : SandboxEnforcer :=
      { osSandbox := osSandbox, defaultPolicy := config.buildDefaultPolicy host workDir }
    if config.requireOsSandbox.getD false && !enforcer.isAvailable then
      .error (osSandboxMissing hint)
    else .ok { session with extensions := extensions ++ [.sandbox enforcer] }
  else .ok session

/-- `SkillToolPolicy::canonical_name`. -/
def canonicalName (name : String) : String :=
  match name with
  | "Bash" => "execute_bash"
  | "Read" => "read_file"
  | "Write" => "write_file"
  | "Edit" => "patch_file"
  | "WebSearch" => "web_search"
  | "AskUser" | "ask_user" | "AskUserQuestion" => "ask_user_question"
  | "call_skill" | "spawn_subagent" | "get_subagent_result" | "cancel_subagent"
  | "list_subagent_jobs" => "subagent"
  | _ => name

/-- `can_call_with_allowed_names`. -/
def canCallWithAllowedNames (allowed : List String) (toolName : String) : Bool :=
  toolName = "task_plan" || allowed.contains toolName ||
    (toolName = "wait" && allowed.contains "exec")

structure SubagentSessionConfig (κ : Type) where
  subSessionId : String
  allowedTools : List String
  restrictToAllowedTools : Bool
  callChainSeed : CallChainSeed κ
  allowSubagentTool : Bool

def filterSubagentTools (baseTools : List Tool) (allowed : List String)
    (restrictToAllowedTools allowSubagentTool : Bool) : List Tool :=
  let allowed := (allowed.map canonicalName).eraseDups
  baseTools.filter fun tool =>
    tool.name ≠ "ask_user_question" && (tool.name ≠ "subagent" || allowSubagentTool) &&
      (!restrictToAllowedTools || canCallWithAllowedNames allowed tool.name)

def buildSubagentSession (parentCtx : ToolContext κ τ) (baseTools : List Tool)
    (config : SubagentSessionConfig κ) : AgentSession κ :=
  let tools := filterSubagentTools baseTools config.allowedTools config.restrictToAllowedTools
    config.allowSubagentTool
  { sessionId := config.subSessionId, replyTo := parentCtx.replyTo, isSubagent := true
    tools := if tools.any (·.name = "task_plan") then tools else tools ++ [⟨"task_plan", true⟩]
    extensions := [.skillRuntime config.callChainSeed] }

/-- `prepare_tool_context`. -/
def AgentSession.prepareToolContext (session : AgentSession κ) (visibleTools : List String)
    (budget : CallChainBudget) (trace : Option τ) (invocation : Option (SkillInvocation κ)) :
    ToolContext κ τ :=
  session.extensions.foldl (fun ctx ext => ext.enrichToolContext invocation ctx)
    { sessionId := session.sessionId, replyTo := session.replyTo, visibleTools := visibleTools
      callChainBudget := budget, trace := trace }

/-! ## Runs with delegation -/

/-- A context that was handed to a tool. -/
structure Issued (κ τ : Type) where
  session : Nat
  toolName : String
  ctx : ToolContext κ τ

/-- The sessions, each with the number of the context that spawned it (none for a session of a
front end), and the contexts handed out. -/
structure Delegation (κ τ : Type) where
  sessions : List (AgentSession κ × Option Nat) := []
  contexts : List (Issued κ τ) := []

inductive DelegationMove (κ τ : Type) where
  | openSession (sessionId replyTo : String) (tools : List Tool) (config : SandboxConfig)
      (osSandbox : Option UnixPath) (hint : String)
  /-- a tool of the session passes the tests of the executor and gets its context -/
  | callTool (session : Nat) (toolName : String) (visibleTools : List String)
      (budget : CallChainBudget) (trace : Option τ) (invocation : Option (SkillInvocation κ))
  /-- the `subagent` tool builds a session from the context it was handed -/
  | spawn (context : Nat) (baseTools : List Tool) (config : SubagentSessionConfig κ)

def delegationStep (host : Host) (s : Delegation κ τ) : DelegationMove κ τ → Option (Delegation κ τ)
  | .openSession sessionId replyTo tools config osSandbox hint =>
    match buildAgentSession host sessionId replyTo tools config osSandbox hint with
    | .error _ => some s
    | .ok session => some { s with sessions := s.sessions ++ [(session, none)] }
  | .callTool i toolName visibleTools budget trace invocation =>
    (s.sessions[i]?).bind fun (session, _) =>
      if session.tools.any (·.name = toolName) ∧ visibleTools.contains toolName then
        let ctx := session.prepareToolContext visibleTools budget trace invocation
        some { s with contexts := s.contexts ++ [{ session := i, toolName := toolName, ctx := ctx }] }
      else none
  | .spawn k baseTools config =>
    (s.contexts[k]?).bind fun issued =>
      if issued.toolName = "subagent" then
        let session := buildSubagentSession issued.ctx baseTools config
        some { s with sessions := s.sessions ++ [(session, some k)] }
      else none

/-! ## Does the sandbox survive? -/

/-- The context that spawned the session of `issued`. -/
def Delegation.parentOf (s : Delegation κ τ) (issued : Issued κ τ) : Option (ToolContext κ τ) :=
  (s.sessions[issued.session]?).bind fun (_, parent) =>
    parent.bind fun k => (s.contexts[k]?).map (·.ctx)

/-- A context handed to a tool of a descendant is held to the policy of the context that spawned
the descendant: it has a policy if that one has, and permits nothing that one does not. -/
def SandboxSurvives (host : Host) (s : Delegation κ τ) : Prop :=
  ∀ issued ∈ s.contexts, ∀ parent, s.parentOf issued = some parent →
    ∀ parentEnforcer, parent.sandbox = some parentEnforcer →
      ∃ enforcer, issued.ctx.sandbox = some enforcer ∧
        permitted host enforcer.defaultPolicy ⊆ permitted host parentEnforcer.defaultPolicy

/-- A tool is called in a session that was spawned from a context without a sandbox, or in one of a
front end. -/
def SpawnedWithoutSandbox (s : Delegation κ τ) (move : DelegationMove κ τ) : Prop :=
  ∀ i toolName visibleTools budget trace invocation,
    move = .callTool i toolName visibleTools budget trace invocation →
      ∀ session k, s.sessions[i]? = some (session, some k) →
        ∀ issued, s.contexts[k]? = some issued → issued.ctx.sandbox = none

/-! ## The proof -/

/-- Contexts belong to sessions, and a spawned session, which came from a context that had been
handed out, has a `SkillRuntime` and no other extension. -/
structure WellFormed (s : Delegation κ τ) : Prop where
  session : ∀ issued ∈ s.contexts, issued.session < s.sessions.length
  spawned : ∀ session k, (session, some k) ∈ s.sessions →
    k < s.contexts.length ∧ ∃ seed, session.extensions = [.skillRuntime seed]

section Runs

variable {host : Host} {s s' t : Delegation κ τ} {move : DelegationMove κ τ}
  {moves : List (DelegationMove κ τ)}

lemma sandbox_of_skillRuntime {session : AgentSession κ} {seed : CallChainSeed κ}
    (h : session.extensions = [.skillRuntime seed]) (visibleTools : List String)
    (budget : CallChainBudget) (trace : Option τ) (invocation : Option (SkillInvocation κ)) :
    (session.prepareToolContext visibleTools budget trace invocation).sandbox = none := by
  simp only [AgentSession.prepareToolContext, h, List.foldl_cons, List.foldl_nil,
    ExecutionExtension.enrichToolContext]
  cases invocation with
  | some invocation => rfl
  | none => cases seed.inheritedContext <;> rfl

/-- What a move adds: a session of a front end or nothing, a context of an existing session, or a
session spawned from an existing context. -/
lemma delegationStep_cases (h : delegationStep host s move = some s') :
    ((∀ i toolName visibleTools budget trace invocation,
        move ≠ .callTool i toolName visibleTools budget trace invocation) ∧
      s'.contexts = s.contexts ∧ ∃ added, s'.sessions = s.sessions ++ added ∧
        ∀ session k, (session, some k) ∈ added →
          k < s.contexts.length ∧ ∃ seed, session.extensions = [.skillRuntime seed]) ∨
    ∃ i toolName visibleTools budget trace invocation session parent,
      move = .callTool i toolName visibleTools budget trace invocation ∧
      s.sessions[i]? = some (session, parent) ∧ s'.sessions = s.sessions ∧
      s'.contexts = s.contexts ++ [{
        session := i, toolName := toolName
        ctx := session.prepareToolContext visibleTools budget trace invocation }] := by
  cases move with
  | openSession sessionId replyTo tools config osSandbox hint =>
    refine .inl ⟨nofun, ?_⟩
    simp only [delegationStep] at h
    split at h
    · cases h
      exact ⟨rfl, [], by simp, nofun⟩
    · next session _ =>
      cases h
      refine ⟨rfl, [(session, none)], rfl, fun session k hmem => ?_⟩
      simp at hmem
  | callTool i toolName visibleTools budget trace invocation =>
    simp only [delegationStep, Option.bind_eq_some_iff, Option.ite_none_right_eq_some,
      Option.some.injEq] at h
    obtain ⟨⟨session, parent⟩, hsession, -, rfl⟩ := h
    exact .inr ⟨i, toolName, visibleTools, budget, trace, invocation, session, parent, rfl,
      hsession, rfl, rfl⟩
  | spawn k baseTools config =>
    refine .inl ⟨nofun, ?_⟩
    simp only [delegationStep, Option.bind_eq_some_iff, Option.ite_none_right_eq_some,
      Option.some.injEq] at h
    obtain ⟨issued, hissued, -, rfl⟩ := h
    refine ⟨rfl, _, rfl, fun session k' hmem => ?_⟩
    obtain ⟨rfl, hk⟩ := Prod.mk.inj (List.mem_singleton.mp hmem)
    obtain rfl := Option.some.inj hk
    exact ⟨(List.getElem?_eq_some_iff.mp hissued).1, config.callChainSeed, rfl⟩

/-- Nothing is taken back. -/
lemma prefix_step (h : delegationStep host s move = some s') :
    s.sessions <+: s'.sessions ∧ s.contexts <+: s'.contexts := by
  obtain ⟨-, hcontexts, added, hsessions, -⟩ | ⟨i, toolName, visibleTools, budget, trace,
    invocation, session, parent, -, -, hsessions, hcontexts⟩ := delegationStep_cases h
  · rw [hcontexts, hsessions]
    exact ⟨List.prefix_append _ _, List.prefix_rfl⟩
  · rw [hcontexts, hsessions]
    exact ⟨List.prefix_rfl, List.prefix_append _ _⟩

lemma prefix_run (h : run (delegationStep host) s moves = some t) :
    s.sessions <+: t.sessions ∧ s.contexts <+: t.contexts :=
  run_invariant (fun u => s.sessions <+: u.sessions ∧ s.contexts <+: u.contexts)
    (fun _ _ _ hu hstep =>
      ⟨hu.1.trans (prefix_step hstep).1, hu.2.trans (prefix_step hstep).2⟩)
    ⟨List.prefix_rfl, List.prefix_rfl⟩ h

lemma getElem?_of_prefix {α : Type} {l l' : List α} (h : l <+: l') {i : Nat} (hi : i < l.length) :
    l'[i]? = l[i]? := by
  obtain ⟨rest, rfl⟩ := h
  exact List.getElem?_append_left hi

/-- A context keeps the parent it had. -/
lemma WellFormed.parentOf_eq (hs : WellFormed s) (hsessions : s.sessions <+: t.sessions)
    (hcontexts : s.contexts <+: t.contexts) {issued : Issued κ τ}
    (hissued : issued.session < s.sessions.length) : t.parentOf issued = s.parentOf issued := by
  simp only [Delegation.parentOf, getElem?_of_prefix hsessions hissued]
  cases hsession : s.sessions[issued.session]? with
  | none => rfl
  | some pair =>
    obtain ⟨session, parent⟩ := pair
    cases parent with
    | none => rfl
    | some k =>
      have hk := (hs.spawned session k (List.mem_of_getElem? hsession)).1
      simp only [Option.bind_some, getElem?_of_prefix hcontexts hk]

lemma WellFormed.step (hs : WellFormed s) (h : delegationStep host s move = some s') : WellFormed s' := by
  obtain ⟨-, hcontexts, added, hsessions, hadded⟩ | ⟨i, toolName, visibleTools, budget, trace,
    invocation, session, parent, -, hsession, hsessions, hcontexts⟩ := delegationStep_cases h
  · refine ⟨fun issued hissued => ?_, fun session k hmem => ?_⟩
    · rw [hcontexts] at hissued
      rw [hsessions, List.length_append]
      exact Nat.lt_add_right _ (hs.session issued hissued)
    · rw [hcontexts]
      rw [hsessions] at hmem
      exact (List.mem_append.mp hmem).elim (hs.spawned session k) (hadded session k)
  · refine ⟨fun issued hissued => ?_, fun session k hmem => ?_⟩
    · rw [hsessions]
      rw [hcontexts] at hissued
      rcases List.mem_append.mp hissued with hissued | hissued
      · exact hs.session issued hissued
      · cases List.mem_singleton.mp hissued
        exact (List.getElem?_eq_some_iff.mp hsession).1
    · rw [hsessions] at hmem
      rw [hcontexts, List.length_append]
      obtain ⟨hk, hseed⟩ := hs.spawned session k hmem
      exact ⟨Nat.lt_add_right _ hk, hseed⟩

lemma WellFormed.initial : WellFormed ({} : Delegation κ τ) :=
  ⟨fun _ h => absurd h List.not_mem_nil, fun _ _ h => absurd h List.not_mem_nil⟩

lemma wellFormed_run (h : run (delegationStep host) ({} : Delegation κ τ) moves = some s) : WellFormed s :=
  run_invariant WellFormed (fun _ _ _ hs h => hs.step h) .initial h

/-- The context that a call adds has no sandbox if the session was spawned. -/
lemma sandbox_of_spawned (hs : WellFormed s) {i k : Nat} {session : AgentSession κ}
    (hsession : s.sessions[i]? = some (session, some k)) (visibleTools : List String)
    (budget : CallChainBudget) (trace : Option τ) (invocation : Option (SkillInvocation κ)) :
    (session.prepareToolContext visibleTools budget trace invocation).sandbox = none := by
  obtain ⟨-, seed, hseed⟩ := hs.spawned session k (List.mem_of_getElem? hsession)
  exact sandbox_of_skillRuntime hseed visibleTools budget trace invocation

lemma SandboxSurvives.step (hs : WellFormed s) (hsurvives : SandboxSurvives host s)
    (hcond : SpawnedWithoutSandbox s move) (h : delegationStep host s move = some s') :
    SandboxSurvives host s' := by
  obtain ⟨hprefixS, hprefixC⟩ := prefix_step h
  intro issued hissued parent hparent parentEnforcer hsandbox
  obtain ⟨-, hcontexts, added, hsessions, -⟩ | ⟨i, toolName, visibleTools, budget, trace,
    invocation, session, spawner, rfl, hsession, hsessions, hcontexts⟩ := delegationStep_cases h
  · rw [hcontexts] at hissued
    rw [hs.parentOf_eq hprefixS hprefixC (hs.session issued hissued)] at hparent
    exact hsurvives issued hissued parent hparent parentEnforcer hsandbox
  · rw [hcontexts] at hissued
    rcases List.mem_append.mp hissued with hissued | hissued
    · rw [hs.parentOf_eq hprefixS hprefixC (hs.session issued hissued)] at hparent
      exact hsurvives issued hissued parent hparent parentEnforcer hsandbox
    · -- the new context: its session was spawned from a context without a sandbox
      have hlt := (List.getElem?_eq_some_iff.mp hsession).1
      cases List.mem_singleton.mp hissued
      rw [hs.parentOf_eq hprefixS hprefixC hlt, Delegation.parentOf] at hparent
      simp only [hsession, Option.bind_some] at hparent
      cases spawner with
      | none => cases hparent
      | some k =>
        obtain ⟨spawning, hspawning, rfl⟩ := Option.map_eq_some_iff.mp hparent
        have hnone := hcond i toolName visibleTools budget trace invocation rfl session k hsession
          spawning hspawning
        rw [hnone] at hsandbox
        cases hsandbox

/-- A call in a session that was spawned under a policy hands out a context without one, which
stays in the log. -/
lemma not_survives_of_called (hs : WellFormed s) (hcond : ¬ SpawnedWithoutSandbox s move)
    (h : delegationStep host s move = some s') (hrun : run (delegationStep host) s' moves = some t) :
    ¬ SandboxSurvives host t := by
  intro hsurvives
  simp only [SpawnedWithoutSandbox, not_forall] at hcond
  obtain ⟨i, toolName, visibleTools, budget, trace, invocation, rfl, session, k, hsession, issued,
    hissued, hsandbox⟩ := hcond
  obtain ⟨parentEnforcer, hparentEnforcer⟩ := Option.ne_none_iff_exists'.mp hsandbox
  obtain ⟨hnot, -⟩ | ⟨i', toolName', visibleTools', budget', trace', invocation', session', spawner,
    hmove, hsession', hsessions, hcontexts⟩ := delegationStep_cases h
  · exact hnot _ _ _ _ _ _ rfl
  cases hmove
  obtain ⟨rfl, -⟩ := Prod.mk.inj (Option.some.inj (hsession.symm.trans hsession'))
  obtain ⟨hprefixS, hprefixC⟩ := prefix_run hrun
  set added : Issued κ τ :=
    { session := i, toolName := toolName
      ctx := session.prepareToolContext visibleTools budget trace invocation }
  have hadded : added ∈ s'.contexts := by
    rw [hcontexts]
    exact List.mem_append_right _ (List.mem_singleton_self _)
  have hlt := (List.getElem?_eq_some_iff.mp hsession).1
  have hparent : t.parentOf added = some issued.ctx := by
    rw [hs.parentOf_eq ((prefix_step h).1.trans hprefixS) ((prefix_step h).2.trans hprefixC) hlt,
      Delegation.parentOf, hsession]
    exact Option.map_eq_some_iff.mpr ⟨issued, hissued, rfl⟩
  obtain ⟨enforcer, henforcer, -⟩ := hsurvives added (hprefixC.subset hadded) issued.ctx hparent
    parentEnforcer hparentEnforcer
  rw [show added.ctx.sandbox = none from
    sandbox_of_spawned hs hsession visibleTools budget trace invocation] at henforcer
  cases henforcer

/-- In a run with any number of sessions and spawns of any depth the sandbox survives delegation if
and only if no tool is called in a session that was spawned from a context with a sandbox. -/
theorem sandboxSurvives_iff
    (hrun : run (delegationStep host) ({} : Delegation κ τ) moves = some s) :
    SandboxSurvives host s ↔ Along (delegationStep host) SpawnedWithoutSandbox {} moves := by
  constructor
  · intro hsurvives
    by_contra hnot
    obtain ⟨pre, move, post, u, u', rfl, hpre, hstep, hpost, hfail⟩ :=
      exists_split_of_not_along hrun hnot
    exact not_survives_of_called (wellFormed_run hpre) hfail hstep hpost hsurvives
  · intro halong
    have hboth : WellFormed s ∧ SandboxSurvives host s :=
      run_invariant_of_along (fun s => WellFormed s ∧ SandboxSurvives host s)
        (fun _ _ _ hu hcond h => ⟨hu.1.step h, SandboxSurvives.step hu.1 hu.2 hcond h⟩)
        ⟨.initial, fun _ h => absurd h List.not_mem_nil⟩ halong hrun
    exact hboth.2

end Runs

/-- A front end's session calls `subagent`, and the session built for it reads a file. -/
def delegatingRun (level : Option String) : List (DelegationMove Unit Unit) :=
  [.openSession "cli" "cli" [⟨"read_file", false⟩] { level := level } none "",
    .callTool 0 "subagent" ["subagent"] {} none none,
    .spawn 0 [⟨"read_file", false⟩] ⟨"sub_cli_1", [], false, {}, false⟩,
    .callTool 1 "read_file" ["read_file"] {} none none]

/-- Without a sandbox there is nothing to lose. -/
theorem sandboxSurvives_iff_unrestricted :
    ∃ s, run (delegationStep emptyHost) {} (delegatingRun none) = some s ∧
      (SandboxSurvives emptyHost s ↔
        Along (delegationStep emptyHost) SpawnedWithoutSandbox {} (delegatingRun none)) :=
  ⟨_, rfl, sandboxSurvives_iff rfl⟩

/-- The subagent's tool has no sandbox although its parent has one. -/
theorem not_sandboxSurvives_delegating :
    ¬ ∀ (host : Host) (moves : List (DelegationMove Unit Unit)) (s : Delegation Unit Unit),
      run (delegationStep host) {} moves = some s → SandboxSurvives host s := by
  intro hall
  have hsurvives := hall emptyHost (delegatingRun (some "restricted")) _ rfl
  obtain ⟨enforcer, henforcer, -⟩ := hsurvives _ (.tail _ (.head _)) _ rfl _ rfl
  cases henforcer

end RustyClaw.Session
