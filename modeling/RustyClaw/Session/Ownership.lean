import Mathlib.Logic.Function.Basic
import RustyClaw.Library.Transition

/-!
# Whose output a step writes to

A session has one agent loop, and the loop has one output.  Whoever wants the session to do
something gets the loop from the session manager, waits for its lock, and steps it; what the step
says goes to the output that the loop has at that moment.

* The ACP server, the Telegram bot and the Discord bot (`acp/handlers.rs`, `telegram/handlers.rs`,
  `discord.rs`) put their output in and step under one lock.
* The scheduler (`scheduler.rs`) puts its output in under one lock and steps under another.
* A slash command that is passed through (`Command::Agent`, `app/commands.rs`) steps at once.  Its
  output is in the loop only when the session had to be built for it.

`owned_iff_undisturbed` says along which runs every step has the output of the request it is for.

The model is of one session name.  The loop of the name can change when the session is reset, and
two requests that find no session both build one.  Other tasks that take the lock, or the place of
the foreground task, only let requests wait or refuse them.
-/

namespace RustyClaw.Ownership

open Transition

/-! ## Requests and loops -/

inductive RequestKind where
  | acp | telegram | discord | passThrough | scheduler
  deriving DecidableEq, Repr

/-- The front ends take the place of the foreground task. -/
def RequestKind.isForeground : RequestKind → Bool
  | .acp | .telegram | .discord => true
  | .passThrough | .scheduler => false

/-- The bots wait for the lock for three seconds. -/
def RequestKind.hasTimeout : RequestKind → Bool
  | .telegram | .discord => true
  | .acp | .passThrough | .scheduler => false

inductive Phase where
  | arrived
  /-- in front of the lookup of `get_or_create_session` -/
  | looking
  /-- the lookup has found no session -/
  | building
  /-- waits for the lock to put the output in -/
  | waiting (l : Nat)
  /-- has the lock and has not put the output in -/
  | holding (l : Nat)
  /-- waits for the lock to step; `own` says that the request has put its output in -/
  | ready (l : Nat) (own : Bool)
  | stepping (l : Nat)
  | done
  deriving DecidableEq, Repr

structure Request where
  kind : RequestKind
  /-- the `AgentOutput`, by its number -/
  output : Nat
  phase : Phase

structure AgentLoop where
  output : Nat
  /-- the request that has put the output in (noted by the observer) -/
  installedBy : Nat
  /-- who has the lock -/
  holder : Option Nat

inductive OutputEvent where
  | text (text : String)
  | toolStart (name : String)
  | toolEnd (result : String)
  | file (path : String)
  | taskFinish (summary : String)
  deriving DecidableEq, Repr

structure Delivery where
  request : Nat
  event : OutputEvent
  output : Nat
  deriving DecidableEq, Repr

structure Server where
  /-- the entry of the session map -/
  session : Option Nat
  /-- the entry of the map of foreground tasks -/
  foreground : Option Nat
  loops : Nat → Option AgentLoop
  requests : Nat → Option Request
  delivered : List Delivery

def Server.new : Server := ⟨none, none, fun _ => none, fun _ => none, []⟩

/-! ## The steps -/

def Server.enter (s : Server) (r : Nat) (request : Request) (phase : Phase) : Server :=
  { s with requests := Function.update s.requests r (some { request with phase }) }

/-- The task ends, and with it the guard of the foreground task. -/
def Server.leave (s : Server) (r : Nat) (request : Request) : Server :=
  { s.enter r request .done with
    foreground := if s.foreground = some r then none else s.foreground }

def Server.setLoop (s : Server) (l : Nat) (loop : AgentLoop) : Server :=
  { s with loops := Function.update s.loops l (some loop) }

inductive Move where
  | arrive (r : Nat) (kind : RequestKind) (output : Nat)
  /-- `try_acquire_foreground` -/
  | acquire (r : Nat)
  | lookup (r : Nat)
  /-- the session is built as loop `l`, or building it fails -/
  | build (r : Nat) (l : Option Nat)
  | timeOut (r : Nat)
  | lock (r : Nat)
  /-- `update_output` -/
  | install (r : Nat)
  | emit (r : Nat) (event : OutputEvent)
  | finish (r : Nat)
  /-- the session is taken out of the map -/
  | reset

/-- Where a request goes on when it has a loop; `own` says that it has been built for it. -/
def RequestKind.onLoop (kind : RequestKind) (l : Nat) (own : Bool) : Phase :=
  if kind = .passThrough then .ready l own else .waiting l

def Server.acquire (s : Server) (r : Nat) (request : Request) : Server :=
  if request.kind.isForeground then
    if s.foreground.isNone then { s.enter r request .looking with foreground := some r }
    else s.enter r request .done
  else s.enter r request .looking

def Server.lookup (s : Server) (r : Nat) (request : Request) : Server :=
  match s.session with
  | some l => s.enter r request (request.kind.onLoop l false)
  | none => s.enter r request .building

def Server.build (s : Server) (r : Nat) (request : Request) : Option Nat → Option Server
  | none => some (s.leave r request)
  | some l =>
    if (s.loops l).isNone then
      some { (s.enter r request (request.kind.onLoop l true)).setLoop l ⟨request.output, r, none⟩
             with session := some l }
    else none

/-- The lock goes to a request, if nobody has it. -/
def Server.lock (s : Server) (r : Nat) (request : Request) (l : Nat) (phase : Phase) :
    Option Server :=
  (s.loops l).bind fun loop =>
    if loop.holder.isNone then
      some ((s.enter r request phase).setLoop l { loop with holder := some r })
    else none

/-- The scheduler gives the lock back. -/
def Server.install (s : Server) (r : Nat) (request : Request) (l : Nat) : Option Server :=
  (s.loops l).map fun loop =>
    let loop := { loop with output := request.output, installedBy := r }
    if request.kind = .scheduler then
      (s.enter r request (.ready l true)).setLoop l { loop with holder := none }
    else (s.enter r request (.stepping l)).setLoop l loop

def step (s : Server) : Move → Option Server
  | .arrive r kind output =>
    if (s.requests r).isNone then some (s.enter r ⟨kind, output, .arrived⟩ .arrived) else none
  | .acquire r => (s.requests r).bind fun request =>
    if request.phase = .arrived then some (s.acquire r request) else none
  | .lookup r => (s.requests r).bind fun request =>
    if request.phase = .looking then some (s.lookup r request) else none
  | .build r l => (s.requests r).bind fun request =>
    if request.phase = .building then s.build r request l else none
  | .timeOut r => (s.requests r).bind fun request =>
    match request.phase with
    | .waiting _ => if request.kind.hasTimeout then some (s.leave r request) else none
    | _ => none
  | .lock r => (s.requests r).bind fun request =>
    match request.phase with
    | .waiting l => s.lock r request l (.holding l)
    | .ready l _ => s.lock r request l (.stepping l)
    | _ => none
  | .install r => (s.requests r).bind fun request =>
    match request.phase with
    | .holding l => s.install r request l
    | _ => none
  | .emit r event => (s.requests r).bind fun request =>
    match request.phase with
    | .stepping l => (s.loops l).map fun loop =>
      { s with delivered := s.delivered ++ [⟨r, event, loop.output⟩] }
    | _ => none
  | .finish r => (s.requests r).bind fun request =>
    match request.phase with
    | .stepping l => (s.loops l).map fun loop =>
      (s.leave r request).setLoop l { loop with holder := none }
    | _ => none
  | .reset => some { s with session := none }

/-! ## What is promised -/

/-- The output in the loop is there from this request. -/
def Server.Installed (s : Server) (r l : Nat) : Prop :=
  ∃ loop, s.loops l = some loop ∧ loop.installedBy = r

/-- From the moment a request has put its output in to the end of its step nobody replaces it, no
request steps without having put its output in, and everything that a step says is delivered to the
output of its request. -/
structure Owned (s : Server) : Prop where
  ready : ∀ r request l, s.requests r = some request → request.phase = .ready l true →
    s.Installed r l
  stepping : ∀ r request l, s.requests r = some request → request.phase = .stepping l →
    s.Installed r l
  delivered : ∀ d ∈ s.delivered, ∃ request, s.requests d.request = some request ∧
    d.output = request.output

/-! ## The condition -/

/-- A command that is passed through does not get a loop that was there before it, and nobody puts
an output into a loop while another request has its own there and has not stepped yet. -/
def Undisturbed (s : Server) : Move → Prop
  | .lock r => ∀ request l, s.requests r = some request → request.phase ≠ .ready l false
  | .install r => ∀ request l, s.requests r = some request → request.phase = .holding l →
    ∀ r' request', r' ≠ r → s.requests r' = some request' → request'.phase ≠ .ready l true
  | _ => True

/-! ## What a step does -/

/-- The request counts on its output being in the loop. -/
def Phase.Owns : Phase → Nat → Prop
  | .ready l own, l' => own = true ∧ l = l'
  | .stepping l, l' => l = l'
  | _, _ => False

/-- The request has the lock of the loop. -/
def Phase.Holds : Phase → Nat → Prop
  | .holding l, l' | .stepping l, l' => l = l'
  | _, _ => False

/-- The request has never put its output in. -/
def Phase.Early : Phase → Prop
  | .arrived | .looking | .building => True
  | .ready _ own => own = false
  | _ => False

/-- What a step does to the requests, the loops and what has been delivered. -/
inductive Effect (s : Server) : Move → Server → Prop
  | arrive {r kind output} (hr : s.requests r = none) :
    Effect s (.arrive r kind output) (s.enter r ⟨kind, output, .arrived⟩ .arrived)
  /-- The phase changes, and the request has no loop to lose or to win by it. -/
  | quiet {move r request phase} {session foreground : Option Nat}
    (hr : s.requests r = some request)
    (howns : ∀ l, ¬ phase.Owns l) (hholds : ∀ l, ¬ phase.Holds l)
    (hearly : phase.Early → request.phase.Early) (hmove : Undisturbed s move) :
    Effect s move { s.enter r request phase with session, foreground }
  | build {r request l} {session : Option Nat} (hr : s.requests r = some request)
    (hl : s.loops l = none) :
    Effect s (.build r (some l))
      { (s.enter r request (request.kind.onLoop l true)).setLoop l ⟨request.output, r, none⟩ with
        session }
  | take {r request l loop} (hr : s.requests r = some request)
    (hphase : request.phase = .waiting l) (hl : s.loops l = some loop)
    (hfree : loop.holder = none) :
    Effect s (.lock r) ((s.enter r request (.holding l)).setLoop l { loop with holder := some r })
  | start {r request l own loop} (hr : s.requests r = some request)
    (hphase : request.phase = .ready l own) (hl : s.loops l = some loop)
    (hfree : loop.holder = none) :
    Effect s (.lock r) ((s.enter r request (.stepping l)).setLoop l { loop with holder := some r })
  | install {r request l loop phase} {holder : Option Nat} (hr : s.requests r = some request)
    (hphase : request.phase = .holding l) (hl : s.loops l = some loop)
    (hnext : phase = .ready l true ∨ phase = .stepping l ∧ holder = loop.holder) :
    Effect s (.install r) ((s.enter r request phase).setLoop l ⟨request.output, r, holder⟩)
  | emit {r request l loop event} (hr : s.requests r = some request)
    (hphase : request.phase = .stepping l) (hl : s.loops l = some loop) :
    Effect s (.emit r event) { s with delivered := s.delivered ++ [⟨r, event, loop.output⟩] }
  | finish {r request l loop} (hr : s.requests r = some request)
    (hphase : request.phase = .stepping l) (hl : s.loops l = some loop) :
    Effect s (.finish r) ((s.leave r request).setLoop l { loop with holder := none })
  | reset : Effect s .reset { s with session := none }

section Effects

variable {s s' : Server} {r : Nat} {request : Request}

lemma effect_enter {move : Move} {phase : Phase} (hr : s.requests r = some request)
    (howns : ∀ l, ¬ phase.Owns l) (hholds : ∀ l, ¬ phase.Holds l)
    (hearly : phase.Early → request.phase.Early) (hmove : Undisturbed s move) :
    Effect s move (s.enter r request phase) := by
  have h : Effect s move
      { s.enter r request phase with session := s.session, foreground := s.foreground } :=
    .quiet hr howns hholds hearly hmove
  exact h

lemma effect_leave {move : Move} (hr : s.requests r = some request) (hmove : Undisturbed s move) :
    Effect s move (s.leave r request) :=
  .quiet hr (fun _ h => h) (fun _ h => h) False.elim hmove

lemma effect_acquire (hr : s.requests r = some request) (hphase : request.phase = .arrived) :
    Effect s (.acquire r) (s.acquire r request) := by
  have hearly : request.phase.Early := by rw [hphase]; trivial
  unfold Server.acquire
  split_ifs
  · exact .quiet hr (fun _ h => h) (fun _ h => h) (fun _ => hearly) trivial
  · exact effect_enter hr (fun _ h => h) (fun _ h => h) (fun _ => hearly) trivial
  · exact effect_enter hr (fun _ h => h) (fun _ h => h) (fun _ => hearly) trivial

lemma effect_lookup (hr : s.requests r = some request) (hphase : request.phase = .looking) :
    Effect s (.lookup r) (s.lookup r request) := by
  have hearly : request.phase.Early := by rw [hphase]; trivial
  unfold Server.lookup RequestKind.onLoop
  split
  · split_ifs
    · exact effect_enter hr (fun _ h => Bool.false_ne_true h.1) (fun _ h => h) (fun _ => hearly)
        trivial
    · exact effect_enter hr (fun _ h => h) (fun _ h => h) (fun _ => hearly) trivial
  · exact effect_enter hr (fun _ h => h) (fun _ h => h) (fun _ => hearly) trivial

lemma effect_lock {l : Nat} {phase : Phase} (h : s.lock r request l phase = some s') :
    ∃ loop, s.loops l = some loop ∧ loop.holder = none ∧
      s' = (s.enter r request phase).setLoop l { loop with holder := some r } := by
  obtain ⟨loop, hl, h⟩ := Option.bind_eq_some_iff.mp h
  split_ifs at h with hfree
  exact ⟨loop, hl, Option.isNone_iff_eq_none.mp hfree, (Option.some_inj.mp h).symm⟩

/-- A step has one of these effects. -/
lemma effect_step {move : Move} (h : step s move = some s') : Effect s move s' := by
  cases move with
  | arrive r kind output =>
    simp only [step, Option.ite_none_right_eq_some, Option.some_inj] at h
    obtain ⟨hr, rfl⟩ := h
    exact .arrive (Option.isNone_iff_eq_none.mp hr)
  | reset =>
    obtain rfl := Option.some_inj.mp h
    exact .reset
  | acquire r =>
    obtain ⟨request, hr, h⟩ := Option.bind_eq_some_iff.mp h
    simp only [Option.ite_none_right_eq_some, Option.some_inj] at h
    obtain ⟨hphase, rfl⟩ := h
    exact effect_acquire hr hphase
  | lookup r =>
    obtain ⟨request, hr, h⟩ := Option.bind_eq_some_iff.mp h
    simp only [Option.ite_none_right_eq_some, Option.some_inj] at h
    obtain ⟨hphase, rfl⟩ := h
    exact effect_lookup hr hphase
  | build r l =>
    obtain ⟨request, hr, h⟩ := Option.bind_eq_some_iff.mp h
    simp only [Option.ite_none_right_eq_some] at h
    obtain ⟨-, h⟩ := h
    cases l with
    | none =>
      obtain rfl := Option.some_inj.mp h
      exact effect_leave hr trivial
    | some l =>
      simp only [Server.build, Option.ite_none_right_eq_some, Option.some_inj] at h
      obtain ⟨hl, rfl⟩ := h
      exact .build hr (Option.isNone_iff_eq_none.mp hl)
  | timeOut r =>
    obtain ⟨request, hr, h⟩ := Option.bind_eq_some_iff.mp h
    split at h
    · split_ifs at h
      obtain rfl := Option.some_inj.mp h
      exact effect_leave hr trivial
    · cases h
  | lock r =>
    obtain ⟨request, hr, h⟩ := Option.bind_eq_some_iff.mp h
    split at h
    · next l hphase =>
      obtain ⟨loop, hl, hfree, rfl⟩ := effect_lock h
      exact .take hr hphase hl hfree
    · next l own hphase =>
      obtain ⟨loop, hl, hfree, rfl⟩ := effect_lock h
      exact .start hr hphase hl hfree
    · cases h
  | install r =>
    obtain ⟨request, hr, h⟩ := Option.bind_eq_some_iff.mp h
    split at h
    · next l hphase =>
      obtain ⟨loop, hl, rfl⟩ := Option.map_eq_some_iff.mp h
      dsimp only
      split_ifs
      · exact .install hr hphase hl (.inl rfl)
      · exact .install hr hphase hl (.inr ⟨rfl, rfl⟩)
    · cases h
  | emit r event =>
    obtain ⟨request, hr, h⟩ := Option.bind_eq_some_iff.mp h
    split at h
    · next l hphase =>
      obtain ⟨loop, hl, rfl⟩ := Option.map_eq_some_iff.mp h
      exact .emit hr hphase hl
    · cases h
  | finish r =>
    obtain ⟨request, hr, h⟩ := Option.bind_eq_some_iff.mp h
    split at h
    · next l hphase =>
      obtain ⟨loop, hl, rfl⟩ := Option.map_eq_some_iff.mp h
      exact .finish hr hphase hl
    · cases h

end Effects

/-! ## The lock, and where the outputs are from -/

structure Inv (s : Server) : Prop where
  /-- A request that acts under the lock has it. -/
  locked : ∀ r request l, s.requests r = some request → request.phase.Holds l →
    ∃ loop, s.loops l = some loop ∧ loop.holder = some r
  /-- The output of a loop is that of the request which has put it in. -/
  known : ∀ l loop, s.loops l = some loop →
    ∃ request, s.requests loop.installedBy = some request ∧ request.output = loop.output
  early : ∀ r request l loop, s.requests r = some request → request.phase.Early →
    s.loops l = some loop → loop.installedBy ≠ r

section Changes

variable {s s' : Server} {r l : Nat} {request : Request} {phase : Phase} {loop : AgentLoop}

lemma requests_enter_self : (s.enter r request phase).requests r = some { request with phase } :=
  Function.update_self ..

lemma requests_enter_of_ne {r' : Nat} (h : r' ≠ r) :
    (s.enter r request phase).requests r' = s.requests r' :=
  Function.update_of_ne h ..

lemma loops_setLoop_self : (s.setLoop l loop).loops l = some loop := Function.update_self ..

lemma loops_setLoop_of_ne {l' : Nat} (h : l' ≠ l) : (s.setLoop l loop).loops l' = s.loops l' :=
  Function.update_of_ne h ..

/-- The request of an output keeps its output. -/
lemma exists_request_enter (hr : s.requests r = some request) {r' : Nat} {output : Nat}
    (h : ∃ request', s.requests r' = some request' ∧ request'.output = output) :
    ∃ request', (s.enter r request phase).requests r' = some request' ∧
      request'.output = output := by
  obtain ⟨request', hr', rfl⟩ := h
  by_cases heq : r' = r
  · subst heq
    obtain rfl := Option.some_inj.mp (hr.symm.trans hr')
    exact ⟨_, requests_enter_self, rfl⟩
  · exact ⟨request', (requests_enter_of_ne heq).trans hr', rfl⟩

lemma Inv.enter (hs : Inv s) (hr : s.requests r = some request) (hholds : ∀ l, ¬ phase.Holds l)
    (hearly : phase.Early → request.phase.Early) : Inv (s.enter r request phase) := by
  refine ⟨fun r' request' l hr' hphase => ?_, fun l loop hl => ?_,
    fun r' request' l loop hr' hphase hl => ?_⟩
  · by_cases heq : r' = r
    · subst heq
      obtain rfl := Option.some_inj.mp (requests_enter_self.symm.trans hr')
      exact absurd hphase (hholds l)
    · exact hs.locked r' request' l ((requests_enter_of_ne heq).symm.trans hr') hphase
  · exact exists_request_enter hr (hs.known l loop hl)
  · by_cases heq : r' = r
    · subst heq
      obtain rfl := Option.some_inj.mp (requests_enter_self.symm.trans hr')
      exact hs.early r' request l loop hr (hearly hphase) hl
    · exact hs.early r' request' l loop ((requests_enter_of_ne heq).symm.trans hr') hphase hl

/-- A request changes its phase, and the loop that nobody else has. -/
lemma Inv.enter_setLoop (hs : Inv s) (hr : s.requests r = some request)
    (hfree : ∀ loop r', s.loops l = some loop → loop.holder = some r' → r' = r)
    (hholds : ∀ l', phase.Holds l' → l' = l ∧ loop.holder = some r) (hearly : ¬ phase.Early)
    (hloop : (∃ old, s.loops l = some old ∧ loop.output = old.output ∧
        loop.installedBy = old.installedBy) ∨
      loop.output = request.output ∧ loop.installedBy = r) :
    Inv ((s.enter r request phase).setLoop l loop) := by
  refine ⟨fun r' request' l' hr' hphase => ?_, fun l' loop' hl' => ?_,
    fun r' request' l' loop' hr' hphase hl' => ?_⟩
  · by_cases heq : r' = r
    · subst heq
      obtain rfl := Option.some_inj.mp (requests_enter_self.symm.trans hr')
      obtain ⟨rfl, hholder⟩ := hholds l' hphase
      exact ⟨loop, loops_setLoop_self, hholder⟩
    · obtain ⟨old, hold, hholder⟩ :=
        hs.locked r' request' l' ((requests_enter_of_ne heq).symm.trans hr') hphase
      have hne : l' ≠ l := by
        rintro rfl
        exact heq (hfree old r' hold hholder)
      exact ⟨old, (loops_setLoop_of_ne hne).trans hold, hholder⟩
  · apply exists_request_enter hr
    by_cases hne : l' = l
    · subst hne
      obtain rfl := Option.some_inj.mp (loops_setLoop_self.symm.trans hl')
      obtain ⟨old, hold, hout, hby⟩ | ⟨hout, hby⟩ := hloop
      · rw [hout, hby]
        exact hs.known l' old hold
      · rw [hout, hby]
        exact ⟨request, hr, rfl⟩
    · exact hs.known l' loop' ((loops_setLoop_of_ne hne).symm.trans hl')
  · by_cases heq : r' = r
    · subst heq
      obtain rfl := Option.some_inj.mp (requests_enter_self.symm.trans hr')
      exact absurd hphase hearly
    · have hthere : s.requests r' = some request' := (requests_enter_of_ne heq).symm.trans hr'
      by_cases hne : l' = l
      · subst hne
        obtain rfl := Option.some_inj.mp (loops_setLoop_self.symm.trans hl')
        obtain ⟨old, hold, -, hby⟩ | ⟨-, hby⟩ := hloop
        · rw [hby]
          exact hs.early r' request' l' old hthere hphase hold
        · rw [hby]
          exact Ne.symm heq
      · have hloop := (loops_setLoop_of_ne hne).symm.trans hl'
        exact hs.early r' request' l' loop' hthere hphase hloop

lemma Inv.arrive (hs : Inv s) (hr : s.requests r = none) {kind : RequestKind} {output : Nat} :
    Inv (s.enter r ⟨kind, output, .arrived⟩ .arrived) := by
  refine ⟨fun r' request' l hr' hphase => ?_, fun l loop hl => ?_,
    fun r' request' l loop hr' hphase hl => ?_⟩
  · by_cases heq : r' = r
    · subst heq
      obtain rfl := Option.some_inj.mp (requests_enter_self.symm.trans hr')
      exact hphase.elim
    · exact hs.locked r' request' l ((requests_enter_of_ne heq).symm.trans hr') hphase
  · obtain ⟨request', hr', hout⟩ := hs.known l loop hl
    have hne : loop.installedBy ≠ r := by
      intro heq
      rw [heq, hr] at hr'
      cases hr'
    exact ⟨request', (requests_enter_of_ne hne).trans hr', hout⟩
  · by_cases heq : r' = r
    · subst heq
      obtain ⟨request, hby, -⟩ := hs.known l loop hl
      intro heq
      rw [heq, hr] at hby
      cases hby
    · exact hs.early r' request' l loop ((requests_enter_of_ne heq).symm.trans hr') hphase hl

/-- Who acts under the lock is the one who has it. -/
lemma Inv.holder_eq (hs : Inv s) (hr : s.requests r = some request) (hholds : request.phase.Holds l)
    (hl : s.loops l = some loop) : loop.holder = some r := by
  obtain ⟨old, hold, hholder⟩ := hs.locked r request l hr hholds
  obtain rfl := Option.some_inj.mp (hl.symm.trans hold)
  exact hholder

lemma Inv.effect (hs : Inv s) {move : Move} (h : Effect s move s') : Inv s' := by
  cases h with
  | arrive hr => exact hs.arrive hr
  | quiet hr _ hholds hearly _ =>
    have hnext := hs.enter hr hholds hearly
    exact ⟨hnext.locked, hnext.known, hnext.early⟩
  | @build r request l session hr hl =>
    have hnext : Inv ((s.enter r request (request.kind.onLoop l true)).setLoop l
        ⟨request.output, r, none⟩) := by
      apply hs.enter_setLoop hr
      · intro loop r' hloop
        rw [hl] at hloop
        cases hloop
      · intro l' hholds
        unfold RequestKind.onLoop at hholds
        split_ifs at hholds
        · exact hholds.elim
        · exact hholds.elim
      · intro hearly
        unfold RequestKind.onLoop at hearly
        split_ifs at hearly
        · cases hearly
        · exact hearly.elim
      · exact .inr ⟨rfl, rfl⟩
    exact ⟨hnext.locked, hnext.known, hnext.early⟩
  | take hr hphase hl hfree =>
    apply hs.enter_setLoop hr
    · intro loop r' hloop hholder
      obtain rfl := Option.some_inj.mp (hl.symm.trans hloop)
      rw [hfree] at hholder
      cases hholder
    · rintro l' rfl
      exact ⟨rfl, rfl⟩
    · exact id
    · exact .inl ⟨_, hl, rfl, rfl⟩
  | start hr hphase hl hfree =>
    apply hs.enter_setLoop hr
    · intro loop r' hloop hholder
      obtain rfl := Option.some_inj.mp (hl.symm.trans hloop)
      rw [hfree] at hholder
      cases hholder
    · rintro l' rfl
      exact ⟨rfl, rfl⟩
    · exact id
    · exact .inl ⟨_, hl, rfl, rfl⟩
  | @install r request l loop phase holder hr hphase hl hnext =>
    have hholder := hs.holder_eq hr (l := l) (by rw [hphase]; rfl) hl
    apply hs.enter_setLoop hr
    · intro loop' r' hloop hholder'
      obtain rfl := Option.some_inj.mp (hl.symm.trans hloop)
      exact Option.some_inj.mp (hholder'.symm.trans hholder)
    · intro l' hholds
      obtain rfl | ⟨rfl, rfl⟩ := hnext
      · exact hholds.elim
      · exact ⟨Eq.symm hholds, hholder⟩
    · obtain rfl | ⟨rfl, -⟩ := hnext
      · exact Bool.noConfusion
      · exact id
    · exact .inr ⟨rfl, rfl⟩
  | emit => exact ⟨hs.locked, hs.known, hs.early⟩
  | @finish r request l loop hr hphase hl =>
    have hholder := hs.holder_eq hr (l := l) (by rw [hphase]; rfl) hl
    have hnext : Inv ((s.enter r request .done).setLoop l { loop with holder := none }) := by
      apply hs.enter_setLoop hr
      · intro loop' r' hloop hholder'
        obtain rfl := Option.some_inj.mp (hl.symm.trans hloop)
        exact Option.some_inj.mp (hholder'.symm.trans hholder)
      · exact fun _ hholds => hholds.elim
      · exact id
      · exact .inl ⟨loop, hl, rfl, rfl⟩
    exact ⟨hnext.locked, hnext.known, hnext.early⟩
  | reset => exact ⟨hs.locked, hs.known, hs.early⟩

end Changes

/-! ## The step and the condition -/

section Ownership

variable {s s' : Server} {r l : Nat} {request : Request} {phase : Phase} {loop : AgentLoop}

lemma installed_iff (hl : s.loops l = some loop) : s.Installed r l ↔ loop.installedBy = r := by
  constructor
  · rintro ⟨old, hold, hby⟩
    obtain rfl := Option.some_inj.mp (hl.symm.trans hold)
    exact hby
  · intro hby
    exact ⟨loop, hl, hby⟩

lemma Owned.installed (h : Owned s) (hr : s.requests r = some request)
    (howns : request.phase.Owns l) : s.Installed r l := by
  obtain ⟨kind, output, phase⟩ := request
  cases phase with
  | ready l' own =>
    obtain ⟨rfl, rfl⟩ := howns
    exact h.ready r _ l' hr rfl
  | stepping l' =>
    obtain rfl := howns
    exact h.stepping r _ l' hr rfl
  | _ => exact howns.elim

lemma owned_iff : Owned s ↔
    (∀ r request l, s.requests r = some request → request.phase.Owns l → s.Installed r l) ∧
      ∀ d ∈ s.delivered, ∃ request, s.requests d.request = some request ∧
        request.output = d.output := by
  constructor
  · intro h
    refine ⟨fun r request l hr howns => h.installed hr howns, fun d hd => ?_⟩
    obtain ⟨request, hr, hout⟩ := h.delivered d hd
    exact ⟨request, hr, hout.symm⟩
  · rintro ⟨hinstalled, hdelivered⟩
    refine ⟨fun r request l hr hphase => ?_, fun r request l hr hphase => ?_, fun d hd => ?_⟩
    · exact hinstalled r request l hr (by rw [hphase]; exact ⟨rfl, rfl⟩)
    · exact hinstalled r request l hr (by rw [hphase]; rfl)
    · obtain ⟨request, hr, hout⟩ := hdelivered d hd
      exact ⟨request, hr, hout.symm⟩

lemma Owned.enter (h : Owned s) (hr : s.requests r = some request)
    (howns : ∀ l, ¬ phase.Owns l) : Owned (s.enter r request phase) := by
  refine owned_iff.mpr ⟨fun r' request' l hr' hphase => ?_, fun d hd => ?_⟩
  · by_cases heq : r' = r
    · subst heq
      obtain rfl := Option.some_inj.mp (requests_enter_self.symm.trans hr')
      exact absurd hphase (howns l)
    · exact h.installed ((requests_enter_of_ne heq).symm.trans hr') hphase
  · exact exists_request_enter hr ((owned_iff.mp h).2 d hd)

lemma Owned.arrive (h : Owned s) (hr : s.requests r = none) {kind : RequestKind} {output : Nat} :
    Owned (s.enter r ⟨kind, output, .arrived⟩ .arrived) := by
  refine owned_iff.mpr ⟨fun r' request' l hr' hphase => ?_, fun d hd => ?_⟩
  · by_cases heq : r' = r
    · subst heq
      obtain rfl := Option.some_inj.mp (requests_enter_self.symm.trans hr')
      exact hphase.elim
    · exact h.installed ((requests_enter_of_ne heq).symm.trans hr') hphase
  · obtain ⟨request', hr', hout⟩ := (owned_iff.mp h).2 d hd
    have hne : d.request ≠ r := by
      intro heq
      rw [heq, hr] at hr'
      cases hr'
    exact ⟨request', (requests_enter_of_ne hne).trans hr', hout⟩

/-- A request changes its phase, and the loop of which it can be the owner. -/
lemma owned_enter_setLoop_iff (h : Owned s) (hr : s.requests r = some request)
    (howns : ∀ l', phase.Owns l' → l' = l) :
    Owned ((s.enter r request phase).setLoop l loop) ↔
      (phase.Owns l → loop.installedBy = r) ∧
        ∀ r' request', r' ≠ r → s.requests r' = some request' → request'.phase.Owns l →
          loop.installedBy = r' := by
  constructor
  · intro hnext
    refine ⟨fun hphase => ?_, fun r' request' hne hr' hphase => ?_⟩
    · exact (installed_iff loops_setLoop_self).mp (hnext.installed requests_enter_self hphase)
    · have hthere : (s.enter r request phase).requests r' = some request' :=
        (requests_enter_of_ne hne).trans hr'
      exact (installed_iff loops_setLoop_self).mp (hnext.installed hthere hphase)
  · rintro ⟨hself, hothers⟩
    refine owned_iff.mpr ⟨fun r' request' l' hr' hphase => ?_, fun d hd => ?_⟩
    · by_cases heq : r' = r
      · subst heq
        obtain rfl := Option.some_inj.mp (requests_enter_self.symm.trans hr')
        obtain rfl := howns l' hphase
        exact ⟨loop, loops_setLoop_self, hself hphase⟩
      · have hthere : s.requests r' = some request' := (requests_enter_of_ne heq).symm.trans hr'
        by_cases hne : l' = l
        · subst hne
          exact ⟨loop, loops_setLoop_self, hothers r' request' heq hthere hphase⟩
        · obtain ⟨old, hold, hby⟩ := h.installed hthere hphase
          exact ⟨old, (loops_setLoop_of_ne hne).trans hold, hby⟩
    · exact exists_request_enter hr ((owned_iff.mp h).2 d hd)

/-- The others keep what is theirs when the output of the loop is not replaced. -/
lemma Owned.installedBy_eq (h : Owned s) (hl : s.loops l = some loop) {r' : Nat}
    {request' : Request} (hr' : s.requests r' = some request') (howns : request'.phase.Owns l) :
    loop.installedBy = r' :=
  (installed_iff hl).mp (h.installed hr' howns)

/-- A step keeps the promise exactly when it is undisturbed. -/
lemma owned_effect_iff (hs : Inv s) (h : Owned s) {move : Move} (hstep : Effect s move s') :
    Owned s' ↔ Undisturbed s move := by
  cases hstep with
  | arrive hr => exact iff_of_true (h.arrive hr) trivial
  | quiet hr howns _ _ hmove =>
    have hnext := h.enter hr howns
    exact iff_of_true ⟨hnext.ready, hnext.stepping, hnext.delivered⟩ hmove
  | @build r request l session hr hl =>
    have hnext : Owned ((s.enter r request (request.kind.onLoop l true)).setLoop l
        ⟨request.output, r, none⟩) := by
      rw [owned_enter_setLoop_iff h hr]
      · refine ⟨fun _ => rfl, fun r' request' _ hr' howns => ?_⟩
        obtain ⟨old, hold, -⟩ := h.installed hr' howns
        rw [hl] at hold
        cases hold
      · intro l' howns
        unfold RequestKind.onLoop at howns
        split_ifs at howns
        · exact howns.2.symm
        · exact howns.elim
    exact iff_of_true ⟨hnext.ready, hnext.stepping, hnext.delivered⟩ trivial
  | @take r request l loop hr hphase hl hfree =>
    have howns : ∀ l', (Phase.holding l).Owns l' → l' = l := fun _ howns => howns.elim
    rw [owned_enter_setLoop_iff h hr howns]
    refine iff_of_true ⟨False.elim, fun r' request' _ hr' howns => ?_⟩ ?_
    · exact h.installedBy_eq hl hr' howns
    · intro request' l' hr' hready
      obtain rfl := Option.some_inj.mp (hr.symm.trans hr')
      rw [hphase] at hready
      cases hready
  | @start r request l own loop hr hphase hl hfree =>
    have howns : ∀ l', (Phase.stepping l).Owns l' → l' = l := fun _ howns => Eq.symm howns
    rw [owned_enter_setLoop_iff h hr howns,
      and_iff_left fun r' request' _ hr' howns => h.installedBy_eq hl hr' howns]
    have hready : Undisturbed s (.lock r) ↔ own = true := by
      constructor
      · intro hmove
        cases own with
        | true => rfl
        | false => exact absurd hphase (hmove request l hr)
      · rintro rfl request' l' hr' hfalse
        obtain rfl := Option.some_inj.mp (hr.symm.trans hr')
        rw [hphase] at hfalse
        cases hfalse
    rw [hready]
    constructor
    · intro hby
      cases own with
      | true => rfl
      | false => exact absurd (hby rfl) (hs.early r request l loop hr (by rw [hphase]; rfl) hl)
    · rintro rfl -
      exact h.installedBy_eq hl hr (by rw [hphase]; exact ⟨rfl, rfl⟩)
  | @install r request l loop phase holder hr hphase hl hnext =>
    have hholder := hs.holder_eq hr (l := l) (by rw [hphase]; rfl) hl
    have howns : ∀ l', phase.Owns l' → l' = l := by
      intro l' howns
      obtain rfl | ⟨rfl, -⟩ := hnext
      · exact howns.2.symm
      · exact Eq.symm howns
    rw [owned_enter_setLoop_iff h hr howns, and_iff_right fun _ => rfl]
    constructor
    · intro hothers request' l' hr' hphase' r' other hne hother hready
      obtain rfl := Option.some_inj.mp (hr.symm.trans hr')
      obtain rfl := Phase.holding.inj (hphase.symm.trans hphase')
      have hby := hothers r' other hne hother (by rw [hready]; exact ⟨rfl, rfl⟩)
      exact hne hby.symm
    · intro hmove r' other hne hother hown
      obtain ⟨kind, output, phase'⟩ := other
      cases phase' with
      | ready l' own =>
        obtain ⟨rfl, rfl⟩ := hown
        exact absurd rfl (hmove request l' hr hphase r' _ hne hother)
      | stepping l' =>
        -- it would have the lock of the loop
        obtain rfl := hown
        have hholder' := hs.holder_eq hother (l := l') rfl hl
        exact absurd (Option.some_inj.mp (hholder'.symm.trans hholder)) hne
      | _ => exact hown.elim
  | @emit r request l loop event hr hphase hl =>
    refine iff_of_true (owned_iff.mpr ⟨fun r' request' l' hr' howns => ?_, fun d hd => ?_⟩) trivial
    · exact h.installed hr' howns
    · rcases List.mem_append.mp hd with hold | hnew
      · exact (owned_iff.mp h).2 d hold
      · obtain rfl := List.mem_singleton.mp hnew
        have hby := h.installedBy_eq hl hr (by rw [hphase]; rfl)
        obtain ⟨request', hr', hout⟩ := hs.known l loop hl
        exact ⟨request', hby ▸ hr', hout⟩
  | @finish r request l loop hr hphase hl =>
    have hnext : Owned ((s.enter r request .done).setLoop l { loop with holder := none }) := by
      have howns : ∀ l', Phase.done.Owns l' → l' = l := fun _ howns => howns.elim
      rw [owned_enter_setLoop_iff h hr howns]
      refine ⟨False.elim, fun r' request' _ hr' howns => ?_⟩
      exact h.installedBy_eq hl hr' howns
    exact iff_of_true ⟨hnext.ready, hnext.stepping, hnext.delivered⟩ trivial
  | reset => exact iff_of_true ⟨h.ready, h.stepping, h.delivered⟩ trivial

end Ownership

/-- Every step has the output of its request, in every state of a run, exactly when every move of
the run is undisturbed. -/
theorem owned_iff_undisturbed {moves : List Move} {s : Server}
    (hrun : run step .new moves = some s) :
    (∀ pre post u, moves = pre ++ post → run step .new pre = some u → Owned u) ↔
      Along step Undisturbed .new moves := by
  have hnone : ∀ r request, Server.new.requests r ≠ some request := fun _ _ h => by cases h
  have hinv : Inv .new := by
    refine ⟨fun r request _ hr => absurd hr (hnone r request), fun l loop hl => ?_,
      fun r request _ _ hr => absurd hr (hnone r request)⟩
    cases hl
  have howned : Owned .new := by
    refine ⟨fun r request _ hr => absurd hr (hnone r request),
      fun r request _ hr => absurd hr (hnone r request), fun d hd => ?_⟩
    cases hd
  exact forall_states_iff_along Inv (fun _ _ _ hs h => hs.effect (effect_step h))
    (fun _ _ _ hs ho h => owned_effect_iff hs ho (effect_step h)) hinv howned hrun

/-! ## A task is due while a message is answered -/

section Examples

/-- The Telegram bot builds the session for a message, and answers. -/
def answered : List Move :=
  [.arrive 0 .telegram 7, .acquire 0, .lookup 0, .build 0 (some 0), .lock 0, .install 0,
    .emit 0 (.text "hello"), .finish 0]

theorem owned_iff_undisturbed_answered :
    ∃ s, run step .new answered = some s ∧
      ((∀ pre post u, answered = pre ++ post → run step .new pre = some u → Owned u) ↔
        Along step Undisturbed .new answered) :=
  ⟨_, rfl, owned_iff_undisturbed rfl⟩

/-- The scheduler puts its output in and gives the lock back, a message comes in between, and the
task is then done with the output of the message. -/
def between : List Move :=
  [.arrive 1 .scheduler 8, .acquire 1, .lookup 1, .lock 1, .install 1,
    .arrive 2 .telegram 9, .acquire 2, .lookup 2, .lock 2, .install 2, .finish 2,
    .lock 1, .emit 1 (.text "report")]

theorem not_owned_between :
    ¬ ∀ (moves : List Move) (s : Server), run step .new moves = some s →
      ∀ pre post u, moves = pre ++ post → run step .new pre = some u → Owned u := by
  intro h
  obtain ⟨s, hs⟩ : ∃ s, run step .new (answered ++ between) = some s := ⟨_, rfl⟩
  have howned := h _ s hs _ [] s (List.append_nil _).symm hs
  have hseen : (run step .new (answered ++ between)).map
      (fun s => (s.delivered.getLast?, (s.requests 1).map (·.output))) =
        some (some ⟨1, .text "report", 9⟩, some 8) := rfl
  rw [hs] at hseen
  obtain ⟨hlast, hout⟩ := Prod.mk.inj (Option.some_inj.mp hseen)
  obtain ⟨request, hr, hsame⟩ := howned.delivered _ (List.mem_of_getLast? hlast)
  obtain ⟨request', hr', hout⟩ := Option.map_eq_some_iff.mp hout
  obtain rfl := Option.some_inj.mp (hr.symm.trans hr')
  rw [hout] at hsame
  cases hsame

end Examples

end RustyClaw.Ownership
