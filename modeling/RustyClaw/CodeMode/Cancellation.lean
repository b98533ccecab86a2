import RustyClaw.CodeMode.Host

/-!
# Cancelled cells and their nested calls

`CellStops` is what a cancelled cell owes its callers: once the cancel flag is set or the
deadline has passed no tool begins to execute, and every reported call is reported done exactly
once.

The code does not keep it.  Flag and deadline are tested in front of the executor's lock, so a
call that is past its tests executes however long it has waited for the lock; and a call whose
future is dropped with the runtime is never reported done.  `cellStops_of_quiet` is the part
that holds: a run in which no call is past its tests when a stop arrives, and none is under way
when the runtime ends, keeps both promises.

The proof has three invariants.  `Tracked` ties the phases of the calls to the log and `Locked`
ties them to the lock; both hold in every run.  `Stopped` says that after a stop no call is on
its way to a tool; it needs the condition.
-/

namespace RustyClaw.CodeMode

open Transition Requests

variable {V : Type} {executor : UnifiedToolExecutor} {s s' : CellHostState V}
  {id : String} {call : NestedCall} {move : CallMove}

/-! ## The property -/

def opens (id : String) : HostEvent V → Bool
  | .emitted (.toolCallRequested request) => request.requestId = id
  | _ => false

def closes (id : String) : HostEvent V → Bool
  | .emitted (.toolCallDone _ requestId) => requestId = id
  | _ => false

def HostEvent.isStop : HostEvent V → Bool
  | .cancelRequested | .deadlineReached => true
  | _ => false

def HostEvent.isExecute : HostEvent V → Bool
  | .toolExecute _ => true
  | _ => false

/-- The program is still running, but no nested call can move. -/
def Stuck (executor : UnifiedToolExecutor) (s : CellHostState V) : Prop :=
  ∀ id move, hostStep executor s (.call id move) = none

/-- What a state reached by a run owes. -/
structure CellStops (executor : UnifiedToolExecutor) (s : CellHostState V) : Prop where
  /-- No tool begins after a stop. -/
  noExecute : s.log.Pairwise fun e later => e.isStop = true → later.isExecute = false
  /-- When all is over, every request is followed by exactly one answer with its id. -/
  answered : s.ended = true ∨ Stuck executor s → ∀ request,
    HostEvent.emitted (.toolCallRequested request) ∈ s.log →
    Answered opens closes request.requestId s.log
  /-- At any time there is at most one. -/
  atMostOnce : ∀ id, s.log.countP (closes id) ≤ 1

/-! ## What one move can do -/

inductive Advanced (executor : UnifiedToolExecutor) (s : CellHostState V) (id : String)
    (call : NestedCall) : CellHostState V → Prop
  | requested (h : call.phase = .spawned) :
    Advanced executor s id call
      ((s.setPhase id call .requested).record (.emitted (.toolCallRequested call.request)))
  | parsed {args : Json Char} (h : call.phase = .requested) :
    Advanced executor s id call (s.setPhase id call (.testingFlag args))
  | passedFlag {args : Json Char} (h : call.phase = .testingFlag args)
      (hflag : s.cancelFlag = false) :
    Advanced executor s id call (s.setPhase id call (.testingDeadline args))
  | passedDeadline {args : Json Char} (h : call.phase = .testingDeadline args)
      (hdeadline : s.deadlinePassed = false) :
    Advanced executor s id call
      { s.setPhase id call (.queued args) with waiters := s.waiters ++ [id] }
  | acquired {args : Json Char} (h : call.phase = .queued args) (hholder : s.holder = none)
      (hhead : s.waiters.head? = some id) :
    Advanced executor s id call
      { s.setPhase id call (.admitting args) with waiters := s.waiters.tail, holder := some id }
  | admitted {args : Json Char} {left : Nat} (h : call.phase = .admitting args)
      (hoffers : executor.Offers call.request.toolName) (hbudget : s.budget = left + 1) :
    Advanced executor s id call { s.setPhase id call (.preparing args) with budget := left }
  | began {args : Json Char} (h : call.phase = .preparing args) :
    Advanced executor s id call ((s.setPhase id call (.executing args)).record (.toolExecute id))
  | released {args : Json Char} {guardState : ExecutionGuardState}
      {outcome : ToolExecutionOutcome}
      (h : call.phase = .admitting args ∨ call.phase = .preparing args ∨
        call.phase = .executing args) :
    Advanced executor s id call (release { s with guardState := guardState } id call outcome)
  | answered {result : Except ToolError String}
      (h : call.phase = .requested ∨ (∃ args, call.phase = .testingFlag args) ∨
        (∃ args, call.phase = .testingDeadline args) ∨ ∃ outcome, call.phase = .finished outcome) :
    Advanced executor s id call
      ((s.setPhase id call (.done result)).emitToolDone call.request)

lemma advance_advanced (h : advance executor s id call move = some s') :
    Advanced executor s id call s' := by
  unfold advance at h
  split at h
  case h_1 hphase => cases h; exact .requested hphase
  case h_2 errorText hphase =>
    split at h
    · cases h; exact .parsed hphase
    · cases h; exact .answered (.inl hphase)
  case h_3 args hphase =>
    split_ifs at h with hflag
    · cases h; exact .answered (.inr (.inl ⟨args, hphase⟩))
    · cases h; exact .passedFlag hphase (by simpa using hflag)
  case h_4 args hphase =>
    split_ifs at h with hdeadline
    · cases h; exact .answered (.inr (.inr (.inl ⟨args, hphase⟩)))
    · cases h; exact .passedDeadline hphase (by simpa using hdeadline)
  case h_5 args hphase =>
    split_ifs at h with hlock
    cases h
    exact .acquired hphase hlock.1 hlock.2
  case h_6 args todosExist hphase =>
    split at h
    · cases h
      exact .released (.inl hphase)
    · rename_i left hcheck
      cases h
      obtain ⟨hoffers, hbudget⟩ := UnifiedToolExecutor.checkRequest_eq_ok hcheck
      exact .admitted hphase hoffers hbudget
  case h_7 args hphase => cases h; exact .began hphase
  case h_8 args hphase => cases h; exact .released (.inr (.inl hphase))
  case h_9 args ending hphase => cases h; exact .released (.inr (.inr hphase))
  case h_10 outcome hphase =>
    cases h
    exact .answered (.inr (.inr (.inr ⟨outcome, hphase⟩)))
  case h_11 => cases h

/-- A move of a call is made by a call of the cell, while the program runs. -/
lemma call_advanced (h : hostStep executor s (.call id move) = some s') :
    s.ended = false ∧ ∃ call, s.calls id = some call ∧ Advanced executor s id call s' := by
  simp only [hostStep] at h
  split_ifs at h with hended
  obtain ⟨call, hcall, hadvance⟩ := Option.bind_eq_some_iff.mp h
  exact ⟨by simpa using hended, call, hcall, advance_advanced hadvance⟩

/-! ## Calls and the log -/

def CallPhase.status : CallPhase → Status
  | .spawned => .idle
  | .done _ => .answered
  | _ => .pending

def CellHostState.status (s : CellHostState V) (id : String) : Status :=
  match s.calls id with
  | none => .idle
  | some call => call.phase.status

/-- The calls are named by their request ids, ids of later calls are still free, and the log
tells of every call what its phase says. -/
structure Tracked (s : CellHostState V) : Prop where
  ids : ∀ id call, s.calls id = some call → call.request.requestId = id
  free : ∀ toolName seq, s.nextSeq < seq → s.calls (requestId toolName seq) = none
  records : Records opens closes s.status s.log

lemma status_of_calls (h : s.calls id = some call) : s.status id = call.phase.status := by
  simp [CellHostState.status, h]

@[simp] lemma calls_setPhase_self {phase : CallPhase} :
    (s.setPhase id call phase).calls id = some { call with phase := phase } := by
  simp [CellHostState.setPhase]

lemma calls_setPhase_of_ne {phase : CallPhase} {id' : String} (h : id' ≠ id) :
    (s.setPhase id call phase).calls id' = s.calls id' := by
  simp [CellHostState.setPhase, h]

@[simp] lemma status_setPhase_self {phase : CallPhase} :
    (s.setPhase id call phase).status id = phase.status := by
  simp [CellHostState.status, CellHostState.setPhase]

lemma status_setPhase_of_ne {phase : CallPhase} {id' : String} (h : id' ≠ id) :
    (s.setPhase id call phase).status id' = s.status id' := by
  simp [CellHostState.status, CellHostState.setPhase, h]

/-- A change of phase within one status, whatever else changes in the state. -/
lemma Records.setPhase {phase : CallPhase} (h : Records opens closes s.status s.log)
    (hcall : s.calls id = some call) (hphase : phase.status = call.phase.status) :
    Records opens closes (s.setPhase id call phase).status s.log := by
  refine h.congr fun id' => ?_
  by_cases hid : id' = id
  · subst hid
    rw [status_setPhase_self, hphase, status_of_calls hcall]
  · exact status_setPhase_of_ne hid

lemma Tracked.initial (budget : Nat) :
    Tracked (CellHostState.initial budget : CellHostState V) where
  ids id call h := by simp [CellHostState.initial] at h
  free _ _ _ := rfl
  records id := by simp [Holds, CellHostState.status, CellHostState.initial, Untouched]

/-- Moves keep names: only the phase of one call changes. -/
lemma Tracked.of_calls (h : Tracked s) (hcall : s.calls id = some call) {phase : CallPhase}
    (hcalls : s'.calls = (s.setPhase id call phase).calls) (hseq : s'.nextSeq = s.nextSeq)
    (hrecords : Records opens closes s'.status s'.log) : Tracked s' where
  ids id' call' hcall' := by
    rw [hcalls] at hcall'
    by_cases hid : id' = id
    · subst hid
      rw [calls_setPhase_self, Option.some.injEq] at hcall'
      rw [← hcall']
      exact h.ids id' call hcall
    · rw [calls_setPhase_of_ne hid] at hcall'
      exact h.ids _ _ hcall'
  free toolName seq hlt := by
    rw [hseq] at hlt
    have hnone := h.free toolName seq hlt
    have hne : requestId toolName seq ≠ id := by
      rintro rfl
      rw [hcall] at hnone
      cases hnone
    rw [hcalls, calls_setPhase_of_ne hne]
    exact hnone
  records := hrecords

lemma Tracked.advanced (h : Tracked s) (hcall : s.calls id = some call)
    (hadv : Advanced executor s id call s') : Tracked s' := by
  have hid := h.ids _ _ hcall
  have hstatus := status_of_calls hcall
  cases hadv with
  | requested hphase =>
    rw [hphase] at hstatus
    refine h.of_calls hcall rfl rfl ?_
    refine h.records.open hstatus (by simp [opens, hid]) ?_ status_setPhase_self
      fun id' hne => status_setPhase_of_ne hne
    intro id' hne
    simp [opens, closes, hid, hne.symm]
  | parsed hphase =>
    exact h.of_calls hcall rfl rfl (Records.setPhase h.records hcall (by rw [hphase]; rfl))
  | passedFlag hphase =>
    exact h.of_calls hcall rfl rfl (Records.setPhase h.records hcall (by rw [hphase]; rfl))
  | @passedDeadline args hphase =>
    exact h.of_calls hcall rfl rfl
      (Records.setPhase h.records hcall (by rw [hphase]; rfl))
  | @acquired args hphase =>
    exact h.of_calls hcall rfl rfl
      (Records.setPhase h.records hcall (by rw [hphase]; rfl))
  | @admitted args left hphase =>
    exact h.of_calls hcall rfl rfl
      (Records.setPhase h.records hcall (by rw [hphase]; rfl))
  | @began args hphase =>
    exact h.of_calls hcall rfl rfl
      ((Records.setPhase h.records hcall (by rw [hphase]; rfl)).skip
        fun id' => ⟨rfl, rfl⟩)
  | @released args guardState outcome hphase =>
    refine h.of_calls hcall rfl rfl
      (Records.setPhase h.records hcall ?_)
    rcases hphase with hphase | hphase | hphase <;> rw [hphase] <;> rfl
  | @answered result hphase =>
    refine h.of_calls hcall rfl rfl ?_
    have hpending : s.status id = .pending := by
      rw [hstatus]
      rcases hphase with hphase | ⟨args, hphase⟩ | ⟨args, hphase⟩ | ⟨outcome, hphase⟩ <;>
        rw [hphase] <;> rfl
    refine h.records.close hpending rfl (by simp [closes, hid]) ?_ status_setPhase_self
      fun id' hne => status_setPhase_of_ne hne
    intro id' hne
    simp [opens, closes, hid, hne.symm]

lemma Tracked.step (h : Tracked s) {label : HostLabel V}
    (hstep : hostStep executor s label = some s') : Tracked s' := by
  cases label with
  | requestCancel =>
    cases hstep
    exact ⟨h.ids, h.free, h.records.skip fun _ => ⟨rfl, rfl⟩⟩
  | deadlinePasses =>
    cases hstep
    exact ⟨h.ids, h.free, h.records.skip fun _ => ⟨rfl, rfl⟩⟩
  | runtimeEnds =>
    simp only [hostStep] at hstep
    split_ifs at hstep
    cases hstep
    exact ⟨h.ids, h.free, h.records⟩
  | emit event =>
    simp only [hostStep] at hstep
    split_ifs at hstep
    cases hstep
    refine ⟨h.ids, fun toolName seq hlt => h.free toolName seq (by exact Nat.lt_of_succ_lt hlt),
      h.records.skip fun id => ?_⟩
    cases event <;> exact ⟨rfl, rfl⟩
  | callTool toolName argsJson =>
    simp only [hostStep] at hstep
    split_ifs at hstep
    cases hstep
    have hfree := h.free toolName (s.nextSeq + 1) (Nat.lt_succ_self _)
    refine ⟨fun id call hcall => ?_, fun name seq hlt => ?_, h.records.congr fun id => ?_⟩
    · by_cases hid : id = requestId toolName (s.nextSeq + 1)
      · subst hid
        simp only [Function.update_self, Option.some.injEq] at hcall
        rw [← hcall]
      · simp only [Function.update_of_ne hid] at hcall
        exact h.ids _ _ hcall
    · simp only at hlt
      have hne : requestId name seq ≠ requestId toolName (s.nextSeq + 1) := by
        intro heq
        have hseq := requestId_inj heq
        omega
      simp only [Function.update_of_ne hne]
      exact h.free name seq (by omega)
    · by_cases hid : id = requestId toolName (s.nextSeq + 1)
      · subst hid
        simp [CellHostState.status, hfree, CallPhase.status]
      · simp [CellHostState.status, Function.update_of_ne hid]
  | call id move =>
    obtain ⟨-, call, hcall, hadv⟩ := call_advanced hstep
    exact h.advanced hcall hadv

/-! ## Calls and the lock -/

def CallPhase.holdsLock : CallPhase → Bool
  | .admitting _ | .preparing _ | .executing _ => true
  | _ => false

def CallPhase.isQueued : CallPhase → Bool
  | .queued _ => true
  | _ => false

/-- The holder of the lock is a call behind it, and the queue holds the calls in front of it. -/
structure Locked (s : CellHostState V) : Prop where
  held : ∀ id, s.holder = some id → ∃ call, s.calls id = some call ∧ call.phase.holdsLock = true
  waiting : ∀ id, id ∈ s.waiters ↔ ∃ call, s.calls id = some call ∧ call.phase.isQueued = true
  nodup : s.waiters.Nodup

lemma Locked.initial (budget : Nat) :
    Locked (CellHostState.initial budget : CellHostState V) where
  held _ h := by simp [CellHostState.initial] at h
  waiting id := by simp [CellHostState.initial]
  nodup := List.nodup_nil

/-- A call that does not touch the lock changes its phase. -/
lemma Locked.setPhase (h : Locked s) (hcall : s.calls id = some call) {phase : CallPhase}
    (hlock : phase.holdsLock = call.phase.holdsLock)
    (hqueued : phase.isQueued = call.phase.isQueued)
    (hcalls : s'.calls = (s.setPhase id call phase).calls) (hholder : s'.holder = s.holder)
    (hwaiters : s'.waiters = s.waiters) : Locked s' where
  held id' hid' := by
    obtain ⟨call', hcall', hphase⟩ := h.held id' (hholder ▸ hid')
    rw [hcalls]
    by_cases hid : id' = id
    · subst hid
      obtain rfl : call = call' := Option.some.inj (hcall.symm.trans hcall')
      exact ⟨_, calls_setPhase_self, hlock.trans hphase⟩
    · exact ⟨call', (calls_setPhase_of_ne hid).trans hcall', hphase⟩
  waiting id' := by
    rw [hwaiters, h.waiting, hcalls]
    by_cases hid : id' = id
    · subst hid
      simp [hcall, hqueued]
    · rw [calls_setPhase_of_ne hid]
  nodup := hwaiters ▸ h.nodup

/-- The holder of the lock lets it go. -/
lemma Locked.release (h : Locked s) (hcall : s.calls id = some call)
    (hlock : call.phase.isQueued = false) {guardState : ExecutionGuardState}
    {outcome : ToolExecutionOutcome} :
    Locked (release { s with guardState := guardState } id call outcome) where
  held id' hid' := by simp [CodeMode.release] at hid'
  waiting id' := by
    simp only [CodeMode.release, CellHostState.setPhase, h.waiting]
    by_cases hid : id' = id
    · subst hid
      simp only [hcall, Option.some.injEq, exists_eq_left', hlock, Function.update_self]
      rfl
    · simp [Function.update_of_ne hid]
  nodup := h.nodup

/-- A call joins the queue. -/
lemma Locked.enqueue (h : Locked s) (hcall : s.calls id = some call)
    (hlock : call.phase.holdsLock = false) (hqueued : call.phase.isQueued = false)
    {args : Json Char} :
    Locked { s.setPhase id call (.queued args) with waiters := s.waiters ++ [id] } where
  held id' hid' := by
    obtain ⟨call', hcall', hphase⟩ := h.held id' hid'
    have hne : id' ≠ id := by
      rintro rfl
      obtain rfl : call = call' := Option.some.inj (hcall.symm.trans hcall')
      simp [hlock] at hphase
    exact ⟨call', by simp [CellHostState.setPhase, Function.update_of_ne hne, hcall'], hphase⟩
  waiting id' := by
    simp only [CellHostState.setPhase, List.mem_append, List.mem_singleton, h.waiting]
    by_cases hid : id' = id
    · subst hid
      simp [CallPhase.isQueued]
    · simp [hid]
  nodup := by
    have hnot : id ∉ s.waiters := by
      rw [h.waiting]
      rintro ⟨call', hcall', hphase⟩
      obtain rfl : call = call' := Option.some.inj (hcall.symm.trans hcall')
      simp [hqueued] at hphase
    simpa [List.nodup_append] using ⟨h.nodup, fun a ha => ne_of_mem_of_not_mem ha hnot⟩

/-- The first call of the queue takes the lock. -/
lemma Locked.acquire (h : Locked s) (hhead : s.waiters.head? = some id) {args : Json Char} :
    Locked { s.setPhase id call (.admitting args) with
      waiters := s.waiters.tail, holder := some id } := by
  obtain ⟨tail, htail⟩ : ∃ tail, s.waiters = id :: tail := by
    cases hw : s.waiters with
    | nil => simp [hw] at hhead
    | cons x tail => exact ⟨tail, by simpa [hw] using hhead⟩
  have hnodup := h.nodup
  rw [htail] at hnodup
  have hnot : id ∉ tail := (List.nodup_cons.mp hnodup).1
  refine ⟨fun id' hid' => ?_, fun id' => ?_, ?_⟩
  · obtain rfl : id = id' := by simpa using hid'
    exact ⟨{ call with phase := .admitting args }, by simp [CellHostState.setPhase], rfl⟩
  · have hwaiting := h.waiting id'
    simp only [htail, List.tail_cons, List.mem_cons, CellHostState.setPhase] at hwaiting ⊢
    by_cases hid : id' = id
    · subst hid
      simp [CallPhase.isQueued, hnot]
    · simpa [Function.update_of_ne hid, hid] using hwaiting
  · rw [htail]
    exact (List.nodup_cons.mp hnodup).2

lemma Locked.advanced (h : Locked s) (hcall : s.calls id = some call)
    (hadv : Advanced executor s id call s') : Locked s' := by
  cases hadv with
  | requested hphase =>
    exact h.setPhase hcall (by rw [hphase]; rfl) (by rw [hphase]; rfl) rfl rfl rfl
  | parsed hphase =>
    exact h.setPhase hcall (by rw [hphase]; rfl) (by rw [hphase]; rfl) rfl rfl rfl
  | passedFlag hphase =>
    exact h.setPhase hcall (by rw [hphase]; rfl) (by rw [hphase]; rfl) rfl rfl rfl
  | passedDeadline hphase => exact h.enqueue hcall (by rw [hphase]; rfl) (by rw [hphase]; rfl)
  | acquired _ _ hhead => exact h.acquire hhead
  | admitted hphase =>
    exact h.setPhase hcall (by rw [hphase]; rfl) (by rw [hphase]; rfl) rfl rfl rfl
  | began hphase =>
    exact h.setPhase hcall (by rw [hphase]; rfl) (by rw [hphase]; rfl) rfl rfl rfl
  | released hphase =>
    refine h.release hcall ?_
    rcases hphase with hphase | hphase | hphase <;> rw [hphase] <;> rfl
  | @answered result hphase =>
    refine h.setPhase hcall ?_ ?_ rfl rfl rfl <;>
      rcases hphase with hphase | ⟨args, hphase⟩ | ⟨args, hphase⟩ | ⟨outcome, hphase⟩ <;>
        rw [hphase] <;> rfl

lemma Locked.step (h : Locked s) (htracked : Tracked s) {label : HostLabel V}
    (hstep : hostStep executor s label = some s') : Locked s' := by
  cases label with
  | requestCancel =>
    cases hstep
    exact ⟨h.held, h.waiting, h.nodup⟩
  | deadlinePasses =>
    cases hstep
    exact ⟨h.held, h.waiting, h.nodup⟩
  | runtimeEnds =>
    simp only [hostStep] at hstep
    split_ifs at hstep
    cases hstep
    exact ⟨h.held, h.waiting, h.nodup⟩
  | emit event =>
    simp only [hostStep] at hstep
    split_ifs at hstep
    cases hstep
    exact ⟨h.held, h.waiting, h.nodup⟩
  | callTool toolName argsJson =>
    simp only [hostStep] at hstep
    split_ifs at hstep
    cases hstep
    have hfree := htracked.free toolName (s.nextSeq + 1) (Nat.lt_succ_self _)
    refine ⟨fun id hid => ?_, fun id => ?_, h.nodup⟩
    · obtain ⟨call, hcall, hphase⟩ := h.held id hid
      have hne : id ≠ requestId toolName (s.nextSeq + 1) := by
        rintro rfl
        rw [hfree] at hcall
        cases hcall
      exact ⟨call, by simp [Function.update_of_ne hne, hcall], hphase⟩
    · simp only [h.waiting]
      by_cases hid : id = requestId toolName (s.nextSeq + 1)
      · subst hid
        simp [hfree, CallPhase.isQueued]
      · simp [Function.update_of_ne hid]
  | call id move =>
    obtain ⟨-, call, hcall, hadv⟩ := call_advanced hstep
    exact h.advanced hcall hadv

/-! ## No call is left behind -/

/-- As long as the program runs, a call that is neither unborn nor done can move, or waits
behind one that can. -/
lemma exists_move_of_pending (h : Locked s) (hended : s.ended = false)
    (hcall : s.calls id = some call) (hpending : call.phase.status = .pending) :
    ∃ id' move, hostStep executor s (.call id' move) ≠ none := by
  have hmove : ∀ id' call' move, s.calls id' = some call' →
      (advance executor s id' call' move).isSome →
      ∃ id' move, hostStep executor s (.call id' move) ≠ none := by
    intro id' call' move hcall' hsome
    refine ⟨id', move, ?_⟩
    rw [hostStep, hended, hcall']
    simpa [Option.isSome_iff_ne_none] using hsome
  -- A call behind the lock can always move.
  have hheld : ∀ id' call', s.calls id' = some call' → call'.phase.holdsLock = true →
      ∃ id' move, hostStep executor s (.call id' move) ≠ none := by
    intro id' call' hcall' hlock
    obtain ⟨request, phase⟩ := call'
    cases phase with
    | admitting args =>
      refine hmove id' _ (.execute true) hcall' ?_
      simp only [advance]
      split <;> rfl
    | preparing args => exact hmove id' _ .beginExecute hcall' rfl
    | executing args => exact hmove id' _ (.endExecute .timedOut) hcall' rfl
    | _ => cases hlock
  obtain ⟨request, phase⟩ := call
  cases phase with
  | spawned => cases hpending
  | requested =>
    refine hmove id _ (.parseArgs "") hcall ?_
    simp only [advance]
    split <;> rfl
  | testingFlag args =>
    refine hmove id _ .testFlag hcall ?_
    simp only [advance]
    split <;> rfl
  | testingDeadline args =>
    refine hmove id _ .testDeadline hcall ?_
    simp only [advance]
    split <;> rfl
  | queued args =>
    cases hholder : s.holder with
    | some holder =>
      obtain ⟨call', hcall', hlock⟩ := h.held holder hholder
      exact hheld holder call' hcall' hlock
    | none =>
      have hmem : id ∈ s.waiters := (h.waiting id).mpr ⟨_, hcall, rfl⟩
      obtain ⟨first, hfirst⟩ : ∃ first, s.waiters.head? = some first := by
        cases hw : s.waiters with
        | nil => simp [hw] at hmem
        | cons x tail => exact ⟨x, rfl⟩
      obtain ⟨⟨request', phase'⟩, hcall', hqueued⟩ :=
        (h.waiting first).mp (List.mem_of_mem_head? hfirst)
      cases phase' with
      | queued args' =>
        refine hmove first _ .acquire hcall' ?_
        simp [advance, hholder, hfirst]
      | _ => cases hqueued
  | admitting args => exact hheld id _ hcall rfl
  | preparing args => exact hheld id _ hcall rfl
  | executing args => exact hheld id _ hcall rfl
  | finished outcome => exact hmove id _ .emitDone hcall rfl
  | done result => cases hpending

/-! ## Stops -/

/-- Nothing but the lock is between the call and the start of its tool. -/
def Armed (executor : UnifiedToolExecutor) (budget : Nat) (call : NestedCall) : Prop :=
  match call.phase with
  | .queued _ | .admitting _ => executor.Offers call.request.toolName ∧ 0 < budget
  | .preparing _ => True
  | _ => False

/-- The call has passed the test of the flag and would pass that of the deadline. -/
def PastFlag (executor : UnifiedToolExecutor) (deadlinePassed : Bool) (budget : Nat)
    (call : NestedCall) : Prop :=
  match call.phase with
  | .testingDeadline _ =>
    deadlinePassed = false ∧ executor.Offers call.request.toolName ∧ 0 < budget
  | _ => False

lemma Armed.mono {budget budget' : Nat} (h : Armed executor budget' call)
    (hle : budget' ≤ budget) : Armed executor budget call := by
  unfold Armed at h ⊢
  split at h
  · exact ⟨h.1, Nat.lt_of_lt_of_le h.2 hle⟩
  · exact ⟨h.1, Nat.lt_of_lt_of_le h.2 hle⟩
  · trivial
  · exact h.elim

lemma PastFlag.mono {budget budget' : Nat} {deadlinePassed : Bool}
    (h : PastFlag executor deadlinePassed budget' call) (hle : budget' ≤ budget) :
    PastFlag executor deadlinePassed budget call := by
  unfold PastFlag at h ⊢
  split at h
  · exact ⟨h.1, h.2.1, Nat.lt_of_lt_of_le h.2.2 hle⟩
  · exact h.elim

/-- The condition on a step: a stop finds no call past its tests that the executor may still
accept, and the end of the runtime finds no call under way. -/
def QuietStep (executor : UnifiedToolExecutor) (s : CellHostState V) : HostLabel V → Prop
  | .requestCancel => ∀ id call, s.calls id = some call →
      ¬ Armed executor s.budget call ∧ ¬ PastFlag executor s.deadlinePassed s.budget call
  | .deadlinePasses => ∀ id call, s.calls id = some call → ¬ Armed executor s.budget call
  | .runtimeEnds => ∀ id call, s.calls id = some call → call.phase.status ≠ .pending
  | _ => True

/-- After a stop no call is on its way to a tool. -/
structure Stopped (executor : UnifiedToolExecutor) (s : CellHostState V) : Prop where
  stops : ∀ e ∈ s.log, e.isStop = true → s.cancelFlag = true ∨ s.deadlinePassed = true
  armed : s.cancelFlag = true ∨ s.deadlinePassed = true →
    ∀ id call, s.calls id = some call → ¬ Armed executor s.budget call
  pastFlag : s.cancelFlag = true →
    ∀ id call, s.calls id = some call → ¬ PastFlag executor s.deadlinePassed s.budget call
  noExecute : s.log.Pairwise fun e later => e.isStop = true → later.isExecute = false

lemma Stopped.initial (budget : Nat) :
    Stopped executor (CellHostState.initial budget : CellHostState V) where
  stops e he := by simp [CellHostState.initial] at he
  armed _ id call h := by simp [CellHostState.initial] at h
  pastFlag _ id call h := by simp [CellHostState.initial] at h
  noExecute := List.Pairwise.nil

lemma pairwise_concat {α : Type*} {R : α → α → Prop} {log : List α} {e : α}
    (h : log.Pairwise R) (he : ∀ x ∈ log, R x e) : (log ++ [e]).Pairwise R := by
  rw [List.pairwise_append]
  refine ⟨h, List.pairwise_singleton R e, fun x hx y hy => ?_⟩
  rw [List.mem_singleton.mp hy]
  exact he x hx

/-- An event that is no stop; a tool only starts while nothing has been stopped. -/
lemma Stopped.record (h : Stopped executor s) {e : HostEvent V} (hstop : e.isStop = false)
    (hexecute : e.isExecute = true → ¬ (s.cancelFlag = true ∨ s.deadlinePassed = true)) :
    Stopped executor (s.record e) where
  stops x hx hxs := by
    rcases List.mem_append.mp hx with hx | hx
    · exact h.stops x hx hxs
    · rw [List.mem_singleton.mp hx, hstop] at hxs
      cases hxs
  armed := h.armed
  pastFlag := h.pastFlag
  noExecute := pairwise_concat h.noExecute fun x hx hxs => by
    by_contra hne
    exact hexecute (by simpa using hne) (h.stops x hx hxs)

/-- One call changes its phase, and the budget does not grow.  After a stop the call is no
closer to its tool than before. -/
lemma Stopped.setPhase (h : Stopped executor s) (hcall : s.calls id = some call)
    (phase : CallPhase) (hcalls : s'.calls = (s.setPhase id call phase).calls)
    (hflag : s'.cancelFlag = s.cancelFlag) (hdeadline : s'.deadlinePassed = s.deadlinePassed)
    (hbudget : s'.budget ≤ s.budget) (hlog : s'.log = s.log)
    (harmed : s.cancelFlag = true ∨ s.deadlinePassed = true →
      ¬ Armed executor s'.budget { call with phase := phase })
    (hpast : s.cancelFlag = true →
      ¬ PastFlag executor s.deadlinePassed s'.budget { call with phase := phase }) :
    Stopped executor s' where
  stops e he hes := by
    rw [hlog] at he
    rw [hflag, hdeadline]
    exact h.stops e he hes
  armed hs id' call' hcall' := by
    rw [hflag, hdeadline] at hs
    rw [hcalls] at hcall'
    by_cases hid : id' = id
    · subst hid
      rw [calls_setPhase_self, Option.some.injEq] at hcall'
      exact hcall' ▸ harmed hs
    · rw [calls_setPhase_of_ne hid] at hcall'
      exact fun harm => h.armed hs id' call' hcall' (harm.mono hbudget)
  pastFlag hs id' call' hcall' := by
    rw [hflag] at hs
    rw [hdeadline]
    rw [hcalls] at hcall'
    by_cases hid : id' = id
    · subst hid
      rw [calls_setPhase_self, Option.some.injEq] at hcall'
      exact hcall' ▸ hpast hs
    · rw [calls_setPhase_of_ne hid] at hcall'
      exact fun hp => h.pastFlag hs id' call' hcall' (hp.mono hbudget)
  noExecute := hlog ▸ h.noExecute

lemma Stopped.advanced (h : Stopped executor s) (hcall : s.calls id = some call)
    (hadv : Advanced executor s id call s') : Stopped executor s' := by
  have harmed := fun hs => h.armed hs id call hcall
  have hpast := fun hs => h.pastFlag hs id call hcall
  cases hadv with
  | requested =>
    refine (h.setPhase hcall _ rfl rfl rfl le_rfl rfl ?_ ?_).record rfl nofun <;>
      exact fun _ h => h
  | parsed => exact h.setPhase hcall _ rfl rfl rfl le_rfl rfl (fun _ h => h) (fun _ h => h)
  | passedFlag _ hflag =>
    refine h.setPhase hcall _ rfl rfl rfl le_rfl rfl (fun _ h => h) fun hs => ?_
    rw [hflag] at hs
    cases hs
  | @passedDeadline args hphase hdeadline =>
    refine h.setPhase hcall _ rfl rfl rfl le_rfl rfl ?_ (fun _ h => h)
    rintro (hs | hs) harm
    · refine hpast hs ?_
      rw [PastFlag, hphase]
      exact ⟨hdeadline, harm⟩
    · rw [hdeadline] at hs
      cases hs
  | @acquired args hphase =>
    refine h.setPhase hcall _ rfl rfl rfl le_rfl rfl ?_ (fun _ h => h)
    intro hs harm
    refine harmed hs ?_
    rw [Armed, hphase]
    exact harm
  | @admitted args left hphase hoffers hbudget =>
    refine h.setPhase hcall _ rfl rfl rfl
      (hbudget ▸ Nat.le_succ left) rfl ?_ (fun _ h => h)
    intro hs _
    refine harmed hs ?_
    rw [Armed, hphase]
    exact ⟨hoffers, hbudget ▸ Nat.succ_pos left⟩
  | @began args hphase =>
    refine (h.setPhase hcall (.executing args) rfl rfl rfl le_rfl rfl (fun _ h => h)
      (fun _ h => h)).record rfl ?_
    intro _ hs
    refine harmed hs ?_
    rw [Armed, hphase]
    trivial
  | @released args guardState outcome =>
    exact h.setPhase hcall _ rfl rfl rfl le_rfl rfl (fun _ h => h)
      (fun _ h => h)
  | @answered result =>
    exact (h.setPhase hcall (.done result) rfl rfl rfl le_rfl rfl (fun _ h => h)
      (fun _ h => h)).record rfl nofun

lemma Stopped.step (h : Stopped executor s) {label : HostLabel V}
    (hquiet : QuietStep executor s label) (hstep : hostStep executor s label = some s') :
    Stopped executor s' := by
  cases label with
  | requestCancel =>
    cases hstep
    refine ⟨fun _ _ _ => .inl rfl, fun _ id call hcall => (hquiet id call hcall).1,
      fun _ id call hcall => (hquiet id call hcall).2, pairwise_concat h.noExecute ?_⟩
    exact fun _ _ _ => rfl
  | deadlinePasses =>
    cases hstep
    refine ⟨fun _ _ _ => .inr rfl, fun _ => hquiet, fun _ id call _ => ?_,
      pairwise_concat h.noExecute fun _ _ _ => rfl⟩
    simp only [PastFlag]
    split <;> simp [CellHostState.record]
  | runtimeEnds =>
    simp only [hostStep] at hstep
    split_ifs at hstep
    cases hstep
    exact ⟨h.stops, h.armed, h.pastFlag, h.noExecute⟩
  | emit event =>
    simp only [hostStep] at hstep
    split_ifs at hstep
    cases hstep
    refine Stopped.record (s := { s with nextSeq := s.nextSeq + 1 })
      ⟨h.stops, h.armed, h.pastFlag, h.noExecute⟩ rfl nofun
  | callTool toolName argsJson =>
    simp only [hostStep] at hstep
    split_ifs at hstep
    cases hstep
    refine ⟨h.stops, fun hs id call hcall => ?_, fun hs id call hcall => ?_, h.noExecute⟩ <;>
      by_cases hid : id = requestId toolName (s.nextSeq + 1)
    · subst hid
      simp only [Function.update_self, Option.some.injEq] at hcall
      subst hcall
      exact fun harm => harm
    · simp only [Function.update_of_ne hid] at hcall
      exact h.armed hs id call hcall
    · subst hid
      simp only [Function.update_self, Option.some.injEq] at hcall
      subst hcall
      exact fun hp => hp
    · simp only [Function.update_of_ne hid] at hcall
      exact h.pastFlag hs id call hcall
  | call id move =>
    obtain ⟨-, call, hcall, hadv⟩ := call_advanced hstep
    exact h.advanced hcall hadv

/-! ## The end of the runtime -/

/-- When the runtime has ended no call is under way. -/
def Over (s : CellHostState V) : Prop :=
  s.ended = true → ∀ id call, s.calls id = some call → call.phase.status ≠ .pending

lemma Over.step (h : Over s) {label : HostLabel V} (hquiet : QuietStep executor s label)
    (hstep : hostStep executor s label = some s') : Over s' := by
  cases label with
  | requestCancel => cases hstep; exact h
  | deadlinePasses => cases hstep; exact h
  | runtimeEnds =>
    simp only [hostStep] at hstep
    split_ifs at hstep
    cases hstep
    exact fun _ => hquiet
  | emit event =>
    simp only [hostStep] at hstep
    split_ifs at hstep
    cases hstep
    exact h
  | callTool toolName argsJson =>
    simp only [hostStep] at hstep
    split_ifs at hstep with hended
    cases hstep
    exact fun hs => absurd hs hended
  | call id move =>
    obtain ⟨hended, call, -, hadv⟩ := call_advanced hstep
    have hended' : s'.ended = false := by cases hadv <;> exact hended
    intro hs
    rw [hended'] at hs
    cases hs

/-! ## Runs -/

/-- Everything the log and the phases owe together. -/
lemma cellStops_of_invariants (htracked : Tracked s) (hlocked : Locked s)
    (hstopped : Stopped executor s) (hover : Over s) : CellStops executor s where
  noExecute := hstopped.noExecute
  answered hend request hmem := by
    refine (htracked.records request.requestId).answered hmem (by simp [opens]) ?_
    intro hpending
    unfold CellHostState.status at hpending
    split at hpending
    · cases hpending
    · rename_i call hcall
      rcases Bool.eq_false_or_eq_true s.ended with hended | hended
      · exact hover hended _ call hcall hpending
      · rcases hend with hend | hstuck
        · rw [hended] at hend
          cases hend
        · obtain ⟨id, move, hmove⟩ :=
            exists_move_of_pending hlocked hended hcall hpending
          exact hmove (hstuck id move)
  atMostOnce id := by
    refine (htracked.records id).countP_closes_le_one fun e he => ?_
    unfold opens at he
    split at he
    · rfl
    · cases he

/-- A cell stops when it is told to, in every run in which each stop finds no call between its
tests and its tool and the end of the runtime finds no call under way. -/
theorem cellStops_of_quiet {budget : Nat} {labels : List (HostLabel V)}
    (hquiet : Along (hostStep executor) (QuietStep executor) (.initial budget) labels)
    (hrun : run (hostStep executor) (.initial budget) labels = some s) :
    CellStops executor s := by
  have hall : ((Tracked s ∧ Locked s) ∧ Stopped executor s ∧ Over s) := by
    refine run_invariant_of_along
      (fun s => (Tracked s ∧ Locked s) ∧ Stopped executor s ∧ Over s) ?_ ?_ hquiet hrun
    · rintro s label s' ⟨⟨htracked, hlocked⟩, hstopped, hover⟩ hquiet hstep
      exact ⟨⟨htracked.step hstep, hlocked.step htracked hstep⟩, hstopped.step hquiet hstep,
        hover.step hquiet hstep⟩
    · exact ⟨⟨.initial budget, .initial budget⟩, .initial budget, fun h => by cases h⟩
  exact cellStops_of_invariants hall.1.1 hall.1.2 hall.2.1 hall.2.2

/-- A cell whose only tool reads files. -/
def readExecutor : UnifiedToolExecutor :=
  { currentTools := [{ name := "read_file", hasSideEffects := false }]
    visibleTools := ["read_file"]
    isAutopilot := false }

/-- A call that is made after the cell was cancelled is refused and reported done. -/
def refusedRun : List (HostLabel Unit) :=
  [.requestCancel, .callTool "read_file" "null", .call "read_file-1" .request,
    .call "read_file-1" (.parseArgs ""), .call "read_file-1" .testFlag]

theorem cellStops_refused :
    ∃ s, run (hostStep readExecutor) (.initial 5) refusedRun = some s ∧
      CellStops readExecutor s := by
  obtain ⟨s, hs⟩ : ∃ s, run (hostStep readExecutor) (.initial 5) refusedRun = some s :=
    Option.isSome_iff_exists.mp (by decide +kernel)
  refine ⟨s, hs, cellStops_of_quiet ?_ hs⟩
  refine ⟨fun id call hcall => ?_, fun s₁ h₁ => ?_⟩
  · cases hcall
  · exact ⟨trivial, fun _ _ => ⟨trivial, fun _ _ => ⟨trivial, fun _ _ => ⟨trivial, fun _ _ => trivial⟩⟩⟩⟩

/-- Two calls at once: while the first one executes, the second queues behind it; then the cell
is cancelled. -/
def queuedRun : List (HostLabel Unit) :=
  [.callTool "read_file" "null", .callTool "read_file" "null",
    .call "read_file-1" .request, .call "read_file-1" (.parseArgs ""),
    .call "read_file-1" .testFlag, .call "read_file-1" .testDeadline,
    .call "read_file-1" .acquire, .call "read_file-1" (.execute false),
    .call "read_file-1" .beginExecute,
    .call "read_file-2" .request, .call "read_file-2" (.parseArgs ""),
    .call "read_file-2" .testFlag, .call "read_file-2" .testDeadline,
    .requestCancel,
    .call "read_file-1" (.endExecute (.returned (.ok "text"))), .call "read_file-1" .emitDone,
    .call "read_file-2" .acquire, .call "read_file-2" (.execute false),
    .call "read_file-2" .beginExecute]

/-- The queued call executes all the same. -/
theorem not_cellStops_queued :
    ¬ ∀ (executor : UnifiedToolExecutor) (budget : Nat) (labels : List (HostLabel Unit))
      (s : CellHostState Unit), run (hostStep executor) (.initial budget) labels = some s →
        CellStops executor s := by
  intro h
  obtain ⟨s, hs⟩ : ∃ s, run (hostStep readExecutor) (.initial 5) queuedRun = some s :=
    Option.isSome_iff_exists.mp (by decide +kernel)
  have hmarks : (run (hostStep readExecutor) (.initial 5) queuedRun).map
      (fun s => s.log.map fun e => (e.isStop, e.isExecute)) =
      some [(false, false), (false, true), (false, false), (true, false), (false, false),
        (false, true)] := by
    decide +kernel
  rw [hs, Option.map_some, Option.some.injEq] at hmarks
  have hpairs : (s.log.map fun e => (e.isStop, e.isExecute)).Pairwise
      fun a b => a.1 = true → b.2 = false :=
    List.pairwise_map.mpr (h readExecutor 5 queuedRun s hs).noExecute
  rw [hmarks] at hpairs
  exact absurd hpairs (by decide)

end RustyClaw.CodeMode
