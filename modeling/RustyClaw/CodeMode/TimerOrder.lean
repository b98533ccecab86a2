import RustyClaw.CodeMode.TimerPump

/-!
# The order in which timers fire

`TimerPump` leaves open which timers are due.  Here the wrapper is run beside the host's
registry with its clock: `register_timeout` notes when a timer will be due, and
`next_timer_event_json` hands out the first id of the due list that `pending_timer_state`
rebuilds at each poll.

A timer that fires is always due, and neither cleared nor completed, and it has not fired before.
The due list is in the order of registration, however, so its first id is not the timer that has
been due for longest when several timers are due at one poll.  What is expected of the host is
`FiresInOrder`, and `firesInOrder_of_pollsInOrder` says that it is met if no poll finds a timer
that was registered later and is due earlier than the one it hands out: a timer that is not due at
a poll, or is set after it, is due later anyway.

The registry refines the environment of the wrapper (`mayAnswer_nextTimerEvent`), and `Goes`
says once what a step of the wrapper can do to timers, callbacks and pumps.
-/

namespace RustyClaw.CodeMode.TimerPump

open Transition

/-! ## The registry and its clock -/

def u64Max : Nat := 18446744073709551615

def saturatingAdd (a b : Nat) : Nat := min (a + b) u64Max

/-- The wrapper, the clock of the registry, and `due_at_ms` of the registered timers.  `fired`
lists the timers whose callbacks were called. -/
structure TimedWrapper where
  wrapper : Wrapper := {}
  nowMs : Nat := 0
  dueAtMs : List Nat := []
  fired : List TimerId := []

structure PendingTimerState where
  pendingTimers : Nat := 0
  nextTimerId : Option TimerId := none
  resumeAfterMs : Option Nat := none
  dueTimerIds : List TimerId := []
  deriving DecidableEq, Repr

def PendingTimerState.hasPendingTimers (state : PendingTimerState) : Bool :=
  state.pendingTimers > 0

namespace TimedWrapper

variable (s : TimedWrapper)

def dueAt (timer : TimerId) : Nat := s.dueAtMs.getD timer 0

/-- What the loop of `pending_timer_state` does with one timer. -/
def addPending (state : PendingTimerState) (timer : TimerId) : PendingTimerState :=
  if s.wrapper.isPending timer then
    let remainingMs := s.dueAt timer - s.nowMs
    let dueTimerIds :=
      if remainingMs = 0 then state.dueTimerIds ++ [timer] else state.dueTimerIds
    let shouldReplace : Bool := state.resumeAfterMs.all fun current => remainingMs < current
    { pendingTimers := state.pendingTimers + 1
      nextTimerId := if shouldReplace then some timer else state.nextTimerId
      resumeAfterMs := if shouldReplace then some remainingMs else state.resumeAfterMs
      dueTimerIds := dueTimerIds }
  else state

def pendingTimerState : PendingTimerState :=
  (List.range s.wrapper.timers.length).foldl s.addPending {}

/-- One turn of the loop of `next_timer_event_json` behind its look at the cancellation; `none`
means that it goes to sleep. -/
def nextTimerEvent : Option TimerEvent :=
  match s.pendingTimerState.dueTimerIds.head? with
  | some timer => some (.due timer)
  | none => if s.pendingTimerState.hasPendingTimers then none else some .idle

/-- The order of due times, and of registration among equal ones. -/
def Before (earlier later : TimerId) : Prop :=
  s.dueAt earlier < s.dueAt later ∨ s.dueAt earlier = s.dueAt later ∧ earlier < later

end TimedWrapper

/-! ## Steps -/

/-- The timer whose callback a step has called. -/
def calledBy (before after : Frame) : List TimerId :=
  match before, after with
  | .idle, .callback _ timer => [timer]
  | _, _ => []

inductive TimedLabel where
  | tick (elapsedMs : Nat)
  | setTimeout (delayMs : Nat)
  /-- The host answers a pump from the registry. -/
  | pollTimers (pump : PumpId)
  /-- Any step of the wrapper that the registry has no part in; the host may answer a pump with a
  cancellation at any time. -/
  | other (label : WrapperLabel)
  deriving DecidableEq, Repr

/-- The step is not one that the registry decides. -/
def unregistered : WrapperLabel → Bool
  | .setTimeout | .nextTimerEvent _ (.due _) | .nextTimerEvent _ .idle => false
  | _ => true

def timedStep (s : TimedWrapper) : TimedLabel → Option TimedWrapper
  | .tick elapsedMs => some { s with nowMs := saturatingAdd s.nowMs elapsedMs }
  | .setTimeout delayMs =>
    (wrapperStep s.wrapper .setTimeout).map fun wrapper =>
      { s with wrapper := wrapper, dueAtMs := s.dueAtMs ++ [saturatingAdd s.nowMs delayMs] }
  | .pollTimers pump =>
    s.nextTimerEvent.bind fun event =>
      (wrapperStep s.wrapper (.nextTimerEvent pump event)).map fun wrapper =>
        { s with wrapper := wrapper }
  | .other label =>
    if unregistered label then
      (wrapperStep s.wrapper label).map fun wrapper =>
        { s with
          wrapper := wrapper
          fired := s.fired ++ calledBy s.wrapper.frame wrapper.frame }
    else none

/-- Whenever a timer fires it is neither cleared nor completed, it is due, and all timers that have
fired come before it.  So no timer fires twice. -/
def FiresInOrder (labels : List TimedLabel) : Prop :=
  ∀ pre label post s s', labels = pre ++ label :: post → run timedStep {} pre = some s →
    timedStep s label = some s' → ∀ timer, s'.fired = s.fired ++ [timer] →
      s.wrapper.isPending timer = true ∧ s.dueAt timer ≤ s.nowMs ∧
        ∀ earlier ∈ s.fired, s.Before earlier timer

/-- A poll that finds timers due finds none due before the first of them in registration order. -/
def PollInOrder (s : TimedWrapper) : TimedLabel → Prop
  | .pollTimers _ =>
    ∀ first ∈ s.pendingTimerState.dueTimerIds.head?,
      ∀ timer ∈ s.pendingTimerState.dueTimerIds, s.dueAt first ≤ s.dueAt timer
  | _ => True

instance (s : TimedWrapper) : ∀ label, Decidable (PollInOrder s label)
  | .pollTimers _ =>
    match h : s.pendingTimerState.dueTimerIds.head? with
    | none => isTrue fun _ hfirst => by simp [h] at hfirst
    | some first =>
      decidable_of_iff (∀ timer ∈ s.pendingTimerState.dueTimerIds, s.dueAt first ≤ s.dueAt timer)
        (by simp [PollInOrder, h])
  | .tick _ | .setTimeout _ | .other _ => isTrue trivial

/-! ## The due list -/

section DueList

variable {s : TimedWrapper} {timer : TimerId}

lemma dueTimerIds_addPending (state : PendingTimerState) (timer : TimerId) :
    (s.addPending state timer).dueTimerIds = state.dueTimerIds ++
      [timer].filter fun timer => s.wrapper.isPending timer && decide (s.dueAt timer ≤ s.nowMs) := by
  unfold TimedWrapper.addPending
  by_cases hpending : s.wrapper.isPending timer
  · rw [if_pos hpending]
    by_cases hdue : s.dueAt timer ≤ s.nowMs
    · simp [hpending, hdue]
    · simp [hpending, hdue]
      omega
  · simp [hpending]

lemma dueTimerIds_foldl (timers : List TimerId) (state : PendingTimerState) :
    (timers.foldl s.addPending state).dueTimerIds = state.dueTimerIds ++
      timers.filter fun timer =>
        s.wrapper.isPending timer && decide (s.dueAt timer ≤ s.nowMs) := by
  induction timers generalizing state with
  | nil => exact (List.append_nil _).symm
  | cons timer timers ih =>
    rw [List.foldl_cons, ih, dueTimerIds_addPending, List.append_assoc, ← List.filter_append,
      List.singleton_append]

/-- The due list is in the order of registration. -/
lemma dueTimerIds_eq (s : TimedWrapper) :
    s.pendingTimerState.dueTimerIds = (List.range s.wrapper.timers.length).filter fun timer =>
      s.wrapper.isPending timer && decide (s.dueAt timer ≤ s.nowMs) :=
  dueTimerIds_foldl _ {}

lemma mem_dueTimerIds :
    timer ∈ s.pendingTimerState.dueTimerIds ↔
      s.wrapper.isPending timer = true ∧ s.dueAt timer ≤ s.nowMs := by
  rw [dueTimerIds_eq, List.mem_filter, List.mem_range, Bool.and_eq_true, decide_eq_true_iff]
  exact and_iff_right_of_imp fun h => Wrapper.lt_length_of_isPending h.1

lemma head_dueTimerIds_le {first : TimerId}
    (hfirst : s.pendingTimerState.dueTimerIds.head? = some first)
    (htimer : timer ∈ s.pendingTimerState.dueTimerIds) : first ≤ timer := by
  have hsorted : s.pendingTimerState.dueTimerIds.Pairwise (· < ·) := by
    rw [dueTimerIds_eq]
    exact List.pairwise_lt_range.filter _
  obtain ⟨rest, hrest⟩ := List.head?_eq_some_iff.mp hfirst
  rw [hrest] at hsorted htimer
  rcases List.mem_cons.mp htimer with rfl | hmem
  · exact Nat.le_refl _
  · exact Nat.le_of_lt (List.rel_of_pairwise_cons hsorted hmem)

lemma pendingTimers_foldl (timers : List TimerId) (state : PendingTimerState) :
    (timers.foldl s.addPending state).pendingTimers =
      state.pendingTimers + timers.countP s.wrapper.isPending := by
  induction timers generalizing state with
  | nil => rfl
  | cons timer timers ih =>
    rw [List.foldl_cons, ih]
    unfold TimedWrapper.addPending
    by_cases hpending : s.wrapper.isPending timer
    · rw [if_pos hpending, List.countP_cons_of_pos hpending]
      show state.pendingTimers + 1 + _ = _
      omega
    · rw [if_neg hpending, List.countP_cons_of_neg hpending]

/-- The registry answers as the wrapper may expect. -/
lemma mayAnswer_nextTimerEvent {event : TimerEvent} (h : s.nextTimerEvent = some event) :
    s.wrapper.mayAnswer event = true := by
  unfold TimedWrapper.nextTimerEvent at h
  cases hfirst : s.pendingTimerState.dueTimerIds.head? with
  | some first =>
    rw [hfirst] at h
    cases h
    exact (mem_dueTimerIds.mp (List.mem_of_mem_head? hfirst)).1
  | none =>
    simp only [hfirst] at h
    split at h
    · cases h
    · rename_i hnone
      cases h
      have hcount : (List.range s.wrapper.timers.length).countP s.wrapper.isPending = 0 := by
        have htotal := pendingTimers_foldl (s := s) (List.range s.wrapper.timers.length) {}
        have hzero : ¬ 0 < s.pendingTimerState.pendingTimers := by
          simpa [PendingTimerState.hasPendingTimers] using hnone
        rw [TimedWrapper.pendingTimerState, htotal] at hzero
        simpa using hzero
      rw [List.countP_eq_zero] at hcount
      exact List.all_eq_true.mpr fun timer hmem => by simpa using hcount timer hmem

end DueList

/-! ## What a step of the wrapper can do -/

/-- The pump has called the callback of the timer, and is not done with it. -/
def Wrapper.HasCalled (s : Wrapper) (pump : PumpId) (timer : TimerId) : Prop :=
  (s.pumps pump).called = some timer ∨ s.frame = .callback pump timer

/-- `s'` follows `s` by a step that sets no timer and answers no pump with one.  Callbacks are only
taken out, a timer is marked only when its callback is out, and a callback is called only by a
pump that has been given its timer. -/
structure Goes (s s' : Wrapper) : Prop where
  length : s'.timers.length = s.timers.length
  callbacks : ∀ timer ∈ s'.timerCallbacks,
    timer ∈ s.timerCallbacks ∧ s'.isPending timer = s.isPending timer
  given : ∀ pump timer, s'.pumps pump = .resumed (.due timer) →
    s.pumps pump = .resumed (.due timer)
  called : ∀ pump timer, s'.HasCalled pump timer →
    s.HasCalled pump timer ∨ timer ∈ s.timerCallbacks ∧ timer ∉ s'.timerCallbacks
  frame : ∀ pump timer, s'.frame = .callback pump timer →
    s.frame = .callback pump timer ∨
      s.pumps pump = .resumed (.due timer) ∧ timer ∈ s.timerCallbacks ∧
        timer ∉ s'.timerCallbacks

/-- The timers with a callback are pending, and those whose callback was called have none. -/
structure Registered (s : Wrapper) : Prop where
  pending : ∀ timer ∈ s.timerCallbacks, s.isPending timer = true
  called : ∀ pump timer, s.HasCalled pump timer →
    timer ∉ s.timerCallbacks ∧ timer < s.timers.length

section Goes

variable {s s' s'' : Wrapper} {pump : PumpId} {timer : TimerId} {stage : PumpStage}

lemma Goes.refl (s : Wrapper) : Goes s s where
  length := rfl
  callbacks _ h := ⟨h, rfl⟩
  given _ _ h := h
  called _ _ h := .inl h
  frame _ _ h := .inl h

lemma Goes.trans (h : Goes s s') (h' : Goes s' s'') : Goes s s'' where
  length := h'.length.trans h.length
  callbacks timer hmem := by
    obtain ⟨hmem', heq'⟩ := h'.callbacks timer hmem
    obtain ⟨hmem, heq⟩ := h.callbacks timer hmem'
    exact ⟨hmem, heq'.trans heq⟩
  given pump timer hstage := h.given pump timer (h'.given pump timer hstage)
  called pump timer hcalled := by
    obtain hcalled' | ⟨hmem, hout⟩ := h'.called pump timer hcalled
    · obtain hold | ⟨hmem, hout⟩ := h.called pump timer hcalled'
      · exact .inl hold
      · exact .inr ⟨hmem, fun hin => hout (h'.callbacks timer hin).1⟩
    · exact .inr ⟨(h.callbacks timer hmem).1, hout⟩
  frame pump timer hframe := by
    obtain hframe' | ⟨hstage, hmem, hout⟩ := h'.frame pump timer hframe
    · obtain hold | ⟨hstage, hmem, hout⟩ := h.frame pump timer hframe'
      · exact .inl hold
      · exact .inr ⟨hstage, hmem, fun hin => hout (h'.callbacks timer hin).1⟩
    · exact .inr ⟨h.given pump timer hstage, (h.callbacks timer hmem).1, hout⟩

lemma Goes.after (h' : Goes s' s'') (h : Goes s s') : Goes s s'' := h.trans h'

lemma Goes.registered (h : Goes s s') (hs : Registered s) : Registered s' where
  pending timer hmem := by
    obtain ⟨hmem, heq⟩ := h.callbacks timer hmem
    exact heq.trans (hs.pending timer hmem)
  called pump timer hcalled := by
    rw [h.length]
    obtain hold | ⟨hmem, hout⟩ := h.called pump timer hcalled
    · obtain ⟨hout, hlt⟩ := hs.called pump timer hold
      exact ⟨fun hin => hout (h.callbacks timer hin).1, hlt⟩
    · exact ⟨hout, Wrapper.lt_length_of_isPending (hs.pending timer hmem)⟩

/-! ### The primitive updates -/

/-- A step that leaves timers, callbacks, pumps and stack alone. -/
lemma Goes.of_eq (htimers : s'.timers = s.timers) (hcallbacks : s'.timerCallbacks = s.timerCallbacks)
    (hpumps : s'.pumps = s.pumps) (hframe : s'.frame = s.frame) : Goes s s' where
  length := by rw [htimers]
  callbacks timer hmem := ⟨hcallbacks ▸ hmem, by rw [Wrapper.isPending, htimers, Wrapper.isPending]⟩
  given _ _ h := hpumps ▸ h
  called _ _ h := .inl (by rwa [Wrapper.HasCalled, hpumps, hframe] at h)
  frame _ _ h := .inl (hframe ▸ h)

lemma Goes.setPump (hgiven : ∀ timer, stage ≠ .resumed (.due timer))
    (hcalled : ∀ timer, stage.called = some timer → s.HasCalled pump timer) :
    Goes s (s.setPump pump stage) where
  length := rfl
  callbacks _ h := ⟨h, rfl⟩
  given other timer h := by
    by_cases hother : other = pump
    · subst hother
      exact absurd (Function.update_self other stage s.pumps ▸ h) (hgiven timer)
    · exact Function.update_of_ne hother stage s.pumps ▸ h
  called other timer h := by
    refine .inl (h.elim (fun h => ?_) .inr)
    by_cases hother : other = pump
    · subst hother
      exact hcalled timer (Function.update_self other stage s.pumps ▸ h)
    · exact .inl (Function.update_of_ne hother stage s.pumps ▸ h)
  frame _ _ h := .inl h

lemma Goes.enqueue (s : Wrapper) (job : Job) : Goes s (s.enqueue job) := .of_eq rfl rfl rfl rfl

lemma Goes.resumePump (hgiven : ∀ timer, stage ≠ .resumed (.due timer))
    (hcalled : ∀ timer, stage.called = some timer → s.HasCalled pump timer) :
    Goes s (s.resumePump pump stage) :=
  (Goes.setPump hgiven hcalled).trans (.enqueue _ _)

/-- A timer without a callback is marked. -/
lemma Goes.modifyTimer (hout : timer ∉ s.timerCallbacks)
    (f : RecordedTimerCall → RecordedTimerCall) :
    Goes s { s with timers := s.timers.modify timer f } where
  length := List.length_modify ..
  callbacks other hmem := by
    have hne : other ≠ timer := by
      rintro rfl
      exact hout hmem
    exact ⟨hmem, isPending_modify hne f⟩
  given _ _ h := h
  called _ _ h := .inl h
  frame _ _ h := .inl h

lemma Goes.forget (s : Wrapper) (timer : TimerId) :
    Goes s { s with timerCallbacks := s.timerCallbacks.filter (· ≠ timer) } where
  length := rfl
  callbacks _ hmem := ⟨List.mem_of_mem_filter hmem, rfl⟩
  given _ _ h := h
  called _ _ h := .inl h
  frame _ _ h := .inl h

lemma Goes.setFrame (s : Wrapper) {frame : Frame}
    (hframe : ∀ pump timer, frame ≠ .callback pump timer) : Goes s { s with frame := frame } where
  length := rfl
  callbacks _ h := ⟨h, rfl⟩
  given _ _ h := h
  called pump timer h := .inl (h.imp_right fun h => absurd h (hframe pump timer))
  frame pump timer h := absurd h (hframe pump timer)

/-! ### The functions of the wrapper -/

lemma Goes.runTimerPump (s : Wrapper) (pump : PumpId) : Goes s (s.runTimerPump pump) := by
  unfold Wrapper.runTimerPump
  split
  · exact .resumePump (fun _ h => by cases h) (fun _ h => by cases h)
  · exact .setPump (fun _ h => by cases h) (fun _ h => by cases h)

lemma Goes.ensureTimerPump (s : Wrapper) : Goes s s.ensureTimerPump := by
  unfold Wrapper.ensureTimerPump
  split
  · exact .refl s
  · exact (Goes.runTimerPump _ _).after (.of_eq rfl rfl rfl rfl)

lemma Goes.clearTimeout (s : Wrapper) (timer : TimerId) : Goes s (s.clearTimeout timer) :=
  (Goes.forget s timer).trans (.modifyTimer (by simp) _)

lemma Goes.settleRace (s : Wrapper) (ok : Bool) : Goes s (s.settleRace ok) := by
  unfold Wrapper.settleRace
  split
  · exact .of_eq rfl rfl rfl rfl
  · exact .refl s

lemma Goes.drainTimers (s : Wrapper) : Goes s s.drainTimers := by
  unfold Wrapper.drainTimers
  split
  · exact .of_eq rfl rfl rfl rfl
  · exact (Goes.runTimerPump _ _).after (.of_eq rfl rfl rfl rfl)

lemma Goes.runMain (s : Wrapper) : Goes s s.runMain := by
  unfold Wrapper.runMain
  split
  case h_2 =>
    unfold Wrapper.waitForPendingTimers
    split
    · exact .of_eq rfl rfl rfl rfl
    · exact .drainTimers s
  all_goals exact .of_eq rfl rfl rfl rfl

lemma Goes.pumpLeft (s : Wrapper) (pump : PumpId) (ok : Bool) : Goes s (s.pumpLeft pump ok) := by
  cases pump with
  | ensured =>
    have hfailure : Goes s (if ok then s else ({ s with pumpFailure := true }).settleRace false) := by
      split
      · exact .refl s
      · exact (Goes.settleRace _ false).after (.of_eq rfl rfl rfl rfl)
    exact hfailure.trans (.resumePump (fun _ h => by cases h) (fun _ h => by cases h))
  | drain =>
    have hmain : Goes s { s with main := .finishing } := .of_eq rfl rfl rfl rfl
    exact hmain.trans
      (.trans (.setPump (fun _ h => by cases h) (fun _ h => by cases h)) (.enqueue _ _))

/-- The pump that was given a timer calls its callback. -/
lemma Goes.runTimerCallback (hstage : s.pumps pump = .resumed (.due timer)) :
    Goes s (s.runTimerCallback pump timer) := by
  unfold Wrapper.runTimerCallback
  by_cases hmem : timer ∈ s.timerCallbacks
  · rw [if_pos hmem]
    constructor
    case length => rfl
    case callbacks => exact fun _ hin => ⟨List.mem_of_mem_filter hin, rfl⟩
    case given =>
      intro other timer' h
      by_cases hother : other = pump
      · subst hother
        simp [Wrapper.setPump] at h
      · simpa [Wrapper.setPump, Function.update_of_ne hother] using h
    case called =>
      rintro other timer' (h | ⟨⟨⟩⟩)
      · by_cases hother : other = pump
        · subst hother
          obtain rfl : timer = timer' := by simpa [Wrapper.setPump, PumpStage.called] using h
          exact .inr ⟨hmem, by simp [Wrapper.setPump]⟩
        · exact .inl (.inl (by simpa [Wrapper.setPump, Function.update_of_ne hother] using h))
      · exact .inr ⟨hmem, by simp [Wrapper.setPump]⟩
    case frame =>
      rintro _ _ ⟨⟩
      exact .inr ⟨hstage, hmem, by simp [Wrapper.setPump]⟩
  · rw [if_neg hmem]
    exact (Goes.modifyTimer hmem _).trans
      (.resumePump (fun _ h => by cases h) (fun _ h => by cases h))

lemma Goes.runPump (hs : Registered s) (pump : PumpId) : Goes s (s.runPump pump) := by
  unfold Wrapper.runPump
  split
  case h_1 timer hstage => exact .runTimerCallback hstage
  case h_5 timer ok hstage =>
    have hout := (hs.called pump timer (.inl (by rw [hstage]; rfl))).1
    exact (Goes.modifyTimer hout _).trans
      (.resumePump (fun _ h => by cases h) (fun _ h => by cases h))
  case h_6 =>
    split
    · exact .runTimerPump s pump
    · exact .resumePump (fun _ h => by cases h) (fun _ h => by cases h)
  case h_7 => exact .pumpLeft s pump _
  case h_8 =>
    have hpromise : Goes s { s with pumpPromise := false } := .of_eq rfl rfl rfl rfl
    exact hpromise.trans
      (.trans (.setPump (fun _ h => by cases h) (fun _ h => by cases h)) (.enqueue _ _))
  case h_2 | h_3 | h_4 =>
    exact .resumePump (fun _ h => by cases h) (fun _ h => by cases h)
  all_goals exact .refl s

lemma Goes.runJob (hs : Registered s) (job : Job) : Goes s (s.runJob job) := by
  cases job with
  | user => exact .setFrame s fun _ _ h => by cases h
  | pump pump => exact .runPump hs pump
  | main => exact .runMain s
  | settle hops generation =>
    cases hops with
    | succ hops => exact .enqueue s _
    | zero =>
      show Goes s (if s.main = .awaitingPump generation then s.drainTimers else s)
      split
      · exact .drainTimers s
      · exact .refl s

lemma Goes.leaveCallback (hs : Registered s) (hframe : s.frame = .callback pump timer)
    (result : CallbackResult) :
    Goes s (TimerPump.leaveCallback { s with frame := .idle } pump timer result) := by
  have hidle : Goes s { s with frame := .idle } := .setFrame s fun _ _ h => by cases h
  cases result with
  | settled ok =>
    have hset : Goes s (s.setPump pump (.callbackSettled timer ok)) := by
      refine .setPump (fun _ h => by cases h) ?_
      rintro _ ⟨⟩
      exact .inr hframe
    exact (hset.trans (.setFrame _ fun _ _ h => by cases h)).trans (.enqueue _ _)
  | threw =>
    have hout := (hs.called pump timer (.inr hframe)).1
    have hmark := Goes.modifyTimer hout fun call => { call with completed := true }
    exact (hmark.trans (.setFrame _ fun _ _ h => by cases h)).trans
      (.resumePump (fun _ h => by cases h) (fun _ h => by cases h))
  | pending => exact hidle

/-! ### Steps -/

/-- The pump is given an answer that is no timer. -/
lemma Goes.answer (s : Wrapper) (pump : PumpId) {event : TimerEvent}
    (hevent : ∀ timer, event ≠ .due timer) : Goes s (s.resumePump pump (.resumed event)) := by
  apply Goes.resumePump
  · rintro timer ⟨⟩
    exact hevent timer rfl
  · exact fun _ h => by cases h

lemma goes_of_step (hs : Registered s) {label : WrapperLabel} (hlabel : unregistered label = true)
    (h : wrapperStep s label = some s') : Goes s s' := by
  unfold wrapperStep at h
  by_cases hmain : s.main = .completed
  · rw [if_pos hmain] at h
    cases h
  rw [if_neg hmain] at h
  split at h
  case h_1 hframe =>
    split at h
    · cases h
    · rename_i job jobs hjobs
      cases h
      have hpop : Goes s { s with jobs := jobs } := .of_eq rfl rfl rfl rfl
      exact hpop.trans (.runJob (hpop.registered hs) job)
  case h_2 pump event hframe =>
    split at h
    · cases h
      refine .answer s pump ?_
      rintro timer rfl
      cases hlabel
    · cases h
  case h_3 hframe =>
    cases h
    exact .enqueue s _
  case h_4 hframe =>
    cases h
    exact .setFrame s fun _ _ h => by cases h
  case h_5 hframe =>
    cases h
    exact .leaveCallback hs hframe _
  case h_6 => cases h
  case h_7 => cases hlabel
  case h_8 timer _ =>
    cases h
    exact .clearTimeout s timer
  case h_9 =>
    cases h
    exact .enqueue s _
  case h_10 pump ok hframe =>
    split at h
    · rename_i timer hstage
      split at h
      · cases h
      · cases h
        refine .resumePump (fun _ h => by cases h) ?_
        rintro _ ⟨⟩
        exact .inl (by rw [hstage]; rfl)
    · cases h
  case h_11 =>
    cases h
    exact .settleRace s _
  case h_12 => cases h

/-- A callback is called by the pump that was given its timer. -/
lemma Goes.calledBy (h : Goes s s') (hmem : timer ∈ calledBy s.frame s'.frame) :
    ∃ pump, s.pumps pump = .resumed (.due timer) ∧ timer ∈ s.timerCallbacks ∧
      timer ∉ s'.timerCallbacks := by
  unfold TimerPump.calledBy at hmem
  split at hmem
  · rename_i pump _ hbefore hafter
    obtain rfl := List.mem_singleton.mp hmem
    obtain hframe | hgiven := h.frame pump timer hafter
    · rw [hbefore] at hframe
      cases hframe
    · exact ⟨pump, hgiven⟩
  · cases hmem

lemma calledBy_self (frame : Frame) : TimerPump.calledBy frame frame = [] := by
  cases frame <;> rfl

lemma setTimeout_of_step (h : wrapperStep s .setTimeout = some s') :
    s' = Wrapper.ensureTimerPump { s with
      timers := s.timers ++ [{}]
      timerCallbacks := s.timerCallbacks ++ [s.timers.length] } := by
  unfold wrapperStep at h
  by_cases hmain : s.main = .completed
  · rw [if_pos hmain] at h
    cases h
  · rw [if_neg hmain] at h
    cases hframe : s.frame with
    | idle => simp [hframe] at h
    | user | callback =>
      simp only [hframe, Option.some.injEq] at h
      subst h
      rw [← hframe]
      rfl

lemma answer_of_step {event : TimerEvent}
    (h : wrapperStep s (.nextTimerEvent pump event) = some s') :
    s' = s.resumePump pump (.resumed event) := by
  unfold wrapperStep at h
  by_cases hmain : s.main = .completed
  · rw [if_pos hmain] at h
    cases h
  · rw [if_neg hmain] at h
    cases hframe : s.frame with
    | idle =>
      simp only [hframe] at h
      split at h
      · cases h
        rfl
      · cases h
    | user | callback => simp [hframe] at h

lemma Registered.register (hs : Registered s) :
    Registered { s with
      timers := s.timers ++ [{}]
      timerCallbacks := s.timerCallbacks ++ [s.timers.length] } where
  pending timer h := by
    obtain h | h := List.mem_append.mp h
    · have hpending := hs.pending timer h
      exact (isPending_append (Wrapper.lt_length_of_isPending hpending) {}).trans hpending
    · obtain rfl := List.mem_singleton.mp h
      simp [Wrapper.isPending]
  called pump timer h := by
    obtain ⟨hout, hlt⟩ := hs.called pump timer h
    simp only [List.mem_append, List.mem_singleton, List.length_append, List.length_singleton]
    exact ⟨fun hmem => hmem.elim hout (Nat.ne_of_lt hlt), Nat.lt_succ_of_lt hlt⟩

lemma Registered.answer (hs : Registered s) (pump : PumpId) (event : TimerEvent) :
    Registered (s.resumePump pump (.resumed event)) where
  pending := hs.pending
  called other timer h := by
    refine hs.called other timer (h.imp_left fun h => ?_)
    by_cases hother : other = pump
    · subst hother
      simp [Wrapper.resumePump, Wrapper.enqueue, Wrapper.setPump, PumpStage.called] at h
    · simpa [Wrapper.resumePump, Wrapper.enqueue, Wrapper.setPump,
        Function.update_of_ne hother] using h

end Goes

/-! ## What the registry keeps -/

/-- What holds in every run: a timer that was given to a pump, or has fired, is due. -/
structure Kept (s : TimedWrapper) : Prop where
  registered : Registered s.wrapper
  length : s.dueAtMs.length = s.wrapper.timers.length
  clock : s.nowMs ≤ u64Max
  given : ∀ pump timer, s.wrapper.pumps pump = .resumed (.due timer) →
    timer < s.dueAtMs.length ∧ s.dueAt timer ≤ s.nowMs
  fired : ∀ timer ∈ s.fired, timer < s.dueAtMs.length ∧ s.dueAt timer ≤ s.nowMs

/-- A timer that was given to a pump, or has fired, comes before all that may still fire. -/
structure Ordered (s : TimedWrapper) : Prop where
  given : ∀ pump timer, s.wrapper.pumps pump = .resumed (.due timer) →
    ∀ other ∈ s.wrapper.timerCallbacks, other ≠ timer → s.Before timer other
  fired : ∀ timer ∈ s.fired, ∀ other ∈ s.wrapper.timerCallbacks, s.Before timer other

section Kept

variable {s s' : TimedWrapper} {wrapper : Wrapper} {label : TimedLabel} {pump : PumpId}
  {timer : TimerId}

lemma le_saturatingAdd {a : Nat} (ha : a ≤ u64Max) (b : Nat) : a ≤ saturatingAdd a b :=
  Nat.le_min.mpr ⟨Nat.le_add_right a b, ha⟩

lemma saturatingAdd_le (a b : Nat) : saturatingAdd a b ≤ u64Max := Nat.min_le_right ..

/-- The step of the wrapper that goes with it. -/
def TimedWrapper.advance (s : TimedWrapper) (wrapper : Wrapper) : TimedWrapper :=
  { s with wrapper := wrapper, fired := s.fired ++ calledBy s.wrapper.frame wrapper.frame }

/-- A new timer, in the wrapper and in the registry. -/
def TimedWrapper.register (s : TimedWrapper) (delayMs : Nat) : TimedWrapper :=
  { s with
    wrapper := { s.wrapper with
      timers := s.wrapper.timers ++ [{}]
      timerCallbacks := s.wrapper.timerCallbacks ++ [s.wrapper.timers.length] }
    dueAtMs := s.dueAtMs ++ [saturatingAdd s.nowMs delayMs] }

lemma dueAt_register_of_lt (hlt : timer < s.dueAtMs.length) (delayMs : Nat) :
    (s.register delayMs).dueAt timer = s.dueAt timer := by
  simp only [TimedWrapper.dueAt, TimedWrapper.register, List.getD_eq_getElem?_getD,
    List.getElem?_append_left hlt]

lemma dueAt_register_new (hlength : s.dueAtMs.length = s.wrapper.timers.length) (delayMs : Nat) :
    (s.register delayMs).dueAt s.wrapper.timers.length = saturatingAdd s.nowMs delayMs := by
  simp [TimedWrapper.dueAt, TimedWrapper.register, ← hlength]

/-- What a step of wrapper and registry can do. -/
lemma timedStep_cases (hs : Kept s) (h : timedStep s label = some s') :
    (∃ elapsedMs, s' = { s with nowMs := saturatingAdd s.nowMs elapsedMs }) ∨
      (∃ delayMs wrapper, Goes (s.register delayMs).wrapper wrapper ∧
        s' = { s.register delayMs with wrapper := wrapper }) ∨
      (∃ pump timer, label = .pollTimers pump ∧
        s.pendingTimerState.dueTimerIds.head? = some timer ∧
        s' = { s with wrapper := s.wrapper.resumePump pump (.resumed (.due timer)) }) ∨
      ∃ wrapper, Goes s.wrapper wrapper ∧ s' = s.advance wrapper := by
  cases label with
  | tick elapsedMs =>
    cases h
    exact .inl ⟨elapsedMs, rfl⟩
  | setTimeout delayMs =>
    obtain ⟨wrapper, hstep, rfl⟩ := Option.map_eq_some_iff.mp h
    obtain rfl := setTimeout_of_step hstep
    exact .inr (.inl ⟨delayMs, _, .ensureTimerPump _, rfl⟩)
  | pollTimers pump =>
    obtain ⟨event, hevent, hmap⟩ := Option.bind_eq_some_iff.mp h
    obtain ⟨wrapper, hstep, rfl⟩ := Option.map_eq_some_iff.mp hmap
    obtain rfl := answer_of_step hstep
    unfold TimedWrapper.nextTimerEvent at hevent
    split at hevent
    · rename_i timer hfirst
      cases hevent
      exact .inr (.inr (.inl ⟨pump, timer, rfl, hfirst, rfl⟩))
    · split at hevent
      · cases hevent
      · cases hevent
        have hgoes : Goes s.wrapper (s.wrapper.resumePump pump (.resumed .idle)) :=
          .answer s.wrapper pump fun _ h => by cases h
        refine .inr (.inr (.inr ⟨_, hgoes, ?_⟩))
        have hfired : s.fired ++ calledBy s.wrapper.frame s.wrapper.frame = s.fired := by
          rw [calledBy_self, List.append_nil]
        exact congrArg (fun fired => { s with
          wrapper := s.wrapper.resumePump pump (.resumed .idle)
          fired := fired }) hfired.symm
  | other label =>
    simp only [timedStep, Option.ite_none_right_eq_some, Option.map_eq_some_iff] at h
    obtain ⟨hlabel, wrapper, hstep, rfl⟩ := h
    exact .inr (.inr (.inr ⟨wrapper, goes_of_step hs.registered hlabel hstep, rfl⟩))

/-- The registry keeps its promises at every step. -/
lemma Kept.step (hs : Kept s) (h : timedStep s label = some s') : Kept s' := by
  obtain ⟨elapsedMs, rfl⟩ | ⟨delayMs, wrapper, hgoes, rfl⟩ | ⟨pump, timer, -, hfirst, rfl⟩ |
    ⟨wrapper, hgoes, rfl⟩ := timedStep_cases hs h
  · have hle := le_saturatingAdd hs.clock elapsedMs
    constructor
    case registered => exact hs.registered
    case length => exact hs.length
    case clock => exact saturatingAdd_le _ _
    case given =>
      intro pump timer hstage
      obtain ⟨hlt, hdue⟩ := hs.given pump timer hstage
      exact ⟨hlt, hdue.trans hle⟩
    case fired =>
      intro timer hmem
      obtain ⟨hlt, hdue⟩ := hs.fired timer hmem
      exact ⟨hlt, hdue.trans hle⟩
  · have hlength : (s.register delayMs).dueAtMs.length = s.dueAtMs.length + 1 := by
      simp [TimedWrapper.register]
    constructor
    case registered => exact hgoes.registered hs.registered.register
    case length =>
      rw [hlength, hs.length, hgoes.length]
      simp [TimedWrapper.register]
    case clock => exact hs.clock
    case given =>
      intro pump timer hstage
      obtain ⟨hlt, hdue⟩ := hs.given pump timer (hgoes.given pump timer hstage)
      refine ⟨hlength ▸ Nat.lt_succ_of_lt hlt, ?_⟩
      exact (dueAt_register_of_lt hlt delayMs).trans_le hdue
    case fired =>
      intro timer hmem
      obtain ⟨hlt, hdue⟩ := hs.fired timer hmem
      refine ⟨hlength ▸ Nat.lt_succ_of_lt hlt, ?_⟩
      exact (dueAt_register_of_lt hlt delayMs).trans_le hdue
  · obtain ⟨hpending, hdue⟩ := mem_dueTimerIds.mp (List.mem_of_mem_head? hfirst)
    constructor
    case registered => exact hs.registered.answer pump _
    case length => exact hs.length
    case clock => exact hs.clock
    case given =>
      intro other timer' hstage
      by_cases hother : other = pump
      · subst hother
        obtain rfl : timer = timer' := by
          simpa [Wrapper.resumePump, Wrapper.enqueue, Wrapper.setPump] using hstage
        exact ⟨by rw [hs.length]; exact Wrapper.lt_length_of_isPending hpending, hdue⟩
      · refine hs.given other timer' ?_
        simpa [Wrapper.resumePump, Wrapper.enqueue, Wrapper.setPump,
          Function.update_of_ne hother] using hstage
    case fired => exact hs.fired
  · constructor
    case registered => exact hgoes.registered hs.registered
    case length => exact hs.length.trans hgoes.length.symm
    case clock => exact hs.clock
    case given => exact fun pump timer hstage => hs.given pump timer (hgoes.given pump timer hstage)
    case fired =>
      intro timer hmem
      obtain hmem | hmem := List.mem_append.mp hmem
      · exact hs.fired timer hmem
      · obtain ⟨pump, hgiven, -, -⟩ := hgoes.calledBy hmem
        exact hs.given pump timer hgiven

/-- A timer that is due comes before the one that is registered now. -/
lemma Kept.before_register (hs : Kept s) {other : TimerId} (delayMs : Nat)
    (htimer : timer < s.dueAtMs.length ∧ s.dueAt timer ≤ s.nowMs)
    (hother : other ∈ (s.register delayMs).wrapper.timerCallbacks)
    (hold : other ∈ s.wrapper.timerCallbacks → s.Before timer other) :
    (s.register delayMs).Before timer other := by
  obtain ⟨hlt, hdue⟩ := htimer
  unfold TimedWrapper.Before
  rw [dueAt_register_of_lt hlt]
  obtain hmem | hmem := List.mem_append.mp hother
  · have hother : other < s.dueAtMs.length := by
      rw [hs.length]
      exact Wrapper.lt_length_of_isPending (hs.registered.pending other hmem)
    rw [dueAt_register_of_lt hother]
    exact hold hmem
  · obtain rfl := List.mem_singleton.mp hmem
    rw [dueAt_register_new hs.length]
    have hle := hdue.trans (le_saturatingAdd hs.clock delayMs)
    exact (Nat.lt_or_eq_of_le hle).imp_right fun heq => ⟨heq, hs.length ▸ hlt⟩

/-- A due timer that is handed out comes before all others, if no other that is due is due
earlier. -/
lemma Kept.before_of_poll (hs : Kept s)
    (hfirst : s.pendingTimerState.dueTimerIds.head? = some timer)
    (hpoll : ∀ other ∈ s.pendingTimerState.dueTimerIds, s.dueAt timer ≤ s.dueAt other)
    {other : TimerId} (hother : other ∈ s.wrapper.timerCallbacks) (hne : other ≠ timer) :
    s.Before timer other := by
  have hpending := hs.registered.pending other hother
  have hdue := (mem_dueTimerIds.mp (List.mem_of_mem_head? hfirst)).2
  by_cases hotherDue : s.dueAt other ≤ s.nowMs
  · have hmem := mem_dueTimerIds.mpr ⟨hpending, hotherDue⟩
    have hle := head_dueTimerIds_le hfirst hmem
    exact (Nat.lt_or_eq_of_le (hpoll other hmem)).imp_right fun heq =>
      ⟨heq, Nat.lt_of_le_of_ne hle hne.symm⟩
  · exact .inl (Nat.lt_of_le_of_lt hdue (Nat.lt_of_not_le hotherDue))

/-- The order is kept, too, unless a poll hands out the wrong timer. -/
lemma Ordered.step (hs : Kept s) (ho : Ordered s) (hpoll : PollInOrder s label)
    (h : timedStep s label = some s') : Ordered s' := by
  obtain ⟨elapsedMs, rfl⟩ | ⟨delayMs, wrapper, hgoes, rfl⟩ | ⟨pump, timer, rfl, hfirst, rfl⟩ |
    ⟨wrapper, hgoes, rfl⟩ := timedStep_cases hs h
  · exact ⟨ho.given, ho.fired⟩
  · constructor
    case given =>
      intro pump timer hstage other hmem hne
      have hstage := hgoes.given pump timer hstage
      refine hs.before_register delayMs (hs.given pump timer hstage) (hgoes.callbacks other hmem).1 ?_
      exact fun hold => ho.given pump timer hstage other hold hne
    case fired =>
      intro timer hmem other hother
      refine hs.before_register delayMs (hs.fired timer hmem) (hgoes.callbacks other hother).1 ?_
      exact ho.fired timer hmem other
  · constructor
    case given =>
      intro other timer' hstage
      by_cases hother : other = pump
      · subst hother
        obtain rfl : timer = timer' := by
          simpa [Wrapper.resumePump, Wrapper.enqueue, Wrapper.setPump] using hstage
        exact fun _ => hs.before_of_poll hfirst (hpoll timer hfirst)
      · refine ho.given other timer' ?_
        simpa [Wrapper.resumePump, Wrapper.enqueue, Wrapper.setPump,
          Function.update_of_ne hother] using hstage
    case fired => exact ho.fired
  · constructor
    case given =>
      intro pump timer hstage other hmem hne
      exact ho.given pump timer (hgoes.given pump timer hstage) other (hgoes.callbacks other hmem).1
        hne
    case fired =>
      intro timer hmem other hother
      obtain ⟨hother', -⟩ := hgoes.callbacks other hother
      obtain hmem | hmem := List.mem_append.mp hmem
      · exact ho.fired timer hmem other hother'
      · obtain ⟨pump, hgiven, -, hout⟩ := hgoes.calledBy hmem
        refine ho.given pump timer hgiven other hother' ?_
        rintro rfl
        exact hout hother

/-- A timer fires when it is pending and due. -/
lemma Kept.fires (hs : Kept s) (h : timedStep s label = some s')
    (hfired : s'.fired = s.fired ++ [timer]) :
    timer ∈ s.wrapper.timerCallbacks ∧ s.wrapper.isPending timer = true ∧
      s.dueAt timer ≤ s.nowMs := by
  have hself : ∀ fired : List TimerId, fired ≠ fired ++ [timer] := by simp
  obtain ⟨elapsedMs, rfl⟩ | ⟨delayMs, wrapper, hgoes, rfl⟩ | ⟨pump, timer, -, hfirst, rfl⟩ |
    ⟨wrapper, hgoes, rfl⟩ := timedStep_cases hs h
  · exact absurd hfired (hself _)
  · exact absurd hfired (hself _)
  · exact absurd hfired (by simp)
  · have hmem : timer ∈ calledBy s.wrapper.frame wrapper.frame := by
      have heq := List.append_cancel_left hfired
      rw [heq]
      exact List.mem_singleton_self timer
    obtain ⟨pump, hgiven, hcallback, -⟩ := hgoes.calledBy hmem
    exact ⟨hcallback, hs.registered.pending timer hcallback, (hs.given pump timer hgiven).2⟩

lemma kept_initial : Kept {} where
  registered := ⟨nofun, by rintro _ _ (⟨⟨⟩⟩ | ⟨⟨⟩⟩)⟩
  length := rfl
  clock := Nat.zero_le _
  given _ _ h := by cases h
  fired _ h := by cases h

lemma ordered_initial : Ordered {} where
  given _ _ h := by cases h
  fired _ h := by cases h

end Kept

/-! ## The result -/

/-- In every run a timer fires only when it is due, and neither cleared nor completed. -/
lemma fires_when_due {pre : List TimedLabel} {label : TimedLabel} {s s' : TimedWrapper}
    {timer : TimerId} (hpre : run timedStep {} pre = some s) (hstep : timedStep s label = some s')
    (hfired : s'.fired = s.fired ++ [timer]) :
    s.wrapper.isPending timer = true ∧ s.dueAt timer ≤ s.nowMs :=
  ((run_invariant Kept (fun _ _ _ hs h => hs.step h) kept_initial hpre).fires hstep hfired).2

/-- Timers fire in order in every run in which no poll hands out a timer although one that was
registered later has been due for longer. -/
theorem firesInOrder_of_pollsInOrder {labels : List TimedLabel}
    (hpolls : Along timedStep PollInOrder {} labels) : FiresInOrder labels := by
  rintro pre label post s s' rfl hpre hstep timer hfired
  obtain ⟨hs, ho⟩ : Kept s ∧ Ordered s := by
    refine run_invariant_of_along (fun s => Kept s ∧ Ordered s) (P := PollInOrder) ?_
      ⟨kept_initial, ordered_initial⟩ hpolls.left hpre
    exact fun _ _ _ ⟨hs, ho⟩ hpoll h => ⟨hs.step h, ho.step hs hpoll h⟩
  obtain ⟨hcallback, hpending, hdue⟩ := hs.fires hstep hfired
  exact ⟨hpending, hdue, fun earlier hearlier => ho.fired earlier hearlier timer hcallback⟩

/-- A long timer, and a shorter one that is set behind it and fires before it. -/
theorem firesInOrder_of_pollsInOrder_shorter :
    FiresInOrder [.setTimeout 80, .setTimeout 10, .other .leaveUser, .tick 20,
      .pollTimers .ensured, .other .runJob, .other (.leaveCallback (.settled true)), .other .runJob,
      .other .runJob, .tick 60, .pollTimers .ensured, .other .runJob] :=
  firesInOrder_of_pollsInOrder (by decide)

/-- The same two timers in a program that goes on computing until both are due: the one due after
80 ms fires first. -/
theorem not_firesInOrder_bothDue :
    ¬ FiresInOrder [.setTimeout 80, .setTimeout 10, .tick 100, .other .leaveUser,
      .pollTimers .ensured, .other .runJob, .other (.leaveCallback (.settled true)), .other .runJob,
      .other .runJob, .pollTimers .ensured, .other .runJob] := by
  intro h
  obtain ⟨-, -, hbefore⟩ := h [.setTimeout 80, .setTimeout 10, .tick 100, .other .leaveUser,
    .pollTimers .ensured, .other .runJob, .other (.leaveCallback (.settled true)), .other .runJob,
    .other .runJob, .pollTimers .ensured] (.other .runJob) [] _ _ rfl rfl rfl 1 rfl
  obtain hlt | ⟨heq, -⟩ := hbefore 0 (List.mem_singleton_self 0)
  · exact absurd hlt (by decide)
  · exact absurd heq (by decide)

end RustyClaw.CodeMode.TimerPump
