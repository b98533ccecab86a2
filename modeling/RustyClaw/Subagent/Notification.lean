import Mathlib.Data.List.Count
import RustyClaw.Library.Glyph
import RustyClaw.Library.Transition

/-!
# Notifications of background subagents

A background job that comes to its end pushes a notification to the queue of its parent session.
At the start of a turn `SubagentNotificationExtension` takes the queue and keeps one notice for
all of it; when the next prompt is built the notice goes into the prompt's draft, together with
what the sandbox and code mode have to say, and the assembler leaves it out when it does not fit.
The prompt is sent to the model, and sent again after a transient error.

The model is one session.  Notifications are numbered as they are pushed, so that two with the same
text are told apart; the queue, the notice, the prompt that waits to be sent and the requests that
were sent hold numbered notifications.

`delivered_iff` says exactly which runs deliver: every notification is waiting or was in exactly
one request if and only if no turn takes new notifications while an older notice waits, every
notice fits into its prompt, no prompt with a notice is given up before it is sent, and none is
sent a second time.  `not_delivered` is the run in which a turn is cancelled before its prompt is
built and the next turn takes new notifications.
-/

namespace RustyClaw.Subagent.Notification

open Transition

/-! ## Notices -/

structure SubagentNotification where
  jobId : List Char
  subSessionId : List Char
  status : List Char
  summary : List Char
  deriving DecidableEq, Repr

/-- A notification and its number. -/
structure Queued where
  number : Nat
  notification : SubagentNotification
  deriving DecidableEq, Repr

def SubagentNotification.lines (notification : SubagentNotification) : List (List Char) :=
  ["- job `".toList ++ notification.jobId ++ "` (".toList ++ notification.subSessionId ++
      ") is `".toList ++ notification.status ++ "`: ".toList ++ notification.summary,
    "  Suggested next step: call `subagent` with `\x7b\"action\": \"status\", \"job_id\":\"".toList ++
      notification.jobId ++ "\"\x7d` to inspect the final result.".toList]

/-- The notice that `before_turn_start` makes of the notifications it takes. -/
def noticeText (notifications : List Queued) : List Char :=
  ['\n'].intercalate
    (["Background subagent updates are available from earlier work in this session:".toList,
      "If you need the final output, call `subagent` with `action=\"status\"` and the relevant `job_id` before finishing this turn.".toList] ++
      notifications.flatMap fun queued => queued.notification.lines)

/-- `ContextAssembler::est_tokens`. -/
def estTokens (text : List Char) : Nat := Glyph.utf8Len text / 4 + 1

/-! ## The session -/

/-- Where the session's loop stands. -/
inductive Phase where
  | idle
  /-- in a turn, between two prompts -/
  | turn
  /-- the prompt with these notifications is built, and was sent so many times -/
  | prompt (notices : List Queued) (attempts : Nat)
  deriving DecidableEq, Repr

structure NotificationState where
  /-- how many notifications were pushed -/
  enqueued : Nat := 0
  queue : List Queued := []
  /-- the notifications of `pending_notice`, which is `None` when there are none -/
  pendingNotice : List Queued := []
  phase : Phase := .idle
  /-- the notifications in the prompt of each request to the model -/
  requests : List (List Queued) := []
  deriving DecidableEq, Repr

inductive NotificationMove where
  /-- a background job comes to its end, or is cancelled -/
  | enqueue (notification : SubagentNotification)
  | beforeTurnStart
  /-- the next prompt of the turn is built: what the other extensions and code mode append to the
  notice, and the budget that candidates with a higher priority leave -/
  | beforePromptBuild (appended : List Char) (budgetRemaining : Nat)
  /-- `llm.stream`, the first time or again after a transient error -/
  | request
  /-- the response is complete -/
  | respond
  /-- the turn ends, whatever the reason -/
  | endTurn
  deriving DecidableEq, Repr

/-- The assembler takes the notice into the prompt. -/
def Fits (notices : List Queued) (appended : List Char) (budgetRemaining : Nat) : Prop :=
  estTokens (noticeText notices ++ appended) ≤ budgetRemaining

instance (notices : List Queued) (appended : List Char) (budgetRemaining : Nat) :
    Decidable (Fits notices appended budgetRemaining) :=
  inferInstanceAs (Decidable (_ ≤ _))

def notificationStep (s : NotificationState) : NotificationMove → Option NotificationState
  | .enqueue notification =>
    some { s with
      enqueued := s.enqueued + 1
      queue := s.queue ++ [{ number := s.enqueued, notification := notification }] }
  | .beforeTurnStart =>
    if s.phase = .idle then
      if s.queue = [] then some { s with phase := .turn }
      else some { s with queue := [], pendingNotice := s.queue, phase := .turn }
    else none
  | .beforePromptBuild appended budgetRemaining =>
    if s.phase = .turn then
      let notices :=
        if Fits s.pendingNotice appended budgetRemaining then s.pendingNotice else []
      some { s with pendingNotice := [], phase := .prompt notices 0 }
    else none
  | .request =>
    match s.phase with
    | .prompt notices attempts =>
      some { s with
        phase := .prompt notices (attempts + 1), requests := notices :: s.requests }
    | _ => none
  | .respond =>
    match s.phase with
    | .prompt _ (_ + 1) => some { s with phase := .turn }
    | _ => none
  | .endTurn => if s.phase = .idle then none else some { s with phase := .idle }

/-! ## Delivery -/

/-- The prompt that is built and was not sent. -/
def NotificationState.unsent (s : NotificationState) : List Queued :=
  match s.phase with
  | .prompt notices 0 => notices
  | _ => []

/-- The prompt that is built and was sent before. -/
def NotificationState.sent (s : NotificationState) : List Queued :=
  match s.phase with
  | .prompt notices (_ + 1) => notices
  | _ => []

/-- The notifications that requests have shown, each as often as it was shown. -/
def NotificationState.shown (s : NotificationState) : List Queued := s.requests.flatten

/-- How often the notification with a number occurs. -/
def tally (notifications : List Queued) (number : Nat) : Nat :=
  (notifications.map Queued.number).count number

/-- How often a notification waits for a request or was shown by one. -/
def NotificationState.occurrences (s : NotificationState) (number : Nat) : Nat :=
  tally s.queue number + tally s.pendingNotice number + tally s.unsent number +
    tally s.shown number

/-- Every notification that was pushed is in one place: it waits, or one request has shown it. -/
def Delivered (s : NotificationState) : Prop :=
  ∀ number < s.enqueued, s.occurrences number = 1

/-- What a move must not do: take new notifications while an older notice waits, leave the notice
out of the prompt, send a notice a second time, give up a notice that was not sent. -/
def Keeps (s : NotificationState) : NotificationMove → Prop
  | .beforeTurnStart => s.queue = [] ∨ s.pendingNotice = []
  | .beforePromptBuild appended budgetRemaining =>
    s.pendingNotice = [] ∨ Fits s.pendingNotice appended budgetRemaining
  | .request => s.sent = []
  | .endTurn => s.unsent = []
  | _ => True

instance (s : NotificationState) : ∀ move, Decidable (Keeps s move)
  | .beforeTurnStart => inferInstanceAs (Decidable (s.queue = [] ∨ s.pendingNotice = []))
  | .beforePromptBuild appended budgetRemaining =>
    inferInstanceAs (Decidable
      (s.pendingNotice = [] ∨ Fits s.pendingNotice appended budgetRemaining))
  | .request => inferInstanceAs (Decidable (s.sent = []))
  | .endTurn => inferInstanceAs (Decidable (s.unsent = []))
  | .enqueue _ | .respond => isTrue trivial

/-! ### What the moves do to the occurrences -/

section Steps

variable {s s' : NotificationState} {move : NotificationMove} {number : Nat}

@[simp] lemma tally_nil (number : Nat) : tally [] number = 0 := rfl

@[simp] lemma tally_append (l l' : List Queued) (number : Nat) :
    tally (l ++ l') number = tally l number + tally l' number := by
  simp [tally]

lemma tally_singleton (queued : Queued) (number : Nat) :
    tally [queued] number = if queued.number = number then 1 else 0 := by
  simp [tally, List.count_singleton]

lemma exists_tally_pos {l : List Queued} (h : l ≠ []) : ∃ number, 0 < tally l number := by
  obtain ⟨queued, l, rfl⟩ := List.exists_cons_of_ne_nil h
  exact ⟨queued.number, by simp [tally]⟩

/-- What every run keeps: a number that was not pushed yet occurs nowhere, and the notifications
of a prompt that was sent were shown. -/
structure Tidy (s : NotificationState) : Prop where
  fresh : ∀ number, s.enqueued ≤ number → s.occurrences number = 0
  sent : ∀ number, tally s.sent number ≤ tally s.shown number

lemma tidy_init : Tidy {} := ⟨fun _ _ => rfl, fun _ => Nat.le_refl _⟩

lemma occurrences_enqueue (s : NotificationState) (notification : SubagentNotification)
    (number : Nat) :
    NotificationState.occurrences { s with
      enqueued := s.enqueued + 1
      queue := s.queue ++ [{ number := s.enqueued, notification := notification }] } number =
      s.occurrences number + if s.enqueued = number then 1 else 0 := by
  have hpushed : tally (s.queue ++ [{ number := s.enqueued, notification := notification }])
      number = tally s.queue number + if s.enqueued = number then 1 else 0 := by
    rw [tally_append, tally_singleton]
  unfold NotificationState.occurrences
  simp only [hpushed]
  show _ + tally s.unsent number + tally s.shown number = _
  omega

lemma unsent_idle (h : s.phase = .idle) : s.unsent = [] := by
  simp [NotificationState.unsent, h]

lemma unsent_turn (h : s.phase = .turn) : s.unsent = [] := by
  simp [NotificationState.unsent, h]

/-- A turn takes the queue; what waited in an older notice is lost. -/
lemma beforeTurnStart_cases (hstep : notificationStep s .beforeTurnStart = some s') :
    s'.enqueued = s.enqueued ∧ s'.shown = s.shown ∧ s'.sent = [] ∧
      ∀ number, s'.occurrences number + (if s.queue = [] then 0 else tally s.pendingNotice number) =
        s.occurrences number := by
  simp only [notificationStep] at hstep
  split at hstep <;> try cases hstep
  rename_i hidle
  have hunsent := unsent_idle hidle
  split at hstep <;> cases hstep
  · rename_i hqueue
    refine ⟨rfl, rfl, rfl, fun number => ?_⟩
    rw [if_pos hqueue]
    unfold NotificationState.occurrences
    rw [hunsent]
    rfl
  · rename_i hqueue
    refine ⟨rfl, rfl, rfl, fun number => ?_⟩
    rw [if_neg hqueue]
    unfold NotificationState.occurrences
    rw [hunsent]
    show 0 + tally s.queue number + 0 + tally s.shown number + _ = _
    simp only [tally_nil]
    omega

/-- A prompt takes the notice; a notice that does not fit is lost. -/
lemma beforePromptBuild_cases {appended : List Char} {budgetRemaining : Nat}
    (hstep : notificationStep s (.beforePromptBuild appended budgetRemaining) = some s') :
    s'.enqueued = s.enqueued ∧ s'.shown = s.shown ∧ s'.sent = [] ∧
      ∀ number, s'.occurrences number +
        (if Fits s.pendingNotice appended budgetRemaining then 0
          else tally s.pendingNotice number) = s.occurrences number := by
  simp only [notificationStep] at hstep
  split at hstep <;> cases hstep
  rename_i hturn
  have hunsent := unsent_turn hturn
  refine ⟨rfl, rfl, rfl, fun number => ?_⟩
  unfold NotificationState.occurrences
  rw [hunsent]
  show tally s.queue number + 0 + tally (if Fits s.pendingNotice appended budgetRemaining
    then s.pendingNotice else []) number + tally s.shown number + _ = _
  by_cases hfits : Fits s.pendingNotice appended budgetRemaining
  · rw [if_pos hfits, if_pos hfits]
    simp only [tally_nil]
    omega
  · rw [if_neg hfits, if_neg hfits]
    simp only [tally_nil]
    omega

/-- A request shows the notifications of its prompt, for the first time or again. -/
lemma request_cases (hstep : notificationStep s .request = some s') :
    s'.enqueued = s.enqueued ∧
      (∀ number, tally s'.shown number =
        tally s.shown number + (tally s.unsent number + tally s.sent number)) ∧
      (∀ number, tally s'.sent number = tally s.unsent number + tally s.sent number) ∧
      ∀ number, s'.occurrences number = s.occurrences number + tally s.sent number := by
  simp only [notificationStep] at hstep
  split at hstep <;> cases hstep
  rename_i notices attempts hphase
  have hshown : ∀ number, tally
      (NotificationState.shown { s with
        phase := .prompt notices (attempts + 1), requests := notices :: s.requests }) number =
      tally s.shown number + tally notices number := by
    intro number
    show tally (notices :: s.requests).flatten number = _
    rw [List.flatten_cons, tally_append, Nat.add_comm]
    rfl
  have hsplit : ∀ number, tally s.unsent number + tally s.sent number =
      tally notices number := by
    intro number
    cases attempts with
    | zero => simp [NotificationState.unsent, NotificationState.sent, hphase]
    | succ attempts => simp [NotificationState.unsent, NotificationState.sent, hphase]
  refine ⟨rfl, fun number => ?_, fun number => ?_, fun number => ?_⟩
  · rw [hshown, hsplit]
  · rw [hsplit]
    rfl
  · unfold NotificationState.occurrences
    rw [hshown]
    show tally s.queue number + tally s.pendingNotice number + 0 + _ = _
    have := hsplit number
    omega

/-- A turn that ends gives up a prompt that was not sent. -/
lemma endTurn_cases (hstep : notificationStep s .endTurn = some s') :
    s'.enqueued = s.enqueued ∧ s'.shown = s.shown ∧ s'.sent = [] ∧
      ∀ number, s'.occurrences number + tally s.unsent number = s.occurrences number := by
  simp only [notificationStep] at hstep
  split at hstep <;> cases hstep
  refine ⟨rfl, rfl, rfl, fun number => ?_⟩
  unfold NotificationState.occurrences
  show tally s.queue number + tally s.pendingNotice number + 0 + tally s.shown number + _ = _
  omega

lemma respond_cases (hstep : notificationStep s .respond = some s') :
    s'.enqueued = s.enqueued ∧ s'.shown = s.shown ∧ s'.sent = [] ∧
      ∀ number, s'.occurrences number = s.occurrences number := by
  simp only [notificationStep] at hstep
  split at hstep <;> cases hstep
  rename_i notices attempts hphase
  have hunsent : s.unsent = [] := by simp [NotificationState.unsent, hphase]
  refine ⟨rfl, rfl, rfl, fun number => ?_⟩
  unfold NotificationState.occurrences
  rw [hunsent]
  rfl

/-! ### What a run keeps -/

lemma tidy_step (h : Tidy s) (hstep : notificationStep s move = some s') : Tidy s' := by
  cases move with
  | enqueue notification =>
    cases hstep
    refine ⟨fun number hnumber => ?_, h.sent⟩
    have hfresh : s.enqueued + 1 ≤ number := hnumber
    rw [occurrences_enqueue, h.fresh number (by omega), if_neg (by omega)]
  | beforeTurnStart =>
    obtain ⟨henqueued, hshown, hsent, hoccurs⟩ := beforeTurnStart_cases hstep
    refine ⟨fun number hnumber => ?_, fun number => by rw [hsent]; exact Nat.zero_le _⟩
    have hfresh := h.fresh number (by omega)
    have := hoccurs number
    omega
  | beforePromptBuild appended budgetRemaining =>
    obtain ⟨henqueued, hshown, hsent, hoccurs⟩ := beforePromptBuild_cases hstep
    refine ⟨fun number hnumber => ?_, fun number => by rw [hsent]; exact Nat.zero_le _⟩
    have hfresh := h.fresh number (by omega)
    have := hoccurs number
    omega
  | request =>
    obtain ⟨henqueued, hshown, hsent, hoccurs⟩ := request_cases hstep
    refine ⟨fun number hnumber => ?_, fun number => ?_⟩
    · have hfresh := h.fresh number (by omega)
      have hrepeat := h.sent number
      have hagain := hoccurs number
      have hzero : tally s.shown number = 0 := by
        unfold NotificationState.occurrences at hfresh
        omega
      omega
    · have := hshown number
      have := hsent number
      omega
  | respond =>
    obtain ⟨henqueued, hshown, hsent, hoccurs⟩ := respond_cases hstep
    refine ⟨fun number hnumber => ?_, fun number => by rw [hsent]; exact Nat.zero_le _⟩
    rw [hoccurs number]
    exact h.fresh number (by omega)
  | endTurn =>
    obtain ⟨henqueued, hshown, hsent, hoccurs⟩ := endTurn_cases hstep
    refine ⟨fun number hnumber => ?_, fun number => by rw [hsent]; exact Nat.zero_le _⟩
    have hfresh := h.fresh number (by omega)
    have := hoccurs number
    omega

lemma delivered_step (h : Tidy s) (hdelivered : Delivered s) (hkeeps : Keeps s move)
    (hstep : notificationStep s move = some s') : Delivered s' := by
  cases move with
  | enqueue notification =>
    cases hstep
    intro number hnumber
    have hlt : number < s.enqueued + 1 := hnumber
    rw [occurrences_enqueue]
    by_cases hnew : s.enqueued = number
    · rw [if_pos hnew, h.fresh number (by omega)]
    · rw [if_neg hnew, hdelivered number (by omega)]
  | beforeTurnStart =>
    obtain ⟨henqueued, -, -, hoccurs⟩ := beforeTurnStart_cases hstep
    intro number hnumber
    rw [henqueued] at hnumber
    have hone := hdelivered number hnumber
    have hlost := hoccurs number
    rcases hkeeps with hqueue | hpending
    · rw [if_pos hqueue] at hlost
      omega
    · rw [hpending, tally_nil, ite_self] at hlost
      omega
  | beforePromptBuild appended budgetRemaining =>
    obtain ⟨henqueued, -, -, hoccurs⟩ := beforePromptBuild_cases hstep
    intro number hnumber
    rw [henqueued] at hnumber
    have hone := hdelivered number hnumber
    have hlost := hoccurs number
    rcases hkeeps with hpending | hfits
    · rw [hpending, tally_nil, ite_self] at hlost
      omega
    · rw [if_pos hfits] at hlost
      omega
  | request =>
    obtain ⟨henqueued, -, -, hoccurs⟩ := request_cases hstep
    intro number hnumber
    rw [henqueued] at hnumber
    have hsent : s.sent = [] := hkeeps
    rw [hoccurs number, hsent, tally_nil, Nat.add_zero]
    exact hdelivered number hnumber
  | respond =>
    obtain ⟨henqueued, -, -, hoccurs⟩ := respond_cases hstep
    intro number hnumber
    rw [henqueued] at hnumber
    rw [hoccurs number]
    exact hdelivered number hnumber
  | endTurn =>
    obtain ⟨henqueued, -, -, hoccurs⟩ := endTurn_cases hstep
    intro number hnumber
    rw [henqueued] at hnumber
    have hunsent : s.unsent = [] := hkeeps
    have hlost := hoccurs number
    rw [hunsent, tally_nil, Nat.add_zero] at hlost
    rw [hlost]
    exact hdelivered number hnumber

/-- A notification is nowhere any more, or was shown twice. -/
def Broken (s : NotificationState) : Prop :=
  ∃ number < s.enqueued, s.occurrences number = 0 ∨ 2 ≤ tally s.shown number

lemma Broken.not_delivered (h : Broken s) : ¬ Delivered s := by
  rintro hdelivered
  obtain ⟨number, hnumber, hlost | htwice⟩ := h
  · exact absurd ((hdelivered number hnumber).symm.trans hlost) (by decide)
  · have hone := hdelivered number hnumber
    unfold NotificationState.occurrences at hone
    omega

/-- What is lost stays lost, and what was shown twice stays so. -/
lemma Broken.step (h : Broken s) (htidy : Tidy s) (hstep : notificationStep s move = some s') :
    Broken s' := by
  obtain ⟨number, hnumber, hbroken⟩ := h
  have hcases : s.enqueued ≤ s'.enqueued ∧ tally s.shown number ≤ tally s'.shown number ∧
      (s.occurrences number = 0 → s'.occurrences number = 0) := by
    cases move with
    | enqueue notification =>
      cases hstep
      refine ⟨Nat.le_succ _, Nat.le_refl _, fun hzero => ?_⟩
      rw [occurrences_enqueue, hzero, if_neg (by omega)]
    | beforeTurnStart =>
      obtain ⟨henqueued, hshown, -, hoccurs⟩ := beforeTurnStart_cases hstep
      have := hoccurs number
      exact ⟨by omega, by rw [hshown], fun hzero => by omega⟩
    | beforePromptBuild appended budgetRemaining =>
      obtain ⟨henqueued, hshown, -, hoccurs⟩ := beforePromptBuild_cases hstep
      have := hoccurs number
      exact ⟨by omega, by rw [hshown], fun hzero => by omega⟩
    | request =>
      obtain ⟨henqueued, hshown, -, hoccurs⟩ := request_cases hstep
      have hsent := htidy.sent number
      have hshown := hshown number
      have hoccurs := hoccurs number
      refine ⟨by omega, by omega, fun hzero => ?_⟩
      unfold NotificationState.occurrences at hzero hoccurs ⊢
      omega
    | respond =>
      obtain ⟨henqueued, hshown, -, hoccurs⟩ := respond_cases hstep
      exact ⟨by omega, by rw [hshown], fun hzero => by rw [hoccurs number, hzero]⟩
    | endTurn =>
      obtain ⟨henqueued, hshown, -, hoccurs⟩ := endTurn_cases hstep
      have := hoccurs number
      exact ⟨by omega, by rw [hshown], fun hzero => by omega⟩
  obtain ⟨henqueued, hshown, hzero⟩ := hcases
  refine ⟨number, by omega, ?_⟩
  rcases hbroken with hlost | htwice
  · exact .inl (hzero hlost)
  · exact .inr (by omega)

/-- A notification that occurs was pushed. -/
lemma Tidy.lt_enqueued (h : Tidy s) (hpos : 0 < s.occurrences number) : number < s.enqueued := by
  by_contra hge
  rw [h.fresh number (Nat.le_of_not_lt hge)] at hpos
  exact absurd hpos (Nat.lt_irrefl 0)

/-- The first move that does not keep the notifications breaks the delivery. -/
lemma broken_of_not_keeps (htidy : Tidy s) (hdelivered : Delivered s) (hkeeps : ¬ Keeps s move)
    (hstep : notificationStep s move = some s') : Broken s' := by
  cases move with
  | enqueue notification => exact absurd trivial hkeeps
  | respond => exact absurd trivial hkeeps
  | beforeTurnStart =>
    obtain ⟨henqueued, -, -, hoccurs⟩ := beforeTurnStart_cases hstep
    obtain ⟨hqueue, hpending⟩ := not_or.mp hkeeps
    obtain ⟨number, hpos⟩ := exists_tally_pos hpending
    have hlost := hoccurs number
    rw [if_neg hqueue] at hlost
    have hnumber : number < s.enqueued := htidy.lt_enqueued (by omega)
    have hone := hdelivered number hnumber
    exact ⟨number, by omega, .inl (by omega)⟩
  | beforePromptBuild appended budgetRemaining =>
    obtain ⟨henqueued, -, -, hoccurs⟩ := beforePromptBuild_cases hstep
    obtain ⟨hpending, hfits⟩ := not_or.mp hkeeps
    obtain ⟨number, hpos⟩ := exists_tally_pos hpending
    have hlost := hoccurs number
    rw [if_neg hfits] at hlost
    have hnumber : number < s.enqueued := htidy.lt_enqueued (by omega)
    have hone := hdelivered number hnumber
    exact ⟨number, by omega, .inl (by omega)⟩
  | request =>
    obtain ⟨henqueued, hshown, -, hoccurs⟩ := request_cases hstep
    obtain ⟨number, hpos⟩ := exists_tally_pos hkeeps
    have hsent := htidy.sent number
    have hagain := hshown number
    have hnumber : number < s.enqueued := by
      refine htidy.lt_enqueued ?_
      unfold NotificationState.occurrences
      omega
    exact ⟨number, by omega, .inr (by omega)⟩
  | endTurn =>
    obtain ⟨henqueued, -, -, hoccurs⟩ := endTurn_cases hstep
    obtain ⟨number, hpos⟩ := exists_tally_pos hkeeps
    have hlost := hoccurs number
    have hnumber : number < s.enqueued := htidy.lt_enqueued (by omega)
    have hone := hdelivered number hnumber
    exact ⟨number, by omega, .inl (by omega)⟩

end Steps

/-! ### The claim and its condition -/

lemma delivered_init : Delivered {} := fun number hnumber => absurd hnumber (Nat.not_lt_zero number)

/-- A run delivers every notification exactly if each of its moves keeps them. -/
theorem delivered_iff {moves : List NotificationMove} {s : NotificationState}
    (hrun : run notificationStep {} moves = some s) :
    Delivered s ↔ Along notificationStep Keeps {} moves := by
  constructor
  · intro hdelivered
    by_contra halong
    obtain ⟨pre, move, post, u, hmoves, hpre, hkept, hkeeps⟩ := exists_first_of_not_along halong
    rw [hmoves] at hrun
    obtain ⟨u', hu, hrest⟩ := run_append_eq_some.mp hrun
    obtain rfl := Option.some.inj (hpre.symm.trans hu)
    obtain ⟨v, hstep, hpost⟩ := run_cons_eq_some.mp hrest
    have htidy : Tidy u := run_invariant Tidy (fun _ _ _ h hs => tidy_step h hs) tidy_init hpre
    have hbefore : Tidy u ∧ Delivered u :=
      run_invariant_of_along (fun s => Tidy s ∧ Delivered s)
        (fun _ _ _ h hP hs => ⟨tidy_step h.1 hs, delivered_step h.1 h.2 hP hs⟩)
        ⟨tidy_init, delivered_init⟩ hkept hpre
    have hbroken := broken_of_not_keeps htidy hbefore.2 hkeeps hstep
    have hend : Tidy s ∧ Broken s :=
      run_invariant (fun s => Tidy s ∧ Broken s)
        (fun _ _ _ h hs => ⟨tidy_step h.1 hs, h.2.step h.1 hs⟩)
        ⟨tidy_step htidy hstep, hbroken⟩ hpost
    exact hend.2.not_delivered hdelivered
  · intro halong
    have hend : Tidy s ∧ Delivered s :=
      run_invariant_of_along (fun s => Tidy s ∧ Delivered s)
        (fun _ _ _ h hP hs => ⟨tidy_step h.1 hs, delivered_step h.1 h.2 hP hs⟩)
        ⟨tidy_init, delivered_init⟩ halong hrun
    exact hend.2

def finishedNotice (jobId : Char) : SubagentNotification where
  jobId := [jobId]
  subSessionId := []
  status := "finished".toList
  summary := []

/-- A notification goes through a turn into the request of its prompt, which has just room for
it. -/
def shownOnce : List NotificationMove :=
  [.enqueue (finishedNotice 'a'), .beforeTurnStart,
    .beforePromptBuild []
      (estTokens (noticeText [{ number := 0, notification := finishedNotice 'a' }] ++ [])),
    .request, .respond, .endTurn]

theorem delivered_iff_shownOnce :
    ∃ s, run notificationStep {} shownOnce = some s ∧ s.shown.map Queued.number = [0] ∧
      (Delivered s ↔ Along notificationStep Keeps {} shownOnce) := by
  have hrun : run notificationStep {} shownOnce = some
      { enqueued := 1, requests := [[{ number := 0, notification := finishedNotice 'a' }]] } := by
    simp [shownOnce, notificationStep, Fits]
  exact ⟨_, hrun, rfl, delivered_iff hrun⟩

/-- A turn that is cancelled before its prompt is built, and a turn that takes the next
notification. -/
theorem not_delivered :
    ¬ ∀ (moves : List NotificationMove) (s : NotificationState),
      run notificationStep {} moves = some s → Delivered s := by
  intro hclaim
  have hlost : (run notificationStep {} [.enqueue (finishedNotice 'a'), .beforeTurnStart, .endTurn,
      .enqueue (finishedNotice 'b'), .beforeTurnStart]).map
        (fun s => (s.enqueued, s.occurrences 0)) = some (2, 0) := by
    decide +kernel
  obtain ⟨s, hrun, hs⟩ := Option.map_eq_some_iff.mp hlost
  obtain ⟨henqueued, hzero⟩ := Prod.mk.inj hs
  have hone := hclaim _ s hrun 0 (by omega)
  omega

end RustyClaw.Subagent.Notification
