import RustyClaw.Core.Energy

/-!
# Fresh energy in autopilot

A run in autopilot whose energy is used up counts the completed items of `TODOS.md`.  When there are
more than at the last refill, or at the beginning of the step, it gets fresh energy, and the count is
what has to be exceeded next.  Whatever happens to the file between two counts, a refill needs a
larger count than every refill before it, so what is done, undone and done again pays once.

`iterations_le` is the bound on the iterations of a step; `Paid` is the invariant it rests on.
-/

namespace RustyClaw.AgentLoop

open Context Glyph Transition
open Json hiding str

/-! ## The todos -/

/-- What follows a bullet with a box at the beginning of a text (`[-*]\s*\[.\]`). -/
def behindBox (mark : Char → Bool) : List Char → Option (List Char)
  | [] => none
  | c :: s =>
    if c = '-' ∨ c = '*' then
      match s.dropWhile isWhitespace with
      | '[' :: d :: ']' :: rest => if mark d then some rest else none
      | _ => none
    else none

/-- `find_iter` of such bullets, counted; `skip` characters belong to the bullet before. -/
def countBoxes (mark : Char → Bool) : Nat → List Char → Nat
  | _, [] => 0
  | skip + 1, _ :: s => countBoxes mark skip s
  | 0, c :: s =>
    match behindBox mark (c :: s) with
    | some rest => countBoxes mark (s.length - rest.length) s + 1
    | none => countBoxes mark 0 s

/-- `count_todos_status`: the completed and the uncompleted items; `none` when the file cannot be
read. -/
def countTodosStatus (content : Option (List Char)) : Nat × Nat :=
  let content := content.getD []
  (countBoxes (fun c => c = 'x' || c = 'X') 0 content, countBoxes isWhitespace 0 content)

example : countTodosStatus (some "- [x] a\n* [ ] b\n-[X] c".toList) = (2, 1) := by decide

/-! ## What is read and what is refilled -/

/-- The number of completed items that comes with a label. -/
def Label.completedTodos : Label → Option Nat
  | .call _ completed | .checkLoopGuards completed _ => some completed
  | _ => none

/-- The counts are those of the contents of the file; the content changes with every step. -/
def CountsOf (contents : Nat → Option (List Char)) (labels : List Label) : Prop :=
  ∀ entry ∈ labels.zipIdx, ∀ completed ∈ entry.1.completedTodos,
    completed = (countTodosStatus (contents entry.2)).1

/-- The head of the loop counts the items only when the energy is used up. -/
def countRead (s : AgentState) : Label → Option Nat
  | .checkLoopGuards completed _ =>
    if s.cancelled = false ∧ s.energyPoints ≤ 1 then some completed else none
  | _ => none

/-- The count for which fresh energy is given. -/
def refill (s : AgentState) : Label → Option Nat
  | .summaryDone _ _ _ _ =>
    match s.stage with
    | .summarizing completed => completed
    | _ => none
  | _ => none

/-! ## The invariant -/

/-- The energy that was there at the beginning or was given for the baseline that is reached. -/
def given (n b base : Nat) : Nat := n + initialEnergy * (base - b)

/-- The baseline lies between the first one and the bound on the counts. -/
def Between (b bound : Nat) (s : AgentState) : Prop :=
  b ≤ s.autopilotTodosCompletedCount ∧ s.autopilotTodosCompletedCount ≤ bound

/-- `k` iterations, and those for which there is energy, are paid for. -/
def Paid (n b bound k : Nat) (s : AgentState) : Prop :=
  let paid := given n b s.autopilotTodosCompletedCount
  match s.stage with
  | .idle | .acquired | .returned _ => k ≤ given n b bound
  | .preparing => Between b bound s ∧ 1 ≤ s.energyPoints ∧ k + s.energyPoints ≤ paid
  | .reporting completed | .summarizing completed => Between b bound s ∧ k ≤ paid ∧
    ∀ c ∈ completed, s.autopilotTodosCompletedCount < c ∧ c ≤ bound
  | _ => Between b bound s ∧ k + (s.energyPoints - 1) ≤ paid

section Runs

variable {cfg : AgentConfig} {s s' : AgentState} {label : Label} {labels : List Label}
  {n b bound k : Nat}

lemma given_mono {base base' : Nat} (h : base ≤ base') : given n b base ≤ given n b base' :=
  Nat.add_le_add_left (Nat.mul_le_mul_left _ (Nat.sub_le_sub_right h b)) n

/-- A larger count is worth fresh energy. -/
lemma given_add_le {base c : Nat} (hb : b ≤ base) (h : base < c) :
    given n b base + initialEnergy ≤ given n b c := by
  unfold given initialEnergy
  omega

lemma paid_iff_of_iterating (h : s.stage.iterating = true) : Paid n b bound k s ↔
    Between b bound s ∧ k + (s.energyPoints - 1) ≤ given n b s.autopilotTodosCompletedCount := by
  unfold Paid
  generalize s.stage = stage at h
  cases stage <;> first | exact Iff.rfl | cases h

lemma Paid.of_eq (h : Paid n b bound k s) (hstage : s'.stage = s.stage) (henergy : SameEnergy s s') :
    Paid n b bound k s' := by
  unfold Paid Between at h ⊢
  rwa [hstage, henergy.1, henergy.2]

/-- What was paid for is paid for when the step has returned. -/
lemma Paid.le_given (h : Paid n b bound k s) : k ≤ given n b bound := by
  have hle : ∀ {j : Nat}, Between b bound s → j ≤ given n b s.autopilotTodosCompletedCount →
      j ≤ given n b bound := fun hbetween hj => hj.trans (given_mono hbetween.2)
  unfold Paid at h
  dsimp only at h
  split at h
  · exact h
  · exact h
  · exact h
  · exact hle h.1 ((Nat.le_add_right _ _).trans h.2.2)
  · exact hle h.1 h.2.1
  · exact hle h.1 h.2.1
  · exact hle h.1 ((Nat.le_add_right _ _).trans h.2)

lemma paid_beginStep (hautopilot : cfg.isAutopilot = true) (hbound : b ≤ bound) (s : AgentState)
    (goal : List Char) : Paid cfg.initialEnergyBudget b bound 0 (beginStep cfg s goal b) := by
  unfold beginStep
  dsimp only
  split
  · exact Nat.zero_le _
  · split
    · exact Nat.zero_le _
    · refine ⟨⟨Nat.le_refl b, hbound⟩, ?_⟩
      show 0 + (cfg.initialEnergyBudget - 1) ≤ cfg.initialEnergyBudget + initialEnergy * (b - b)
      omega

/-- Every step keeps the account when the counts that are read are bounded. -/
lemma Paid.step (h : Paid n b bound k s) (hread : ∀ count ∈ countRead s label, count ≤ bound)
    (hcall : label.isCall = false) (hstep : agentStep cfg s label = some s') :
    Paid n b bound (k + if label.isIteration then 1 else 0) s' := by
  cases paceMove_of_step hstep with
  | outside _ _ hlabel hiteration henergy hchecked hstage =>
    rw [hiteration, if_neg Bool.false_ne_true]
    exact h.of_eq hstage henergy
  | acquire _ hidle henergy hstage =>
    simp only [Paid, hstage]
    exact h.le_given
  | call goal completed => cases hcall
  | decided decision goal _ hs henergy hchecked hstage =>
    obtain ⟨goal', hstage⟩ | hstage := hstage
    · simp only [Paid, hs] at h
      simp only [Paid, Between, hstage, henergy.1, henergy.2]
      exact h
    · simp only [Paid, hstage]
      exact h.le_given
  | started turnId loaded taskId goal _ hs henergy hchecked hstage =>
    simp only [Paid, hs] at h
    simp only [Paid, Between, hstage, henergy.1, henergy.2]
    exact h
  | stopped completed written _ hs hcancelled henergy hchecked hstage =>
    simp only [Paid, hstage]
    exact h.le_given
  | spent completed written _ hs hcancelled hleft henergy hbase hchecked hstage =>
    simp only [Paid, hs] at h
    simp only [Paid, Between, hstage, henergy, hbase]
    exact ⟨h.1, by omega, h.2⟩
  | usedUp completed written _ hs hcancelled hleft henergy hbase hchecked hstage =>
    simp only [Paid, hs] at h
    simp only [Paid, Between, hstage, hbase]
    refine ⟨h.1, (Nat.le_add_right _ _).trans h.2, fun c hc => ?_⟩
    split at hc
    · next haudit =>
      obtain rfl := Option.mem_some_iff.mp hc
      refine ⟨haudit.2, hread _ ?_⟩
      rw [countRead, if_pos ⟨hcancelled, hleft⟩]
      rfl
    · cases hc
  | reported completed _ hs henergy hchecked hstage =>
    simp only [Paid, hs] at h
    simp only [Paid, Between, hstage, henergy.2]
    exact h
  | refilled completed summary written archived uuid _ hs henergy hbase hchecked hstage =>
    simp only [Paid, hs] at h
    obtain ⟨hbetween, hpaid, hcount⟩ := h
    obtain ⟨hmore, hbounded⟩ := hcount completed rfl
    simp only [Paid, Between, hstage, henergy, hbase]
    refine ⟨⟨hbetween.1.trans (Nat.le_of_lt hmore), hbounded⟩, by decide, ?_⟩
    exact (Nat.add_le_add_right hpaid _).trans (given_add_le hbetween.1 hmore)
  | depleted summary written archived uuid _ hs henergy hchecked hstage =>
    simp only [Paid, hstage]
    exact h.le_given
  | compacted numTurns archived uuid _ hs hunchecked henergy hchecked hstage =>
    exact h.of_eq (hstage.trans hs.symm) henergy
  | requested tools _ hs henergy hchecked hstage =>
    simp only [Paid, hs] at h
    obtain ⟨hbetween, hleft, hpaid⟩ := h
    simp only [Paid, Between, hstage, henergy.1, henergy.2]
    refine ⟨hbetween, ?_⟩
    show k + 1 + (s.energyPoints - 1) ≤ _
    omega
  | proceeded _ _ hproceeds =>
    rw [hproceeds.isIteration, if_neg Bool.false_ne_true, Nat.add_zero]
    obtain hiterating | hguards | ⟨result, hreturned, -⟩ := hproceeds.stage
    · rw [paid_iff_of_iterating hproceeds.iterating] at h
      rw [paid_iff_of_iterating hiterating, Between, hproceeds.energy.1, hproceeds.energy.2]
      exact h
    · rw [paid_iff_of_iterating hproceeds.iterating] at h
      simp only [Paid, Between, hguards, hproceeds.energy.1, hproceeds.energy.2]
      exact h
    · simp only [Paid, hreturned]
      exact h.le_given

/-! ## Refills -/

/-- What is about to be reported is more than the baseline. -/
def ReportsMore (s : AgentState) : Prop :=
  ∀ completed, s.stage = .reporting (some completed) ∨ s.stage = .summarizing (some completed) →
    s.autopilotTodosCompletedCount < completed

lemma refill_of_isOutside (h : label.isOutside = true) : refill s label = none := by
  cases label <;> first | rfl | cases h

lemma refill_of_iterating (h : s.stage.iterating = true) : refill s label = none := by
  unfold refill
  split
  · split
    · next hstage =>
      rw [hstage] at h
      cases h
    · rfl
  · rfl

/-- A step without a refill keeps the baseline. -/
lemma refill_step_of_none (hrefill : refill s label = none) (henergy : SameEnergy s s')
    (hreports : ReportsMore s') : ReportsMore s' ∧
      (refill s label).getD s.autopilotTodosCompletedCount = s'.autopilotTodosCompletedCount ∧
        ∀ count ∈ refill s label, s.autopilotTodosCompletedCount < count := by
  rw [hrefill]
  exact ⟨hreports, henergy.2.symm, fun _ hcount => absurd hcount (Option.not_mem_none _)⟩

/-- Fresh energy is given for a count above the baseline, which becomes the baseline. -/
lemma refill_step (h : ReportsMore s) (hcall : label.isCall = false)
    (hstep : agentStep cfg s label = some s') : ReportsMore s' ∧
      (refill s label).getD s.autopilotTodosCompletedCount = s'.autopilotTodosCompletedCount ∧
        ∀ count ∈ refill s label, s.autopilotTodosCompletedCount < count := by
  cases paceMove_of_step hstep with
  | outside _ _ hlabel hiteration henergy hchecked hstage =>
    refine refill_step_of_none (refill_of_isOutside hlabel) henergy ?_
    rwa [ReportsMore, hstage, henergy.2]
  | acquire _ hidle henergy hstage =>
    exact refill_step_of_none rfl henergy (by simp [ReportsMore, hstage])
  | call goal completed => cases hcall
  | decided decision goal _ hs henergy hchecked hstage =>
    refine refill_step_of_none rfl henergy ?_
    obtain ⟨goal', hstage⟩ | hstage := hstage <;> simp [ReportsMore, hstage]
  | started turnId loaded taskId goal _ hs henergy hchecked hstage =>
    exact refill_step_of_none rfl henergy (by simp [ReportsMore, hstage])
  | stopped completed written _ hs hcancelled henergy hchecked hstage =>
    exact refill_step_of_none rfl henergy (by simp [ReportsMore, hstage])
  | spent completed written _ hs hcancelled hleft henergy hbase hchecked hstage =>
    exact ⟨by simp [ReportsMore, hstage], hbase.symm, fun _ hcount => nomatch hcount⟩
  | usedUp completed written _ hs hcancelled hleft henergy hbase hchecked hstage =>
    refine ⟨?_, hbase.symm, fun _ hcount => nomatch hcount⟩
    rintro count (hcount | hcount)
    · rw [hstage, Stage.reporting.injEq] at hcount
      split at hcount
      · next haudit =>
        obtain rfl := Option.some.inj hcount
        rw [hbase]
        exact haudit.2
      · cases hcount
    · rw [hstage] at hcount
      cases hcount
  | reported completed _ hs henergy hchecked hstage =>
    refine refill_step_of_none rfl henergy ?_
    rintro count (hcount | hcount)
    · rw [hstage] at hcount
      cases hcount
    · rw [hstage, Stage.summarizing.injEq] at hcount
      rw [henergy.2]
      exact h count (.inl (hs.trans (congrArg Stage.reporting hcount)))
  | refilled completed summary written archived uuid _ hs henergy hbase hchecked hstage =>
    have hrefill : refill s (.summaryDone summary written archived uuid) = some completed := by
      simp only [refill, hs]
    rw [hrefill]
    refine ⟨by simp [ReportsMore, hstage], hbase.symm, fun count hcount => ?_⟩
    obtain rfl := Option.mem_some_iff.mp hcount
    exact h _ (.inr hs)
  | depleted summary written archived uuid _ hs henergy hchecked hstage =>
    exact refill_step_of_none (by simp only [refill, hs]) henergy (by simp [ReportsMore, hstage])
  | compacted numTurns archived uuid _ hs hunchecked henergy hchecked hstage =>
    exact refill_step_of_none rfl henergy (by simp [ReportsMore, hstage])
  | requested tools _ hs henergy hchecked hstage =>
    exact refill_step_of_none rfl henergy (by simp [ReportsMore, hstage])
  | proceeded _ _ hproceeds =>
    refine refill_step_of_none (refill_of_iterating hproceeds.iterating) hproceeds.energy ?_
    obtain hiterating | hguards | ⟨result, hreturned, -⟩ := hproceeds.stage
    · rintro count (hcount | hcount) <;> rw [hcount] at hiterating <;> cases hiterating
    · simp [ReportsMore, hguards]
    · simp [ReportsMore, hreturned]

/-- The counts for which fresh energy is given go up. -/
lemma pairwise_refills (h : ReportsMore s) (hcall : ∀ label ∈ labels, label.isCall = false)
    (hrun : run (agentStep cfg) s labels = some s') :
    (s.autopilotTodosCompletedCount :: events (agentStep cfg) refill s labels).Pairwise (· < ·) := by
  induction labels generalizing s with
  | nil => exact List.pairwise_singleton _ _
  | cons label labels ih =>
    obtain ⟨t, hstep, htail⟩ := run_cons_eq_some.mp hrun
    obtain ⟨ht, hbase, hmore⟩ := refill_step h (hcall label List.mem_cons_self) hstep
    have hrest := ih ht (fun label' hmem => hcall label' (List.mem_cons_of_mem _ hmem)) htail
    rw [events_cons hstep]
    cases hrefill : refill s label with
    | none =>
      rw [hrefill] at hbase
      rw [← hbase] at hrest
      exact hrest
    | some count =>
      rw [hrefill] at hbase
      rw [← hbase] at hrest
      have hlt := hmore count hrefill
      refine List.pairwise_cons.mpr ⟨?_, hrest⟩
      intro other hother
      rcases List.mem_cons.mp hother with rfl | hother
      · exact hlt
      · exact hlt.trans ((List.pairwise_cons.mp hrest).1 other hother)

/-- When the step has returned there are no refills until the next call. -/
lemma refills_of_not_inLoop (h : s.stage.inLoop = false)
    (hcall : ∀ label ∈ labels, label.isCall = false) :
    events (agentStep cfg) refill s labels = [] := by
  induction labels generalizing s with
  | nil => rfl
  | cons label labels ih =>
    rw [events]
    cases hstep : agentStep cfg s label with
    | none => rfl
    | some t =>
      have hlabel := hcall label List.mem_cons_self
      have ht : t.stage.inLoop = false ∧ refill s label = none := by
        cases paceMove_of_step hstep with
        | outside _ _ houtside hiteration henergy hchecked hstage =>
          exact ⟨by rw [hstage, h], refill_of_isOutside houtside⟩
        | acquire _ hidle henergy hstage => exact ⟨by rw [hstage]; rfl, rfl⟩
        | call => cases hlabel
        | proceeded _ _ hproceeds =>
          rw [Stage.inLoop_of_iterating hproceeds.iterating] at h
          cases h
        | decided _ _ _ hs | started _ _ _ _ _ hs | stopped _ _ _ hs | spent _ _ _ hs
        | usedUp _ _ _ hs | reported _ _ hs | refilled _ _ _ _ _ _ hs | depleted _ _ _ _ _ hs
        | compacted _ _ _ _ hs | requested _ _ hs =>
          rw [hs] at h
          cases h
      show (refill s label).toList ++ events (agentStep cfg) refill t labels = []
      rw [ht.2, ih ht.1 fun label' hmem => hcall label' (List.mem_cons_of_mem _ hmem)]
      rfl

lemma beginStep_of_inLoop {goal : List Char} (hautopilot : cfg.isAutopilot = true)
    (h : (beginStep cfg s goal b).stage.inLoop = true) :
    (beginStep cfg s goal b).autopilotTodosCompletedCount = b ∧
      ReportsMore (beginStep cfg s goal b) := by
  unfold beginStep at h ⊢
  dsimp only at h ⊢
  split at h
  · cases h
  · split at h
    · cases h
    · next hgoal hcancelled =>
      rw [if_neg hgoal, if_neg hcancelled]
      exact ⟨if_pos hautopilot, by simp [ReportsMore]⟩

/-! ## The bound -/

/-- In autopilot a step makes at most as many iterations as it has energy, and those that the items
completed beyond the baseline are worth; every refill is for more items than the one before. -/
theorem iterations_le {goal : List Char} {contents : Nat → Option (List Char)}
    (hautopilot : cfg.isAutopilot = true) (hstage : s.stage = .acquired)
    (hcontents : CountsOf contents (.call goal b :: labels)) (hbound : b ≤ bound)
    (hcall : ∀ label ∈ labels, label.isCall = false)
    (hrun : run (agentStep cfg) s (.call goal b :: labels) = some s')
    (hread : ∀ count ∈ events (agentStep cfg) countRead s (.call goal b :: labels),
      count ≤ bound) :
    labels.countP Label.isIteration ≤
        cfg.initialEnergyBudget + initialEnergy * (bound - (countTodosStatus (contents 0)).1) ∧
      ((countTodosStatus (contents 0)).1 ::
        events (agentStep cfg) refill s (.call goal b :: labels)).Pairwise (· < ·) := by
  have hb : b = (countTodosStatus (contents 0)).1 :=
    hcontents (.call goal b, 0) List.mem_cons_self b rfl
  rw [← hb]
  obtain ⟨t, hbegin, htail⟩ := run_cons_eq_some.mp hrun
  have ht : t = beginStep cfg s goal b := by
    simp only [agentStep, stageStep, hstage] at hbegin
    exact (Option.some.inj hbegin).symm
  constructor
  · have hpaid : Paid cfg.initialEnergyBudget b bound 0 t :=
      ht ▸ paid_beginStep hautopilot hbound s goal
    rw [events_cons hbegin] at hread
    have halong := along_of_forall_events htail fun count hcount =>
      hread count (List.mem_append_right _ hcount)
    have hend := run_counted (Paid cfg.initialEnergyBudget b bound) Label.isIteration
      (fun _ _ _ _ hs hlabel hstep => hs.step hlabel.1 hlabel.2 hstep) hpaid
      (halong.and (along_of_forall hcall t)) htail
    rw [Nat.zero_add] at hend
    exact hend.le_given
  · rw [events_cons hbegin]
    show (b :: events (agentStep cfg) refill t labels).Pairwise (· < ·)
    by_cases hloop : t.stage.inLoop = true
    · subst ht
      obtain ⟨hbase, hreports⟩ := beginStep_of_inLoop hautopilot hloop
      have hrefills := pairwise_refills hreports hcall htail
      rwa [hbase] at hrefills
    · rw [refills_of_not_inLoop (eq_false_of_ne_true hloop) hcall]
      exact List.pairwise_singleton _ _

end Runs

/-- The item is completed while the first energy point is used up. -/
def oneItem (i : Nat) : Option (List Char) :=
  if i < 2 then some "- [ ] a".toList else some "- [x] a".toList

def refilledRun : List Label :=
  [.startTurn "turn".toList .empty "task".toList, .checkLoopGuards 1 .whole, .requestSummary,
    .summaryDone "One done".toList .whole (fun _ => .whole) [],
    .maybeCompactHistory none (fun _ => .whole) [], .request []]

/-- An autopilot with one energy point. -/
def oneRefillConfig : AgentConfig := (plainConfig true).setInitialEnergyBudget 1

theorem iterations_le_refilledRun :
    refilledRun.countP Label.isIteration ≤ 1 + initialEnergy * (1 - 0) ∧
      (0 :: events (agentStep oneRefillConfig) refill acquiredState
        (.call "Fix it".toList 0 :: refilledRun)).Pairwise (· < ·) := by
  have hcontents : CountsOf oneItem (.call "Fix it".toList 0 :: refilledRun) := by
    unfold CountsOf
    decide
  have hread : ∀ count ∈ events (agentStep oneRefillConfig) countRead acquiredState
      (.call "Fix it".toList 0 :: refilledRun), count ≤ 1 := by decide
  exact iterations_le rfl rfl hcontents (Nat.zero_le 1) (by decide) rfl hread

end RustyClaw.AgentLoop
