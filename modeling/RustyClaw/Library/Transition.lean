import Mathlib.Data.List.Basic

/-!
# Partial labelled transitions and their runs

A *partial labelled transition* is a function `step : σ → ι → Option σ`: in state `s` the
label `i` is either disabled (`none`) or leads to exactly one successor.  Whatever the
environment decides (the order in which tasks are scheduled, the answer of a service) is part
of the label, so a run is a list of labels and an interleaving is nothing but the order of
that list.

The file supplies exact finite runs (`run`), composition, and the induction rules the
developments over such systems use:

* `run_invariant`: what every step preserves holds at the end of every run;
* `run_invariant_of_along`: the same, when the steps are only known to preserve it in states
  and under labels that meet a side condition met *along* the run;
* `run_counted`: the same for an invariant about how many labels of a kind have been taken;
* `length_le_of_measure`: how long a run can be whose labels each lower a measure;
* `forall_states_iff_along`: a property of all states of a run is a side condition met along it,
  when each step preserves the property exactly under this condition;
* `abs_eq_foldl_iff_along`: a run refines the operations observed along it, when each step does;
* `along_iff_forall_split`: a side condition holds along a run exactly when it holds at every
  step the run can be split at.
-/

namespace Transition

variable {σ ι : Type*} (step : σ → ι → Option σ)

/-- Execute the labels in order; `none` as soon as one of them is disabled. -/
def run : σ → List ι → Option σ
  | s, [] => some s
  | s, i :: is => (step s i).bind fun s' => run s' is

/-- The side condition `P` holds at every step taken by the run of `is` from `s`. -/
def Along (P : σ → ι → Prop) : σ → List ι → Prop
  | _, [] => True
  | s, i :: is => P s i ∧ ∀ s', step s i = some s' → Along P s' is

/-- What an observer of the steps writes down along a run. -/
def events {α : Type*} (observe : σ → ι → Option α) : σ → List ι → List α
  | _, [] => []
  | s, i :: is =>
    match step s i with
    | some s' => (observe s i).toList ++ events observe s' is
    | none => []

/-- `t` is reached from `s` by some run. -/
def Reachable (s t : σ) : Prop := ∃ is, run step s is = some t

variable {step}

@[simp] lemma run_nil (s : σ) : run step s [] = some s := rfl

@[simp] lemma run_cons (s : σ) (i : ι) (is : List ι) :
    run step s (i :: is) = (step s i).bind fun s' => run step s' is := rfl

lemma run_cons_eq_some {s t : σ} {i : ι} {is : List ι} :
    run step s (i :: is) = some t ↔ ∃ s', step s i = some s' ∧ run step s' is = some t := by
  simp [Option.bind_eq_some_iff]

lemma events_cons {α : Type*} {observe : σ → ι → Option α} {s s' : σ} {i : ι}
    (hi : step s i = some s') (is : List ι) :
    events step observe s (i :: is) = (observe s i).toList ++ events step observe s' is := by
  rw [events, hi]

lemma run_append (s : σ) (is js : List ι) :
    run step s (is ++ js) = (run step s is).bind fun t => run step t js := by
  induction is generalizing s with
  | nil => rfl
  | cons i is ih =>
    simp only [List.cons_append, run_cons]
    cases step s i with
    | none => rfl
    | some s' => simpa using ih s'

/-- What is written down along a run is what is observed at one of its steps. -/
lemma mem_events {α : Type*} {observe : σ → ι → Option α} {s : σ} {is : List ι} {a : α} :
    a ∈ events step observe s is ↔
      ∃ pre i post u u', is = pre ++ i :: post ∧ run step s pre = some u ∧ step u i = some u' ∧
        observe u i = some a := by
  induction is generalizing s with
  | nil => simp [events]
  | cons i is ih =>
    cases hi : step s i with
    | none =>
      rw [events, hi]
      refine iff_of_false List.not_mem_nil ?_
      rintro ⟨pre, j, post, u, u', heq, hpre, hj, -⟩
      cases pre with
      | nil =>
        cases hpre
        cases heq
        rw [hi] at hj
        cases hj
      | cons k pre =>
        cases heq
        obtain ⟨s', hk, -⟩ := run_cons_eq_some.mp hpre
        rw [hi] at hk
        cases hk
    | some s' =>
      rw [events_cons hi, List.mem_append, Option.mem_toList, ih]
      constructor
      · rintro (hnow | ⟨pre, j, post, u, u', rfl, hpre, hj, ha⟩)
        · exact ⟨[], i, is, s, s', rfl, rfl, hi, hnow⟩
        · exact ⟨i :: pre, j, post, u, u', rfl, run_cons_eq_some.mpr ⟨s', hi, hpre⟩, hj, ha⟩
      · rintro ⟨pre, j, post, u, u', heq, hpre, hj, ha⟩
        cases pre with
        | nil =>
          cases hpre
          cases heq
          exact .inl ha
        | cons k pre =>
          cases heq
          obtain ⟨s'', hk, hpre'⟩ := run_cons_eq_some.mp hpre
          obtain rfl : s' = s'' := Option.some.inj (hi.symm.trans hk)
          exact .inr ⟨pre, j, post, u, u', rfl, hpre', hj, ha⟩

lemma run_append_eq_some {s t : σ} {is js : List ι} :
    run step s (is ++ js) = some t ↔
      ∃ u, run step s is = some u ∧ run step u js = some t := by
  rw [run_append, Option.bind_eq_some_iff]

lemma Reachable.refl (s : σ) : Reachable step s s := ⟨[], rfl⟩

lemma Reachable.tail {s t u : σ} {i : ι} (h : Reachable step s t)
    (hi : step t i = some u) : Reachable step s u := by
  obtain ⟨is, his⟩ := h
  refine ⟨is ++ [i], run_append_eq_some.mpr ⟨t, his, ?_⟩⟩
  simp [hi]

lemma Along.cons {P : σ → ι → Prop} {s s' : σ} {i : ι} {is : List ι} (hP : P s i)
    (hi : step s i = some s') (h : Along step P s' is) : Along step P s (i :: is) :=
  ⟨hP, fun _ hother => Option.some.inj (hi.symm.trans hother) ▸ h⟩

lemma Along.and {P Q : σ → ι → Prop} {s : σ} {is : List ι} (hP : Along step P s is)
    (hQ : Along step Q s is) : Along step (fun s i => P s i ∧ Q s i) s is := by
  induction is generalizing s with
  | nil => trivial
  | cons i is ih => exact ⟨⟨hP.1, hQ.1⟩, fun s' hs' => ih (hP.2 s' hs') (hQ.2 s' hs')⟩

/-- What is true of every label is met along every run of them. -/
lemma along_of_forall {P : ι → Prop} {is : List ι} (h : ∀ i ∈ is, P i) (s : σ) :
    Along step (fun _ => P) s is := by
  induction is generalizing s with
  | nil => trivial
  | cons i is ih =>
    exact ⟨h i List.mem_cons_self, fun s' _ => ih (fun j hj => h j (List.mem_cons_of_mem _ hj)) s'⟩

/-- A side condition met along a run is met along its beginning. -/
lemma Along.left {P : σ → ι → Prop} {s : σ} {is js : List ι} (h : Along step P s (is ++ js)) :
    Along step P s is := by
  induction is generalizing s with
  | nil => trivial
  | cons i is ih => exact ⟨h.1, fun s' hs' => ih (h.2 s' hs')⟩

/-- A side condition met along a run is met along the rest of it. -/
lemma Along.right {P : σ → ι → Prop} {s t : σ} {is js : List ι} (h : Along step P s (is ++ js))
    (hrun : run step s is = some t) : Along step P t js := by
  induction is generalizing s with
  | nil =>
    cases hrun
    exact h
  | cons i is ih =>
    obtain ⟨s', hi, htail⟩ := run_cons_eq_some.mp hrun
    exact ih (h.2 s' hi) htail

/-- Along a run of given labels a decidable side condition can be checked. -/
instance decidableAlong (P : σ → ι → Prop) [∀ s i, Decidable (P s i)] :
    ∀ s is, Decidable (Along step P s is)
  | _, [] => isTrue trivial
  | s, i :: is =>
    match h : step s i with
    | none => decidable_of_iff (P s i) (by simp [Along, h])
    | some s' =>
      have := decidableAlong P s' is
      decidable_of_iff (P s i ∧ Along step P s' is) (by simp [Along, h])

/-- What is true of everything that is written down along a run is met at each of its steps. -/
lemma along_of_forall_events {α : Type*} {observe : σ → ι → Option α} {P : α → Prop} {s t : σ}
    {is : List ι} (hrun : run step s is = some t) (h : ∀ a ∈ events step observe s is, P a) :
    Along step (fun u i => ∀ a ∈ observe u i, P a) s is := by
  induction is generalizing s with
  | nil => trivial
  | cons i is ih =>
    obtain ⟨s', hi, htail⟩ := run_cons_eq_some.mp hrun
    rw [events_cons hi] at h
    refine .cons (fun a ha => h a (List.mem_append_left _ (Option.mem_toList.mpr ha))) hi ?_
    exact ih htail fun a ha => h a (List.mem_append_right _ ha)

/-! ## Induction rules -/

/-- What every step preserves holds at the end of every run. -/
theorem run_invariant (Inv : σ → Prop)
    (hstep : ∀ s i s', Inv s → step s i = some s' → Inv s')
    {s t : σ} {is : List ι} (hs : Inv s) (hrun : run step s is = some t) : Inv t := by
  induction is generalizing s with
  | nil =>
    cases hrun
    exact hs
  | cons i is ih =>
    obtain ⟨s', hi, htail⟩ := run_cons_eq_some.mp hrun
    exact ih (hstep s i s' hs hi) htail

/-- The invariant rule under a side condition that is met along the run. -/
theorem run_invariant_of_along (Inv : σ → Prop) {P : σ → ι → Prop}
    (hstep : ∀ s i s', Inv s → P s i → step s i = some s' → Inv s')
    {s t : σ} {is : List ι} (hs : Inv s) (hP : Along step P s is)
    (hrun : run step s is = some t) : Inv t := by
  induction is generalizing s with
  | nil =>
    cases hrun
    exact hs
  | cons i is ih =>
    obtain ⟨s', hi, htail⟩ := run_cons_eq_some.mp hrun
    exact ih (hstep s i s' hs hP.1 hi) (hP.2 s' hi) htail

/-- The invariant rule for an invariant that depends on how often labels of one kind were taken. -/
theorem run_counted (Inv : Nat → σ → Prop) (p : ι → Bool) {P : σ → ι → Prop}
    (hstep : ∀ n s i s', Inv n s → P s i → step s i = some s' → Inv (n + if p i then 1 else 0) s')
    {s t : σ} {is : List ι} {n : Nat} (hs : Inv n s) (hP : Along step P s is)
    (hrun : run step s is = some t) : Inv (n + is.countP p) t := by
  induction is generalizing s n with
  | nil =>
    cases hrun
    exact hs
  | cons i is ih =>
    obtain ⟨s', hi, htail⟩ := run_cons_eq_some.mp hrun
    have hnext := ih (hstep n s i s' hs hP.1 hi) (hP.2 s' hi) htail
    rwa [Nat.add_assoc, Nat.add_comm (if p i then 1 else 0), ← List.countP_cons] at hnext

theorem Reachable.invariant {Inv : σ → Prop}
    (hstep : ∀ s i s', Inv s → step s i = some s' → Inv s')
    {s t : σ} (hs : Inv s) (h : Reachable step s t) : Inv t := by
  obtain ⟨is, his⟩ := h
  exact run_invariant Inv hstep hs his

/-- A run of labels that each lower a measure is no longer than the measure. -/
theorem length_le_of_measure (measure : σ → Nat) {P : ι → Prop}
    (hstep : ∀ s i s', P i → step s i = some s' → measure s' < measure s)
    {s t : σ} {is : List ι} (hP : ∀ i ∈ is, P i) (hrun : run step s is = some t) :
    is.length ≤ measure s := by
  induction is generalizing s with
  | nil => exact Nat.zero_le _
  | cons i is ih =>
    obtain ⟨s', hi, htail⟩ := run_cons_eq_some.mp hrun
    have hless := hstep s i s' (hP i List.mem_cons_self) hi
    have hrest := ih (fun j hj => hP j (List.mem_cons_of_mem i hj)) htail
    rw [List.length_cons]
    exact Nat.succ_le_of_lt (Nat.lt_of_le_of_lt hrest hless)

/-- Two side conditions that agree where an invariant holds are met along the same runs. -/
theorem along_congr (Inv : σ → Prop) {P Q : σ → ι → Prop}
    (hstep : ∀ s i s', Inv s → step s i = some s' → Inv s')
    (hagree : ∀ s i, Inv s → (P s i ↔ Q s i)) {s : σ} (hs : Inv s) (is : List ι) :
    Along step P s is ↔ Along step Q s is := by
  induction is generalizing s with
  | nil => exact Iff.rfl
  | cons i is ih =>
    refine and_congr (hagree s i hs) (forall_congr' fun s' => ?_)
    exact imp_congr_right fun hi => ih (hstep s i s' hs hi)

/-- Two side conditions that agree wherever there is a step are met along the same completed
runs. -/
theorem along_congr_of_run {P Q : σ → ι → Prop} {s t : σ} {is : List ι}
    (hrun : run step s is = some t) (hagree : ∀ s i s', step s i = some s' → (P s i ↔ Q s i)) :
    Along step P s is ↔ Along step Q s is := by
  induction is generalizing s with
  | nil => exact Iff.rfl
  | cons i is ih =>
    obtain ⟨s', hi, htail⟩ := run_cons_eq_some.mp hrun
    refine and_congr (hagree s i s' hi) (forall_congr' fun s'' => imp_congr_right fun hs'' => ?_)
    obtain rfl : s' = s'' := Option.some.inj (hi.symm.trans hs'')
    exact ih htail

/-- When each step from a state with `P` leads to one exactly under a side condition, the states of a
completed run all have `P` exactly when the side condition is met along the run. -/
theorem forall_states_iff_along (Inv : σ → Prop) {P : σ → Prop} {Q : σ → ι → Prop}
    (hstep : ∀ s i s', Inv s → step s i = some s' → Inv s')
    (hagree : ∀ s i s', Inv s → P s → step s i = some s' → (P s' ↔ Q s i))
    {s t : σ} {is : List ι} (hs : Inv s) (hP : P s) (hrun : run step s is = some t) :
    (∀ pre post u, is = pre ++ post → run step s pre = some u → P u) ↔ Along step Q s is := by
  induction is generalizing s with
  | nil =>
    refine iff_of_true ?_ trivial
    intro pre post u heq hpre
    obtain ⟨rfl, -⟩ := List.append_eq_nil_iff.mp heq.symm
    exact Option.some.inj hpre ▸ hP
  | cons i is ih =>
    obtain ⟨s', hi, htail⟩ := run_cons_eq_some.mp hrun
    have hnext := hagree s i s' hs hP hi
    constructor
    · intro h
      have hP' : P s' := h [i] is s' rfl (by simp [hi])
      refine .cons (hnext.mp hP') hi ((ih (hstep s i s' hs hi) hP' htail).mp ?_)
      intro pre post u heq hpre
      exact h (i :: pre) post u (congrArg (i :: ·) heq) (run_cons_eq_some.mpr ⟨s', hi, hpre⟩)
    · rintro ⟨hQ, hrest⟩ pre post u heq hpre
      cases pre with
      | nil => exact Option.some.inj hpre ▸ hP
      | cons j pre =>
        obtain ⟨rfl, hpost⟩ := List.cons.inj heq
        obtain ⟨s'', hj, hpre'⟩ := run_cons_eq_some.mp hpre
        obtain rfl : s' = s'' := Option.some.inj (hi.symm.trans hj)
        exact (ih (hstep s i s' hs hi) (hnext.mpr hQ) htail).mpr (hrest s' hi) pre post u hpost
          hpre'

/-- **Refinement of a run.** What the states of a completed run stand for is the result of the
operations observed so far, exactly when each step does to it what is observed at the step. -/
theorem abs_eq_foldl_iff_along {α β : Type*} (abs : σ → β) (observe : σ → ι → Option α)
    (apply : β → α → β) {s t : σ} {is : List ι} (hrun : run step s is = some t) :
    (∀ pre post u, is = pre ++ post → run step s pre = some u →
        abs u = (events step observe s pre).foldl apply (abs s)) ↔
      Along step (fun u i => ∀ u', step u i = some u' →
        abs u' = (observe u i).toList.foldl apply (abs u)) s is := by
  induction is generalizing s with
  | nil =>
    refine iff_of_true ?_ trivial
    intro pre post u heq hpre
    obtain ⟨rfl, -⟩ := List.append_eq_nil_iff.mp heq.symm
    cases hpre
    rfl
  | cons i is ih =>
    obtain ⟨s', hi, htail⟩ := run_cons_eq_some.mp hrun
    constructor
    · intro h
      have hfirst : abs s' = (observe s i).toList.foldl apply (abs s) := by
        have := h [i] is s' rfl (by simp [hi])
        rwa [events_cons hi, events, List.append_nil] at this
      refine .cons (fun u' hu' => ?_) hi ((ih htail).mp ?_)
      · obtain rfl : s' = u' := Option.some.inj (hi.symm.trans hu')
        exact hfirst
      · intro pre post u heq hpre
        have := h (i :: pre) post u (congrArg (i :: ·) heq) (run_cons_eq_some.mpr ⟨s', hi, hpre⟩)
        rwa [events_cons hi, List.foldl_append, ← hfirst] at this
    · rintro ⟨hfirst, hrest⟩ pre post u heq hpre
      cases pre with
      | nil =>
        cases hpre
        rfl
      | cons j pre =>
        obtain ⟨rfl, hpost⟩ := List.cons.inj heq
        obtain ⟨s'', hj, hpre'⟩ := run_cons_eq_some.mp hpre
        obtain rfl : s' = s'' := Option.some.inj (hi.symm.trans hj)
        rw [events_cons hi, List.foldl_append, ← hfirst s' hi]
        exact (ih htail).mpr (hrest s' hi) pre post u hpost hpre'

/-- A side condition holds along a completed run exactly when it holds at every step the run
can be split at. -/
theorem along_iff_forall_split {P : σ → ι → Prop} {s t : σ} {is : List ι}
    (hrun : run step s is = some t) :
    Along step P s is ↔
      ∀ pre i post u, is = pre ++ i :: post → run step s pre = some u → P u i := by
  induction is generalizing s with
  | nil => simp [Along]
  | cons i is ih =>
    obtain ⟨s', hi, htail⟩ := run_cons_eq_some.mp hrun
    constructor
    · rintro ⟨hP, hrest⟩ pre j post u heq hpre
      cases pre with
      | nil =>
        cases hpre
        cases heq
        exact hP
      | cons k pre =>
        cases heq
        obtain ⟨s'', hk, hpre'⟩ := run_cons_eq_some.mp hpre
        obtain rfl : s' = s'' := Option.some.inj (hi.symm.trans hk)
        exact (ih htail).mp (hrest s' hi) pre j post u rfl hpre'
    · intro h
      refine ⟨h [] i is s rfl rfl, fun s'' hs'' => ?_⟩
      obtain rfl : s' = s'' := Option.some.inj (hi.symm.trans hs'')
      refine (ih htail).mpr fun pre j post u heq hpre => ?_
      exact h (i :: pre) j post u (by rw [heq]; rfl) (run_cons_eq_some.mpr ⟨s', hi, hpre⟩)

/-- The first label at which a side condition is not met. -/
lemma exists_first_of_not_along {P : σ → ι → Prop} {s : σ} {is : List ι}
    (hP : ¬ Along step P s is) :
    ∃ pre i post u, is = pre ++ i :: post ∧ run step s pre = some u ∧ Along step P s pre ∧
      ¬ P u i := by
  induction is generalizing s with
  | nil => exact absurd trivial hP
  | cons i is ih =>
    by_cases hhead : P s i
    · have htail : ∃ s', step s i = some s' ∧ ¬ Along step P s' is := by
        by_contra hnone
        push Not at hnone
        exact hP ⟨hhead, hnone⟩
      obtain ⟨s', hi, htail⟩ := htail
      obtain ⟨pre, j, post, u, rfl, hpre, halong, hfail⟩ := ih htail
      exact ⟨i :: pre, j, post, u, rfl, run_cons_eq_some.mpr ⟨s', hi, hpre⟩, .cons hhead hi halong,
        hfail⟩
    · exact ⟨[], i, is, s, rfl, rfl, trivial, hhead⟩

/-- The failing step of a run along which a side condition does not hold. -/
lemma exists_split_of_not_along {P : σ → ι → Prop} {s t : σ} {is : List ι}
    (hrun : run step s is = some t) (hP : ¬ Along step P s is) :
    ∃ pre i post u u', is = pre ++ i :: post ∧ run step s pre = some u ∧
      step u i = some u' ∧ run step u' post = some t ∧ ¬ P u i := by
  rw [along_iff_forall_split hrun] at hP
  push Not at hP
  obtain ⟨pre, i, post, u, heq, hpre, hfail⟩ := hP
  subst heq
  obtain ⟨v, hv, htail⟩ := run_append_eq_some.mp hrun
  obtain rfl : u = v := Option.some.inj (hpre.symm.trans hv)
  obtain ⟨u', hu', hpost⟩ := run_cons_eq_some.mp htail
  exact ⟨pre, i, post, u, u', rfl, hpre, hu', hpost, hfail⟩

end Transition
