import RustyClaw.Context.Evidence
import RustyClaw.Core.TaskState

/-!
# Assembling a prompt

`assemble_prompt` turns everything a prompt may contain into candidates, each with its layer and an
estimate of its tokens, spends the budget on the required ones first and then on the others in the
order of their scores, and joins what was selected in the order of the layers.  Evidence that
does not fit is replaced by a short text that says so.

The books are not kept right.  Most candidates are emitted with a header that their estimate
leaves out, the task state among them, which is part of every prompt (`not_accounted`).  And the
text that replaces evicted evidence is paid for with its own estimate but reported with the
estimate of the evidence.  `usedTokens_add_remaining` says what the report counts beyond the
budget.  What does hold is that a candidate is emitted or listed as evicted
(`emitted_or_evicted`).
-/

namespace RustyClaw.Assembler

open Glyph

/-! ## Candidates -/

inductive CandidateKind where
  | systemInstruction
  | durableMemory
  | toolSchema
  | taskStateSummary
  | evidence (evidenceId : List Char)
  | volatileTurn (turn : Nat)
  | skillContract
  | skillInstructions
  | skillStateSummary
  | executionNotices
  deriving DecidableEq, Repr

structure PromptCandidate where
  id : List Char
  kind : CandidateKind
  priorityScore : Float32
  tokenCost : Nat
  layer : Nat
  required : Bool
  content : List Char

structure AssemblyReport where
  usedTokens : Nat
  stableTokens : Nat
  volatileTokens : Nat
  totalCandidates : Nat
  evictedItems : List (List Char)
  refreshedEvidence : Nat

/-- The arguments of `assemble_prompt`. -/
structure AssemblerInput where
  systemStatic : List Char
  toolSchemas : List Char
  durableMemory : Option (List Char) := none
  skillContract : Option (List Char) := none
  skillInstructions : Option (List Char) := none
  skillStateSummary : Option (List Char) := none
  executionNotices : Option (List Char) := none
  taskState : TaskStateSnapshot
  activeEvidence : List Evidence := []
  transcriptTail : List (List Char) := []

def estTokens (text : List Char) : Nat := utf8Len text / 4 + 1

/-- A section of the prompt that is left out when it is blank. -/
def optionalSection (id : String) (kind : CandidateKind) (priorityScore : Float32) (layer : Nat)
    (required : Bool) (header : String) (text : List Char) : List PromptCandidate :=
  if trim text = [] then []
  else
    [{ id := id.toList
       kind := kind
       priorityScore := priorityScore
       tokenCost := estTokens text
       layer := layer
       required := required
       content := header.toList ++ text }]

/-- Fresh evidence with its source, or what is shown in its place. -/
def evidenceCandidate (metadata : Metadata) (ev : Evidence) : PromptCandidate :=
  match ev.isFresh metadata with
  | (true, _) =>
    let text := "--- EVIDENCE (".toList ++ ev.sourcePath ++ ") ---\n".toList ++ ev.content
    { id := ev.evidenceId
      kind := .evidence ev.evidenceId
      priorityScore := ev.score
      tokenCost := estTokens text
      layer := 2
      required := false
      content := text }
  | (false, tombstone) =>
    { id := ev.evidenceId
      kind := .evidence ev.evidenceId
      priorityScore := 999.0
      tokenCost := 20
      layer := 2
      required := false
      content := tombstone.getD [] }

def systemCandidate (systemStatic : List Char) : PromptCandidate :=
  { id := "sys_static".toList
    kind := .systemInstruction
    priorityScore := 1000.0
    tokenCost := estTokens systemStatic
    layer := 0
    required := true
    content := systemStatic }

def taskStateHeader : List Char := "TASK STATE:\n".toList

def taskStateCandidate (taskState : TaskStateSnapshot) : PromptCandidate :=
  { id := "task_state".toList
    kind := .taskStateSummary
    priorityScore := 500.0
    tokenCost := estTokens taskState.summary
    layer := 6
    required := true
    content := taskStateHeader ++ taskState.summary }

def turnCandidate (turn : List Char) (i : Nat) : PromptCandidate :=
  { id := "turn_".toList ++ Nat.toDigits 10 i
    kind := .volatileTurn i
    priorityScore := 100.0 + Float32.ofNat i
    tokenCost := estTokens turn
    layer := 7
    required := false
    content := turn }

/-- All candidates, in the order in which they are set up. -/
def candidates (metadata : Metadata) (input : AssemblerInput) : List PromptCandidate :=
  [systemCandidate input.systemStatic] ++
  optionalSection "tools" .toolSchema 900.0 0 true "TOOLS AVAILABLE:\n" input.toolSchemas ++
  input.durableMemory.toList.flatMap
    (optionalSection "durable_memory" .durableMemory 800.0 1 false "WORKSPACE MEMORY:\n") ++
  input.activeEvidence.map (evidenceCandidate metadata) ++
  input.executionNotices.toList.flatMap (optionalSection "execution_notices" .executionNotices
    850.0 2 false "--- [EXECUTION NOTICES] ---\n") ++
  input.skillContract.toList.flatMap (optionalSection "skill_contract" .skillContract 650.0 3 false
    "--- [ACTIVE SKILL CONTRACT] ---\n") ++
  input.skillInstructions.toList.flatMap (optionalSection "skill_instructions" .skillInstructions
    625.0 4 false "--- [ACTIVE SKILL INSTRUCTIONS] ---\n") ++
  input.skillStateSummary.toList.flatMap (optionalSection "skill_state_summary" .skillStateSummary
    600.0 5 false "--- [ACTIVE SKILL STATE] ---\n") ++
  [taskStateCandidate input.taskState] ++
  input.transcriptTail.zipIdx.map fun (turn, i) => turnCandidate turn i

/-! ## Selection -/

/-- What the allocation has selected and evicted so far, and the budget it has left. -/
structure Allocation where
  budgetRemaining : Nat
  finalSelection : List PromptCandidate := []
  evictedItems : List (List Char) := []

def Allocation.spend (a : Allocation) (cost : Nat) (item : PromptCandidate) : Allocation :=
  { a with
    budgetRemaining := a.budgetRemaining - cost
    finalSelection := a.finalSelection ++ [item] }

/-- A required candidate that does not fit uses up the budget and is not listed anywhere. -/
def reserve (a : Allocation) (req : PromptCandidate) : Allocation :=
  if req.tokenCost ≤ a.budgetRemaining then a.spend req.tokenCost req
  else { a with budgetRemaining := 0 }

def evictionNotice (id : List Char) : List Char :=
  "[Evidence '".toList ++ id ++ "' evicted due to context budget]".toList

/-- Evicted evidence is replaced by a notice, if the notice fits.  The replacement keeps the
`token_cost` of the evidence. -/
def replaceEvicted (a : Allocation) (opt : PromptCandidate) : Allocation :=
  match opt.kind with
  | .evidence _ =>
    let text := evictionNotice opt.id
    if estTokens text ≤ a.budgetRemaining then a.spend (estTokens text) { opt with content := text }
    else a
  | _ => a

def offer (a : Allocation) (opt : PromptCandidate) : Allocation :=
  if opt.tokenCost ≤ a.budgetRemaining then a.spend opt.tokenCost opt
  else replaceEvicted { a with evictedItems := a.evictedItems ++ [opt.id] } opt

/-- The comparison of the sort is not `Greater`: higher scores come first, and scores that differ
by at most `f32::EPSILON` are ordered by their ids. -/
def comesFirst (a b : PromptCandidate) : Bool :=
  if (a.priorityScore - b.priorityScore).abs > 1.1920929e-7 then
    decide (b.priorityScore ≤ a.priorityScore)
  else !b.id.lex a.id fun c d => decide (c.toNat < d.toNat)

def allocate (budget : Nat) (candidates : List PromptCandidate) : Allocation :=
  let reserved := (candidates.filter (·.required)).foldl reserve { budgetRemaining := budget }
  ((candidates.filter (!·.required)).mergeSort comesFirst).foldl offer reserved

/-! ## The prompt and its report -/

def sumOfCosts (items : List PromptCandidate) : Nat := (items.map (·.tokenCost)).sum

def assemblePrompt (budget : Nat) (metadata : Metadata) (input : AssemblerInput) :
    List Char × AssemblyReport :=
  let all := candidates metadata input
  let allocation := allocate budget all
  let selection := allocation.finalSelection.mergeSort fun a b => decide (a.layer ≤ b.layer)
  (join "\n\n" (selection.map (·.content)),
    { usedTokens := sumOfCosts selection
      stableTokens := sumOfCosts (selection.filter fun item => item.layer ≤ 6)
      volatileTokens := sumOfCosts (selection.filter fun item => !decide (item.layer ≤ 6))
      totalCandidates := all.length
      evictedItems := allocation.evictedItems
      refreshedEvidence := input.activeEvidence.countP fun ev => !(ev.isFresh metadata).1 })

/-! ## What was spent and what was reported -/

section Allocation

variable {a : Allocation} {c opt : PromptCandidate} {items : List PromptCandidate}

@[simp] lemma sumOfCosts_nil : sumOfCosts [] = 0 := rfl

@[simp] lemma sumOfCosts_cons (c : PromptCandidate) (items : List PromptCandidate) :
    sumOfCosts (c :: items) = c.tokenCost + sumOfCosts items := by
  simp [sumOfCosts]

@[simp] lemma sumOfCosts_append (items items' : List PromptCandidate) :
    sumOfCosts (items ++ items') = sumOfCosts items + sumOfCosts items' := by
  simp [sumOfCosts]

/-- A budget that is large enough pays for all required candidates. -/
lemma foldl_reserve (hfits : sumOfCosts items ≤ a.budgetRemaining) :
    items.foldl reserve a =
      { a with
        budgetRemaining := a.budgetRemaining - sumOfCosts items
        finalSelection := a.finalSelection ++ items } := by
  induction items generalizing a with
  | nil => simp
  | cons req items ih =>
    rw [sumOfCosts_cons] at hfits
    have hreserve : reserve a req = a.spend req.tokenCost req := if_pos (by omega)
    rw [List.foldl_cons, hreserve, ih (by show _ ≤ a.budgetRemaining - _; omega)]
    simp [Allocation.spend, Nat.sub_sub]

/-- What the report counts for a candidate beyond what was paid for it. -/
def overcount (a : Allocation) (opt : PromptCandidate) : Nat :=
  if opt.tokenCost ≤ a.budgetRemaining then 0
  else
    match opt.kind with
    | .evidence _ =>
      if estTokens (evictionNotice opt.id) ≤ a.budgetRemaining then
        opt.tokenCost - estTokens (evictionNotice opt.id)
      else 0
    | _ => 0

/-- What the report counts beyond what was paid for the candidates offered one after the other. -/
def totalOvercount : Allocation → List PromptCandidate → Nat
  | _, [] => 0
  | a, opt :: rest => overcount a opt + totalOvercount (offer a opt) rest

lemma offer_balance (a : Allocation) (opt : PromptCandidate) :
    sumOfCosts (offer a opt).finalSelection + (offer a opt).budgetRemaining =
      sumOfCosts a.finalSelection + a.budgetRemaining + overcount a opt := by
  unfold offer overcount
  by_cases hfits : opt.tokenCost ≤ a.budgetRemaining
  · rw [if_pos hfits, if_pos hfits]
    simp only [Allocation.spend, sumOfCosts_append, sumOfCosts_cons, sumOfCosts_nil]
    omega
  · rw [if_neg hfits, if_neg hfits]
    unfold replaceEvicted
    split
    · by_cases hnotice : estTokens (evictionNotice opt.id) ≤ a.budgetRemaining
      · rw [if_pos hnotice, if_pos hnotice]
        simp only [Allocation.spend, sumOfCosts_append, sumOfCosts_cons, sumOfCosts_nil]
        omega
      · rw [if_neg hnotice, if_neg hnotice]
        rfl
    · rfl

lemma foldl_offer_balance (a : Allocation) (items : List PromptCandidate) :
    sumOfCosts (items.foldl offer a).finalSelection + (items.foldl offer a).budgetRemaining =
      sumOfCosts a.finalSelection + a.budgetRemaining + totalOvercount a items := by
  induction items generalizing a with
  | nil => rfl
  | cons opt items ih =>
    rw [List.foldl_cons, ih, offer_balance, totalOvercount]
    omega

/-! ## What happens to a candidate -/

lemma replaceEvicted_cases (a : Allocation) (opt : PromptCandidate) :
    replaceEvicted a opt = a ∨
      ∃ cost, replaceEvicted a opt = a.spend cost { opt with content := evictionNotice opt.id } := by
  unfold replaceEvicted
  cases opt.kind with
  | evidence =>
    by_cases hnotice : estTokens (evictionNotice opt.id) ≤ a.budgetRemaining
    · exact .inr ⟨_, if_pos hnotice⟩
    · exact .inl (if_neg hnotice)
  | _ => exact .inl rfl

lemma offer_finalSelection (a : Allocation) (opt : PromptCandidate) :
    a.finalSelection ⊆ (offer a opt).finalSelection := by
  unfold offer
  split
  · exact List.subset_append_left _ _
  · obtain heq | ⟨cost, heq⟩ :=
      replaceEvicted_cases { a with evictedItems := a.evictedItems ++ [opt.id] } opt
    · rw [heq]
      exact List.Subset.refl _
    · rw [heq]
      exact List.subset_append_left _ _

lemma foldl_offer_finalSelection (a : Allocation) (items : List PromptCandidate) :
    a.finalSelection ⊆ (items.foldl offer a).finalSelection := by
  induction items generalizing a with
  | nil => exact List.Subset.refl _
  | cons opt items ih => exact List.Subset.trans (offer_finalSelection a opt) (ih (offer a opt))

lemma offer_evictedItems (a : Allocation) (opt : PromptCandidate) :
    (offer a opt).evictedItems =
      a.evictedItems ++ if opt.tokenCost ≤ a.budgetRemaining then [] else [opt.id] := by
  unfold offer
  by_cases hfits : opt.tokenCost ≤ a.budgetRemaining
  · rw [if_pos hfits, if_pos hfits, List.append_nil]
    rfl
  · rw [if_neg hfits, if_neg hfits]
    obtain heq | ⟨cost, heq⟩ :=
      replaceEvicted_cases { a with evictedItems := a.evictedItems ++ [opt.id] } opt
    · rw [heq]
    · rw [heq]
      rfl

lemma foldl_offer_evictedItems (a : Allocation) (items : List PromptCandidate) :
    a.evictedItems ⊆ (items.foldl offer a).evictedItems := by
  induction items generalizing a with
  | nil => exact List.Subset.refl _
  | cons opt items ih =>
    refine List.Subset.trans ?_ (ih (offer a opt))
    rw [offer_evictedItems]
    exact List.subset_append_left _ _

/-- An offered candidate is selected or listed as evicted. -/
lemma selected_or_evicted_of_offer (hmem : c ∈ items) :
    c ∈ (items.foldl offer a).finalSelection ∨ c.id ∈ (items.foldl offer a).evictedItems := by
  induction items generalizing a with
  | nil => cases hmem
  | cons opt items ih =>
    rw [List.foldl_cons]
    obtain rfl | hrest := List.mem_cons.mp hmem
    · by_cases hfits : c.tokenCost ≤ a.budgetRemaining
      · refine .inl (foldl_offer_finalSelection _ items ?_)
        rw [offer, if_pos hfits]
        exact List.mem_append_right _ (List.mem_singleton_self c)
      · refine .inr (foldl_offer_evictedItems _ items ?_)
        rw [offer_evictedItems, if_neg hfits]
        exact List.mem_append_right _ (List.mem_singleton_self _)
    · exact ih hrest

end Allocation

/-! ## The books of a prompt -/

section Prompt

variable {budget : Nat} {metadata : Metadata} {input : AssemblerInput}

/-- What the required candidates cost. -/
def requiredCost (metadata : Metadata) (input : AssemblerInput) : Nat :=
  sumOfCosts ((candidates metadata input).filter (·.required))

/-- What was allocated to the candidates of a prompt. -/
def allocation (budget : Nat) (metadata : Metadata) (input : AssemblerInput) : Allocation :=
  allocate budget (candidates metadata input)

/-- The books are right: the report stays within the budget, counts each item with the cost of
its text, and accounts for every candidate. -/
structure Accounted (budget : Nat) (metadata : Metadata) (input : AssemblerInput) : Prop where
  withinBudget : (assemblePrompt budget metadata input).2.usedTokens ≤ budget
  costs : ∀ item ∈ (allocation budget metadata input).finalSelection,
    item.tokenCost = estTokens item.content
  emitted : ∀ c ∈ candidates metadata input,
    (∃ item ∈ (allocation budget metadata input).finalSelection, item.id = c.id) ∨
      c.id ∈ (assemblePrompt budget metadata input).2.evictedItems

lemma usedTokens_eq (budget : Nat) (metadata : Metadata) (input : AssemblerInput) :
    (assemblePrompt budget metadata input).2.usedTokens =
      sumOfCosts (allocation budget metadata input).finalSelection := by
  show ((List.mergeSort _ _).map _).sum = _
  exact ((List.mergeSort_perm _ _).map _).sum_nat

/-- The optional candidates, in the order in which they are offered. -/
def optionals (metadata : Metadata) (input : AssemblerInput) : List PromptCandidate :=
  ((candidates metadata input).filter (!·.required)).mergeSort comesFirst

/-- The state of the allocation behind the required candidates. -/
def reserved (budget : Nat) (metadata : Metadata) (input : AssemblerInput) : Allocation :=
  { budgetRemaining := budget - requiredCost metadata input
    finalSelection := (candidates metadata input).filter (·.required) }

lemma allocation_eq (hbudget : requiredCost metadata input ≤ budget) :
    allocation budget metadata input =
      (optionals metadata input).foldl offer (reserved budget metadata input) := by
  have hreserve := foldl_reserve (a := { budgetRemaining := budget }) hbudget
  unfold allocation allocate
  rw [hreserve]
  rfl

/-- The report counts beyond the budget what evicted evidence would have cost more than its
notice, as far as the notices have left no budget unused. -/
lemma usedTokens_add_remaining (hbudget : requiredCost metadata input ≤ budget) :
    (assemblePrompt budget metadata input).2.usedTokens +
        (allocation budget metadata input).budgetRemaining =
      budget + totalOvercount (reserved budget metadata input) (optionals metadata input) := by
  rw [usedTokens_eq, allocation_eq hbudget, foldl_offer_balance]
  show requiredCost metadata input + (budget - requiredCost metadata input) + _ = _
  omega

/-- Every candidate is emitted, fully or as a notice, or listed as evicted. -/
lemma emitted_or_evicted (hbudget : requiredCost metadata input ≤ budget) {c : PromptCandidate}
    (hc : c ∈ candidates metadata input) :
    c ∈ (allocation budget metadata input).finalSelection ∨
      c.id ∈ (assemblePrompt budget metadata input).2.evictedItems := by
  show _ ∨ c.id ∈ (allocation budget metadata input).evictedItems
  rw [allocation_eq hbudget]
  by_cases hrequired : c.required
  · refine .inl (foldl_offer_finalSelection _ _ ?_)
    exact List.mem_filter.mpr ⟨hc, hrequired⟩
  · apply selected_or_evicted_of_offer
    exact (List.mergeSort_perm _ _).mem_iff.mpr (List.mem_filter.mpr ⟨hc, by simpa using hrequired⟩)

/-- The header of the task state is not part of its estimate. -/
lemma taskState_cost_ne (taskState : TaskStateSnapshot) :
    (taskStateCandidate taskState).tokenCost ≠
      estTokens (taskStateCandidate taskState).content := by
  have hheader : utf8Len taskStateHeader = 12 := by decide
  show utf8Len taskState.summary / 4 + 1 ≠ utf8Len (taskStateHeader ++ taskState.summary) / 4 + 1
  rw [utf8Len_append, hheader]
  omega

/-- The books of a prompt are never right, whatever it contains: the task state is part of every
prompt and emitted with a header that its cost leaves out. -/
theorem not_accounted (hbudget : requiredCost metadata input ≤ budget) :
    ¬ Accounted budget metadata input := by
  intro h
  have hmem : taskStateCandidate input.taskState ∈ candidates metadata input := by
    simp [candidates]
  refine taskState_cost_ne input.taskState (h.costs _ ?_)
  rw [allocation_eq hbudget]
  exact foldl_offer_finalSelection _ _ (List.mem_filter.mpr ⟨hmem, rfl⟩)

end Prompt

/-- What was read from a page of 400 characters. -/
def page : Evidence :=
  Evidence.new (fun _ => none) "ev1".toList "web".toList "page".toList 1.0 "read".toList
    (List.replicate 400 'x')

/-- A system prompt, the task of a fresh session, and the page. -/
def pageInput : AssemblerInput :=
  { systemStatic := "SYS".toList
    toolSchemas := []
    taskState := .empty
    activeEvidence := [page] }

/-- A budget that all of it fits. -/
theorem not_accounted_page : ¬ Accounted 1000 (fun _ => none) pageInput :=
  not_accounted (by decide +kernel)

/-- The page does not fit a budget of 40 tokens, and its notice is counted as the page: the report
says 115. -/
theorem page_not_withinBudget :
    requiredCost (fun _ => none) pageInput ≤ 40 ∧
      (assemblePrompt 40 (fun _ => none) pageInput).2.usedTokens = 115 ∧
      ¬ Accounted 40 (fun _ => none) pageInput := by
  have hbudget : requiredCost (fun _ => none) pageInput ≤ 40 := by decide +kernel
  have hoptionals : optionals (fun _ => none) pageInput =
      [evidenceCandidate (fun _ => none) page] :=
    List.mergeSort_singleton _
  have hused : (assemblePrompt 40 (fun _ => none) pageInput).2.usedTokens = 115 := by
    rw [usedTokens_eq, allocation_eq hbudget, hoptionals]
    decide +kernel
  refine ⟨hbudget, hused, fun h => ?_⟩
  have hwithin := h.withinBudget
  omega

end RustyClaw.Assembler
