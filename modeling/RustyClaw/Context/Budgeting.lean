import RustyClaw.Context.Rebuilding
import RustyClaw.Library.Greedy

/-!
# The budget of the history

`build_history_with_token_budget` goes through the turns from the newest on, rebuilds each, and
takes them as long as their estimated tokens stay within the budget.  The blocks are then put in the
order of time, and where the first of the older turns and the first of the recent ones begin, a
message of the user is inserted that says so.

`candidates` are all the turns as they would be sent, without a budget; what is sent is the longest
affordable beginning of them (`selectTurns_blocks`).  The inserted messages are not paid for:
`historyWithin_iff` says that the history keeps to its budget exactly when what the turns leave of
it covers the messages inserted between them.

What a text costs is the parameter `tokens`.
-/

namespace RustyClaw.Context

open Glyph Greedy
open Json hiding str

variable {χ : Type} [Glyph χ]

/-! ## Estimates -/

section Estimates

variable (tokens : List χ → Nat)

def Part.tokenEstimate (part : Part χ) : Nat :=
  (part.text.map tokens).getD 0 +
  (part.functionCall.map fun call => tokens call.name + tokens (render call.args.json)).getD 0 +
  (part.functionResponse.map fun response => tokens response.name + tokens response.text).getD 0

def estimateTokens (message : Message χ) : Nat :=
  (message.parts.map (Part.tokenEstimate tokens)).sum

def totalTokens (messages : List (Message χ)) : Nat := (messages.map (estimateTokens tokens)).sum

lemma totalTokens_append (messages messages' : List (Message χ)) :
    totalTokens tokens (messages ++ messages') =
      totalTokens tokens messages + totalTokens tokens messages' := by
  rw [totalTokens, List.map_append, List.sum_append]
  rfl

end Estimates

def responseTokenReserve (maxTokens : Nat) : Nat :=
  if maxTokens < 8192 then maxTokens / 10 else min (max (maxTokens / 10) 4096) 32000

/-- `effective_history_budget`; the products and differences of the `usize` saturate. -/
def effectiveHistoryBudget (maxTokens systemTokens currentTurnTokens : Nat) : Nat :=
  let historicalCap := min (maxTokens * 85) 18446744073709551615 / 100
  let reserve := responseTokenReserve maxTokens
  let available := maxTokens - systemTokens - currentTurnTokens - reserve
  min historicalCap available

/-- A budget that is not used up leaves room for the rest of the prompt and for the response. -/
lemma effectiveHistoryBudget_add_le {maxTokens systemTokens currentTurnTokens : Nat}
    (h : 0 < effectiveHistoryBudget maxTokens systemTokens currentTurnTokens) :
    effectiveHistoryBudget maxTokens systemTokens currentTurnTokens + systemTokens +
      currentTurnTokens + responseTokenReserve maxTokens ≤ maxTokens := by
  unfold effectiveHistoryBudget at *
  dsimp only at *
  omega

/-! ## Turns as they are sent -/

/-- `is_user_referencing_history`. -/
def historyKeywords : List (List Char) :=
  ["previous command", "last command", "previous output", "last output", "what did it say",
    "fix the error", "look above", "check the error", "what was the error", "show me the output",
    "full output", "上次", "之前", "刚才", "前面", "上面", "修复错误", "看看输出", "检查错误",
    "什么错误", "历史", "回顾", "重新看"].map String.toList

section Turns

variable (toLowercase : List Char → List Char)

def isUserReferencingHistory (msg : List χ) : Bool :=
  let lower := toLowercase (chars msg)
  historyKeywords.any fun keyword => Text.contains keyword lower

def userAsksForContext (i : Nat) (turn : Turn χ) : Bool :=
  decide (i < 10) && isUserReferencingHistory toLowercase turn.userMessage

/-- A sanitised turn at distance `i` from the newest one, and what it hides. -/
def rebuildTurn (i : Nat) (protectNextTurn : Bool) (sanitized : Turn χ) : Turn χ × Nat :=
  let shouldStrip := 3 ≤ i ∧ protectNextTurn = false
  let (turn, truncated) :=
    if shouldStrip then reconstructTurnForHistory sanitized else truncateOldToolResults sanitized
  (prepareTurnForLlm toLowercase turn, truncated)

section Selecting

variable (tokens : List χ → Nat)

/-- What the loop over the turns has collected: the blocks with their distances, the newest first,
and the counts that are reported with them. -/
structure HistorySelection (χ : Type) [Glyph χ] where
  blocks : List (Nat × List (Message χ))
  currentTokens : Nat
  turnsIncluded : Nat
  totalTruncatedChars : Nat

/-- The loop from the turn at distance `i` on, the newest first. -/
def selectTurns (historyBudget : Nat) : Nat → Bool → Nat → List (Turn χ) → HistorySelection χ
  | _, _, currentTokens, [] => ⟨[], currentTokens, 0, 0⟩
  | i, protectNextTurn, currentTokens, turn :: turns =>
    match sanitizeTurn turn with
    | none => selectTurns historyBudget (i + 1) protectNextTurn currentTokens turns
    | some sanitized =>
      let (rebuilt, truncated) := rebuildTurn toLowercase i protectNextTurn sanitized
      let turnTokens := totalTokens tokens rebuilt.messages
      if historyBudget < currentTokens + turnTokens then ⟨[], currentTokens, 0, truncated⟩
      else
        let rest := selectTurns historyBudget (i + 1) (userAsksForContext toLowercase i turn)
          (currentTokens + turnTokens) turns
        { rest with
          blocks := (i, rebuilt.messages) :: rest.blocks
          turnsIncluded := rest.turnsIncluded + 1
          totalTruncatedChars := rest.totalTruncatedChars + truncated }

end Selecting

/-! ## Separators -/

def zoneOf (distance : Nat) : Nat := if 10 ≤ distance then 0 else if 3 ≤ distance then 1 else 2

def zoneLabel : Nat → Option String
  | 0 => some "--- [EARLIER HISTORY] ---"
  | 1 => some "--- [RECENT CONTEXT] ---"
  | _ => none

/-- The message in front of the first turn of a zone. -/
def separator (zone : Nat) : List (Message χ) :=
  (zoneLabel zone).toList.map fun label =>
    { role := str "user", parts := [{ text := some (str label) }] }

/-- The blocks in the order of time, behind one of the zone `prevZone`. -/
def flattenBlocks : Option Nat → List (Nat × List (Message χ)) → List (Message χ)
  | _, [] => []
  | prevZone, (distance, block) :: blocks =>
    (if prevZone = some (zoneOf distance) then [] else separator (zoneOf distance)) ++ block ++
      flattenBlocks (some (zoneOf distance)) blocks

/-- `build_history_with_token_budget`; the history is in the order of time. -/
def buildHistoryWithTokenBudget (tokens : List χ → Nat) (dialogueHistory : List (Turn χ))
    (historyBudget : Nat) : List (Message χ) × Nat × Nat × Nat :=
  let selection := selectTurns toLowercase tokens historyBudget 0 false 0 dialogueHistory.reverse
  (flattenBlocks none selection.blocks.reverse, selection.currentTokens, selection.turnsIncluded,
    selection.totalTruncatedChars)

/-! ## What a history should be -/

/-- A turn of the history, its distance from the newest one, and the messages it is sent as. -/
structure HistoryBlock (χ : Type) [Glyph χ] where
  distance : Nat
  source : Turn χ
  messages : List (Message χ)

/-- All turns from distance `i` on as they would be sent, the newest first. -/
def candidates : Nat → Bool → List (Turn χ) → List (HistoryBlock χ)
  | _, _, [] => []
  | i, protectNextTurn, turn :: turns =>
    match sanitizeTurn turn with
    | none => candidates (i + 1) protectNextTurn turns
    | some sanitized =>
      ⟨i, turn, (rebuildTurn toLowercase i protectNextTurn sanitized).1.messages⟩ ::
        candidates (i + 1) (userAsksForContext toLowercase i turn) turns

end Turns

def HistoryBlock.cost (tokens : List χ → Nat) (block : HistoryBlock χ) : Nat :=
  totalTokens tokens block.messages

/-- The messages of the blocks one after the other, whole, with nothing between them but
separators. -/
inductive Separated : List (HistoryBlock χ) → List (Message χ) → Prop
  | nil : Separated [] []
  | cons {block : HistoryBlock χ} {blocks : List (HistoryBlock χ)}
      {between messages : List (Message χ)} (hbetween : between = [] ∨ ∃ zone, between = separator zone)
      (h : Separated blocks messages) :
      Separated (block :: blocks) (between ++ block.messages ++ messages)

/-- The messages come from the newest turns that are not sanitised away, as many as the greedy rule
takes. -/
structure HistoryTaken (toLowercase : List Char → List Char) (tokens : List χ → Nat)
    (dialogueHistory : List (Turn χ)) (historyBudget : Nat) (messages : List (Message χ))
    (blocks : List (HistoryBlock χ)) : Prop where
  newest : blocks.map HistoryBlock.source <:+
    dialogueHistory.filter fun turn => (sanitizeTurn turn).isSome
  rebuilt : ∀ block ∈ blocks, ∃ turn, Rebuilt toLowercase block.source turn ∧
    block.messages = turn.messages
  separated : Separated blocks messages
  taken : blocks.reverse <+: candidates toLowercase 0 false dialogueHistory.reverse
  greedy : ∀ n ≤ (candidates toLowercase 0 false dialogueHistory.reverse).length,
    (((candidates toLowercase 0 false dialogueHistory.reverse).take n).map
      (HistoryBlock.cost tokens)).sum ≤ historyBudget ↔ n ≤ blocks.length

/-- And they keep to the budget. -/
structure HistoryWithin (toLowercase : List Char → List Char) (tokens : List χ → Nat)
    (dialogueHistory : List (Turn χ)) (historyBudget : Nat) (messages : List (Message χ))
    (blocks : List (HistoryBlock χ)) : Prop
    extends HistoryTaken toLowercase tokens dialogueHistory historyBudget messages blocks where
  budget : totalTokens tokens messages ≤ historyBudget

/-! ## The candidates -/

section Candidates

variable {toLowercase : List Char → List Char} {tokens : List χ → Nat}

lemma map_source_candidates (i : Nat) (protectNextTurn : Bool) (turns : List (Turn χ)) :
    (candidates toLowercase i protectNextTurn turns).map HistoryBlock.source =
      turns.filter fun turn => (sanitizeTurn turn).isSome := by
  induction turns generalizing i protectNextTurn with
  | nil => rfl
  | cons turn turns ih =>
    rw [candidates, List.filter_cons]
    cases hturn : sanitizeTurn turn with
    | none => simpa using ih (i + 1) protectNextTurn
    | some sanitized => simpa using ih (i + 1) (userAsksForContext toLowercase i turn)

lemma rebuilt_rebuildTurn {turn sanitized : Turn χ} (h : sanitizeTurn turn = some sanitized)
    (i : Nat) (protectNextTurn : Bool) :
    Rebuilt toLowercase turn (rebuildTurn toLowercase i protectNextTurn sanitized).1 := by
  unfold rebuildTurn
  dsimp only
  split_ifs
  · exact .prepared (.reconstructed (.sanitized .recorded h))
  · exact .prepared (.truncated (.sanitized .recorded h))

/-- Every candidate stands for a turn, further away than those before it. -/
lemma mem_candidates {i : Nat} {protectNextTurn : Bool} {turns : List (Turn χ)}
    {block : HistoryBlock χ} (h : block ∈ candidates toLowercase i protectNextTurn turns) :
    i ≤ block.distance ∧
      ∃ turn, Rebuilt toLowercase block.source turn ∧ block.messages = turn.messages := by
  induction turns generalizing i protectNextTurn with
  | nil => cases h
  | cons turn turns ih =>
    rw [candidates] at h
    cases hturn : sanitizeTurn turn with
    | none =>
      rw [hturn] at h
      obtain ⟨hle, hrebuilt⟩ := ih h
      exact ⟨by omega, hrebuilt⟩
    | some sanitized =>
      rw [hturn] at h
      rcases List.mem_cons.mp h with rfl | hmem
      · exact ⟨Nat.le_refl i, _, rebuilt_rebuildTurn hturn i protectNextTurn, rfl⟩
      · obtain ⟨hle, hrebuilt⟩ := ih hmem
        exact ⟨by omega, hrebuilt⟩

lemma pairwise_candidates (i : Nat) (protectNextTurn : Bool) (turns : List (Turn χ)) :
    (candidates toLowercase i protectNextTurn turns).Pairwise
      fun newer older => newer.distance < older.distance := by
  induction turns generalizing i protectNextTurn with
  | nil => exact .nil
  | cons turn turns ih =>
    rw [candidates]
    cases hturn : sanitizeTurn turn with
    | none => exact ih (i + 1) protectNextTurn
    | some sanitized =>
      refine .cons (fun older holder => ?_) (ih (i + 1) _)
      have := (mem_candidates holder).1
      dsimp only
      omega

/-- The loop takes the longest beginning of the candidates that the budget covers. -/
lemma selectTurns_blocks {historyBudget currentTokens : Nat} (h : currentTokens ≤ historyBudget)
    (i : Nat) (protectNextTurn : Bool) (turns : List (Turn χ)) :
    (selectTurns toLowercase tokens historyBudget i protectNextTurn currentTokens turns).blocks =
      (afford (HistoryBlock.cost tokens) (historyBudget - currentTokens)
        (candidates toLowercase i protectNextTurn turns)).map
          fun block => (block.distance, block.messages) := by
  induction turns generalizing i protectNextTurn currentTokens with
  | nil => rfl
  | cons turn turns ih =>
    rw [selectTurns, candidates]
    cases hturn : sanitizeTurn turn with
    | none => exact ih h (i + 1) protectNextTurn
    | some sanitized =>
      dsimp only
      rw [afford, HistoryBlock.cost]
      dsimp only
      split_ifs with hover hcost hcost
      · omega
      · rfl
      · rw [List.map_cons, ih (by omega), Nat.sub_sub]
      · omega

end Candidates

/-! ## The separators -/

section Separators

variable {tokens : List χ → Nat}

lemma separated_flattenBlocks (prevZone : Option Nat) (blocks : List (HistoryBlock χ)) :
    Separated blocks
      (flattenBlocks prevZone (blocks.map fun block => (block.distance, block.messages))) := by
  induction blocks generalizing prevZone with
  | nil => exact .nil
  | cons block blocks ih =>
    refine .cons ?_ (ih _)
    split_ifs
    · exact .inl rfl
    · exact .inr ⟨_, rfl⟩

lemma zoneOf_anti {distance distance' : Nat} (h : distance ≤ distance') :
    zoneOf distance' ≤ zoneOf distance := by
  unfold zoneOf
  split_ifs <;> omega

/-- What the separator of a zone costs that begins in the blocks. -/
def separatorCost (tokens : List χ → Nat) (prevZone : Option Nat) (blocks : List (HistoryBlock χ))
    (zone : Nat) : Nat :=
  if prevZone ≠ some zone ∧ ∃ block ∈ blocks, zoneOf block.distance = zone then
    totalTokens tokens (separator zone)
  else 0

/-- The separators of a block and of the blocks behind it. -/
lemma separatorCost_cons {prevZone : Option Nat} {block : HistoryBlock χ}
    {blocks : List (HistoryBlock χ)} (hprev : ∀ zone ∈ prevZone, zone ≤ zoneOf block.distance)
    (hblocks : ∀ later ∈ blocks, zoneOf block.distance ≤ zoneOf later.distance) (zone : Nat) :
    separatorCost tokens prevZone (block :: blocks) zone =
      (if prevZone ≠ some zone ∧ zoneOf block.distance = zone then
        totalTokens tokens (separator zone) else 0) +
      separatorCost tokens (some (zoneOf block.distance)) blocks zone := by
  unfold separatorCost
  by_cases hzone : zoneOf block.distance = zone
  · simp [hzone]
  · have hlater : (∃ later ∈ blocks, zoneOf later.distance = zone) → prevZone ≠ some zone := by
      rintro ⟨later, hmem, rfl⟩ hsome
      have := hprev _ hsome
      have := hblocks later hmem
      omega
    by_cases hexists : ∃ later ∈ blocks, zoneOf later.distance = zone
    · simp [hzone, hexists, hlater hexists]
    · simp [hzone, hexists]

/-- The messages cost what the blocks cost and the separators of the zones that begin in them. -/
lemma totalTokens_flattenBlocks {prevZone : Option Nat} {blocks : List (HistoryBlock χ)}
    (hprev : ∀ zone ∈ prevZone, ∀ block ∈ blocks, zone ≤ zoneOf block.distance)
    (hblocks : blocks.Pairwise fun earlier later => later.distance < earlier.distance) :
    totalTokens tokens
        (flattenBlocks prevZone (blocks.map fun block => (block.distance, block.messages))) =
      (blocks.map (HistoryBlock.cost tokens)).sum +
        (separatorCost tokens prevZone blocks 0 + separatorCost tokens prevZone blocks 1) := by
  induction blocks generalizing prevZone with
  | nil => simp [flattenBlocks, totalTokens, separatorCost]
  | cons block blocks ih =>
    obtain ⟨hhead, htail⟩ := List.pairwise_cons.mp hblocks
    have hzones : ∀ later ∈ blocks, zoneOf block.distance ≤ zoneOf later.distance :=
      fun later hmem => zoneOf_anti (Nat.le_of_lt (hhead later hmem))
    have hnext : ∀ zone ∈ some (zoneOf block.distance), ∀ later ∈ blocks,
        zone ≤ zoneOf later.distance := by
      intro zone hzone later hmem
      obtain rfl : zoneOf block.distance = zone := Option.some.inj hzone
      exact hzones later hmem
    have hrest := ih hnext htail
    have hfirst : totalTokens tokens
        (if prevZone = some (zoneOf block.distance) then [] else separator (zoneOf block.distance)) =
        (if prevZone ≠ some 0 ∧ zoneOf block.distance = 0 then
          totalTokens tokens (separator 0) else 0) +
        (if prevZone ≠ some 1 ∧ zoneOf block.distance = 1 then
          totalTokens tokens (separator 1) else 0) := by
      have hcases : zoneOf block.distance = 0 ∨ zoneOf block.distance = 1 ∨
          zoneOf block.distance = 2 := by
        unfold zoneOf
        split_ifs <;> omega
      rcases hcases with hzone | hzone | hzone
      · by_cases hsame : prevZone = some 0 <;> simp [hzone, hsame, totalTokens]
      · by_cases hsame : prevZone = some 1 <;> simp [hzone, hsame, totalTokens]
      · simp [hzone, totalTokens, separator, zoneLabel]
    have hprev' := fun zone hzone => hprev zone hzone block List.mem_cons_self
    rw [List.map_cons, flattenBlocks, totalTokens_append, totalTokens_append, hrest, hfirst,
      separatorCost_cons hprev' hzones, separatorCost_cons hprev' hzones, List.map_cons,
      List.sum_cons]
    show _ + HistoryBlock.cost tokens block + _ = _
    omega

lemma separatorCost_reverse (prevZone : Option Nat) (blocks : List (HistoryBlock χ)) (zone : Nat) :
    separatorCost tokens prevZone blocks.reverse zone =
      separatorCost tokens prevZone blocks zone := by
  simp only [separatorCost, List.mem_reverse]

end Separators

/-! ## The budget -/

section Budget

variable (toLowercase : List Char → List Char) (tokens : List χ → Nat)
  (dialogueHistory : List (Turn χ)) (historyBudget : Nat)

/-- The turns that the greedy rule takes, the newest first. -/
def affordableRun : List (HistoryBlock χ) :=
  afford (HistoryBlock.cost tokens) historyBudget
    (candidates toLowercase 0 false dialogueHistory.reverse)

/-- What the turns leave of the budget covers the separators of the zones they reach. -/
def SeparatorsPaid : Prop :=
  let run := affordableRun toLowercase tokens dialogueHistory historyBudget
  (run.map (HistoryBlock.cost tokens)).sum +
    (separatorCost tokens none run 0 + separatorCost tokens none run 1) ≤ historyBudget

variable {toLowercase tokens dialogueHistory historyBudget}

lemma buildHistory_messages :
    (buildHistoryWithTokenBudget toLowercase tokens dialogueHistory historyBudget).1 =
      flattenBlocks none
        ((affordableRun toLowercase tokens dialogueHistory historyBudget).reverse.map
          fun block => (block.distance, block.messages)) := by
  unfold buildHistoryWithTokenBudget
  dsimp only
  rw [selectTurns_blocks (Nat.zero_le _), Nat.sub_zero, ← List.map_reverse]
  rfl

lemma totalTokens_buildHistory :
    totalTokens tokens
        (buildHistoryWithTokenBudget toLowercase tokens dialogueHistory historyBudget).1 =
      ((affordableRun toLowercase tokens dialogueHistory historyBudget).map
        (HistoryBlock.cost tokens)).sum +
      (separatorCost tokens none (affordableRun toLowercase tokens dialogueHistory historyBudget) 0 +
        separatorCost tokens none
          (affordableRun toLowercase tokens dialogueHistory historyBudget) 1) := by
  have hpairwise : (affordableRun toLowercase tokens dialogueHistory historyBudget).Pairwise
      fun newer older => newer.distance < older.distance :=
    (pairwise_candidates 0 false _).sublist (prefix_afford _ _).sublist
  rw [buildHistory_messages, totalTokens_flattenBlocks (fun zone hzone => by cases hzone)
    (List.pairwise_reverse.mpr hpairwise), separatorCost_reverse, separatorCost_reverse,
    List.map_reverse, List.sum_reverse]

/-- What is sent is what the greedy rule takes, whatever the separators cost. -/
theorem historyTaken_affordableRun :
    HistoryTaken toLowercase tokens dialogueHistory historyBudget
      (buildHistoryWithTokenBudget toLowercase tokens dialogueHistory historyBudget).1
      (affordableRun toLowercase tokens dialogueHistory historyBudget).reverse where
  newest := by
    have hsources : (affordableRun toLowercase tokens dialogueHistory historyBudget).map
        HistoryBlock.source <+: dialogueHistory.reverse.filter fun turn =>
          (sanitizeTurn turn).isSome := by
      have hsource : (candidates toLowercase 0 false dialogueHistory.reverse).map
          HistoryBlock.source = _ := map_source_candidates 0 false _
      rw [← hsource]
      exact (prefix_afford _ _).map _
    rw [List.filter_reverse] at hsources
    rw [List.map_reverse]
    simpa using List.reverse_suffix.mpr hsources
  rebuilt block hmem :=
    (mem_candidates ((prefix_afford _ _).subset (List.mem_reverse.mp hmem))).2
  separated := by
    rw [buildHistory_messages]
    exact separated_flattenBlocks none _
  taken := by
    rw [List.reverse_reverse]
    exact prefix_afford _ _
  greedy n hn := by
    rw [List.length_reverse]
    exact sum_take_le_iff hn

/-- **The budget of the history.** The history is what the greedy rule takes from the newest turns,
whole and in order, and it keeps to its budget exactly when the turns leave enough of it for the
separators between them. -/
theorem historyWithin_iff :
    (∃ blocks, HistoryWithin toLowercase tokens dialogueHistory historyBudget
      (buildHistoryWithTokenBudget toLowercase tokens dialogueHistory historyBudget).1 blocks) ↔
      SeparatorsPaid toLowercase tokens dialogueHistory historyBudget := by
  unfold SeparatorsPaid
  dsimp only
  rw [← totalTokens_buildHistory]
  exact ⟨fun ⟨_, h⟩ => h.budget, fun h => ⟨_, historyTaken_affordableRun, h⟩⟩

end Budget

/-- A turn with a question of one character. -/
def shortTurn : Turn Char where
  turnId := "t".toList
  userMessage := "a".toList
  messages := [textMessage "a".toList]

/-- Four turns use up their budget, and the separator behind the first of them is not paid for. -/
theorem not_historyWithin_shortTurns :
    ¬ ∃ blocks, HistoryWithin id List.length (List.replicate 4 shortTurn) 4
      (buildHistoryWithTokenBudget id List.length (List.replicate 4 shortTurn) 4).1 blocks := by
  rintro ⟨blocks, h⟩
  exact absurd h.budget (by decide)

end RustyClaw.Context
