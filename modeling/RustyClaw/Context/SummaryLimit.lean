import RustyClaw.Context.History
import RustyClaw.Library.Lines

/-!
# The size of the summary of a compaction

`rule_based_compact` (`context/history.rs`) adds up bytes while it writes the lines of a summary,
and compares the sum with `MAX_SUMMARY_CHARS` when all the lines of a turn are written.  An earlier
summary adds to the sum and is not compared.  What has been written when the sum passes the limit
stays: a limit on the texts that a line quotes (a message of the user, a text of the model, an
error) bounds that line, while the name of a tool, its path and its url are quoted in full, and a
turn has a line for each of its calls.

`turnSize` and `turnBytes` say what a turn adds to the characters of the summary and to the sum
that is compared, and `listedSize` adds up the sizes of the turns that are reached.
`compactsWithin_iff` says that a compaction does what is expected of it (the oldest turns are gone,
one summary of limited size stands in front of the others, which are as they were) exactly when
the turns that it takes fit.
-/

namespace RustyClaw.Context

open Glyph
open Json hiding str

variable {χ : Type} [Glyph χ] (toLowercase : List Char → List Char)

/-! ## What a turn adds -/

def EarlierSummary (turn : Turn χ) : Prop := chars turn.userMessage = compactedMessage.toList

instance (turn : Turn χ) : Decidable (EarlierSummary turn) :=
  inferInstanceAs (Decidable (chars turn.userMessage = compactedMessage.toList))

/-- The characters of lines, with a newline for each. -/
def linesSize (lines : List (List χ)) : ℕ := (lines.map fun line => line.length + 1).sum

def turnHeader (i : ℕ) : String := s!"\n[Turn {i + 1}] User: "

/-- The characters that turn number `i` adds to the summary. -/
def turnSize (i : ℕ) (turn : Turn χ) : ℕ :=
  if EarlierSummary turn then
    ((turnTexts turn).map fun text => min text.length 1500 + 2).sum
  else
    (turnHeader i).length + min turn.userMessage.length 120 + 1 +
      if (turnActions toLowercase turn).isEmpty then 38
      else linesSize (turnActions toLowercase turn)

/-- The bytes that are counted for turn number `i`. -/
def turnBytes (i : ℕ) (turn : Turn χ) : ℕ :=
  if EarlierSummary turn then
    ((turnTexts turn).map fun text => min (utf8Len text) 1500).sum
  else
    utf8Len (str (turnHeader i) ++ truncateChars turn.userMessage 120) +
      ((turnActions toLowercase turn).map utf8Len).sum

/-- The characters of the line that stands for the turns from number `i` on. -/
def omittedSize (toCompact i : ℕ) (turns : List (Turn χ)) : ℕ :=
  if turns.isEmpty then 0
  else (s!"\n[Turns {i + 1}-{toCompact}] (omitted due to summary size limit)").length + 1

/-- The characters for the turns from number `i` on, when `bytes` have been counted before.  The
count is compared with the limit behind an ordinary turn only. -/
def listedSize (toCompact : ℕ) : ℕ → ℕ → List (Turn χ) → ℕ
  | _, _, [] => 0
  | i, bytes, turn :: turns =>
    turnSize toLowercase i turn +
      if ¬EarlierSummary turn ∧ maxSummaryChars < bytes + turnBytes toLowercase i turn then
        omittedSize toCompact (i + 1) turns
      else listedSize toCompact (i + 1) (bytes + turnBytes toLowercase i turn) turns

def titleLine (toCompact : ℕ) : String := s!"=== Compacted History ({toCompact} turns) ==="

/-- The title and the turns that are reached have room in a summary. -/
def SummaryFits (turns : List (Turn χ)) : Prop :=
  (titleLine turns.length).length +
    listedSize toLowercase turns.length 0 (utf8Len (str (titleLine turns.length) : List χ)) turns ≤
      maxSummaryChars

/-! ## The length of the summary -/

omit [Glyph χ] in
lemma length_truncateChars (input : List χ) (maxChars : ℕ) :
    (truncateChars input maxChars).length = min input.length maxChars := by
  rw [truncateChars]
  split_ifs with h
  · exact (min_eq_left h).symm
  · exact List.length_take.trans (Nat.min_comm _ _)

omit [Glyph χ] in
lemma linesSize_append (before after : List (List χ)) :
    linesSize (before ++ after) = linesSize before + linesSize after := by
  rw [linesSize, List.map_append, List.sum_append, linesSize, linesSize]

omit [Glyph χ] in
lemma linesSize_cons (line : List χ) (lines : List (List χ)) :
    linesSize (line :: lines) = line.length + 1 + linesSize lines := by
  rw [linesSize, List.map_cons, List.sum_cons, linesSize]

lemma length_join_cons (line : List χ) (lines : List (List χ)) :
    (join "\n" (line :: lines)).length = line.length + linesSize lines := by
  induction lines generalizing line with
  | nil =>
    rw [join, List.intercalate_singleton, linesSize, List.map_nil, List.sum_nil, Nat.add_zero]
  | cons line' lines ih =>
    rw [join_cons_cons, List.length_append, List.length_cons, ih, linesSize_cons]
    omega

lemma linesSize_summaryTexts (texts : List (List χ)) :
    linesSize (texts.map fun text => str "\n" ++ truncateChars text 1500) =
      (texts.map fun text => min text.length 1500 + 2).sum := by
  rw [linesSize, List.map_map]
  refine congrArg List.sum (List.map_congr_left fun text _ => ?_)
  have hnewline : (str "\n" : List χ).length = 1 := length_str "\n"
  rw [Function.comp_apply, List.length_append, length_truncateChars, hnewline]
  omega

lemma linesSize_omitted (toCompact i bytes : ℕ) (turns : List (Turn χ)) :
    linesSize (summaryLines toLowercase toCompact i bytes true turns) =
      omittedSize toCompact i turns := by
  cases turns with
  | nil => rfl
  | cons turn turns =>
    rw [summaryLines, if_pos rfl, linesSize_cons, length_str, omittedSize, List.isEmpty_cons,
      if_neg Bool.false_ne_true, linesSize, List.map_nil, List.sum_nil, Nat.add_zero]

/-- What stands in the summary for the actions of a turn. -/
def actionLines (turn : Turn χ) : List (List χ) :=
  if (turnActions toLowercase turn).isEmpty then [str "  (text-only exchange, no tool calls)"]
  else turnActions toLowercase turn

lemma linesSize_actionLines (turn : Turn χ) :
    linesSize (actionLines toLowercase turn) =
      if (turnActions toLowercase turn).isEmpty then 38
      else linesSize (turnActions toLowercase turn) := by
  rw [actionLines]
  split_ifs
  · rw [linesSize_cons, length_str]
    rfl
  · rfl

variable {toLowercase}

lemma summaryLines_ordinary {toCompact i bytes : ℕ} {turn : Turn χ} {turns : List (Turn χ)}
    (h : ¬EarlierSummary turn) :
    summaryLines toLowercase toCompact i bytes false (turn :: turns) =
      (str (turnHeader i) ++ truncateChars turn.userMessage 120) ::
        (actionLines toLowercase turn ++
          summaryLines toLowercase toCompact (i + 1) (bytes + turnBytes toLowercase i turn)
            (decide (maxSummaryChars < bytes + turnBytes toLowercase i turn)) turns) := by
  rw [summaryLines, if_neg Bool.false_ne_true,
    if_neg (show ¬chars turn.userMessage = compactedMessage.toList from h), turnBytes, if_neg h,
    ← Nat.add_assoc]
  rfl

lemma summaryLines_earlierSummary {toCompact i bytes : ℕ} {turn : Turn χ} {turns : List (Turn χ)}
    (h : EarlierSummary turn) :
    summaryLines toLowercase toCompact i bytes false (turn :: turns) =
      ((turnTexts turn).map fun text => str "\n" ++ truncateChars text 1500) ++
        summaryLines toLowercase toCompact (i + 1) (bytes + turnBytes toLowercase i turn) false
          turns := by
  rw [summaryLines, if_neg Bool.false_ne_true,
    if_pos (show chars turn.userMessage = compactedMessage.toList from h), turnBytes, if_pos h]

lemma linesSize_summaryLines (toCompact i bytes : ℕ) (turns : List (Turn χ)) :
    linesSize (summaryLines toLowercase toCompact i bytes false turns) =
      listedSize toLowercase toCompact i bytes turns := by
  induction turns generalizing i bytes with
  | nil => rfl
  | cons turn turns ih =>
    rw [listedSize, turnSize]
    by_cases hsummary : EarlierSummary turn
    · rw [summaryLines_earlierSummary hsummary, linesSize_append, linesSize_summaryTexts, ih,
        if_pos hsummary, if_neg fun h => h.1 hsummary]
    · have hheader : (str (turnHeader i) ++ truncateChars turn.userMessage 120 : List χ).length =
          (turnHeader i).length + min turn.userMessage.length 120 := by
        rw [List.length_append, length_str, length_truncateChars]
      rw [summaryLines_ordinary hsummary, linesSize_cons, linesSize_append, linesSize_actionLines,
        hheader, if_neg hsummary, ← Nat.add_assoc]
      refine congrArg _ ?_
      by_cases hover : maxSummaryChars < bytes + turnBytes toLowercase i turn
      · rw [decide_eq_true hover, linesSize_omitted, if_pos ⟨hsummary, hover⟩]
      · rw [decide_eq_false hover, ih, if_neg fun h => hover h.2]

/-- The fixed text in front of every summary. -/
def contextHeader : String :=
  "[System context: The following is an automated summary of earlier conversation history. " ++
    "Use it as background knowledge but do not respond to it directly.]\n\n"

lemma length_summaryText (turns : List (Turn χ)) :
    (summaryText toLowercase turns).length =
      contextHeader.length + ((titleLine turns.length).length +
        listedSize toLowercase turns.length 0 (utf8Len (str (titleLine turns.length) : List χ))
          turns) := by
  change (str contextHeader ++ join "\n" (str (titleLine turns.length) :: _)).length = _
  rw [List.length_append, length_str, length_join_cons, length_str]
  exact congrArg _ (congrArg _ (linesSize_summaryLines _ _ _ _))

/-! ## The compaction -/

variable (toLowercase)

/-- What a compaction of the `numTurns` oldest turns is expected to do: it does nothing when there
is nothing to take, and else these turns are gone, one turn with a summary stands in front of the
others, the rest of the context is as it was, and the summary keeps to the limit. -/
def CompactsWithin (files : Files χ) (ctx : AgentContext χ) (numTurns : ℕ)
    (written : ℕ → Written) (uuid : List χ) : Prop :=
  match ruleBasedCompact toLowercase files ctx numTurns written uuid with
  | none => min numTurns ctx.dialogueHistory.length = 0
  | some (_, ctx', _) =>
    0 < min numTurns ctx.dialogueHistory.length ∧
    ∃ summary : Turn χ, ∃ text : List χ,
      ctx' =
        { ctx with
          dialogueHistory :=
            summary :: ctx.dialogueHistory.drop (min numTurns ctx.dialogueHistory.length) } ∧
      EarlierSummary summary ∧ summary.messages = [textMessage text] ∧
      text.length ≤ contextHeader.length + maxSummaryChars

variable {toLowercase} {files : Files χ} {ctx : AgentContext χ} {numTurns : ℕ}
  {written : ℕ → Written} {uuid : List χ}

lemma earlierSummary_compactedTurn (turns : List (Turn χ)) :
    EarlierSummary (compactedTurn toLowercase uuid turns) := chars_str _

lemma textMessage_inj {text text' : List χ} (h : textMessage text = textMessage text') :
    text = text' := by
  injection h with _ hparts
  injection hparts with hpart
  injection hpart with htext
  exact Option.some.inj htext

lemma min_pos_iff : 0 < min numTurns ctx.dialogueHistory.length ↔
    ¬(numTurns = 0 ∨ ctx.dialogueHistory = []) := by
  rw [Nat.lt_min, List.length_pos_iff, Nat.pos_iff_ne_zero, not_or]

lemma compactsWithin_of_none (h : numTurns = 0 ∨ ctx.dialogueHistory = []) :
    CompactsWithin toLowercase files ctx numTurns written uuid := by
  rw [CompactsWithin, ruleBasedCompact, if_pos h]
  exact Nat.eq_zero_of_not_pos fun hpos => min_pos_iff.mp hpos h

/-- Where there is something to take, only the size of the summary is in question. -/
lemma compactsWithin_of_some (h : ¬(numTurns = 0 ∨ ctx.dialogueHistory = [])) :
    CompactsWithin toLowercase files ctx numTurns written uuid ↔
      SummaryFits toLowercase
        (ctx.dialogueHistory.take (min numTurns ctx.dialogueHistory.length)) := by
  have hlimit : (summaryText toLowercase
        (ctx.dialogueHistory.take (min numTurns ctx.dialogueHistory.length))).length ≤
        contextHeader.length + maxSummaryChars ↔
      SummaryFits toLowercase
        (ctx.dialogueHistory.take (min numTurns ctx.dialogueHistory.length)) := by
    rw [length_summaryText, SummaryFits, Nat.add_le_add_iff_left]
  rw [CompactsWithin, ruleBasedCompact, if_neg h, ← hlimit]
  constructor
  · rintro ⟨-, summary, text, hctx, -, hmessages, htext⟩
    have hsummary : compactedTurn toLowercase uuid _ = summary :=
      List.head_eq_of_cons_eq (congrArg AgentContext.dialogueHistory hctx)
    rw [← hsummary] at hmessages
    have hsame := textMessage_inj (List.head_eq_of_cons_eq hmessages)
    rwa [hsame]
  · intro hfits
    exact ⟨min_pos_iff.mpr h, _, _, rfl, earlierSummary_compactedTurn _, rfl, hfits⟩

/-- **A compaction keeps to the limit exactly when the turns it takes fit.** -/
theorem compactsWithin_iff (files : Files χ) (ctx : AgentContext χ) (numTurns : ℕ)
    (written : ℕ → Written) (uuid : List χ) :
    CompactsWithin toLowercase files ctx numTurns written uuid ↔
      (0 < min numTurns ctx.dialogueHistory.length →
        SummaryFits toLowercase
          (ctx.dialogueHistory.take (min numTurns ctx.dialogueHistory.length))) := by
  by_cases h : numTurns = 0 ∨ ctx.dialogueHistory = []
  · exact iff_of_true (compactsWithin_of_none h) fun hpos => absurd h (min_pos_iff.mp hpos)
  · rw [compactsWithin_of_some h]
    exact ⟨fun hfits _ => hfits, fun hfits => hfits (min_pos_iff.mpr h)⟩

lemma SummaryFits.turnSize_le {turn : Turn χ} {turns : List (Turn χ)}
    (h : SummaryFits toLowercase (turn :: turns)) :
    turnSize toLowercase 0 turn ≤ maxSummaryChars := by
  rw [SummaryFits, listedSize] at h
  omega

/-- One call with a long url. -/
def longUrlTurn : Turn Char where
  turnId := "t".toList
  userMessage := "Fetch it".toList
  messages := [{
    role := "model".toList
    parts := [{ functionCall := some {
      name := "web_fetch".toList
      args := .object [("url", .str (List.replicate 5000 'a'))] } }] }]

lemma turnActions_longUrlTurn :
    turnActions id longUrlTurn =
      ["  → web_fetch(".toList ++ List.replicate 5000 'a' ++ ")".toList] := rfl

lemma le_turnSize_longUrlTurn : 5000 ≤ turnSize id 0 longUrlTurn := by
  have hordinary : ¬EarlierSummary longUrlTurn := by decide
  have hline : 5000 ≤ linesSize (turnActions id longUrlTurn) := by
    rw [turnActions_longUrlTurn, linesSize_cons, List.length_append, List.length_append,
      List.length_replicate]
    omega
  rw [turnSize, if_neg hordinary]
  split_ifs with hempty
  · rw [turnActions_longUrlTurn] at hempty
    exact absurd hempty Bool.false_ne_true
  · omega

theorem not_compactsWithin_longUrl :
    ¬CompactsWithin id (fun _ => none) { dialogueHistory := [longUrlTurn] } 2 (fun _ => .whole)
      "4f1c".toList := by
  intro h
  have hfits := (compactsWithin_of_some (by simp)).mp h
  rw [List.take_of_length_le (Nat.le_refl 1)] at hfits
  exact absurd (le_turnSize_longUrlTurn.trans hfits.turnSize_le) (by decide)

end RustyClaw.Context
