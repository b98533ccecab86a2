import RustyClaw.Context.Transcript

/-!
# Compaction of the dialogue history

`rule_based_compact` (`context/history.rs`) takes the oldest turns out of the history, appends them
to the transcript, and puts one turn with a summary of them in their place.

The case of letters is folded by the parameter `toLowercase`.
-/

namespace RustyClaw.Context

open Glyph
open Json hiding str

variable {χ : Type} [Glyph χ]

/-! ## The texts of a summary -/

def truncateChars (input : List χ) (maxChars : Nat) : List χ :=
  if input.length ≤ maxChars then input else input.take maxChars

/-- The loop of `strip_thinking_tags`; each round cuts out at least a pair of tags, so `fuel` does
not run out when there are no fewer rounds than characters. -/
def stripThinkingLoop : Nat → List χ → List χ
  | 0, result => result
  | fuel + 1, result =>
    match Text.find "<think>".toList (chars result) with
    | none => result
    | some start =>
      match Text.find "</think>".toList (chars (result.drop start)) with
      | some endOffset =>
        stripThinkingLoop fuel (result.take start ++ result.drop (start + endOffset + 8))
      | none => result.take start

def stripThinkingTags (text : List χ) : List χ := trim (stripThinkingLoop text.length text)

/-- With as many rounds as there are characters, no tag that opens is left. -/
lemma find_stripThinkingLoop {fuel : Nat} {text : List χ} (h : text.length ≤ fuel) :
    Text.find "<think>".toList (chars (stripThinkingLoop fuel text)) = none := by
  induction fuel generalizing text with
  | zero =>
    rw [List.eq_nil_of_length_eq_zero (Nat.le_zero.mp h)]
    rfl
  | succ fuel ih =>
    have hne : "<think>".toList ≠ [] := by decide
    unfold stripThinkingLoop
    split
    · next hnone => exact hnone
    · next start hstart =>
      obtain ⟨hoccurs, hfirst⟩ := (Text.find_eq_some_iff hne).mp hstart
      have hlength := hoccurs.length_le hne
      simp only [length_chars] at hlength
      change start + 7 ≤ text.length at hlength
      split
      · refine ih ?_
        simp only [List.length_append, List.length_take, List.length_drop]
        omega
      · rw [Text.find_eq_none_iff hne]
        intro i hi
        have hlt := hi.length_le hne
        rw [length_chars, List.length_take] at hlt
        refine hfirst i ?_ ?_
        · change i + 7 ≤ min start text.length at hlt
          omega
        · rw [← List.take_append_drop start text, chars_append]
          exact (Text.occursAt_append_left (by rwa [length_chars, List.length_take])).mpr hi

/-- A text in an object. -/
def getStr (key : String) (value : Json χ) : Option (List χ) := (get key.toList value).bind asStr

def summarizeToolArgs (args : Json χ) : List χ :=
  match args with
  | .obj _ =>
    match getStr "action" args with
    | some action =>
      let target := ((((get "target_url".toList args).orElse fun _ => get "url".toList args).bind
        asStr).map fun value => truncateChars value 60).getD []
      if target.isEmpty then action else action ++ str " " ++ target
    | none =>
      match getStr "path" args, getStr "command" args, getStr "url" args with
      | some path, _, _ => path
      | none, some cmd, _ => truncateChars cmd 80
      | none, none, some url => url
      | none, none, none => truncateChars (render args) 60
  | _ => truncateChars (render args) 60

section ToolErrors

variable (toLowercase : List Char → List Char)

/-- The verdict of the fields of a response. -/
def declaredToolError (response : Json χ) : Option Bool :=
  match (get "ok".toList response).bind asBool with
  | some ok => some !ok
  | none =>
    match ((get "exit_code".toList response).bind asInt).filter fun code =>
        decide (-2 ^ 63 ≤ code ∧ code < 2 ^ 63) with
    | some code => some (code ≠ 0)
    | none =>
      match (get "success".toList response).bind asBool with
      | some success => some !success
      | none =>
        match getStr "status" response with
        | some status =>
          let s := toLowercase (chars status)
          if s = "error".toList ∨ s = "failed".toList then some true
          else if s = "ok".toList ∨ s = "success".toList then some false
          else none
        | none => none

def errorKeywords : List String :=
  ["error:", "failed:", "panicked at", "exception:", "traceback "]

def falsePositives : List String :=
  ["no error", "0 errors", "error_handler", "error.rs", "errors found: 0", "without error"]

def detectToolError (response : Json χ) : Bool :=
  match declaredToolError toLowercase response with
  | some verdict => verdict
  | none =>
    let resultStr := toLowercase (chars (render response))
    if utf8Len resultStr < 20 then false
    else
      errorKeywords.any (fun keyword => Text.contains keyword.toList resultStr) &&
        !falsePositives.any fun phrase => Text.contains phrase.toList resultStr

end ToolErrors

/-! ## The summary -/

def compactedMessage : String := "[SYSTEM] History Compacted"

def maxSummaryChars : Nat := 4000

section Summary

variable (toLowercase : List Char → List Char)

/-- What a part of a message adds to the actions of its turn. -/
def partActions (role : List χ) (part : Part χ) : List (List χ) :=
  (match part.text with
    | some text =>
      let cleaned := stripThinkingTags text
      if chars role = "model".toList ∧ cleaned ≠ [] then
        [str "  💬 Agent: " ++ truncateChars cleaned 200]
      else []
    | none => []) ++
  (match part.functionCall with
    | some call =>
      [str "  → " ++ call.name ++ str "(" ++ summarizeToolArgs call.args.json ++ str ")"]
    | none => []) ++
  (match part.functionResponse with
    | some response =>
      if detectToolError toLowercase response.response.json then
        [str "  ✗ " ++ response.name ++ str " FAILED: " ++
          truncateChars (render response.response.json) 150]
      else [str "  ✓ " ++ response.name ++ str " OK"]
    | none => [])

def turnActions (turn : Turn χ) : List (List χ) :=
  turn.messages.flatMap fun message => message.parts.flatMap (partActions toLowercase message.role)

def turnTexts (turn : Turn χ) : List (List χ) :=
  turn.messages.flatMap fun message => message.parts.filterMap (·.text)

/-- The lines for the turns from number `i` on. -/
def summaryLines (toCompact : Nat) : Nat → Nat → Bool → List (Turn χ) → List (List χ)
  | _, _, _, [] => []
  | i, totalChars, budgetExhausted, turn :: turns =>
    if budgetExhausted then
      [str (s!"\n[Turns {i + 1}-{toCompact}] (omitted due to summary size limit)")]
    else if chars turn.userMessage = compactedMessage.toList then
      -- an earlier summary; the size limit is not looked at here
      let texts := turnTexts turn
      texts.map (fun text => str "\n" ++ truncateChars text 1500) ++
        summaryLines toCompact (i + 1)
          (totalChars + (texts.map fun text => min (utf8Len text) 1500).sum) false turns
    else
      let header := str (s!"\n[Turn {i + 1}] User: ") ++ truncateChars turn.userMessage 120
      let actions := turnActions toLowercase turn
      let totalChars := totalChars + utf8Len header + (actions.map utf8Len).sum
      header :: (if actions.isEmpty then [str "  (text-only exchange, no tool calls)"] else actions) ++
        summaryLines toCompact (i + 1) totalChars (decide (maxSummaryChars < totalChars)) turns

def summaryText (compactedTurns : List (Turn χ)) : List χ :=
  let toCompact := compactedTurns.length
  let first := str s!"=== Compacted History ({toCompact} turns) ==="
  str ("[System context: The following is an automated summary of earlier conversation history. " ++
    "Use it as background knowledge but do not respond to it directly.]\n\n") ++
    join "\n" (first :: summaryLines toLowercase toCompact 0 (utf8Len first) false compactedTurns)

/-- The turn that stands for the compacted ones. -/
def compactedTurn (uuid : List χ) (compactedTurns : List (Turn χ)) : Turn χ :=
  { turnId := str "compacted-" ++ uuid
    userMessage := str compactedMessage
    messages := [textMessage (summaryText toLowercase compactedTurns)] }

/-! ## The compaction -/

/-- The turns are appended one after the other; an append that fails does not keep the next from
being tried. -/
def archiveTurns (files : Files χ) (path : Option UnixPath) (written : Nat → Written) :
    Nat → List (Turn χ) → Files χ
  | _, [] => files
  | i, turn :: turns => archiveTurns (appendTurn files path turn (written i)) path written (i + 1) turns

def ruleBasedCompact (files : Files χ) (ctx : AgentContext χ) (numTurns : Nat)
    (written : Nat → Written) (uuid : List χ) : Option (Files χ × AgentContext χ × String) :=
  if numTurns = 0 ∨ ctx.dialogueHistory = [] then none
  else
    let toCompact := min numTurns ctx.dialogueHistory.length
    let compactedTurns := ctx.dialogueHistory.take toCompact
    some (archiveTurns files ctx.transcriptPath written 0 compactedTurns,
      { ctx with
        dialogueHistory :=
          compactedTurn toLowercase uuid compactedTurns :: ctx.dialogueHistory.drop toCompact },
      s!"Compacted {toCompact} turns into structured summary")

end Summary

end RustyClaw.Context
