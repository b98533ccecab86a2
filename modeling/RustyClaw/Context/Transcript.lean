import RustyClaw.Context.Model
import RustyClaw.Library.Path

/-!
# The transcript of a session

A session appends the turns that end to a file, one line a turn (`context/transcript.rs`), and a new
context reads the file when the session is built again.  A line that is not a turn is skipped on
reading.

`loadTurns_lines` says what reading makes of a file that was written line by line.
-/

namespace RustyClaw.Context

open Glyph Json

variable {χ : Type} [Glyph χ]

/-! ## The file -/

abbrev Files (χ : Type) := UnixPath → Option (List χ)

/-- How far an append gets: the whole line is in the file, or some characters of it when writing
fails or the process ends. -/
inductive Written where
  | whole
  | broken (length : Nat)
  deriving DecidableEq, Repr

/-- The line of a turn. -/
def Turn.line (turn : Turn χ) : List χ := turn.toJsonString ++ [lit '\n']

def Written.of (written : Written) (line : List χ) : List χ :=
  match written with
  | .whole => line
  | .broken length => line.take length

def appendTurn (files : Files χ) (path : Option UnixPath) (turn : Turn χ) (written : Written) :
    Files χ :=
  match path with
  | none => files
  | some path => fun other =>
    if other = path then some ((files path).getD [] ++ written.of turn.line) else files other

section Loading

variable (number : NumLit χ → Option (NumLit χ))

/-- What is read from a line: nothing, when it is empty or does not parse. -/
def loadLine (line : List χ) : Option (Turn χ) :=
  let trimmed := trim line
  if trimmed.isEmpty then none else Turn.fromJsonStr number trimmed

def loadTurns (files : Files χ) (path : UnixPath) : List (Turn χ) :=
  match files path with
  | none => []
  | some content => (lines content).filterMap (loadLine number)

end Loading

/-! ## The context -/

structure AgentContext (χ : Type) [Glyph χ] where
  dialogueHistory : List (Turn χ) := []
  currentTurn : Option (Turn χ) := none
  transcriptPath : Option UnixPath := none

def loadIntoContext (number : NumLit χ → Option (NumLit χ)) (files : Files χ)
    (ctx : AgentContext χ) : AgentContext χ :=
  match ctx.transcriptPath with
  | none => ctx
  | some path => { ctx with dialogueHistory := ctx.dialogueHistory ++ loadTurns number files path }

@[simp] lemma transcriptPath_loadIntoContext (number : NumLit χ → Option (NumLit χ))
    (files : Files χ) (ctx : AgentContext χ) :
    (loadIntoContext number files ctx).transcriptPath = ctx.transcriptPath := by
  unfold loadIntoContext
  split
  · rfl
  · rfl

/-- A message with one text. -/
def textMessage (text : List χ) : Message χ :=
  { role := Glyph.str "user", parts := [{ text := some text }] }

def startTurn (ctx : AgentContext χ) (turnId text : List χ) : AgentContext χ :=
  { ctx with
    currentTurn := some { turnId, userMessage := text, messages := [textMessage text] } }

def addMessageToCurrentTurn (ctx : AgentContext χ) (message : Message χ) : AgentContext χ :=
  { ctx with
    currentTurn := ctx.currentTurn.map fun turn =>
      { turn with messages := turn.messages ++ [message] } }

def endTurn (files : Files χ) (ctx : AgentContext χ) (written : Written) :
    Files χ × AgentContext χ :=
  match ctx.currentTurn with
  | none => (files, ctx)
  | some turn =>
    (appendTurn files ctx.transcriptPath turn written,
      { ctx with currentTurn := none, dialogueHistory := ctx.dialogueHistory ++ [turn] })

/-! ## Reading what was written -/

section Reading

variable {number : NumLit χ → Option (NumLit χ)} {turn : Turn χ} {turns : List (Turn χ)}

lemma Turn.toJsonString_eq (turn : Turn χ) :
    turn.toJsonString = lit '\x7b' :: renderFields (turn.fields.map fun field =>
      (Glyph.str field.1, field.2)) ++ [lit '\x7d'] := rfl

lemma Turn.newline_not_mem (turn : Turn χ) : ∀ g ∈ turn.toJsonString, chr g ≠ '\n' := by
  intro g hg hnewline
  have hprintable : 0x20 ≤ (chr g).toNat := printable_render _ g hg
  rw [hnewline] at hprintable
  exact absurd hprintable (by decide)

lemma Turn.dropReturn_toJsonString (turn : Turn χ) :
    dropReturn turn.toJsonString = turn.toJsonString := by
  rw [toJsonString_eq, dropReturn, List.getLast?_append, List.getLast?_singleton]
  exact if_neg (by rw [chr_lit]; decide)

lemma Turn.trim_toJsonString (turn : Turn χ) : trim turn.toJsonString = turn.toJsonString := by
  have hopen : isWhitespace (chr (lit '\x7b' : χ)) = false := by rw [chr_lit]; decide
  have hclose : isWhitespace (chr (lit '\x7d' : χ)) = false := by rw [chr_lit]; decide
  rw [toJsonString_eq, trim, Text.trim, List.cons_append, List.dropWhile_cons, hopen,
    if_neg Bool.false_ne_true, ← List.cons_append]
  exact List.rdropWhile_concat_neg _ _ _ (by rw [hclose]; exact Bool.false_ne_true)

lemma loadLine_toJsonString (h : turn.Storable number) :
    loadLine number turn.toJsonString = some turn := by
  have hne : turn.toJsonString.isEmpty = false := by rw [Turn.toJsonString_eq]; rfl
  rw [loadLine, turn.trim_toJsonString, hne]
  exact Turn.fromJsonStr_toJsonString h

/-- A file that was written line by line is read turn by turn. -/
theorem loadTurns_lines {files : Files χ} {path : UnixPath}
    (hfile : (files path).getD [] = turns.flatMap Turn.line)
    (h : ∀ turn ∈ turns, turn.Storable number) : loadTurns number files path = turns := by
  have hlines : lines (turns.flatMap Turn.line) = turns.map Turn.toJsonString := by
    have hnewline : ∀ text ∈ turns.map Turn.toJsonString, ∀ g ∈ text, chr g ≠ '\n' := by
      intro text htext
      obtain ⟨turn, -, rfl⟩ := List.mem_map.mp htext
      exact turn.newline_not_mem
    have htexts := lines_flatMap hnewline
    rw [List.flatMap_map, List.map_map] at htexts
    refine htexts.trans (List.map_congr_left fun turn _ => turn.dropReturn_toJsonString)
  have hload : (turns.map Turn.toJsonString).filterMap (loadLine number) = turns := by
    rw [List.filterMap_map]
    refine (List.filterMap_congr fun turn hturn => ?_).trans List.filterMap_some
    exact loadLine_toJsonString (h turn hturn)
  rw [← hlines, ← hfile] at hload
  unfold loadTurns
  cases hcontent : files path with
  | none => simpa [hcontent, lines, linesFrom] using hload
  | some content => simpa [hcontent] using hload

end Reading

end RustyClaw.Context
