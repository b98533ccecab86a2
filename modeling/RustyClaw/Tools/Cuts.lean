import RustyClaw.Discord.Output
import RustyClaw.Library.Json
import RustyClaw.Shell.Stream
import RustyClaw.Telegram.Output
import RustyClaw.Tools.Files

/-!
# Where the text of a result is cut

On its way to a front end or to the model the text of a result is cut in four places: Discord shows
its beginning, Telegram sends it in chunks, the shell stream stops at a limit, and long output loses
its middle.  Here each of them is written with the offsets that the code computes, and a cut that
panics is `none`.

Telegram and the shell go back to a character boundary, and the truncation counts lines and
characters, so they never fail (`cutLoop_eq_chunks`, `prefixByBytes_eq`, `checkedTruncateImpl_eq`).
Discord cuts at byte 1800 of whatever it shows: `neverPanics_iff` says that this is all that can go
wrong.
-/

namespace RustyClaw

open Glyph ByteOffset

/-! ## Discord -/

namespace Discord

/-- The value that the result is read as, if it is JSON. -/
def resultField (result key : List Char) : Option (Json Char) :=
  (Json.parse result).bind (Json.get key)

def resultOk (result : List Char) : Bool :=
  match resultField result "ok".toList with
  | some (.bool ok) => ok
  | _ => true

/-- The text that is shown: the output that the result names, or the result itself. -/
def outputText (result : List Char) : List Char :=
  ((resultField result "output".toList).bind Json.asStr).getD result

def displayResult (result : List Char) : Option (List Char) :=
  if 1800 < utf8Len (outputText result) then
    (sliceTo (outputText result) 1800).map (· ++ "... (truncated)".toList)
  else some (outputText result)

/-- `on_tool_end`; the answer of the service is not looked at. -/
def onToolEnd (s : DiscordOutput) (result : List Char) : Option DiscordOutput := do
  let display ← displayResult result
  let statusEmoji := if resultOk result then "✅" else "❌"
  let msg := statusEmoji.toList ++ " **Tool Result**:\n```\n".toList ++ display ++ "\n```".toList
  return { s with channel := ((s.channel.say msg).map Prod.snd).getD s.channel }

end Discord

/-! ## Telegram -/

namespace Telegram

/-- The chunks of `send_long_message` from an offset on, with `none` for a panic and for a loop that
does not end within so many rounds. -/
def cutLoop (text : List Char) : ℕ → ℕ → Option (List (List Char))
  | 0, start => if start < utf8Len text then none else some []
  | rounds + 1, start =>
    if start < utf8Len text then do
      let stop := floorBoundary text start (min (start + maxLen) (utf8Len text))
      let chunk ← slice text start stop
      let later ← cutLoop text rounds stop
      return chunk :: later
    else some []

end Telegram

/-! ## Truncation -/

namespace Files

/-- A subtraction of sizes that panics below zero. -/
def checkedSub (a b : ℕ) : Option ℕ := if b ≤ a then some (a - b) else none

/-- `&items[start..end]`. -/
def sliceItems {α : Type} (items : List α) (start stop : ℕ) : Option (List α) :=
  if start ≤ stop ∧ stop ≤ items.length then some ((items.drop start).take (stop - start)) else none

/-- The first pass of `truncate_impl`, over the lines, with every subtraction and slice checked. -/
def checkedTruncateLines (maxLines : ℕ) (log : List Char) : Option (List Char) :=
  let linesRaw := lines log
  if linesRaw.length ≤ maxLines then some log
  else do
    let keepHead := maxLines / 2
    let keepTail ← checkedSub maxLines keepHead
    let head ← sliceItems linesRaw 0 keepHead
    let tailStart ← checkedSub linesRaw.length keepTail
    let tail ← sliceItems linesRaw tailStart linesRaw.length
    let omitted ← checkedSub linesRaw.length maxLines
    return join "\n" head ++ "\n\n[... Truncated ".toList ++ Nat.toDigits 10 omitted ++
      " lines ...]\n\n".toList ++ join "\n" tail

/-- The second pass of `truncate_impl`, over the characters. -/
def checkedTruncateChars (maxChars : ℕ) (text : List Char) : Option (List Char) :=
  if utf8Len text ≤ maxChars then some text
  else if text.length ≤ maxChars then some text
  else do
    let keep := maxChars / 2
    let skipped ← checkedSub text.length keep
    let omitted ← checkedSub text.length maxChars
    return text.take keep ++ "\n\n[... Truncated ".toList ++ Nat.toDigits 10 omitted ++
      " characters ...]\n\n".toList ++ text.drop skipped

def checkedTruncateImpl (log : List Char) (maxLines maxChars : ℕ) : Option (List Char) :=
  (checkedTruncateLines maxLines log).bind (checkedTruncateChars maxChars)

end Files

/-- No cut of the result panics; and the chunks that Telegram sends are not empty and together the
whole text. -/
structure NeverPanics (result : List Char) : Prop where
  discord : ∀ s, (Discord.onToolEnd s result).isSome = true
  telegram : ∃ chunks, Telegram.cutLoop result (utf8Len result) 0 = some chunks ∧
    (∀ chunk ∈ chunks, chunk ≠ []) ∧ chunks.flatten = result
  shell : ∀ maxBytes, (Shell.prefixByBytes result maxBytes).isSome = true
  truncation : ∀ maxLines maxChars,
    (Files.checkedTruncateImpl result maxLines maxChars).isSome = true

/-! ## The chunks of a long message -/

namespace Telegram

lemma splitAtByte_eq (room : ℕ) (text : List Char) :
    splitAtByte room text = (fitting room text, text.drop (fitting room text).length) := by
  induction text generalizing room with
  | nil => rfl
  | cons c text ih =>
    rw [splitAtByte]
    by_cases hfits : c.utf8Size ≤ room
    · have hcons : fitting room (c :: text) = c :: fitting (room - c.utf8Size) text := if_pos hfits
      rw [if_pos hfits, ih, hcons]
      rfl
    · have hnil : fitting room (c :: text) = [] := if_neg hfits
      rw [if_neg hfits, hnil]
      rfl

lemma fitting_min (room : ℕ) (text : List Char) :
    fitting (min room (utf8Len text)) text = fitting room text := by
  rcases Nat.le_total room (utf8Len text) with hle | hle
  · rw [Nat.min_eq_left hle]
  · rw [Nat.min_eq_right hle, fitting_of_le le_rfl, fitting_of_le hle]

/-- One round goes from a boundary to the next one that is at most a chunk away. -/
lemma slice_cutLoop (sent text : List Char) :
    floorBoundary (sent ++ text) (utf8Len sent)
        (min (utf8Len sent + maxLen) (utf8Len (sent ++ text)))
      = utf8Len (sent ++ fitting maxLen text) := by
  rw [utf8Len_append, Nat.add_min_add_left, floorBoundary_append, floorBoundary_zero, fitting_min,
    utf8Len_append]

/-- **The cuts are at boundaries.**  The loop over byte offsets gives the chunks of the text: the
induction is on the rounds, with what has been sent in front of the text. -/
theorem cutLoop_eq_chunks (sent : List Char) {text : List Char} {rounds : ℕ}
    (h : text.length ≤ rounds) :
    cutLoop (sent ++ text) rounds (utf8Len sent) = some (chunks rounds text) := by
  induction rounds generalizing sent text with
  | zero =>
    obtain rfl : text = [] := List.eq_nil_of_length_eq_zero (Nat.le_zero.mp h)
    rw [List.append_nil, cutLoop, if_neg (Nat.lt_irrefl _)]
    rfl
  | succ rounds ih =>
    rw [cutLoop, chunks, slice_cutLoop]
    by_cases htext : text = []
    · rw [htext, List.append_nil, if_neg (Nat.lt_irrefl _), if_pos rfl]
    · have hlt : utf8Len sent < utf8Len (sent ++ text) := by
        have hpos : utf8Len text ≠ 0 := fun h0 => htext (utf8Len_eq_zero.mp h0)
        rw [utf8Len_append]
        omega
      have hsplit : fitting maxLen text ++ text.drop (fitting maxLen text).length = text :=
        fitting_append_drop maxLen text
      have hslice : slice (sent ++ text) (utf8Len sent) (utf8Len (sent ++ fitting maxLen text))
          = some (fitting maxLen text) := by
        have hcut := slice_append sent (fitting maxLen text)
          (text.drop (fitting maxLen text).length)
        rwa [hsplit, ← utf8Len_append] at hcut
      have hchunk : fitting maxLen text ≠ [] := by
        have hne : (splitAtByte maxLen text).1 ≠ [] := splitAtByte_ne_nil (by decide) htext
        rwa [splitAtByte_eq] at hne
      have hshort : (text.drop (fitting maxLen text).length).length ≤ rounds := by
        have hlength := List.length_pos_iff.mpr hchunk
        rw [List.length_drop]
        omega
      have hrest := ih (sent ++ fitting maxLen text) hshort
      rw [List.append_assoc, hsplit] at hrest
      rw [if_pos hlt, if_neg htext, splitAtByte_eq]
      simp only [hslice, hrest, Option.bind_eq_bind, Option.bind_some, Option.pure_def]

lemma ne_nil_of_mem_chunks {rounds : ℕ} {text chunk : List Char} (h : chunk ∈ chunks rounds text) :
    chunk ≠ [] := by
  induction rounds generalizing text with
  | zero => exact absurd h List.not_mem_nil
  | succ rounds ih =>
    rw [chunks] at h
    split_ifs at h with htext
    · exact absurd h List.not_mem_nil
    · rcases List.mem_cons.mp h with rfl | h
      · exact splitAtByte_ne_nil (by decide) htext
      · exact ih h

lemma exists_cutLoop (text : List Char) : ∃ pieces, cutLoop text (utf8Len text) 0 = some pieces ∧
    (∀ piece ∈ pieces, piece ≠ []) ∧ pieces.flatten = text := by
  have hlength := length_le_utf8Len text
  exact ⟨_, cutLoop_eq_chunks [] hlength, fun _ => ne_nil_of_mem_chunks, flatten_chunks hlength⟩

end Telegram

/-! ## The truncation -/

namespace Files

lemma checkedSub_eq {a b : ℕ} (h : b ≤ a) : checkedSub a b = some (a - b) := if_pos h

lemma sliceItems_zero {α : Type} {items : List α} {n : ℕ} (h : n ≤ items.length) :
    sliceItems items 0 n = some (items.take n) := if_pos ⟨Nat.zero_le n, h⟩

lemma sliceItems_length {α : Type} {items : List α} {n : ℕ} (h : n ≤ items.length) :
    sliceItems items n items.length = some (items.drop n) := by
  rw [sliceItems, if_pos ⟨h, le_rfl⟩, List.take_of_length_le (by rw [List.length_drop])]

lemma checkedTruncateLines_eq (maxLines : ℕ) (log : List Char) :
    checkedTruncateLines maxLines log = some (truncateLines maxLines log) := by
  unfold checkedTruncateLines truncateLines
  simp only
  split_ifs with hshort
  · rfl
  · have hhead : maxLines / 2 ≤ (lines log).length := by omega
    have htail : maxLines - maxLines / 2 ≤ (lines log).length := by omega
    have hlines : maxLines ≤ (lines log).length := Nat.le_of_not_le hshort
    simp only [checkedSub_eq (Nat.div_le_self maxLines 2), sliceItems_zero hhead,
      checkedSub_eq htail, sliceItems_length (Nat.sub_le _ _), checkedSub_eq hlines,
      Option.bind_eq_bind, Option.bind_some, Option.pure_def]

/-- All indices of the truncation are in bounds. -/
theorem checkedTruncateImpl_eq (log : List Char) (maxLines maxChars : ℕ) :
    checkedTruncateImpl log maxLines maxChars = some (truncateImpl log maxLines maxChars) := by
  rw [checkedTruncateImpl, checkedTruncateLines_eq, Option.bind_some, truncateImpl]
  generalize truncateLines maxLines log = text
  simp only [checkedTruncateChars]
  by_cases hchars : text.length ≤ maxChars
  · rw [if_pos hchars, if_pos hchars, ite_self]
  · have hbytes : ¬utf8Len text ≤ maxChars :=
      fun hle => hchars ((Telegram.length_le_utf8Len text).trans hle)
    have hkeep : maxChars / 2 ≤ text.length := by omega
    rw [if_neg hbytes, if_neg hchars, if_neg hchars]
    simp only [checkedSub_eq hkeep, checkedSub_eq (Nat.le_of_not_le hchars), Option.bind_eq_bind,
      Option.bind_some, Option.pure_def]

end Files

/-! ## When no cut panics -/

lemma Discord.isSome_onToolEnd (s : DiscordOutput) (result : List Char) :
    (onToolEnd s result).isSome = true ↔
      utf8Len (outputText result) ≤ 1800 ∨ isBoundary (outputText result) 1800 = true := by
  have hdisplay : (onToolEnd s result).isSome = (displayResult result).isSome := by
    rw [onToolEnd]
    cases displayResult result <;> rfl
  rw [hdisplay, displayResult]
  split_ifs with hlong
  · rw [Option.isSome_map, isSome_sliceTo, or_iff_right (Nat.not_le_of_lt hlong)]
  · exact iff_of_true rfl (.inl (Nat.le_of_not_lt hlong))

/-- **Only Discord can panic.**  Every cut of a result is at a character boundary, and the chunks of
a long message are not empty and the whole text, exactly when the text that Discord shows has at most
1800 bytes or a character boundary there. -/
theorem neverPanics_iff (result : List Char) :
    NeverPanics result ↔
      utf8Len (Discord.outputText result) ≤ 1800 ∨
        isBoundary (Discord.outputText result) 1800 = true := by
  constructor
  · intro h
    exact (Discord.isSome_onToolEnd (.new 0) result).mp (h.discord (.new 0))
  · intro h
    refine ⟨fun s => (Discord.isSome_onToolEnd s result).mpr h, Telegram.exists_cutLoop result, ?_, ?_⟩
    · intro maxBytes
      rw [Shell.prefixByBytes_eq, Option.isSome_some]
    · intro maxLines maxChars
      rw [Files.checkedTruncateImpl_eq, Option.isSome_some]

/-- The output of a command in French. -/
def accented : List Char := 'a' :: List.replicate 900 'é'

def accentedResult : Json Char :=
  .obj [("ok".toList, .bool true), ("output".toList, .str accented)]

lemma isBoundary_replicate_odd (m k : ℕ) :
    isBoundary (List.replicate m 'é') (2 * k + 1) = false := by
  have hsize : Char.utf8Size 'é' = 2 := by decide
  induction m generalizing k with
  | zero => rfl
  | succ m ih =>
    rw [List.replicate_succ, isBoundary, hsize]
    cases k with
    | zero => rfl
    | succ k =>
      have hrest : 2 * (k + 1) + 1 - 2 = 2 * k + 1 := by omega
      rw [hrest, ih, Bool.and_false]

lemma utf8Len_accented : utf8Len accented = 1801 := by
  have hsize : Char.utf8Size 'é' = 2 := by decide
  have hrun : ∀ m, utf8Len (List.replicate m 'é') = 2 * m := by
    intro m
    induction m with
    | zero => rfl
    | succ m ih =>
      rw [List.replicate_succ, utf8Len_cons, ih, hsize]
      omega
  rw [accented, utf8Len_cons, hrun]
  rfl

lemma outputText_accentedResult : Discord.outputText accentedResult.render = accented := by
  have hparse : Json.parse accentedResult.render = some accentedResult :=
    Json.parse_render _ (by decide)
  rw [Discord.outputText, Discord.resultField, hparse]
  rfl

/-- Byte 1800 of this output is the second byte of a character. -/
theorem not_neverPanics_accented : ¬ NeverPanics accentedResult.render := by
  intro h
  have hdiscord := (Discord.isSome_onToolEnd (.new 0) accentedResult.render).mp (h.discord (.new 0))
  rw [outputText_accentedResult, utf8Len_accented] at hdiscord
  rcases hdiscord with hshort | hboundary
  · omega
  · have hinner := isBoundary_replicate_odd 900 899
    rw [accented, isBoundary] at hboundary
    simp only [Bool.and_eq_true] at hboundary
    rw [show 1799 + 1 - Char.utf8Size 'a' = 2 * 899 + 1 from rfl, hinner] at hboundary
    exact Bool.false_ne_true hboundary.2

end RustyClaw
