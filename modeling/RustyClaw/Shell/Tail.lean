import Mathlib.Data.List.DropRight
import RustyClaw.Library.ByteOffset

/-!
# The tail of an output

The summary of a shell command shows the end of its output.  `TailBuffer` (`shell_escape.rs`) keeps
it while the output comes: every chunk is appended, and what is too much is cut off in front, at the
byte offset of the first character that stays.

Seen from outside (`Shows`) the buffer is a plain list of everything that was pushed, of which the
last characters are shown; `Shows.push` says that a push keeps to this, and `showsTail` that all of
them do.
-/

namespace RustyClaw.Shell

open Glyph ByteOffset

structure TailBuffer where
  text : List Char
  maxChars : ℕ
  truncated : Bool
  deriving DecidableEq, Repr

namespace TailBuffer

def new (maxChars : ℕ) : TailBuffer where
  text := []
  maxChars := maxChars
  truncated := false

/-- `str::char_indices`, for a text that starts at an offset. -/
def charIndices (offset : ℕ) : List Char → List (ℕ × Char)
  | [] => []
  | c :: s => (offset, c) :: charIndices (offset + c.utf8Size) s

/-- `push`, where `none` is the panic of a cut inside a character. -/
def push (buffer : TailBuffer) (chunk : List Char) : Option TailBuffer :=
  let text := buffer.text ++ chunk
  let charCount := text.length
  if charCount ≤ buffer.maxChars then some { buffer with text }
  else
    let dropChars := charCount - buffer.maxChars
    let byteIdx := ((charIndices 0 text)[dropChars]?.map Prod.fst).getD (utf8Len text)
    (sliceFrom text byteIdx).map fun kept => { buffer with text := kept, truncated := true }

def asStr (buffer : TailBuffer) : List Char := buffer.text

/-! ## The plain tail -/

/-- What the buffer is expected to show when a text has been pushed. -/
structure Shows (buffer : TailBuffer) (pushed : List Char) : Prop where
  asStr_eq : buffer.asStr = pushed.rtake buffer.maxChars
  truncated_iff : buffer.truncated = true ↔ buffer.maxChars < pushed.length

/-! ## One push -/

lemma getElem?_charIndices (offset : ℕ) (s : List Char) (n : ℕ) :
    (charIndices offset s)[n]?.map Prod.fst =
      if n < s.length then some (offset + utf8Len (s.take n)) else none := by
  induction s generalizing offset n with
  | nil => rfl
  | cons c s ih =>
    cases n with
    | zero => rfl
    | succ n =>
      rw [charIndices, List.getElem?_cons_succ, ih, List.take_succ_cons, utf8Len_cons,
        List.length_cons, Nat.add_assoc]
      simp only [Nat.add_lt_add_iff_right]

/-- The offset at which a text is cut is that of a character, so the cut succeeds. -/
lemma sliceFrom_charIndices (s : List Char) (n : ℕ) :
    sliceFrom s (((charIndices 0 s)[n]?.map Prod.fst).getD (utf8Len s)) = some (s.drop n) := by
  have hoffset : ((charIndices 0 s)[n]?.map Prod.fst).getD (utf8Len s) = utf8Len (s.take n) := by
    rw [getElem?_charIndices]
    split_ifs with h
    · exact Nat.zero_add _
    · rw [List.take_of_length_le (Nat.le_of_not_lt h)]
      rfl
  rw [hoffset]
  have hcut := sliceFrom_utf8Len_append (s.take n) (s.drop n)
  rwa [List.take_append_drop] at hcut

lemma push_eq (buffer : TailBuffer) (chunk : List Char) :
    buffer.push chunk = some {
      text := (buffer.text ++ chunk).rtake buffer.maxChars
      maxChars := buffer.maxChars
      truncated := buffer.truncated || decide (buffer.maxChars < (buffer.text ++ chunk).length) } := by
  rw [push]
  dsimp only
  by_cases hfits : (buffer.text ++ chunk).length ≤ buffer.maxChars
  · have hwhole : (buffer.text ++ chunk).rtake buffer.maxChars = buffer.text ++ chunk := by
      rw [List.rtake, Nat.sub_eq_zero_of_le hfits, List.drop_zero]
    rw [if_pos hfits, hwhole, decide_eq_false (Nat.not_lt.mpr hfits), Bool.or_false]
  · rw [if_neg hfits, sliceFrom_charIndices, Option.map_some,
      decide_eq_true (Nat.lt_of_not_le hfits), Bool.or_true, List.rtake]

/-- What is in front of the tail of a text does not count for the tail of a longer one. -/
lemma rtake_append (s t : List Char) (n : ℕ) : (s.rtake n ++ t).rtake n = (s ++ t).rtake n := by
  simp only [List.rtake_eq_reverse_take_reverse, List.reverse_append, List.reverse_reverse,
    List.take_append, List.take_take]
  rw [Nat.min_eq_left (Nat.sub_le _ _)]

lemma Shows.push {buffer : TailBuffer} {pushed : List Char} (h : buffer.Shows pushed)
    (chunk : List Char) :
    ∃ buffer', buffer.push chunk = some buffer' ∧ buffer'.maxChars = buffer.maxChars ∧
      buffer'.Shows (pushed ++ chunk) := by
  refine ⟨_, push_eq buffer chunk, rfl, ?_, ?_⟩
  · show (buffer.asStr ++ chunk).rtake buffer.maxChars = _
    rw [h.asStr_eq, rtake_append]
  · have hlength : buffer.text.length = min pushed.length buffer.maxChars := by
      have htext : buffer.text = pushed.rtake buffer.maxChars := h.asStr_eq
      rw [htext, List.rtake, List.length_drop]
      omega
    have htruncated := h.truncated_iff
    show (buffer.truncated || decide (buffer.maxChars < (buffer.text ++ chunk).length)) = true ↔
      buffer.maxChars < (pushed ++ chunk).length
    rw [Bool.or_eq_true, decide_eq_true_eq, List.length_append, List.length_append, htruncated,
      hlength]
    omega

/-! ## All pushes -/

lemma shows_new (maxChars : ℕ) : (new maxChars).Shows [] where
  asStr_eq := (List.rtake_nil _).symm
  truncated_iff := iff_of_false Bool.false_ne_true (Nat.not_lt_zero _)

lemma Shows.pushAll {buffer : TailBuffer} {pushed : List Char} (h : buffer.Shows pushed)
    (chunks : List (List Char)) :
    ∃ buffer', chunks.foldlM TailBuffer.push buffer = some buffer' ∧
      buffer'.maxChars = buffer.maxChars ∧ buffer'.Shows (pushed ++ chunks.flatten) := by
  induction chunks generalizing buffer pushed with
  | nil => exact ⟨buffer, rfl, rfl, by rwa [List.flatten_nil, List.append_nil]⟩
  | cons chunk chunks ih =>
    obtain ⟨next, hpush, hmax, hnext⟩ := h.push chunk
    obtain ⟨last, hpushAll, hlast, hshows⟩ := ih hnext
    refine ⟨last, ?_, hlast.trans hmax, ?_⟩
    · rw [List.foldlM_cons, hpush]
      exact hpushAll
    · rwa [List.flatten_cons, ← List.append_assoc]

/-- Whatever is pushed, no push panics, and the buffer has the last characters of all of it and the
flag exactly when there were more. -/
theorem showsTail (maxChars : ℕ) (chunks : List (List Char)) :
    ∃ buffer, chunks.foldlM push (new maxChars) = some buffer ∧
      buffer.asStr = chunks.flatten.rtake maxChars ∧
        (buffer.truncated = true ↔ maxChars < chunks.flatten.length) := by
  obtain ⟨buffer, hpushAll, hmax, hshows⟩ := (shows_new maxChars).pushAll chunks
  refine ⟨buffer, hpushAll, ?_, ?_⟩
  · rw [hshows.asStr_eq, hmax]
    rfl
  · rw [hshows.truncated_iff, hmax]
    rfl

example : (["hello".toList, " world".toList].foldlM push (new 5)).map asStr =
    some "world".toList := by decide

end TailBuffer

end RustyClaw.Shell
