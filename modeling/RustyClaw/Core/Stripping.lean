import RustyClaw.Context.History
import RustyClaw.Core.Streaming

/-!
# What the user sees and what is remembered

Two functions take the think blocks out of an answer: `strip_think_blocks` for the text that is
shown, and `strip_thinking_tags` for the text that a summary of the history quotes.  Both cut from
the first `<think>` to a `</think>`, and start over.  The second looks for the `</think>` behind
the `<think>`.  The first looks for it from the beginning of the text, so a `</think>` in front
of the first `<think>` is taken for its end.  The cut then repeats the text between the two
instead of removing a block, and the loop goes on for ever.

`OpensFirst` says that no round finds such a text.  The two loops make the same cuts then, and
`stripsAsRemembered_iff` says that nothing less is enough.
-/

namespace RustyClaw.Streaming

open Glyph Context

/-- What is expected of the text that is shown: the stripping ends, leaves no think block, and
shows what is remembered. -/
def StripsAsRemembered (text : List Char) : Prop :=
  ∃ visible, stripThinkBlocks text = some visible ∧
    (∀ i, ¬ Text.OccursAt thinkOpen visible i) ∧ trim visible = stripThinkingTags text

/-- Whenever a block is cut out, no `</think>` stands in front of the first `<think>`. -/
inductive OpensFirst : List Char → Prop
  | plain {text} : Text.find thinkOpen text = none → OpensFirst text
  | unclosed {text start} : Text.find thinkOpen text = some start →
      Text.find thinkClose text = none → OpensFirst text
  | block {text start stop} : Text.find thinkOpen text = some start →
      Text.find thinkClose text = some stop → start < stop →
      OpensFirst (text.take start ++ text.drop (stop + 8)) → OpensFirst text

variable {text visible : List Char} {fuel start stop : Nat}

lemma thinkOpen_eq : "<think>".toList = thinkOpen := (str_char _).symm
lemma thinkClose_eq : "</think>".toList = thinkClose := (str_char _).symm

/-! ## The stripping that ends -/

/-- The loop of `strip_think_blocks` only ends if it never meets a `</think>` in front of the first
`<think>`. -/
lemma opensFirst_of_stripLoop (h : stripLoop fuel text = some visible) : OpensFirst text := by
  induction fuel generalizing text with
  | zero => cases h
  | succ fuel ih =>
    cases ho : Text.find thinkOpen text with
    | none => exact .plain ho
    | some start =>
      cases hc : Text.find thinkClose text with
      | none => exact .unclosed ho hc
      | some stop =>
        have ho' : Text.find thinkOpen (chars text) = some start := by rwa [chars_char]
        have hc' : Text.find thinkClose (chars text) = some stop := by rwa [chars_char]
        obtain ⟨hgap, -, hrest⟩ := stop_of_stripLoop h ho' hc'
        exact .block ho hc (by omega) (ih hrest)

/-- Behind the first `<think>`, the first `</think>` of the whole text is found. -/
lemma find_close_drop (hc : Text.find thinkClose text = some stop) (hle : start ≤ stop) :
    Text.find thinkClose (text.drop start) = some (stop - start) := by
  obtain ⟨hat, hfirst⟩ := find_close_eq_some.mp hc
  refine find_close_eq_some.mpr ⟨?_, fun j hj h => ?_⟩
  · rw [Text.occursAt_drop, Nat.add_sub_cancel' hle]
    exact hat
  · exact hfirst (start + j) (by omega) (Text.occursAt_drop.mp h)

lemma find_close_drop_none (hc : Text.find thinkClose text = none) (start : Nat) :
    Text.find thinkClose (text.drop start) = none := by
  rw [Text.find_eq_none_iff thinkClose_ne_nil] at hc ⊢
  exact fun i h => hc (start + i) (Text.occursAt_drop.mp h)

/-- Both loops make the same cuts. -/
lemma stripLoop_eq_stripThinkingLoop (h : OpensFirst text) :
    ∃ rounds, ∀ fuel, text.length ≤ fuel →
      stripLoop rounds text = some (stripThinkingLoop fuel text) := by
  induction h with
  | @plain text ho =>
    refine ⟨1, fun fuel _ => ?_⟩
    have hkeep : stripThinkingLoop fuel text = text := by
      cases fuel with
      | zero => rfl
      | succ fuel => rw [stripThinkingLoop, chars_char, thinkOpen_eq, ho]
    rw [hkeep, stripLoop, chars_char, ho]
  | @unclosed text start ho hc =>
    refine ⟨1, fun fuel hfuel => ?_⟩
    have hlen := (find_open_eq_some.mp ho).1.length_le thinkOpen_ne_nil
    have hopen := thinkOpen_length
    cases fuel with
    | zero => omega
    | succ fuel =>
      rw [stripThinkingLoop, stripLoop, chars_char, thinkOpen_eq, ho]
      simp only [chars_char, thinkClose_eq, hc, find_close_drop_none hc start]
  | @block text start stop ho hc hlt _ ih =>
    obtain ⟨rounds, hrounds⟩ := ih
    refine ⟨rounds + 1, fun fuel hfuel => ?_⟩
    have hlen := (find_close_eq_some.mp hc).1.length_le thinkClose_ne_nil
    have hclose := thinkClose_length
    cases fuel with
    | zero => omega
    | succ fuel =>
      have hshorter : (text.take start ++ text.drop (stop + 8)).length ≤ fuel := by
        simp only [List.length_append, List.length_take, List.length_drop]
        omega
      rw [stripThinkingLoop, stripLoop, chars_char, thinkOpen_eq, ho]
      simp only [chars_char, thinkClose_eq, hc, find_close_drop hc (Nat.le_of_lt hlt),
        Nat.add_sub_cancel' (Nat.le_of_lt hlt)]
      exact hrounds fuel hshorter

/-! ## The result -/

/-- The stripping ends without a think block and with the text that is remembered exactly when no
round finds a `</think>` in front of the first `<think>`. -/
theorem stripsAsRemembered_iff (text : List Char) : StripsAsRemembered text ↔ OpensFirst text := by
  constructor
  · rintro ⟨visible, hstrip, -, -⟩
    exact opensFirst_of_stripLoop hstrip
  · intro h
    obtain ⟨rounds, hrounds⟩ := stripLoop_eq_stripThinkingLoop h
    have hloop := hrounds text.length (Nat.le_refl _)
    refine ⟨stripThinkingLoop text.length text, stripLoop_fuel rounds hloop, ?_, rfl⟩
    have hfree := stripLoop_open_free hloop
    rwa [chars_char] at hfree

/-- A stray `</think>` in front of a block: the stripping never ends. -/
theorem not_stripsAsRemembered_stray :
    ¬ StripsAsRemembered "a</think>b<think>c</think>d".toList := by
  rintro ⟨visible, hstrip, -, -⟩
  have ho : Text.find thinkOpen (chars "a</think>b<think>c</think>d".toList) = some 10 := by
    decide +kernel
  have hc : Text.find thinkClose (chars "a</think>b<think>c</think>d".toList) = some 1 := by
    decide +kernel
  have hnone : stripThinkBlocks "a</think>b<think>c</think>d".toList = none :=
    stripLoop_eq_none ho hc (by decide)
  rw [hnone] at hstrip
  cases hstrip

end RustyClaw.Streaming
