import RustyClaw.Library.Glyph

/-!
# The text of a streamed answer

`collect_stream_response` folds the events of an LLM stream into one string.  `Text` events are
appended as they are, every `Thought` event is appended behind a `<think>` marker (unless the
string just ended with one), and a missing `</think>` is added when the stream is over.  What
the user sees, what becomes the final answer and what text mode runs is this string after
`strip_think_blocks`.

The markers are opened for every thought but closed only once, at the very end.  So the text
that follows a thought is removed with it: `visible_eq_text_iff` says exactly which streams
come out as the concatenation of their `Text` events.  Its proof labels each character with
the kind of event it comes from.
-/

namespace RustyClaw.Streaming

open Glyph

/-! ## Events and the accumulated text -/

variable {χ κ : Type}

inductive StreamEvent (χ κ : Type) where
  | text (content : List χ)
  | thought (content : List χ)
  | toolCall (call : κ)
  | error (message : List χ)
  | done

def thinkOpen : List Char := str "<think>"
def thinkClose : List Char := str "</think>"

/-- `current_turn_text` and `tool_calls_accumulated`. -/
structure StreamAcc (χ κ : Type) where
  text : List χ := []
  toolCalls : List κ := []

section Collect

variable [Glyph χ]

/-- A thought opens a think block unless the text just ended with an opened one. -/
def pushThought (text content : List χ) : List χ :=
  (if Text.endsWith thinkOpen (chars text) then text else text ++ str "<think>") ++ content

/-- The events of a stream up to `Done` or its end, or the message of a stream error. -/
def collectEvents (acc : StreamAcc χ κ) :
    List (StreamEvent χ κ) → Except (List χ) (StreamAcc χ κ)
  | [] => .ok acc
  | .done :: _ => .ok acc
  | .error message :: _ => .error message
  | .text content :: events => collectEvents { acc with text := acc.text ++ content } events
  | .thought content :: events =>
    collectEvents { acc with text := pushThought acc.text content } events
  | .toolCall call :: events =>
    collectEvents { acc with toolCalls := acc.toolCalls ++ [call] } events

/-- What is done with the accumulated text when the stream has ended well. -/
def closeThinkBlock (text : List χ) : List χ :=
  if Text.contains thinkOpen (chars text) && !Text.contains thinkClose (chars text) then
    text ++ str "</think>"
  else text

/-- The loop of `strip_think_blocks`, for at most `fuel` rounds.  Both searches start at the
beginning of the string. -/
def stripLoop : Nat → List χ → Option (List χ)
  | 0, _ => none
  | fuel + 1, s =>
    match Text.find thinkOpen (chars s) with
    | none => some s
    | some start =>
      match Text.find thinkClose (chars s) with
      | some stop => stripLoop fuel (s.take start ++ s.drop (stop + 8))
      | none => some (s.take start)

/-- `strip_think_blocks`; `none` means that its loop does not end.  By `stripLoop_fuel` more
rounds than these make no difference. -/
def stripThinkBlocks (s : List χ) : Option (List χ) :=
  stripLoop (s.length + 1) s

end Collect

/-! ## The loop and its fuel -/

section Strip

variable [Glyph χ] {s r : List χ} {fuel start stop i j : Nat}

lemma thinkOpen_ne_nil : thinkOpen ≠ [] := by decide
lemma thinkClose_ne_nil : thinkClose ≠ [] := by decide
lemma thinkOpen_length : thinkOpen.length = 7 := rfl
lemma thinkClose_length : thinkClose.length = 8 := rfl

lemma not_open_of_close {t : List Char} (h : Text.OccursAt thinkClose t i) :
    ¬ Text.OccursAt thinkOpen t i :=
  h.ne_of_getElem? (k := 1) (by decide) (by decide) (by decide)

/-- A close marker in front of an open one ends before it. -/
lemma close_before_open {t : List Char} (hc : Text.OccursAt thinkClose t i)
    (ho : Text.OccursAt thinkOpen t j) (h : i ≤ j) : i + 8 ≤ j := by
  rcases Nat.lt_or_eq_of_le h with h | rfl
  · exact hc.disjoint ho h (d := '<') (by decide) (by decide)
  · exact absurd ho (not_open_of_close hc)

/-- An open marker in front of a close one ends before it. -/
lemma open_before_close {t : List Char} (ho : Text.OccursAt thinkOpen t i)
    (hc : Text.OccursAt thinkClose t j) (h : i ≤ j) : i + 7 ≤ j := by
  rcases Nat.lt_or_eq_of_le h with h | rfl
  · exact ho.disjoint hc h (d := '<') (by decide) (by decide)
  · exact absurd ho (not_open_of_close hc)

lemma find_open_eq_some {t : List Char} :
    Text.find thinkOpen t = some i ↔
      Text.OccursAt thinkOpen t i ∧ ∀ j < i, ¬ Text.OccursAt thinkOpen t j :=
  Text.find_eq_some_iff thinkOpen_ne_nil

lemma find_close_eq_some {t : List Char} :
    Text.find thinkClose t = some i ↔
      Text.OccursAt thinkClose t i ∧ ∀ j < i, ¬ Text.OccursAt thinkClose t j :=
  Text.find_eq_some_iff thinkClose_ne_nil

/-- With a close marker in front of the first open one the loop never ends: the cut leaves
both where they are. -/
lemma stripLoop_eq_none (ho : Text.find thinkOpen (chars s) = some start)
    (hc : Text.find thinkClose (chars s) = some stop) (hlt : stop < start) :
    stripLoop fuel s = none := by
  induction fuel generalizing s start with
  | zero => rfl
  | succ fuel ih =>
    obtain ⟨hoAt, hoMin⟩ := find_open_eq_some.mp ho
    obtain ⟨hcAt, hcMin⟩ := find_close_eq_some.mp hc
    have hgap := close_before_open hcAt hoAt (Nat.le_of_lt hlt)
    have hlen := hoAt.length_le thinkOpen_ne_nil
    have hopen := thinkOpen_length
    have hclose := thinkClose_length
    simp only [stripLoop, ho, hc]
    set s' := s.take start ++ s.drop (stop + 8)
    have hs' : chars s' = (chars s).take start ++ (chars s).drop (stop + 8) := by
      simp [s', chars_take, chars_drop]
    have hfront : ∀ (pat : List Char) j, j + pat.length ≤ start →
        (Text.OccursAt pat (chars s') j ↔ Text.OccursAt pat (chars s) j) := by
      intro pat j hj
      have htake : ((chars s).take start).length = start :=
        List.length_take_of_le (by omega)
      rw [hs', Text.occursAt_append_left (by omega)]
      conv_rhs => rw [← List.take_append_drop start (chars s)]
      rw [Text.occursAt_append_left (by omega)]
    have hc' : Text.find thinkClose (chars s') = some stop := by
      refine find_close_eq_some.mpr ⟨(hfront thinkClose stop (by omega)).mpr hcAt, fun j hj h => ?_⟩
      exact hcMin j hj ((hfront thinkClose j (by omega)).mp h)
    have hbehind : Text.OccursAt thinkOpen (chars s') (start + (start - (stop + 8))) := by
      rw [hs', Text.occursAt_splice (by omega)]
      rwa [Nat.add_sub_cancel' hgap]
    obtain ⟨start', ho'⟩ : ∃ start', Text.find thinkOpen (chars s') = some start' := by
      cases hf : Text.find thinkOpen (chars s') with
      | some start' => exact ⟨start', rfl⟩
      | none => exact absurd hbehind ((Text.find_eq_none_iff thinkOpen_ne_nil).mp hf _)
    refine ih ho' hc' ?_
    by_contra hle
    obtain ⟨hAt', -⟩ := find_open_eq_some.mp ho'
    exact hoMin start' (by omega) ((hfront thinkOpen start' (by omega)).mp hAt')

lemma stripLoop_succ (h : stripLoop fuel s = some r) : stripLoop (fuel + 1) s = some r := by
  induction fuel generalizing s with
  | zero => cases h
  | succ fuel ih =>
    rw [stripLoop] at h ⊢
    split at h
    · exact h
    · split at h
      · exact ih h
      · exact h

lemma stripLoop_mono {fuel' : Nat} (h : stripLoop fuel s = some r) (hle : fuel ≤ fuel') :
    stripLoop fuel' s = some r := by
  obtain ⟨extra, rfl⟩ := Nat.exists_eq_add_of_le hle
  induction extra with
  | zero => exact h
  | succ extra ih => exact stripLoop_succ (ih (by omega))

/-- A round that is followed by another one cuts at least the two markers out. -/
lemma stop_of_stripLoop (h : stripLoop (fuel + 1) s = some r)
    (ho : Text.find thinkOpen (chars s) = some start)
    (hc : Text.find thinkClose (chars s) = some stop) :
    start + 7 ≤ stop ∧ stop + 8 ≤ s.length ∧
      stripLoop fuel (s.take start ++ s.drop (stop + 8)) = some r := by
  have hlen := (find_close_eq_some.mp hc).1.length_le thinkClose_ne_nil
  rw [length_chars, thinkClose_length] at hlen
  refine ⟨?_, hlen, by simpa only [stripLoop, ho, hc] using h⟩
  by_contra hlt
  rcases Nat.lt_or_ge stop start with hsmall | hge
  · rw [stripLoop_eq_none ho hc hsmall] at h
    cases h
  · exact hlt (open_before_close (find_open_eq_some.mp ho).1 (find_close_eq_some.mp hc).1 hge)

/-- If the loop ends at all, it ends within the rounds `stripThinkBlocks` allows. -/
theorem stripLoop_fuel (fuel : Nat) (h : stripLoop fuel s = some r) : stripThinkBlocks s = some r := by
  induction fuel generalizing s with
  | zero => cases h
  | succ fuel ih =>
    unfold stripThinkBlocks
    cases ho : Text.find thinkOpen (chars s) with
    | none => simpa [stripLoop, ho] using h
    | some start =>
      cases hc : Text.find thinkClose (chars s) with
      | none => simpa [stripLoop, ho, hc] using h
      | some stop =>
        obtain ⟨hgap, hlen, hrest⟩ := stop_of_stripLoop h ho hc
        simp only [stripLoop, ho, hc]
        refine stripLoop_mono (ih hrest) ?_
        simp only [List.length_append, List.length_take, List.length_drop]
        omega

/-! ## Labels do not change what the functions do -/

lemma chars_pushThought (text content : List χ) :
    chars (pushThought text content) = pushThought (chars text) (chars content) := by
  unfold pushThought
  rw [chars_char]
  split_ifs <;> simp only [chars_append, chars_str]

lemma chars_closeThinkBlock (text : List χ) :
    chars (closeThinkBlock text) = closeThinkBlock (chars text) := by
  unfold closeThinkBlock
  rw [chars_char]
  split_ifs <;> simp only [chars_append, chars_str]

lemma chars_stripLoop (fuel : Nat) (s : List χ) :
    (stripLoop fuel s).map chars = stripLoop fuel (chars s) := by
  induction fuel generalizing s with
  | zero => rfl
  | succ fuel ih =>
    simp only [stripLoop, chars_char]
    split
    · rfl
    · split
      · rw [ih, chars_append, chars_take, chars_drop]
      · simp [chars_take]

lemma chars_stripThinkBlocks (s : List χ) :
    (stripThinkBlocks s).map chars = stripThinkBlocks (chars s) := by
  simp only [stripThinkBlocks, length_chars, chars_stripLoop]

/-- The loop only cuts characters out. -/
lemma stripLoop_sublist (h : stripLoop fuel s = some r) : r.Sublist s := by
  induction fuel generalizing s with
  | zero => cases h
  | succ fuel ih =>
    cases ho : Text.find thinkOpen (chars s) with
    | none =>
      simp only [stripLoop, ho, Option.some.injEq] at h
      exact h ▸ List.Sublist.refl _
    | some start =>
      cases hc : Text.find thinkClose (chars s) with
      | none =>
        simp only [stripLoop, ho, hc, Option.some.injEq] at h
        exact h ▸ List.take_sublist _ _
      | some stop =>
        obtain ⟨hgap, -, hrest⟩ := stop_of_stripLoop h ho hc
        refine (ih hrest).trans ?_
        conv_rhs => rw [← List.take_append_drop start s]
        exact (List.Sublist.refl _).append (List.drop_sublist_drop_left s (by omega))

/-- What is left contains no open marker. -/
lemma stripLoop_open_free (h : stripLoop fuel s = some r) (i : Nat) :
    ¬ Text.OccursAt thinkOpen (chars r) i := by
  induction fuel generalizing s with
  | zero => cases h
  | succ fuel ih =>
    rw [stripLoop] at h
    split at h
    · rename_i ho
      cases h
      exact (Text.find_eq_none_iff thinkOpen_ne_nil).mp ho i
    · rename_i start ho
      split at h
      · exact ih h
      · cases h
        intro hi
        have hlen := hi.length_le thinkOpen_ne_nil
        rw [length_chars, List.length_take, thinkOpen_length] at hlen
        refine (find_open_eq_some.mp ho).2 i (by omega) ?_
        rw [← List.take_append_drop start (chars s)]
        refine (Text.occursAt_append_left ?_).mpr (by rwa [chars_take] at hi)
        rw [List.length_take, length_chars, thinkOpen_length]
        omega

end Strip

/-! ## Where the characters come from

In the labelled run the characters of `Text` events have the label `true`; thoughts and the
markers themselves have the label `false`. -/

section Labels

abbrev Labelled := List (Char × Bool)

variable {L r content : Labelled} {fuel : Nat}

/-- A hidden character lies in or behind an open marker with no close marker in between. -/
def Covered (L : Labelled) : Prop :=
  ∀ i c, L[i]? = some (c, false) → ∃ o ≤ i, Text.OccursAt thinkOpen (chars L) o ∧
    ∀ k, o ≤ k → k + 8 ≤ i → ¬ Text.OccursAt thinkClose (chars L) k

/-- Every close marker ends with a character of a `Text` event. -/
def ClosedByText (L : Labelled) : Prop :=
  ∀ k, Text.OccursAt thinkClose (chars L) k → ∃ c, L[k + 7]? = some (c, true)

/-- Hidden characters never come out of the loop. -/
lemma stripLoop_covered (hL : Covered L) (h : stripLoop fuel L = some r) :
    ∀ g ∈ r, g.2 = true := by
  induction fuel generalizing L with
  | zero => cases h
  | succ fuel ih =>
    cases ho : Text.find thinkOpen (chars L) with
    | none =>
      simp only [stripLoop, ho, Option.some.injEq] at h
      subst h
      intro g hg
      obtain ⟨i, hi⟩ := List.mem_iff_getElem?.mp hg
      by_contra hfalse
      obtain ⟨o, -, hopen, -⟩ := hL i g.1 (by rw [hi, ← Bool.not_eq_true _ |>.mp hfalse])
      exact (Text.find_eq_none_iff thinkOpen_ne_nil).mp ho o hopen
    | some start =>
      obtain ⟨hoAt, hoMin⟩ := find_open_eq_some.mp ho
      have hlen := hoAt.length_le thinkOpen_ne_nil
      rw [length_chars, thinkOpen_length] at hlen
      have hfront : ∀ i < start, ∀ c, L[i]? ≠ some (c, false) := by
        intro i hi c hc
        obtain ⟨o, hle, hopen, -⟩ := hL i c hc
        exact hoMin o (by omega) hopen
      cases hc : Text.find thinkClose (chars L) with
      | none =>
        simp only [stripLoop, ho, hc, Option.some.injEq] at h
        subst h
        intro g hg
        obtain ⟨i, hi⟩ := List.mem_iff_getElem?.mp hg
        have hlt : i < start := by
          by_contra hge
          rw [List.getElem?_eq_none (by simp; omega)] at hi
          cases hi
        rw [List.getElem?_take_of_lt hlt] at hi
        by_contra hfalse
        exact hfront i hlt g.1 (by rw [hi, ← Bool.not_eq_true _ |>.mp hfalse])
      | some stop =>
        obtain ⟨hgap, hstop, hrest⟩ := stop_of_stripLoop h ho hc
        have htake : (L.take start).length = start := List.length_take_of_le (by omega)
        have hL' : Covered (L.take start ++ L.drop (stop + 8)) := by
          intro i c hi
          have hge : start ≤ i := by
            by_contra hlt
            rw [List.getElem?_append_left (by omega), List.getElem?_take_of_lt (by omega)] at hi
            exact hfront i (by omega) c hi
          obtain ⟨d, rfl⟩ := Nat.exists_eq_add_of_le hge
          rw [List.getElem?_append_right (by omega), htake, Nat.add_sub_cancel_left,
            List.getElem?_drop] at hi
          obtain ⟨o, hle, hopen, hnone⟩ := hL _ c hi
          have hbehind : stop + 8 ≤ o := by
            rcases Nat.le_total o stop with hos | hso
            · exact absurd (find_close_eq_some.mp hc).1 (hnone stop hos (by omega))
            · exact close_before_open (find_close_eq_some.mp hc).1 hopen hso
          have hsplice : ∀ (pat : List Char) k,
              Text.OccursAt pat (chars (L.take start ++ L.drop (stop + 8))) (start + k) ↔
                Text.OccursAt pat (chars L) (stop + 8 + k) := by
            intro pat k
            rw [chars_append, chars_take, chars_drop]
            exact Text.occursAt_splice (by rw [length_chars]; omega)
          refine ⟨start + (o - (stop + 8)), by omega, (hsplice _ _).mpr ?_, fun k hk hki => ?_⟩
          · rwa [Nat.add_sub_cancel' hbehind]
          · obtain ⟨m, rfl⟩ := Nat.exists_eq_add_of_le (show start ≤ k by omega)
            rw [hsplice]
            exact hnone _ (by omega) (by omega)
        exact ih hL' hrest

lemma covered_nil : Covered [] := by
  intro i c h
  simp at h

/-- Occurrences in the front part of an appended text. -/
lemma occursAt_front {pat : List Char} {i : Nat} (hi : i + pat.length ≤ L.length) :
    Text.OccursAt pat (chars (L ++ content)) i ↔ Text.OccursAt pat (chars L) i := by
  rw [chars_append]
  exact Text.occursAt_append_left (by rwa [length_chars])

/-- What was covered stays covered when the text grows. -/
lemma Covered.append_front (hL : Covered L) {i : Nat} {c : Char} (hlt : i < L.length)
    (hi : (L ++ content)[i]? = some (c, false)) :
    ∃ o ≤ i, Text.OccursAt thinkOpen (chars (L ++ content)) o ∧
      ∀ k, o ≤ k → k + 8 ≤ i → ¬ Text.OccursAt thinkClose (chars (L ++ content)) k := by
  rw [List.getElem?_append_left hlt] at hi
  obtain ⟨o, hle, hopen, hnone⟩ := hL i c hi
  have hlen := hopen.length_le thinkOpen_ne_nil
  rw [length_chars] at hlen
  refine ⟨o, hle, (occursAt_front hlen).mpr hopen, fun k hk hki h => hnone k hk hki ?_⟩
  exact (occursAt_front (by rw [thinkClose_length]; omega)).mp h

lemma Covered.append_text (hL : Covered L) (hcontent : ∀ g ∈ content, g.2 = true) :
    Covered (L ++ content) := by
  intro i c hi
  rcases Nat.lt_or_ge i L.length with hlt | hge
  · exact hL.append_front hlt hi
  · rw [List.getElem?_append_right hge] at hi
    have htrue := hcontent _ (List.mem_of_getElem? hi)
    cases htrue

lemma ClosedByText.append_text (hL : ClosedByText L) (hcontent : ∀ g ∈ content, g.2 = true) :
    ClosedByText (L ++ content) := by
  intro k hk
  have hlen := hk.length_le thinkClose_ne_nil
  rw [length_chars, List.length_append, thinkClose_length] at hlen
  rcases Nat.lt_or_ge (k + 7) L.length with hlt | hge
  · obtain ⟨c, hc⟩ := hL k ((occursAt_front (by rw [thinkClose_length]; omega)).mp hk)
    exact ⟨c, by rw [List.getElem?_append_left hlt, hc]⟩
  · have hin : k + 7 - L.length < content.length := by omega
    refine ⟨(content.get ⟨_, hin⟩).1, ?_⟩
    rw [List.getElem?_append_right hge, List.getElem?_eq_getElem hin]
    have htrue := hcontent _ (List.getElem_mem hin)
    simp only [List.get_eq_getElem, Option.some.injEq]
    exact Prod.ext rfl htrue

/-- A thought appended behind an open marker brings no new close marker. -/
lemma close_in_front (hopen : Text.OccursAt thinkOpen (chars L) (L.length - 7))
    (hlen : 7 ≤ L.length)
    (hfree : ∀ i, ¬ Text.OccursAt thinkClose (chars content) i) {k : Nat}
    (hk : Text.OccursAt thinkClose (chars (L ++ content)) k) : k + 8 ≤ L.length - 7 := by
  have hopen' : Text.OccursAt thinkOpen (chars (L ++ content)) (L.length - 7) :=
    (occursAt_front (by rw [thinkOpen_length]; omega)).mpr hopen
  rcases Nat.le_total k (L.length - 7) with hle | hge
  · exact close_before_open hk hopen' hle
  · have hin := open_before_close hopen' hk hge
    obtain ⟨m, rfl⟩ := Nat.exists_eq_add_of_le (show L.length ≤ k by omega)
    rw [chars_append] at hk
    have hm : Text.OccursAt thinkClose (chars content) m := by
      have h := Text.occursAt_append_right thinkClose (chars L) (chars content) m
      rw [length_chars] at h
      exact h.mp hk
    exact absurd hm (hfree m)

lemma Covered.append_thought (hL : ∀ i c, i < L.length - 7 → L[i]? = some (c, false) →
      ∃ o ≤ i, Text.OccursAt thinkOpen (chars L) o ∧
        ∀ k, o ≤ k → k + 8 ≤ i → ¬ Text.OccursAt thinkClose (chars L) k)
    (hopen : Text.OccursAt thinkOpen (chars L) (L.length - 7)) (hlen : 7 ≤ L.length)
    (hfree : ∀ i, ¬ Text.OccursAt thinkClose (chars content) i) : Covered (L ++ content) := by
  intro i c hi
  rcases Nat.lt_or_ge i (L.length - 7) with hlt | hge
  · rw [List.getElem?_append_left (by omega)] at hi
    obtain ⟨o, hle, ho, hnone⟩ := hL i c hlt hi
    have hol := ho.length_le thinkOpen_ne_nil
    rw [length_chars] at hol
    refine ⟨o, hle, (occursAt_front hol).mpr ho, fun k hk hki h => hnone k hk hki ?_⟩
    exact (occursAt_front (by rw [thinkClose_length]; omega)).mp h
  · refine ⟨L.length - 7, hge, (occursAt_front (by rw [thinkOpen_length]; omega)).mpr hopen,
      fun k hk hki h => ?_⟩
    have hbefore := close_in_front hopen hlen hfree h
    omega

/-- Both facts about an accumulated text. -/
structure Tracked (L : Labelled) : Prop where
  covered : Covered L
  closed : ClosedByText L

lemma tracked_nil : Tracked [] where
  covered := covered_nil
  closed k hk := by
    have hlen := hk.length_le thinkClose_ne_nil
    rw [thinkClose_length] at hlen
    simp at hlen

lemma Tracked.append_text (hL : Tracked L) (hcontent : ∀ g ∈ content, g.2 = true) :
    Tracked (L ++ content) :=
  ⟨hL.covered.append_text hcontent, hL.closed.append_text hcontent⟩

lemma Tracked.pushThought (hL : Tracked L)
    (hfree : ∀ i, ¬ Text.OccursAt thinkClose (chars content) i) :
    Tracked (pushThought L content) := by
  -- the text in front of the thought ends with an open marker
  obtain ⟨front, hfront, hpush, hlen, hopen, hcovered, hclosed⟩ : ∃ front : Labelled,
      (front = L ∨ front = L ++ str "<think>") ∧
      Streaming.pushThought L content = front ++ content ∧ 7 ≤ front.length ∧
      Text.OccursAt thinkOpen (chars front) (front.length - 7) ∧
      (∀ i c, i < front.length - 7 → front[i]? = some (c, false) →
        ∃ o ≤ i, Text.OccursAt thinkOpen (chars front) o ∧
          ∀ k, o ≤ k → k + 8 ≤ i → ¬ Text.OccursAt thinkClose (chars front) k) ∧
      ∀ k, k + 8 ≤ front.length - 7 → Text.OccursAt thinkClose (chars front) k →
        ∃ c, front[k + 7]? = some (c, true) := by
    unfold Streaming.pushThought
    split_ifs with hends
    · obtain ⟨before, hbefore⟩ := Text.endsWith_iff.mp hends
      have hL7 : L.length = before.length + 7 := by
        rw [← length_chars L, hbefore, List.length_append, thinkOpen_length]
      refine ⟨L, .inl rfl, rfl, by omega, ?_, fun i c _ => hL.covered i c,
        fun k _ => hL.closed k⟩
      have hat : Text.OccursAt thinkOpen (before ++ thinkOpen ++ []) before.length :=
        Text.occursAt_self_append
      rwa [List.append_nil, ← hbefore, show before.length = L.length - 7 by omega] at hat
    · have hmarker : (str "<think>" : Labelled).length = 7 := rfl
      refine ⟨L ++ str "<think>", .inr rfl, rfl, by simp [hmarker], ?_, fun i c hi h => ?_,
        fun k hk h => ?_⟩
      · have hat : Text.OccursAt thinkOpen (chars L ++ thinkOpen ++ []) (chars L).length :=
          Text.occursAt_self_append
        rw [List.length_append, hmarker, Nat.add_sub_cancel]
        rwa [List.append_nil, length_chars, thinkOpen, ← chars_str (χ := Char × Bool),
          ← chars_append] at hat
      · exact hL.covered.append_front (by simpa [hmarker] using hi) h
      · rw [List.length_append, hmarker, Nat.add_sub_cancel] at hk
        obtain ⟨c, hc⟩ := hL.closed k ((occursAt_front (by rwa [thinkClose_length])).mp h)
        exact ⟨c, by rw [List.getElem?_append_left (by omega), hc]⟩
  rw [hpush]
  refine ⟨.append_thought hcovered hopen hlen hfree, fun k hk => ?_⟩
  have hbefore := close_in_front hopen hlen hfree hk
  obtain ⟨c, hc⟩ := hclosed k hbefore
    ((occursAt_front (by rw [thinkClose_length]; omega)).mp hk)
  exact ⟨c, by rw [List.getElem?_append_left (by omega), hc]⟩

lemma closeThinkBlock_of_close (h : Text.contains thinkClose (chars L) = true) :
    closeThinkBlock L = L := by
  simp [closeThinkBlock, h]

/-- The close marker added at the end is covered as well. -/
lemma Covered.closeThinkBlock (hL : Covered L) : Covered (closeThinkBlock L) := by
  unfold Streaming.closeThinkBlock
  split_ifs with hcond
  · rw [Bool.and_eq_true, Bool.not_eq_true', Text.contains_eq_false_iff thinkClose_ne_nil,
      Text.contains_iff thinkOpen_ne_nil] at hcond
    obtain ⟨⟨o, ho⟩, hnone⟩ := hcond
    intro i c hi
    rcases Nat.lt_or_ge i L.length with hlt | hge
    · exact hL.append_front hlt hi
    · have hol := ho.length_le thinkOpen_ne_nil
      rw [length_chars] at hol
      refine ⟨o, by omega, (occursAt_front hol).mpr ho, fun k hok hki hk => ?_⟩
      have hilen : i < (L ++ str "</think>").length := by
        by_contra hout
        rw [List.getElem?_eq_none (by omega)] at hi
        cases hi
      have hlast : Text.OccursAt thinkClose (chars (L ++ str "</think>")) L.length := by
        have hat : Text.OccursAt thinkClose (chars L ++ thinkClose ++ []) (chars L).length :=
          Text.occursAt_self_append
        rwa [List.append_nil, length_chars, thinkClose, ← chars_str (χ := Char × Bool),
          ← chars_append] at hat
      have hmarker : (str "</think>" : Labelled).length = 8 := rfl
      rw [List.length_append, hmarker] at hilen
      have hin := hk.disjoint hlast (show k < L.length by omega) (d := '<') (by decide)
        (by decide)
      exact hnone k ((occursAt_front hin).mp hk)
  · exact hL

end Labels

/-! ## Streams -/

section Streams

variable [Glyph χ]

def StreamEvent.isThought : StreamEvent χ κ → Bool
  | .thought _ => true
  | _ => false

/-- An event that a stream delivers before it ends. -/
def StreamEvent.isContent : StreamEvent χ κ → Bool
  | .text _ | .thought _ | .toolCall _ => true
  | _ => false

/-- The contents of the `Text` events, in order. -/
def textOf : List (StreamEvent χ κ) → List χ
  | [] => []
  | .text content :: events => content ++ textOf events
  | _ :: events => textOf events

def pushEvent (text : List χ) : StreamEvent χ κ → List χ
  | .text content => text ++ content
  | .thought content => pushThought text content
  | _ => text

/-- `ending` is the end of a stream: nothing more, or `Done`. -/
def IsEnding (ending : List (StreamEvent χ κ)) : Prop :=
  ending = [] ∨ ∃ rest, ending = .done :: rest

/-- A stream of content events ends with the text that was pushed. -/
lemma collectEvents_content {events ending : List (StreamEvent χ κ)} (hending : IsEnding ending)
    (hcontent : ∀ event ∈ events, event.isContent = true) (acc : StreamAcc χ κ) :
    ∃ toolCalls, collectEvents acc (events ++ ending) =
      .ok { text := events.foldl pushEvent acc.text, toolCalls := toolCalls } := by
  induction events generalizing acc with
  | nil =>
    refine ⟨acc.toolCalls, ?_⟩
    rcases hending with rfl | ⟨rest, rfl⟩ <;> rfl
  | cons event events ih =>
    have hrest := fun e he => hcontent e (List.mem_cons_of_mem _ he)
    have hevent := hcontent event List.mem_cons_self
    cases event with
    | text content => exact ih hrest { acc with text := acc.text ++ content }
    | thought content => exact ih hrest { acc with text := pushThought acc.text content }
    | toolCall call => exact ih hrest { acc with toolCalls := acc.toolCalls ++ [call] }
    | error message => cases hevent
    | done => cases hevent

end Streams

/-- No marker stands in a piece of text. -/
def MarkerFree (content : List Char) : Prop :=
  Text.contains thinkOpen content = false ∧ Text.contains thinkClose content = false

def StreamEvent.MarkerFree : StreamEvent Char κ → Prop
  | .text content | .thought content => Streaming.MarkerFree content
  | _ => True

/-- The event with the origin of its characters. -/
def StreamEvent.label : StreamEvent Char κ → StreamEvent (Char × Bool) κ
  | .text content => .text (content.map fun c => (c, true))
  | .thought content => .thought (content.map fun c => (c, false))
  | .toolCall call => .toolCall call
  | .error message => .error (message.map fun c => (c, false))
  | .done => .done

lemma chars_map_label (content : List Char) (b : Bool) :
    chars (content.map fun c => (c, b)) = content := by
  simp only [chars, List.map_map]
  exact List.map_id _

section Fold

variable {events : List (StreamEvent Char κ)}

lemma chars_foldl_pushEvent (L : Labelled) :
    chars ((events.map StreamEvent.label).foldl pushEvent L) =
      events.foldl pushEvent (chars L) := by
  induction events generalizing L with
  | nil => rfl
  | cons event events ih =>
    simp only [List.map_cons, List.foldl_cons, ih]
    congr 1
    cases event with
    | text content => simp only [StreamEvent.label, pushEvent, chars_append, chars_map_label]
    | thought content =>
      simp only [StreamEvent.label, pushEvent, chars_pushThought, chars_map_label]
    | _ => rfl

lemma tracked_foldl (hfree : ∀ event ∈ events, event.MarkerFree) {L : Labelled}
    (hL : Tracked L) : Tracked ((events.map StreamEvent.label).foldl pushEvent L) := by
  induction events generalizing L with
  | nil => exact hL
  | cons event events ih =>
    refine ih (fun e he => hfree e (List.mem_cons_of_mem _ he)) ?_
    have hevent := hfree event List.mem_cons_self
    cases event with
    | text content => exact hL.append_text (by simp)
    | thought content =>
      refine hL.pushThought fun i => ?_
      rw [chars_map_label]
      exact (Text.contains_eq_false_iff thinkClose_ne_nil).mp hevent.2 i
    | _ => exact hL

/-- The characters of the `Text` events are the visible ones. -/
lemma filter_foldl (events : List (StreamEvent Char κ)) (L : Labelled) :
    chars (((events.map StreamEvent.label).foldl pushEvent L).filter (·.2)) =
      chars (L.filter (·.2)) ++ textOf events := by
  have hnone : ∀ content : List Char,
      (content.map fun c => (c, false)).filter (·.2) = [] := by simp
  have hall : ∀ content : List Char, (content.map fun c => (c, true)).filter (·.2) =
      content.map fun c => (c, true) := by simp
  induction events generalizing L with
  | nil => simp [textOf]
  | cons event events ih =>
    simp only [List.map_cons, List.foldl_cons, ih]
    cases event with
    | text content =>
      simp only [StreamEvent.label, pushEvent, List.filter_append, hall, chars_append,
        chars_map_label, textOf, List.append_assoc]
    | thought content =>
      have hmarker : (str "<think>" : Labelled).filter (·.2) = [] := by decide
      simp only [StreamEvent.label, pushEvent, pushThought, textOf]
      split_ifs <;> simp only [List.filter_append, hnone, hmarker, List.append_nil]
    | _ => simp only [StreamEvent.label, pushEvent, textOf]

end Fold

/-! ## When the visible text is the text that was sent -/

/-- The `Text` contents in front of the first thought. -/
def textBefore (events : List (StreamEvent Char κ)) : List Char :=
  textOf (events.takeWhile (!·.isThought))

/-- The `Text` contents behind the first thought. -/
def textAfter (events : List (StreamEvent Char κ)) : List Char :=
  textOf (events.dropWhile (!·.isThought))

/-- The streams whose visible text is what their `Text` events say: no open marker forms in
front of the first thought, and if there is a thought, no close marker does either and only
white space follows it. -/
def VisibleAsSent (events : List (StreamEvent Char κ)) : Prop :=
  Text.contains thinkOpen (textBefore events) = false ∧
    (events.any (·.isThought) = true →
      Text.contains thinkClose (textBefore events) = false ∧
        ∀ c ∈ textAfter events, isWhitespace c = true)

section Main

variable {events : List (StreamEvent Char κ)}

lemma textOf_append [Glyph χ] (es es' : List (StreamEvent χ κ)) :
    textOf (es ++ es') = textOf es ++ textOf es' := by
  induction es with
  | nil => rfl
  | cons event es ih =>
    cases event <;> simp [textOf, ih]

lemma textOf_eq (events : List (StreamEvent Char κ)) :
    textOf events = textBefore events ++ textAfter events := by
  rw [textBefore, textAfter, ← textOf_append, List.takeWhile_append_dropWhile]

lemma foldl_pushEvent_prefix [Glyph χ] (es : List (StreamEvent χ κ)) (L : List χ) :
    ∃ R, es.foldl pushEvent L = L ++ R := by
  induction es generalizing L with
  | nil => exact ⟨[], (List.append_nil L).symm⟩
  | cons event es ih =>
    obtain ⟨R, hR⟩ := ih (pushEvent L event)
    have hevent : ∃ R', pushEvent L event = L ++ R' := by
      cases event with
      | text content => exact ⟨content, rfl⟩
      | thought content =>
        simp only [pushEvent, pushThought]
        split_ifs
        · exact ⟨content, rfl⟩
        · exact ⟨_, List.append_assoc _ _ _⟩
      | _ => exact ⟨[], (List.append_nil L).symm⟩
    obtain ⟨R', hR'⟩ := hevent
    exact ⟨R' ++ R, by rw [List.foldl_cons, hR, hR', List.append_assoc]⟩

lemma foldl_pushEvent_of_no_thought [Glyph χ] {es : List (StreamEvent χ κ)}
    (h : ∀ event ∈ es, event.isThought = false) (L : List χ) :
    es.foldl pushEvent L = L ++ textOf es := by
  induction es generalizing L with
  | nil => exact (List.append_nil L).symm
  | cons event es ih =>
    have hrest := fun e he => h e (List.mem_cons_of_mem _ he)
    have hevent := h event List.mem_cons_self
    rw [List.foldl_cons, ih hrest]
    cases event with
    | text content => exact List.append_assoc L content _
    | thought content => cases hevent
    | _ => rfl

/-- The labelled text of a stream with a thought: what came first, the marker of the first
thought, and the rest. -/
lemma exists_labelled_split (hthought : events.any (·.isThought) = true)
    (hopen : Text.contains thinkOpen (textBefore events) = false) :
    ∃ R : Labelled, (events.map StreamEvent.label).foldl pushEvent [] =
        ((textBefore events).map fun c => (c, true)) ++ str "<think>" ++ R ∧
      chars (R.filter (·.2)) = textAfter events := by
  set before := events.takeWhile (!·.isThought)
  have hsplit : before ++ events.dropWhile (!·.isThought) = events :=
    List.takeWhile_append_dropWhile
  have hbefore : ∀ event ∈ before.map (StreamEvent.label (κ := κ)),
      event.isThought = false := by
    intro event he
    obtain ⟨e, hmem, rfl⟩ := List.mem_map.mp he
    have hnot := List.mem_takeWhile_imp hmem
    cases e <;> simp_all [StreamEvent.label, StreamEvent.isThought]
  have hlabel : textOf (before.map (StreamEvent.label (κ := κ))) =
      (textOf before).map fun c => (c, true) := by
    generalize before = es
    induction es with
    | nil => rfl
    | cons event es ih => cases event <;> simp [textOf, StreamEvent.label, ih]
  obtain ⟨content, after, hafter⟩ : ∃ content after,
      events.dropWhile (!·.isThought) = .thought content :: after := by
    cases hdrop : events.dropWhile (!·.isThought) with
    | nil =>
      obtain ⟨e, he, hthink⟩ := List.any_eq_true.mp hthought
      have hnot := List.dropWhile_eq_nil_iff.mp hdrop e he
      simp [hthink] at hnot
    | cons event after =>
      have hhead := List.head?_dropWhile_not (fun e : StreamEvent Char κ => !e.isThought) events
      rw [hdrop] at hhead
      cases event with
      | thought content => exact ⟨content, after, rfl⟩
      | _ => simp [StreamEvent.isThought] at hhead
  have hends : Text.endsWith thinkOpen
      (chars ((textBefore events).map fun c => (c, true))) = false := by
    rw [chars_map_label, ← Bool.not_eq_true]
    intro hends
    obtain ⟨front, hfront⟩ := Text.endsWith_iff.mp hends
    refine (Text.contains_eq_false_iff thinkOpen_ne_nil).mp hopen front.length ?_
    have hat : Text.OccursAt thinkOpen (front ++ thinkOpen ++ []) front.length :=
      Text.occursAt_self_append
    rwa [List.append_nil, ← hfront] at hat
  obtain ⟨R, hR⟩ := foldl_pushEvent_prefix (after.map StreamEvent.label)
    (pushThought ((textBefore events).map fun c => (c, true)) (content.map fun c => (c, false)))
  have hfold : (events.map StreamEvent.label).foldl pushEvent [] =
      ((textBefore events).map fun c => (c, true)) ++ str "<think>" ++
        ((content.map fun c => (c, false)) ++ R) := by
    conv_lhs => rw [← hsplit, hafter]
    rw [List.map_append, List.foldl_append, foldl_pushEvent_of_no_thought hbefore,
      List.nil_append, hlabel]
    simp only [List.map_cons, List.foldl_cons]
    refine hR.trans ?_
    simp only [pushThought, hends, Bool.false_eq_true, if_false, List.append_assoc]
  refine ⟨_, hfold, ?_⟩
  have hfilter := filter_foldl events []
  have hmarker : (str "<think>" : Labelled).filter (·.2) = [] := by decide
  have hall : ((textBefore events).map fun c => (c, true)).filter (·.2) =
      (textBefore events).map fun c => (c, true) := by simp
  rw [hfold, List.filter_append, List.filter_append, hmarker, hall, List.append_nil,
    chars_append, chars_map_label, textOf_eq, List.filter_nil, chars_nil, List.nil_append] at hfilter
  exact List.append_cancel_left hfilter

/-- A visible character that trimming keeps. -/
def shown (g : Char × Bool) : Bool :=
  g.2 && !isWhitespace g.1

lemma countP_shown (L : Labelled) :
    L.countP shown = (chars (L.filter (·.2))).countP fun c => !isWhitespace c := by
  induction L with
  | nil => rfl
  | cons g L ih =>
    obtain ⟨c, b⟩ := g
    cases b <;> simp [shown, chars, Glyph.chr, List.countP_cons] at ih ⊢ <;> omega

/-- The first open marker of a text stands behind a front part without one. -/
lemma find_open_behind {front rest : List Char}
    (hfront : ∀ i, ¬ Text.OccursAt thinkOpen front i) :
    Text.find thinkOpen (front ++ thinkOpen ++ rest) = some front.length := by
  refine find_open_eq_some.mpr ⟨Text.occursAt_self_append, fun j hj h => ?_⟩
  have hend := h.disjoint Text.occursAt_self_append hj (d := '<') (by decide) (by decide)
  rw [List.append_assoc] at h
  exact hfront j ((Text.occursAt_append_left hend).mp h)

/-- The first close marker, when only the one added at the end is there. -/
lemma find_close_behind {front : List Char}
    (hfront : ∀ i, ¬ Text.OccursAt thinkClose front i) :
    Text.find thinkClose (front ++ thinkClose) = some front.length := by
  have hat : Text.OccursAt thinkClose (front ++ thinkClose) front.length := by
    simpa using Text.occursAt_self_append (s := front) (t := [])
  refine find_close_eq_some.mpr ⟨hat, fun j hj h => ?_⟩
  have hend := h.disjoint hat hj (d := '<') (by decide) (by decide)
  exact hfront j ((Text.occursAt_append_left hend).mp h)

lemma closeThinkBlock_eq_append {text : List Char}
    (hopen : ∃ i, Text.OccursAt thinkOpen text i)
    (hclose : ∀ i, ¬ Text.OccursAt thinkClose text i) :
    closeThinkBlock text = text ++ thinkClose := by
  have ho := (Text.contains_iff thinkOpen_ne_nil).mpr hopen
  have hc := (Text.contains_eq_false_iff thinkClose_ne_nil).mpr hclose
  simp only [closeThinkBlock, chars_char, ho, hc, Bool.not_false, Bool.and_self, if_true]
  rfl

/-- A text with a thought and no close marker keeps what stands in front of the thought. -/
lemma strip_of_no_close {front rest : List Char}
    (hopen : ∀ i, ¬ Text.OccursAt thinkOpen front i)
    (hclose : ∀ i, ¬ Text.OccursAt thinkClose (front ++ thinkOpen ++ rest) i) :
    stripThinkBlocks (closeThinkBlock (front ++ thinkOpen ++ rest)) = some front := by
  rw [closeThinkBlock_eq_append ⟨_, Text.occursAt_self_append⟩ hclose]
  refine stripLoop_fuel 2 ?_
  have hfirst : Text.find thinkOpen (front ++ thinkOpen ++ rest ++ thinkClose) =
      some front.length := by
    rw [List.append_assoc (front ++ thinkOpen)]
    exact find_open_behind hopen
  have hnone : Text.find thinkOpen front = none :=
    (Text.find_eq_none_iff thinkOpen_ne_nil).mpr hopen
  have hcut : (front ++ thinkOpen ++ rest ++ thinkClose).take front.length = front := by
    simp [List.append_assoc]
  have hrest : (front ++ thinkOpen ++ rest ++ thinkClose).drop
      ((front ++ thinkOpen ++ rest).length + 8) = [] := by
    rw [List.drop_eq_nil_of_le (by simp only [List.length_append, thinkClose_length]; omega)]
  simp only [stripLoop, chars_char, hfirst, find_close_behind hclose, hcut, hrest,
    List.append_nil, hnone]

/-- What is removed between a front part and the rest was not shown, if the result shows as
much as the whole. -/
lemma not_shown_of_cut {L r : Labelled} {start stop : Nat} (hle : start ≤ stop)
    (hsub : r.Sublist (L.take start ++ L.drop stop)) (hcount : r.countP shown = L.countP shown)
    {i : Nat} (hi : start ≤ i) (hi' : i < stop) {g : Char × Bool} (hg : L[i]? = some g) :
    shown g = false := by
  set middle := (L.drop start).take (stop - start) with hmiddle
  have hsplit : L = L.take start ++ (middle ++ L.drop stop) := by
    conv_lhs => rw [← List.take_append_drop start L]
    rw [hmiddle]
    conv_lhs => rw [← List.take_append_drop (stop - start) (L.drop start)]
    rw [List.drop_drop, Nat.add_sub_cancel' hle]
  have hr := hsub.countP_le (p := shown)
  have hL := congrArg (List.countP shown) hsplit
  simp only [List.countP_append] at hr hL
  have hzero : middle.countP shown = 0 := by omega
  have hmem : g ∈ middle := by
    refine List.mem_iff_getElem?.mpr ⟨i - start, ?_⟩
    rw [hmiddle, List.getElem?_take_of_lt (by omega), List.getElem?_drop,
      Nat.add_sub_cancel' hi, hg]
  simpa using List.countP_eq_zero.mp hzero g hmem

/-- If a stream comes out as it was sent, it meets the condition. -/
lemma visibleAsSent_of_trim_eq (hfree : ∀ event ∈ events, event.MarkerFree)
    {visible : List Char}
    (hstrip : stripThinkBlocks (closeThinkBlock (events.foldl pushEvent [])) = some visible)
    (htrim : trim visible = trim (textOf events)) : VisibleAsSent events := by
  set T := (events.map StreamEvent.label).foldl pushEvent ([] : Labelled) with hT
  have htracked : Tracked T := tracked_foldl hfree tracked_nil
  -- the labelled run
  obtain ⟨r, hr, rfl⟩ : ∃ r, stripThinkBlocks (closeThinkBlock T) = some r ∧ chars r = visible := by
    rw [← chars_nil (χ := Char × Bool), ← chars_foldl_pushEvent, ← chars_closeThinkBlock,
      ← chars_stripThinkBlocks] at hstrip
    exact Option.map_eq_some_iff.mp hstrip
  have hall := stripLoop_covered htracked.covered.closeThinkBlock hr
  have hcount : r.countP shown = (closeThinkBlock T).countP shown := by
    have hfilter : r.filter (·.2) = r := List.filter_eq_self.mpr hall
    have hsame : (closeThinkBlock T).countP shown = T.countP shown := by
      unfold closeThinkBlock
      split_ifs
      · rw [List.countP_append]
        rfl
      · rfl
    have htext := filter_foldl events []
    rw [hsame, countP_shown, countP_shown, hfilter, ← hT] at *
    rw [htext]
    exact Text.countP_of_trim_eq isWhitespace htrim
  have hbefore : Text.contains thinkOpen (textBefore events) = false := by
    rw [Text.contains_eq_false_iff thinkOpen_ne_nil]
    intro i hi
    have hws : ∀ c ∈ thinkOpen, isWhitespace c = false := by
      simpa using (by decide : thinkOpen.all (fun c => !isWhitespace c) = true)
    have htext : ∃ i, Text.OccursAt thinkOpen (textOf events) i := by
      refine ⟨i, ?_⟩
      rw [textOf_eq]
      exact (Text.occursAt_append_left (hi.length_le thinkOpen_ne_nil)).mpr hi
    rw [← Text.occurs_trim thinkOpen_ne_nil hws] at htext
    change ∃ i, Text.OccursAt thinkOpen (trim (textOf events)) i at htext
    rw [← htrim] at htext
    obtain ⟨j, hj⟩ := (Text.occurs_trim thinkOpen_ne_nil hws _).mp htext
    exact stripLoop_open_free hr j hj
  refine ⟨hbefore, fun hthought => ?_⟩
  obtain ⟨R, hsplit, hafter⟩ := exists_labelled_split hthought hbefore
  set P := (textBefore events).map fun c => (c, true) with hP
  have hPchars : chars P = textBefore events := chars_map_label _ _
  obtain ⟨S, hS⟩ : ∃ S : Labelled, closeThinkBlock T = P ++ str "<think>" ++ S := by
    unfold closeThinkBlock
    split_ifs
    · exact ⟨R ++ str "</think>", by rw [hT, hsplit, List.append_assoc]⟩
    · exact ⟨R, by rw [hT, hsplit]⟩
  have hSchars : chars (closeThinkBlock T) = chars P ++ thinkOpen ++ chars S := by
    rw [hS, chars_append, chars_append, chars_str]
    rfl
  have hopen : Text.find thinkOpen (chars (closeThinkBlock T)) = some P.length := by
    rw [hSchars, find_open_behind, length_chars]
    rw [hPchars]
    exact (Text.contains_eq_false_iff thinkOpen_ne_nil).mp hbefore
  -- there is a close marker, and it stands behind the thought
  obtain ⟨stop, hstop⟩ : ∃ stop, Text.find thinkClose (chars (closeThinkBlock T)) = some stop := by
    rw [← Option.isSome_iff_exists]
    change Text.contains thinkClose _ = true
    have hopenT : Text.contains thinkOpen (chars T) = true := by
      rw [hT, hsplit, chars_append, chars_append, chars_str]
      exact (Text.contains_iff thinkOpen_ne_nil).mpr ⟨_, Text.occursAt_self_append⟩
    unfold closeThinkBlock
    split_ifs with hcond
    · rw [chars_append, chars_str]
      refine (Text.contains_iff thinkClose_ne_nil).mpr ⟨(chars T).length, ?_⟩
      change Text.OccursAt thinkClose (chars T ++ thinkClose) _
      simpa using Text.occursAt_self_append (s := chars T) (t := [])
    · simpa [hopenT] using hcond
  obtain ⟨hgap, hlen, hrest⟩ := stop_of_stripLoop hr hopen hstop
  have hcut := fun i hi hi' g hg => not_shown_of_cut (show P.length ≤ stop + 8 by omega)
    (stripLoop_sublist hrest) hcount (i := i) (g := g) hi hi' hg
  obtain ⟨hstopAt, hstopMin⟩ := find_close_eq_some.mp hstop
  refine ⟨?_, fun c hc => ?_⟩
  · rw [← hPchars, Text.contains_eq_false_iff thinkClose_ne_nil]
    intro i hi
    have hend := hi.length_le thinkClose_ne_nil
    rw [length_chars, thinkClose_length] at hend
    refine hstopMin i (by omega) ?_
    rw [hSchars, List.append_assoc]
    exact (Text.occursAt_append_left (by rwa [length_chars, thinkClose_length])).mpr hi
  · -- a close marker of the text itself would end with a shown character that was cut
    have hnone : Text.contains thinkClose (chars T) = false := by
      rw [← Bool.not_eq_true]
      intro hclose
      rw [closeThinkBlock_of_close hclose] at *
      obtain ⟨g, hg⟩ := htracked.closed stop hstopAt
      have hchar := hstopAt.getElem? (k := 7) (by decide)
      rw [getElem?_chars, hg] at hchar
      have hnot := hcut (stop + 7) (by omega) (by omega) _ hg
      obtain rfl : g = '>' := Option.some.inj hchar
      cases hnot
    have hclosed : closeThinkBlock T = T ++ str "</think>" := by
      have hopenT : Text.contains thinkOpen (chars T) = true := by
        rw [hT, hsplit, chars_append, chars_append, chars_str]
        exact (Text.contains_iff thinkOpen_ne_nil).mpr ⟨_, Text.occursAt_self_append⟩
      simp only [closeThinkBlock, hopenT, hnone, Bool.not_false, Bool.and_self, if_true]
    have hatEnd : stop = T.length := by
      rw [hclosed, chars_append, chars_str] at hstop
      have hfind := find_close_behind
        ((Text.contains_eq_false_iff thinkClose_ne_nil).mp hnone)
      rw [length_chars] at hfind
      exact Option.some.inj (hstop.symm.trans hfind)
    rw [← hafter] at hc
    obtain ⟨g, hg, rfl⟩ := List.mem_map.mp hc
    obtain ⟨hgR, htrue⟩ := List.mem_filter.mp hg
    obtain ⟨i, hi⟩ := List.mem_iff_getElem?.mp hgR
    have hiR : i < R.length := by
      by_contra hge
      rw [List.getElem?_eq_none (by omega)] at hi
      cases hi
    have hTlen : T.length = (P ++ str "<think>").length + R.length := by
      rw [hT, hsplit, List.length_append]
    have hat : (closeThinkBlock T)[(P ++ str "<think>").length + i]? = some g := by
      rw [hclosed, List.getElem?_append_left (by omega), hT, hsplit,
        List.getElem?_append_right (by omega), Nat.add_sub_cancel_left, hi]
    have hnot := hcut _ (by simp only [List.length_append]; omega) (by omega) g hat
    change isWhitespace g.1 = true
    simpa [shown, htrue] using hnot

lemma textAfter_whitespace (hsent : VisibleAsSent events) :
    ∀ c ∈ textAfter events, isWhitespace c = true := by
  cases hthought : events.any (·.isThought) with
  | true => exact (hsent.2 hthought).2
  | false =>
    have hdrop : events.dropWhile (!·.isThought) = [] := by
      rw [List.dropWhile_eq_nil_iff]
      intro event he
      simpa using List.any_eq_false.mp hthought event he
    simp [textAfter, hdrop, textOf]

/-- A stream that meets the condition shows what stands in front of its first thought. -/
lemma strip_of_visibleAsSent (hfree : ∀ event ∈ events, event.MarkerFree)
    (hsent : VisibleAsSent events) :
    stripThinkBlocks (closeThinkBlock (events.foldl pushEvent [])) =
      some (textBefore events) := by
  obtain ⟨hbefore, hthoughts⟩ := hsent
  have hnone := (Text.contains_eq_false_iff thinkOpen_ne_nil).mp hbefore
  cases hthought : events.any (·.isThought) with
  | false =>
    have hno : ∀ event ∈ events, event.isThought = false := fun event he => by
      simpa using List.any_eq_false.mp hthought event he
    have htake : events.takeWhile (!·.isThought) = events :=
      List.takeWhile_eq_self_iff.mpr fun event he => by simp [hno event he]
    have hfold : events.foldl pushEvent [] = textBefore events := by
      rw [foldl_pushEvent_of_no_thought hno, List.nil_append, textBefore, htake]
    have hfind := (Text.find_eq_none_iff thinkOpen_ne_nil).mpr hnone
    rw [hfold]
    simp only [closeThinkBlock, chars_char, hbefore, Bool.false_and, Bool.false_eq_true,
      if_false, stripThinkBlocks, stripLoop, hfind]
  | true =>
    obtain ⟨hclose, hwhite⟩ := hthoughts hthought
    obtain ⟨R, hsplit, hafter⟩ := exists_labelled_split hthought hbefore
    have htracked : Tracked ((events.map StreamEvent.label).foldl pushEvent ([] : Labelled)) :=
      tracked_foldl hfree tracked_nil
    have hfold : events.foldl pushEvent [] = textBefore events ++ thinkOpen ++ chars R := by
      rw [← chars_nil (χ := Char × Bool), ← chars_foldl_pushEvent, hsplit, chars_append,
        chars_append, chars_str, chars_map_label]
      rfl
    rw [hfold]
    refine strip_of_no_close hnone fun k hk => ?_
    -- the last character of a close marker would be a `Text` character behind the thought
    rw [hsplit] at htracked
    have hk' : Text.OccursAt thinkClose
        (chars (((textBefore events).map fun c => (c, true)) ++ str "<think>" ++ R)) k := by
      rw [chars_append, chars_append, chars_str, chars_map_label]
      exact hk
    obtain ⟨g, hg⟩ := htracked.closed k hk'
    have hchar := hk'.getElem? (k := 7) (by decide)
    rw [getElem?_chars, hg] at hchar
    obtain rfl : g = '>' := Option.some.inj hchar
    have hlenBefore : ((textBefore events).map fun c => (c, true)).length =
        (textBefore events).length := List.length_map _
    rcases Nat.lt_or_ge (k + 7) (textBefore events).length with hlt | hge
    · rw [List.append_assoc] at hk
      exact (Text.contains_eq_false_iff thinkClose_ne_nil).mp hclose k
        ((Text.occursAt_append_left (by rw [thinkClose_length]; omega)).mp hk)
    · rw [List.append_assoc, List.getElem?_append_right (by omega), hlenBefore] at hg
      have hmem : ('>', true) ∈ R := by
        rcases List.mem_append.mp (List.mem_of_getElem? hg) with hmarker | hR
        · exact absurd hmarker (by decide)
        · exact hR
      have hwhite' := hwhite '>' (by
        rw [← hafter]
        exact List.mem_map.mpr ⟨('>', true), List.mem_filter.mpr ⟨hmem, rfl⟩, rfl⟩)
      revert hwhite'
      decide

/-- The visible text of a stream without think markers in its contents is, up to surrounding
white space, the concatenation of its `Text` events exactly when the stream meets
`VisibleAsSent`. -/
theorem visible_eq_text_iff (events ending : List (StreamEvent Char κ))
    (hending : IsEnding ending) (hcontent : ∀ event ∈ events, event.isContent = true)
    (hfree : ∀ event ∈ events, event.MarkerFree) :
    (∃ acc visible, collectEvents {} (events ++ ending) = .ok acc ∧
      stripThinkBlocks (closeThinkBlock acc.text) = some visible ∧
        trim visible = trim (textOf events)) ↔ VisibleAsSent events := by
  obtain ⟨toolCalls, hcollect⟩ := collectEvents_content hending hcontent {}
  constructor
  · rintro ⟨acc, visible, hacc, hstrip, htrim⟩
    rw [hcollect] at hacc
    cases hacc
    exact visibleAsSent_of_trim_eq hfree hstrip htrim
  · intro hsent
    refine ⟨_, textBefore events, hcollect, strip_of_visibleAsSent hfree hsent, ?_⟩
    rw [textOf_eq]
    exact (Text.trim_append_of_all isWhitespace (textAfter_whitespace hsent)).symm

end Main

/-! ## A witness and a failing stream -/

/-- A text, a thought and a line break come out as the text. -/
theorem visible_eq_text_answer :
    (∃ acc visible, collectEvents ({} : StreamAcc Char Nat)
        ([.text "Hello".toList, .thought "done?".toList, .toolCall 1, .text ['\n']] ++
          [.done]) = .ok acc ∧
      stripThinkBlocks (closeThinkBlock acc.text) = some visible ∧
        trim visible = trim (textOf ([.text "Hello".toList, .thought "done?".toList,
          .toolCall 1, .text ['\n']] : List (StreamEvent Char Nat)))) ↔
      VisibleAsSent ([.text "Hello".toList, .thought "done?".toList, .toolCall 1,
        .text ['\n']] : List (StreamEvent Char Nat)) := by
  refine visible_eq_text_iff _ _ (.inr ⟨[], rfl⟩) (by decide) ?_
  intro event he
  simp only [List.mem_cons, List.not_mem_nil, or_false] at he
  rcases he with rfl | rfl | rfl | rfl
  · exact ⟨by decide, by decide⟩
  · exact ⟨by decide, by decide⟩
  · trivial
  · exact ⟨by decide, by decide⟩

/-- The text that follows a thought is swallowed: `Thought("plan")`, `Text("Answer")` comes out
as the empty text. -/
theorem not_visible_eq_text :
    ¬ ∀ (events ending : List (StreamEvent Char Nat)), IsEnding ending →
      (∀ event ∈ events, event.isContent = true) → (∀ event ∈ events, event.MarkerFree) →
      ∃ acc visible, collectEvents {} (events ++ ending) = .ok acc ∧
        stripThinkBlocks (closeThinkBlock acc.text) = some visible ∧
          trim visible = trim (textOf events) := by
  intro hall
  obtain ⟨acc, visible, hacc, hstrip, htrim⟩ :=
    hall [.thought "plan".toList, .text "Answer".toList] [.done] (.inr ⟨[], rfl⟩) (by decide) (by
      intro event he
      simp only [List.mem_cons, List.not_mem_nil, or_false] at he
      rcases he with rfl | rfl <;> exact ⟨by decide, by decide⟩)
  have hrun : collectEvents ({} : StreamAcc Char Nat)
      ([.thought "plan".toList, .text "Answer".toList] ++ [.done]) =
        .ok { text := "<think>planAnswer".toList } := by rfl
  rw [hrun] at hacc
  cases hacc
  have hvisible : stripThinkBlocks (closeThinkBlock "<think>planAnswer".toList) = some [] := by
    decide
  rw [hvisible] at hstrip
  cases hstrip
  revert htrim
  decide

end RustyClaw.Streaming
