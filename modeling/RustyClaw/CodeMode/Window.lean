import Mathlib.Algebra.GroupWithZero.Nat
import RustyClaw.CodeMode.Cell

/-!
# The visible window of a cell

A snapshot of a cell shows its newest visible events, as many as fit `recentEventBudgetChars`,
and `to_exec_result` joins their texts and collects their notifications.  `ExecRunResult` has a
flag for output that was cut, and `render_output` has a line for it, but no code sets
the flag.

The result is the aggregation of all visible events of the cell exactly when their texts and
messages fit the window (`completeOrTruncated_iff`): the window drops nothing then, and
otherwise what it drops has at least one character, so the aggregation of the rest is shorter.
How the output was split into events and flushes makes no difference.
-/

namespace RustyClaw.CodeMode

open ActiveCellHandle

variable {V : Type}

/-- The text `recent_visible_events` charges an event for. -/
def RuntimeEvent.visibleText : RuntimeEvent V → String
  | .text _ content => content
  | .notification _ message => message
  | _ => ""

def visibleEvents (events : List (RuntimeEvent V)) : List (RuntimeEvent V) :=
  events.filter RuntimeEvent.isVisibleInSnapshot

/-- The characters of all texts and notifications. -/
def visibleChars (events : List (RuntimeEvent V)) : Nat :=
  ((visibleEvents events).map fun event => event.visibleText.length).sum

@[simp] lemma visibleEvents_reverse (events : List (RuntimeEvent V)) :
    visibleEvents events.reverse = (visibleEvents events).reverse := by
  simp [visibleEvents, List.filter_reverse]

@[simp] lemma visibleChars_reverse (events : List (RuntimeEvent V)) :
    visibleChars events.reverse = visibleChars events := by
  simp [visibleChars, List.sum_reverse]

lemma visibleChars_cons_of_visible {event : RuntimeEvent V} (hvis : event.isVisibleInSnapshot)
    (events : List (RuntimeEvent V)) :
    visibleChars (event :: events) = event.visibleText.length + visibleChars events := by
  simp [visibleChars, visibleEvents, hvis]

lemma visibleChars_cons_of_hidden {event : RuntimeEvent V}
    (hhidden : event.isVisibleInSnapshot = false) (events : List (RuntimeEvent V)) :
    visibleChars (event :: events) = visibleChars events := by
  simp [visibleChars, visibleEvents, hhidden]

/-! ## What the window keeps -/

lemma takeRecent_cons (budget : Nat) (event : RuntimeEvent V) (older : List (RuntimeEvent V)) :
    takeRecent budget (event :: older) =
      if event.isVisibleInSnapshot then
        if event.visibleText.length > budget then []
        else event :: takeRecent (budget - event.visibleText.length) older
      else takeRecent budget older := by
  cases event <;> rfl

lemma takeRecent_of_fits {budget : Nat} {events : List (RuntimeEvent V)}
    (hfits : visibleChars events ≤ budget) : takeRecent budget events = visibleEvents events := by
  induction events generalizing budget with
  | nil => rfl
  | cons event older ih =>
    rw [takeRecent_cons]
    by_cases hvis : event.isVisibleInSnapshot
    · rw [visibleChars_cons_of_visible hvis] at hfits
      rw [if_pos hvis, if_neg (by omega), ih (by omega), visibleEvents, visibleEvents,
        List.filter_cons_of_pos hvis]
    · rw [visibleChars_cons_of_hidden (by simpa using hvis)] at hfits
      rw [if_neg hvis, ih hfits, visibleEvents, visibleEvents, List.filter_cons_of_neg hvis]

/-- What the window leaves out begins with an event that has at least one character. -/
lemma takeRecent_of_overflow {budget : Nat} {events : List (RuntimeEvent V)}
    (hover : budget < visibleChars events) :
    ∃ event older, visibleEvents events = takeRecent budget events ++ event :: older ∧
      0 < event.visibleText.length := by
  induction events generalizing budget with
  | nil => cases hover
  | cons event older ih =>
    rw [takeRecent_cons]
    by_cases hvis : event.isVisibleInSnapshot
    · rw [if_pos hvis]
      have hfilter : visibleEvents (event :: older) = event :: visibleEvents older :=
        List.filter_cons_of_pos hvis
      by_cases hlong : event.visibleText.length > budget
      · rw [if_pos hlong]
        exact ⟨event, visibleEvents older, hfilter, by omega⟩
      · rw [visibleChars_cons_of_visible hvis] at hover
        obtain ⟨dropped, rest, heq, hpos⟩ :=
          ih (show budget - event.visibleText.length < visibleChars older by omega)
        exact ⟨dropped, rest, by rw [if_neg hlong, hfilter, heq, List.cons_append], hpos⟩
    · rw [visibleChars_cons_of_hidden (by simpa using hvis)] at hover
      have hfilter : visibleEvents (event :: older) = visibleEvents older :=
        List.filter_cons_of_neg hvis
      rw [if_neg hvis, hfilter]
      exact ih hover

/-! ## Aggregations grow -/

/-- One step of `aggregate_events`. -/
def aggregateStep (acc : String × List String) (event : RuntimeEvent V) :
    String × List String :=
  match event with
  | .text _ text =>
    let outputText := if acc.1 ≠ "" ∧ text ≠ "" then acc.1 ++ "\n" else acc.1
    (outputText ++ text, acc.2)
  | .notification _ message => (acc.1, acc.2 ++ [message])
  | _ => acc

lemma aggregateEvents_eq_foldl (events : List (RuntimeEvent V)) :
    aggregateEvents events = events.foldl aggregateStep ("", []) := by
  unfold aggregateEvents
  congr 1

/-- One aggregation is nowhere shorter than another, and somewhere longer. -/
structure Outgrows (short long : String × List String) : Prop where
  text : short.1.length ≤ long.1.length
  notifications : short.2.length ≤ long.2.length
  strict : short.1.length < long.1.length ∨ short.2.length < long.2.length

lemma Outgrows.ne {short long : String × List String} (h : Outgrows short long) :
    short ≠ long := by
  rintro rfl
  have := h.strict
  omega

lemma length_pos_iff_ne_empty (s : String) : 0 < s.length ↔ s ≠ "" := by
  rw [Nat.pos_iff_ne_zero, Ne, String.length_eq_zero_iff]

lemma aggregateStep_text_length (acc : String × List String) (seq : Nat) (text : String) :
    (aggregateStep acc (.text seq text : RuntimeEvent V)).1.length =
      acc.1.length + (if 0 < acc.1.length ∧ 0 < text.length then 1 else 0) + text.length := by
  simp only [aggregateStep, length_pos_iff_ne_empty]
  have hbreak : "\n".length = 1 := rfl
  split
  · rw [String.length_append, String.length_append, hbreak]
  · rw [String.length_append, Nat.add_zero]

/-- Going on with the same event keeps the distance between two aggregations. -/
lemma Outgrows.step {short long : String × List String} (h : Outgrows short long)
    (event : RuntimeEvent V) : Outgrows (aggregateStep short event) (aggregateStep long event) := by
  obtain ⟨htext, hnotifications, hstrict⟩ := h
  cases event with
  | text seq text =>
    have hshort := aggregateStep_text_length (V := V) short seq text
    have hlong := aggregateStep_text_length (V := V) long seq text
    have hsep : (if 0 < short.1.length ∧ 0 < text.length then 1 else 0) ≤
        (if 0 < long.1.length ∧ 0 < text.length then 1 else 0) := by
      split
      · exact Nat.le_of_eq (if_pos (by omega)).symm
      · exact Nat.zero_le _
    refine ⟨by omega, hnotifications, ?_⟩
    rcases hstrict with hstrict | hstrict
    · exact .inl (by omega)
    · exact .inr hstrict
  | notification seq message =>
    refine ⟨htext, ?_, ?_⟩ <;> simp only [aggregateStep, List.length_append] <;> omega
  | _ => exact ⟨htext, hnotifications, hstrict⟩

lemma Outgrows.foldl {short long : String × List String} (h : Outgrows short long)
    (events : List (RuntimeEvent V)) :
    Outgrows (events.foldl aggregateStep short) (events.foldl aggregateStep long) := by
  induction events generalizing short long with
  | nil => exact h
  | cons event events ih => exact ih (h.step event)

/-- Aggregating an event with at least one character is progress, whatever came before. -/
lemma outgrows_aggregateStep (acc : String × List String) {event : RuntimeEvent V}
    (hpos : 0 < event.visibleText.length) : Outgrows ("", []) (aggregateStep acc event) := by
  cases event with
  | text seq text =>
    have hlength := aggregateStep_text_length (V := V) acc seq text
    have hpos : 0 < text.length := hpos
    exact ⟨Nat.zero_le _, Nat.zero_le _, .inl (by show 0 < _; omega)⟩
  | notification seq message =>
    exact ⟨Nat.zero_le _, Nat.zero_le _, .inr (by simp [aggregateStep])⟩
  | _ => exact absurd hpos (Nat.lt_irrefl 0)

/-- Leaving out older events of which the last has a character changes the aggregation. -/
lemma aggregateEvents_ne_of_dropped (older kept : List (RuntimeEvent V))
    {event : RuntimeEvent V} (hpos : 0 < event.visibleText.length) :
    aggregateEvents kept ≠ aggregateEvents (older ++ event :: kept) := by
  rw [aggregateEvents_eq_foldl, aggregateEvents_eq_foldl, List.foldl_append, List.foldl_cons]
  exact ((outgrows_aggregateStep _ hpos).foldl kept).ne

/-! ## Complete or flagged -/

lemma recentVisibleEvents_of_fits {cell : ActiveCellHandle V}
    (hfits : visibleChars cell.events ≤ recentEventBudgetChars) :
    cell.recentVisibleEvents = visibleEvents cell.events := by
  rw [recentVisibleEvents, takeRecent_of_fits (by simpa using hfits), visibleEvents_reverse,
    List.reverse_reverse]

lemma aggregateEvents_recent_iff (cell : ActiveCellHandle V) :
    aggregateEvents cell.recentVisibleEvents = aggregateEvents (visibleEvents cell.events) ↔
      visibleChars cell.events ≤ recentEventBudgetChars := by
  constructor
  · intro hsame
    by_contra hover
    have hover' : recentEventBudgetChars < visibleChars cell.events.reverse := by
      simpa using hover
    obtain ⟨event, older, heq, hpos⟩ := takeRecent_of_overflow hover'
    refine aggregateEvents_ne_of_dropped older.reverse _ hpos (hsame.trans ?_)
    rw [visibleEvents_reverse, List.reverse_eq_iff] at heq
    rw [heq, recentVisibleEvents]
    simp
  · intro hfits
    rw [recentVisibleEvents_of_fits hfits]

/-- The result shows all visible events of the cell, or says that it does not. -/
def CompleteOrTruncated (cell : ActiveCellHandle V) (result : ExecRunResult V) : Prop :=
  (result.outputText, result.notifications) = aggregateEvents (visibleEvents cell.events) ∨
    result.truncated = true

lemma completeOrTruncated_iff_recent (cell : ActiveCellHandle V)
    (progressKind : Option ExecProgressKind) (flushValue : Option V) :
    CompleteOrTruncated cell (cell.snapshot.toExecResult progressKind flushValue) ↔
      aggregateEvents cell.recentVisibleEvents = aggregateEvents (visibleEvents cell.events) :=
  or_iff_left Bool.false_ne_true

/-- The result of a cell holds the aggregation of all its visible events, or is flagged, exactly
when the texts and notifications fit the window; the flag is never set. -/
theorem completeOrTruncated_iff (cell : ActiveCellHandle V)
    (progressKind : Option ExecProgressKind) (flushValue : Option V) :
    CompleteOrTruncated cell (cell.snapshot.toExecResult progressKind flushValue) ↔
      visibleChars cell.events ≤ recentEventBudgetChars := by
  rw [completeOrTruncated_iff_recent, aggregateEvents_recent_iff]

lemma visibleChars_pair (first second : String) :
    visibleChars [.text 0 first, .text 1 second, (.flush 2 none : RuntimeEvent V)] =
      first.length + second.length := rfl

/-- A single text of 8001 characters disappears, and a short text behind it with it. -/
theorem not_completeOrTruncated_largeText :
    ∃ cell : ActiveCellHandle Unit,
      cell.events =
        [.text 0 "a", .text 1 (String.ofList (List.replicate 8001 'b')), .flush 2 none] ∧
      ¬CompleteOrTruncated cell (cell.snapshot.toExecResult (some .explicitFlush) none) := by
  refine ⟨⟨"c", .running, _, none⟩, rfl, ?_⟩
  rw [completeOrTruncated_iff_recent, aggregateEvents_recent_iff, visibleChars_pair,
    String.length_ofList (l := List.replicate 8001 'b'), List.length_replicate]
  show ¬1 + 8001 ≤ 8000
  omega

end RustyClaw.CodeMode
