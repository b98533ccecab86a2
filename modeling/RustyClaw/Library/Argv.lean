import Mathlib.Data.List.Basic

/-!
# The words of a command line

A command line is a list of words.  What a word means depends on the word alone: it is complete in
itself, or it takes the next word or the next two, or all that is left.  `read` reads a command
line.

`Reads` says of some words that they are read as some values, whatever follows them, and so a
command line can be read piece by piece: the rules are `Reads.append`, `Reads.flatMap`,
`Reads.flag`, `Reads.unary` and `Reads.binary`.  A word that another one takes is never looked at.
-/

namespace Argv

/-- What a word starts. -/
inductive Argument (W α : Type) where
  | flag (value : α)
  | unary (value : W → α)
  | binary (value : W → W → α)
  | rest (value : List W → α)

variable {W α β : Type} (argument : W → Option (Argument W α))

def read : List W → Option (List α)
  | [] => some []
  | word :: words =>
    match argument word, words with
    | some (.flag value), words => (read words).map (value :: ·)
    | some (.unary value), x :: words => (read words).map (value x :: ·)
    | some (.binary value), x :: y :: words => (read words).map (value x y :: ·)
    | some (.rest value), words => some [value words]
    | _, _ => none

/-- The words are read as the values wherever they stand. -/
def Reads (words : List W) (values : List α) : Prop :=
  ∀ words', read argument (words ++ words') = (read argument words').map (values ++ ·)

namespace Reads

variable {argument} {word x y : W} {words words' : List W} {values values' : List α}

lemma nil : Reads argument [] [] := fun words' => by simp

lemma append (h : Reads argument words values) (h' : Reads argument words' values') :
    Reads argument (words ++ words') (values ++ values') := by
  intro more
  rw [List.append_assoc, h, h', Option.map_map]
  congr 1
  funext values''
  exact (List.append_assoc values values' values'').symm

lemma flatMap {f : β → List W} {g : β → List α} (items : List β)
    (h : ∀ item ∈ items, Reads argument (f item) (g item)) :
    Reads argument (items.flatMap f) (items.flatMap g) := by
  induction items with
  | nil => exact nil
  | cons item items ih =>
    exact (h item List.mem_cons_self).append
      (ih fun item' hmem => h item' (List.mem_cons_of_mem item hmem))

/-- Each of the items is one value. -/
lemma map {f : β → List W} {g : β → α} (items : List β)
    (h : ∀ item ∈ items, Reads argument (f item) [g item]) :
    Reads argument (items.flatMap f) (items.map g) := by
  have hflat := flatMap items h
  rwa [← List.map_eq_flatMap] at hflat

lemma flag {value : α} (h : argument word = some (.flag value)) :
    Reads argument [word] [value] := by
  intro words'
  simp [read, h]

lemma unary {value : W → α} (h : argument word = some (.unary value)) :
    Reads argument [word, x] [value x] := by
  intro words'
  simp [read, h]

lemma binary {value : W → W → α} (h : argument word = some (.binary value)) :
    Reads argument [word, x, y] [value x y] := by
  intro words'
  simp [read, h]

/-- The last word of its own takes what is left. -/
lemma read_rest {value : List W → α} (h : Reads argument words values)
    (hrest : argument word = some (.rest value)) :
    read argument (words ++ word :: words') = some (values ++ [value words']) := by
  rw [h]
  simp [read, hrest]

end Reads

end Argv
