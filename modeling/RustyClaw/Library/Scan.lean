import RustyClaw.Library.Pattern

/-!
# Scanning a text in parts

When does it make no difference whether a text is scanned for the matches of a pattern as a whole or
in two parts?  If the second part begins with a character that can only be the first of a match
(`tailUses`), no match runs across the border, and the matcher takes the same way on both sides of
it: `run_append` says so for the matcher and `replaceAll_append` for the scan.

The other question is what a scan cannot touch.  `ends` and `follows` are the characters that a match
can end with, and the pairs that can stand next to each other in it; `replaceAll_keeps` says that a
word stays whole if no match begins in it and none can end in its first letter or run on to the
second.
-/

namespace Pattern

open Glyph

/-! ## The rounds of a star -/

/-- Every round of a star consumes something. -/
def proper : Pattern → Bool
  | .empty | .one _ => true
  | .seq p q | .alt p q => proper p && proper q
  | .star p => !nullable p && proper p
  | .group p => proper p

section Fuel

variable {χ β : Type}

lemma runStar_congr {round : List χ → List χ → (List χ → List χ → Option β) → Option β}
    (hround : ∀ c s (next next' : List χ → List χ → Option β),
      (∀ c' s', s'.length ≤ s.length → next c' s' = next' c' s') → round c s next = round c s next')
    {n : Nat} {c s : List χ} {next next' : List χ → List χ → Option β}
    (h : ∀ c' s', s'.length ≤ s.length → next c' s' = next' c' s') :
    runStar round n c s next = runStar round n c s next' := by
  induction n generalizing c s with
  | zero => exact h c s le_rfl
  | succ n ih =>
    have hmore := hround c s (fun c s => runStar round n c s next)
      (fun c s => runStar round n c s next')
      fun c' s' hle => ih fun c'' s'' hle' => h c'' s'' (hle'.trans hle)
    simp only [runStar, hmore, h c s le_rfl]

variable [Glyph χ]

/-- What follows a pattern matters only for what can be left of the text. -/
lemma run_congr (p : Pattern) {c s : List χ} {next next' : List χ → List χ → Option β}
    (h : ∀ c' s', s'.length ≤ s.length → (nullable p = false → s'.length < s.length) →
      next c' s' = next' c' s') :
    run p c s next = run p c s next' := by
  induction p generalizing c s next next' with
  | empty => exact h c s le_rfl (by simp [nullable])
  | one accepts =>
    cases s with
    | nil => rfl
    | cons g s =>
      have hrest := h c s (by simp) (by simp)
      simp only [run, hrest]
  | seq p q ihp ihq =>
    refine ihp fun c₁ s₁ hle hlt => ihq fun c₂ s₂ hle' hlt' => h c₂ s₂ (hle'.trans hle) ?_
    intro hnull
    rcases Bool.and_eq_false_iff.mp hnull with hp | hq
    · exact Nat.lt_of_le_of_lt hle' (hlt hp)
    · exact Nat.lt_of_lt_of_le (hlt' hq) hle
  | alt p q ihp ihq =>
    have hp : run p c s next = run p c s next' := ihp fun c' s' hle hlt =>
      h c' s' hle fun hnull => hlt (Bool.or_eq_false_iff.mp hnull).1
    have hq : run q c s next = run q c s next' := ihq fun c' s' hle hlt =>
      h c' s' hle fun hnull => hlt (Bool.or_eq_false_iff.mp hnull).2
    simp only [run, hp, hq]
  | star p ih =>
    refine runStar_congr (fun c s next next' hnext => ?_) ?_
    · exact ih fun c' s' hle _ => hnext c' s' hle
    · exact fun c' s' hle => h c' s' hle (by simp [nullable])
  | group p ih => exact ih fun _ s' hle hlt => h _ s' hle hlt

lemma run_nil {p : Pattern} (hp : nullable p = false) {c : List χ}
    {next : List χ → List χ → Option β} : run p c [] next = none := by
  cases hrun : run p c [] next with
  | none => rfl
  | some b =>
    obtain ⟨_, _, ⟨u, hu, hne, -⟩, -⟩ := run_sound p hrun
    exact absurd (List.append_eq_nil_iff.mp hu.symm).1 (hne hp)

lemma runStar_nil {p : Pattern} (hp : nullable p = false) {n : Nat} {c : List χ}
    {next : List χ → List χ → Option β} : runStar (run p) n c [] next = next c [] := by
  cases n with
  | zero => rfl
  | succ n => simp only [runStar, run_nil hp, Option.orElse_none]

/-- A star needs no more rounds than there are characters. -/
lemma runStar_fuel {p : Pattern} (hp : nullable p = false) {n m : Nat} {c s : List χ}
    (hn : s.length ≤ n) (hm : s.length ≤ m) {next : List χ → List χ → Option β} :
    runStar (run p) n c s next = runStar (run p) m c s next := by
  induction n generalizing m c s with
  | zero =>
    obtain rfl := List.length_eq_zero_iff.mp (Nat.le_zero.mp hn)
    rw [runStar_nil hp, runStar_nil hp]
  | succ n ih =>
    cases m with
    | zero =>
      obtain rfl := List.length_eq_zero_iff.mp (Nat.le_zero.mp hm)
      rw [runStar_nil hp, runStar_nil hp]
    | succ m =>
      have hmore : run p c s (fun c s => runStar (run p) n c s next) =
          run p c s (fun c s => runStar (run p) m c s next) := by
        refine run_congr p fun c' s' _ hlt => ih ?_ ?_
        · exact Nat.le_of_lt_succ (Nat.lt_of_lt_of_le (hlt hp) hn)
        · exact Nat.le_of_lt_succ (Nat.lt_of_lt_of_le (hlt hp) hm)
      simp only [runStar, hmore]

end Fuel

/-! ## The border of two parts -/

/-- The characters that can be part of a match without being the first. -/
def tailUses : Pattern → Char → Bool
  | .empty, _ | .one _, _ => false
  | .seq p q, c => tailUses p c || uses q c
  | .alt p q, c => tailUses p c || tailUses q c
  | .star p, c => uses p c
  | .group p, c => tailUses p c

lemma tailUses_of_accepts {p : Pattern} {c : Char} {u : List Char} (h : Accepts p (c :: u)) :
    ∀ d ∈ u, tailUses p d = true := by
  induction p generalizing c u with
  | empty => cases h
  | one accepts =>
    obtain ⟨e, he, -⟩ := h
    obtain ⟨-, rfl⟩ := List.cons.inj he
    simp
  | seq p q ihp ihq =>
    obtain ⟨v, w, hvw, hv, hw⟩ := h
    intro d hd
    cases v with
    | nil =>
      rw [List.nil_append] at hvw
      subst hvw
      simp [tailUses, uses_of_accepts hw d (List.mem_cons_of_mem _ hd)]
    | cons e v =>
      obtain ⟨rfl, rfl⟩ := List.cons.inj hvw
      rcases List.mem_append.mp hd with hd | hd
      · simp [tailUses, ihp hv d hd]
      · simp [tailUses, uses_of_accepts hw d hd]
  | alt p q ihp ihq =>
    intro d hd
    rcases h with h | h
    · simp [tailUses, ihp h d hd]
    · simp [tailUses, ihq h d hd]
  | star p ih => exact fun d hd => uses_of_accepts h d (List.mem_cons_of_mem _ hd)
  | group p ih => exact ih h

/-- The text is empty or begins with a character that fails the test. -/
def Border {χ : Type} [Glyph χ] (test : Char → Bool) (t : List χ) : Prop :=
  ∀ g ∈ t.head?, test (chr g) = false

section Append

variable {χ β : Type}

lemma take_append_sub {s t rest : List χ} :
    (s ++ t).take ((s ++ t).length - (rest ++ t).length) = s.take (s.length - rest.length) := by
  rw [List.length_append, List.length_append, Nat.add_sub_add_right,
    List.take_append_of_le_length (Nat.sub_le _ _)]

variable [Glyph χ]

/-- The matcher stops where a text begins whose first character it does not use. -/
lemma run_append_of_uses (p : Pattern) (hproper : proper p = true) {t : List χ}
    (ht : Border (uses p) t) {c s : List χ} {next : List χ → List χ → Option β} :
    run p c (s ++ t) next = run p c s fun c' s' => next c' (s' ++ t) := by
  induction p generalizing c s next with
  | empty => rfl
  | one accepts =>
    cases s with
    | nil =>
      cases t with
      | nil => rfl
      | cons g t =>
        have hg : accepts (chr g) = false := ht g rfl
        simp only [List.nil_append, run, hg, Bool.false_eq_true, if_false]
    | cons g s => rfl
  | seq p q ihp ihq =>
    obtain ⟨hp, hq⟩ := Bool.and_eq_true_iff.mp hproper
    have htp : Border (uses p) t := fun g hg => (Bool.or_eq_false_iff.mp (ht g hg)).1
    have htq : Border (uses q) t := fun g hg => (Bool.or_eq_false_iff.mp (ht g hg)).2
    simp only [run]
    rw [ihp hp htp]
    exact run_congr p fun c' s' _ _ => ihq hq htq
  | alt p q ihp ihq =>
    obtain ⟨hp, hq⟩ := Bool.and_eq_true_iff.mp hproper
    have htp : Border (uses p) t := fun g hg => (Bool.or_eq_false_iff.mp (ht g hg)).1
    have htq : Border (uses q) t := fun g hg => (Bool.or_eq_false_iff.mp (ht g hg)).2
    simp only [run]
    rw [ihp hp htp, ihq hq htq]
  | star p ih =>
    obtain ⟨hnull, hp⟩ := Bool.and_eq_true_iff.mp hproper
    have hrounds : ∀ n (c s : List χ), runStar (run p) n c (s ++ t) next =
        runStar (run p) n c s fun c' s' => next c' (s' ++ t) := by
      intro n
      induction n with
      | zero => exact fun c s => rfl
      | succ n ihn =>
        intro c s
        have hmore : run p c (s ++ t) (fun c s => runStar (run p) n c s next) =
            run p c s (fun c s => runStar (run p) n c s fun c' s' => next c' (s' ++ t)) := by
          rw [ih hp ht]
          exact run_congr p fun c' s' _ _ => ihn c' s'
        simp only [runStar, hmore]
    have hlen : s.length ≤ (s ++ t).length := by simp
    simp only [run]
    rw [hrounds, runStar_fuel (by simpa using hnull) hlen le_rfl]
  | group p ih =>
    simp only [run]
    rw [ih hproper ht]
    exact run_congr p fun c' s' _ _ => by rw [take_append_sub]

/-- The matcher stops where a text begins that no match goes on with. -/
theorem run_append (p : Pattern) (hproper : proper p = true) {t : List χ}
    (ht : Border (tailUses p) t) {c s : List χ} (hs : s ≠ [])
    {next : List χ → List χ → Option β} :
    run p c (s ++ t) next = run p c s fun c' s' => next c' (s' ++ t) := by
  induction p generalizing c next with
  | empty => rfl
  | one accepts =>
    obtain ⟨g, s, rfl⟩ := List.exists_cons_of_ne_nil hs
    rfl
  | seq p q ihp ihq =>
    obtain ⟨hp, hq⟩ := Bool.and_eq_true_iff.mp hproper
    have htp : Border (tailUses p) t := fun g hg => (Bool.or_eq_false_iff.mp (ht g hg)).1
    have htq : Border (uses q) t := fun g hg => (Bool.or_eq_false_iff.mp (ht g hg)).2
    simp only [run]
    rw [ihp hp htp]
    exact run_congr p fun c' s' _ _ => run_append_of_uses q hq htq
  | alt p q ihp ihq =>
    obtain ⟨hp, hq⟩ := Bool.and_eq_true_iff.mp hproper
    have htp : Border (tailUses p) t := fun g hg => (Bool.or_eq_false_iff.mp (ht g hg)).1
    have htq : Border (tailUses q) t := fun g hg => (Bool.or_eq_false_iff.mp (ht g hg)).2
    simp only [run]
    rw [ihp hp htp, ihq hq htq]
  | star p ih => exact run_append_of_uses _ hproper ht
  | group p ih =>
    simp only [run]
    rw [ih hproper ht]
    exact run_congr p fun c' s' _ _ => by rw [take_append_sub]

end Append

/-! ## Scanning two parts -/

section Replace

variable {χ : Type} [Glyph χ] {p : Pattern} {replacement : List χ → List χ}

lemma run_map {β γ : Type} (p : Pattern) (f : β → γ) {c s : List χ}
    {next : List χ → List χ → Option β} :
    (run p c s next).map f = run p c s fun c' s' => (next c' s').map f := by
  have horElse : ∀ x y : Option β,
      (x.orElse fun _ => y).map f = (x.map f).orElse fun _ => y.map f := by
    intro x y
    cases x <;> rfl
  induction p generalizing c s next with
  | empty => rfl
  | one accepts =>
    cases s with
    | nil => rfl
    | cons g s =>
      simp only [run]
      split_ifs <;> rfl
  | seq p q ihp ihq =>
    simp only [run, ihp, ihq]
  | alt p q ihp ihq =>
    simp only [run, horElse, ihp, ihq]
  | star p ih =>
    simp only [run]
    generalize s.length = n
    induction n generalizing c s with
    | zero => rfl
    | succ n ihn => simp only [runStar, horElse, ih, ihn]
  | group p ih => simp only [run, ih]

lemma matchPrefix_append (hproper : proper p = true) {s t : List χ} (hs : s ≠ [])
    (ht : Border (tailUses p) t) :
    matchPrefix p (s ++ t) = (matchPrefix p s).map fun found => (found.1, found.2 ++ t) := by
  rw [matchPrefix, run_append p hproper ht hs, matchPrefix, run_map]
  rfl

/-- What a match at the beginning consists of does not depend on a text it cannot go on with. -/
lemma begins_append_iff (hproper : proper p = true) {s t : List Char} (hs : s ≠ [])
    (ht : Border (tailUses p) t) : Begins p (s ++ t) ↔ Begins p s := by
  have hmatch := matchPrefix_append hproper hs ht
  have hiff : ∀ v : List Char, Begins p v ↔ (matchPrefix p v).isSome = true := fun v => by
    rw [isSome_matchPrefix_iff, chars_char]
  rw [hiff, hiff, hmatch, Option.isSome_map]

lemma matchPrefix_eq_none {g : χ} {s : List χ} (hp : nullable p = false)
    (hg : starts p (chr g) = false) : matchPrefix p (g :: s) = none := by
  rw [← Option.not_isSome_iff_eq_none, isSome_matchPrefix_iff]
  exact not_begins_cons hp hg

lemma length_lt_of_matchPrefix {s captured rest : List χ} (hp : nullable p = false)
    (h : matchPrefix p s = some (captured, rest)) : rest.length < s.length := by
  obtain ⟨u, rfl, hne, -⟩ := matchPrefix_sound h
  have hpos := List.length_pos_iff.mpr (hne hp)
  rw [List.length_append]
  omega

/-- A scan needs no more steps than there are characters. -/
lemma replaceFrom_eq (hp : nullable p = false) {n : Nat} {s : List χ} (h : s.length ≤ n) :
    replaceFrom p replacement n s = replaceAll p replacement s := by
  have hfuel : ∀ n m (s : List χ), s.length ≤ n → s.length ≤ m →
      replaceFrom p replacement n s = replaceFrom p replacement m s := by
    intro n
    induction n with
    | zero =>
      intro m s hn _
      obtain rfl := List.length_eq_zero_iff.mp (Nat.le_zero.mp hn)
      cases m <;> rfl
    | succ n ih =>
      intro m s hn hm
      cases s with
      | nil => cases m <;> rfl
      | cons g s =>
        rw [List.length_cons] at hn hm
        cases m with
        | zero => omega
        | succ m =>
          simp only [replaceFrom]
          cases hmatch : matchPrefix p (g :: s) with
          | none => exact congrArg (g :: ·) (ih m s (by omega) (by omega))
          | some found =>
            obtain ⟨captured, rest⟩ := found
            have hlt := length_lt_of_matchPrefix hp hmatch
            rw [List.length_cons] at hlt
            exact congrArg (replacement captured ++ ·) (ih m rest (by omega) (by omega))
  exact hfuel n _ s h le_rfl

lemma replaceAll_cons_of_none {g : χ} {s : List χ} (h : matchPrefix p (g :: s) = none) :
    replaceAll p replacement (g :: s) = g :: replaceAll p replacement s := by
  rw [replaceAll, List.length_cons, replaceFrom, h]
  rfl

lemma replaceAll_of_some (hp : nullable p = false) {s captured rest : List χ}
    (h : matchPrefix p s = some (captured, rest)) :
    replaceAll p replacement s = replacement captured ++ replaceAll p replacement rest := by
  have hlt := length_lt_of_matchPrefix hp h
  cases s with
  | nil => exact absurd hlt (Nat.not_lt_zero _)
  | cons g s =>
    rw [replaceAll, List.length_cons, replaceFrom, h]
    rw [List.length_cons] at hlt
    exact congrArg (replacement captured ++ ·) (replaceFrom_eq hp (Nat.le_of_lt_succ hlt))

/-- A text in which no match begins is passed over. -/
lemma replaceAll_append_of_starts (hp : nullable p = false) {s t : List χ}
    (hs : ∀ g ∈ s, starts p (chr g) = false) :
    replaceAll p replacement (s ++ t) = s ++ replaceAll p replacement t := by
  induction s with
  | nil => rfl
  | cons g s ih =>
    have hnone : matchPrefix p (g :: (s ++ t)) = none :=
      matchPrefix_eq_none hp (hs g List.mem_cons_self)
    rw [List.cons_append, replaceAll_cons_of_none hnone,
      ih fun g' hg' => hs g' (List.mem_cons_of_mem _ hg'), List.cons_append]

/-- Two parts can be scanned one by one if no match goes on with the second. -/
theorem replaceAll_append (hp : nullable p = false) (hproper : proper p = true) {s t : List χ}
    (ht : Border (tailUses p) t) :
    replaceAll p replacement (s ++ t) =
      replaceAll p replacement s ++ replaceAll p replacement t := by
  induction hlen : s.length using Nat.strong_induction_on generalizing s with
  | _ n ih =>
    cases s with
    | nil => rfl
    | cons g s =>
      have happend := matchPrefix_append hproper (List.cons_ne_nil g s) ht
      cases hmatch : matchPrefix p (g :: s) with
      | none =>
        rw [hmatch, List.cons_append] at happend
        rw [List.cons_append, replaceAll_cons_of_none happend, replaceAll_cons_of_none hmatch,
          ih s.length (by simp [← hlen]) rfl, List.cons_append]
      | some found =>
        obtain ⟨captured, rest⟩ := found
        rw [hmatch] at happend
        have hlt := length_lt_of_matchPrefix hp hmatch
        rw [replaceAll_of_some hp happend, replaceAll_of_some hp hmatch,
          ih rest.length (hlen ▸ hlt) rfl, List.append_assoc]

end Replace

/-! ## What a scan leaves whole -/

/-- The characters that a match can end with. -/
def ends : Pattern → Char → Bool
  | .empty, _ => false
  | .one accepts, c => accepts c
  | .seq p q, c => ends q c || (nullable q && ends p c)
  | .alt p q, c => ends p c || ends q c
  | .star p, c => ends p c
  | .group p, c => ends p c

/-- The second character can stand behind the first in a match. -/
def follows : Pattern → Char → Char → Bool
  | .empty, _, _ | .one _, _, _ => false
  | .seq p q, c, d => follows p c d || follows q c d || (ends p c && starts q d)
  | .alt p q, c, d => follows p c d || follows q c d
  | .star p, c, d => follows p c d || (ends p c && starts p d)
  | .group p, c, d => follows p c d

lemma ends_of_accepts {p : Pattern} {u : List Char} {c : Char} (h : Accepts p (u ++ [c])) :
    ends p c = true := by
  induction p generalizing u with
  | empty => exact absurd h (by simp [Accepts])
  | one accepts =>
    obtain ⟨d, hd, hc⟩ := h
    cases u with
    | nil =>
      obtain rfl := (List.cons.inj hd).1
      exact hc
    | cons e u => simp at hd
  | seq p q ihp ihq =>
    obtain ⟨v, w, hvw, hv, hw⟩ := h
    rcases List.eq_nil_or_concat w with rfl | ⟨w, d, rfl⟩
    · rw [List.append_nil] at hvw
      subst hvw
      simp [ends, nullable_of_accepts_nil hw, ihp hv]
    · rw [List.concat_eq_append, ← List.append_assoc] at hvw
      obtain ⟨-, hcd⟩ := List.append_inj' hvw rfl
      obtain rfl := (List.cons.inj hcd).1
      rw [List.concat_eq_append] at hw
      simp [ends, ihq hw]
  | alt p q ihp ihq =>
    rcases h with h | h
    · simp [ends, ihp h]
    · simp [ends, ihq h]
  | star p ih =>
    obtain ⟨rounds, hflat, hrounds⟩ := h
    rcases List.eq_nil_or_concat rounds with rfl | ⟨rounds, v, rfl⟩
    · simp at hflat
    · obtain ⟨hne, hv⟩ := hrounds v (by simp)
      rcases List.eq_nil_or_concat v with rfl | ⟨v, d, rfl⟩
      · exact absurd rfl hne
      · simp only [List.concat_eq_append, List.flatten_append, List.flatten_cons,
          List.flatten_nil, List.append_nil, ← List.append_assoc] at hflat
        obtain ⟨-, hcd⟩ := List.append_inj' hflat rfl
        obtain rfl := (List.cons.inj hcd).1
        rw [List.concat_eq_append] at hv
        exact ih hv
  | group p ih => exact ih h

/-- Two characters in a row, in a text that is put together from two. -/
lemma append_eq_append_cons_cons {v w x y : List Char} {c d : Char}
    (h : v ++ w = x ++ c :: d :: y) :
    (∃ y', v = x ++ c :: d :: y') ∨ (v = x ++ [c] ∧ w = d :: y) ∨ ∃ x', w = x' ++ c :: d :: y := by
  rcases List.append_eq_append_iff.mp h with ⟨x', -, rfl⟩ | ⟨y', rfl, hy⟩
  · exact .inr (.inr ⟨x', rfl⟩)
  · cases y' with
    | nil => exact .inr (.inr ⟨[], hy.symm⟩)
    | cons e y' =>
      obtain ⟨rfl, hrest⟩ := List.cons.inj hy
      cases y' with
      | nil => exact .inr (.inl ⟨rfl, hrest.symm⟩)
      | cons e' y' =>
        obtain ⟨rfl, -⟩ := List.cons.inj hrest
        exact .inl ⟨y', rfl⟩

lemma follows_of_accepts {p : Pattern} {u v : List Char} {c d : Char}
    (h : Accepts p (u ++ c :: d :: v)) : follows p c d = true := by
  induction p generalizing u v with
  | empty => exact absurd h (by simp [Accepts])
  | one accepts =>
    obtain ⟨e, he, -⟩ := h
    have hlen := congrArg List.length he
    simp only [List.length_append, List.length_cons, List.length_nil] at hlen
    omega
  | seq p q ihp ihq =>
    obtain ⟨x, y, hxy, hx, hy⟩ := h
    rcases append_eq_append_cons_cons hxy.symm with ⟨y', rfl⟩ | ⟨rfl, rfl⟩ | ⟨x', rfl⟩
    · simp [follows, ihp hx]
    · simp [follows, ends_of_accepts hx, starts_of_accepts hy]
    · simp [follows, ihq hy]
  | alt p q ihp ihq =>
    rcases h with h | h
    · simp [follows, ihp h]
    · simp [follows, ihq h]
  | star p ih =>
    obtain ⟨rounds, hflat, hrounds⟩ := h
    induction rounds generalizing u with
    | nil => simp at hflat
    | cons x rounds ihr =>
      obtain ⟨-, hx⟩ := hrounds x List.mem_cons_self
      have hrest : ∀ w ∈ rounds, w ≠ [] ∧ Accepts p w := fun w hw =>
        hrounds w (List.mem_cons_of_mem _ hw)
      rw [List.flatten_cons] at hflat
      rcases append_eq_append_cons_cons hflat.symm with ⟨y', rfl⟩ | ⟨rfl, hnext⟩ | ⟨x', hnext⟩
      · simp [follows, ih hx]
      · have hstart : starts (.star p) d = true :=
          starts_of_accepts (u := v) ⟨rounds, hnext.symm, hrest⟩
        simp [follows, ends_of_accepts hx, show starts p d = true from hstart]
      · exact ihr hnext.symm hrest
  | group p ih => exact ih h

section Replace

variable {χ : Type} [Glyph χ] {p : Pattern} {replacement : List χ → List χ}

lemma accepts_of_matchPrefix {s captured rest : List χ}
    (h : matchPrefix p s = some (captured, rest)) :
    ∃ u, s = u ++ rest ∧ Accepts p (chars u) := by
  obtain ⟨u, captured', rest', hs, hu, hfound⟩ := run_accepts p h
  obtain ⟨-, rfl⟩ := Prod.mk.inj (Option.some.inj hfound)
  exact ⟨u, hs, hu⟩

/-- A word in which no match begins, and into which none can run, is left whole. -/
theorem replaceAll_keeps (hp : nullable p = false) {g h : χ} {word : List χ}
    (hstarts : ∀ g' ∈ g :: h :: word, starts p (chr g') = false) (hends : ends p (chr g) = false)
    (hfollows : follows p (chr g) (chr h) = false) (s t : List χ) :
    ∃ s', replaceAll p replacement (s ++ (g :: h :: word ++ t)) =
      s' ++ (g :: h :: word ++ replaceAll p replacement t) := by
  induction hlen : s.length using Nat.strong_induction_on generalizing s with
  | _ n ih =>
    cases s with
    | nil => exact ⟨[], replaceAll_append_of_starts hp hstarts⟩
    | cons c s =>
      cases hmatch : matchPrefix p (c :: (s ++ (g :: h :: word ++ t))) with
      | none =>
        obtain ⟨s', hs'⟩ := ih s.length (by simp [← hlen]) s rfl
        exact ⟨c :: s', by rw [List.cons_append, replaceAll_cons_of_none hmatch, hs']; rfl⟩
      | some found =>
        obtain ⟨captured, rest⟩ := found
        obtain ⟨u, hu, haccepts⟩ := accepts_of_matchPrefix hmatch
        rw [← List.cons_append] at hu
        -- What is behind the match begins in front of the word or with it.
        obtain ⟨w, rfl⟩ : ∃ w, rest = w ++ (g :: h :: word ++ t) := by
          rcases List.append_eq_append_iff.mp hu with ⟨w, rfl, hw⟩ | ⟨w, -, rfl⟩
          · rw [chars_append] at haccepts
            cases w with
            | nil => exact ⟨[], hw.symm⟩
            | cons e w =>
              obtain ⟨rfl, hbehind⟩ := List.cons.inj hw
              cases w with
              | nil => exact absurd (ends_of_accepts haccepts) (by simp [hends])
              | cons e' w =>
                obtain ⟨rfl, -⟩ := List.cons.inj hbehind
                exact absurd (follows_of_accepts haccepts) (by simp [hfollows])
          · exact ⟨w, rfl⟩
        have hlt := length_lt_of_matchPrefix hp hmatch
        simp only [List.length_append, List.length_cons] at hlt hlen
        obtain ⟨s', hs'⟩ := ih w.length (by omega) w rfl
        refine ⟨replacement captured ++ s', ?_⟩
        rw [List.cons_append, replaceAll_of_some hp hmatch, hs', List.append_assoc]

end Replace

end Pattern
