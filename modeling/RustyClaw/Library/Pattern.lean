import RustyClaw.Library.Glyph

/-!
# Regular expressions with one group

Patterns in the manner of a backtracking matcher: `seq` and `alt` prefer their left part, `star`
prefers another round, and what the group matched last is captured.  `replaceAll` replaces the
matches of a pattern from left to right.

The texts that a pattern matches at all are `Accepts`; `run_sound` and `run_complete` tie the
matcher to them.  `not_occursAt_replaceAll` is the rule for sanitizers: if the pattern matches
wherever a certain tag occurs, and every replacement begins with a character that the tag does not
contain and brings no beginning of a tag along, then the tag does not occur in the result.
`not_matchesAt_replaceAll` is the same rule for what another pattern matches, and with
`replaceAll_eq_self` it gives that a sanitizer has nothing to do on its own output.
-/

inductive Pattern where
  | empty
  | one (accepts : Char → Bool)
  | seq (p q : Pattern)
  | alt (p q : Pattern)
  | star (p : Pattern)
  | group (p : Pattern)

namespace Pattern

open Glyph

/-- `p?` -/
def opt (p : Pattern) : Pattern := .alt p .empty

def seqs : List Pattern → Pattern
  | [] => .empty
  | [p] => p
  | p :: ps => .seq p (seqs ps)

def alts : List Pattern → Pattern
  | [] => .empty
  | [p] => p
  | p :: ps => .alt p (alts ps)

/-- A set of characters. -/
def oneOf (set : List Char) : Pattern := .one set.contains

/-- `\s` -/
def space : Pattern := .one isWhitespace

/-- The characters that an ASCII character matches when case is ignored: besides its upper case
there are the long s and the Kelvin sign. -/
def foldsTo (c d : Char) : Bool :=
  d = c || d.toLower = c || (c = 's' && d = '\u017F') || (c = 'k' && d = '\u212A')

/-- A lower-case word when case is ignored. -/
def word (literal : String) : Pattern := seqs (literal.toList.map fun c => .one (foldsTo c))

/-! ## The matcher -/

section Matcher

variable {χ β : Type} [Glyph χ]

/-- The rounds of a star, of which the text allows no more than its length. -/
def runStar (round : List χ → List χ → (List χ → List χ → Option β) → Option β) :
    Nat → List χ → List χ → (List χ → List χ → Option β) → Option β
  | 0, captured, s, next => next captured s
  | n + 1, captured, s, next =>
    (round captured s fun captured s => runStar round n captured s next).orElse
      fun _ => next captured s

/-- Matches a prefix of `s`; what comes behind the pattern is `next`, which is given what the
group has captured and the rest of the text. -/
def run : Pattern → List χ → List χ → (List χ → List χ → Option β) → Option β
  | .empty, captured, s, next => next captured s
  | .one _, _, [], _ => none
  | .one accepts, captured, g :: s, next => if accepts (chr g) then next captured s else none
  | .seq p q, captured, s, next => run p captured s fun captured s => run q captured s next
  | .alt p q, captured, s, next => (run p captured s next).orElse fun _ => run q captured s next
  | .star p, captured, s, next => runStar (run p) s.length captured s next
  | .group p, captured, s, next =>
    run p captured s fun _ rest => next (s.take (s.length - rest.length)) rest

/-- The group and the rest of the text, when the pattern matches in front of it. -/
def matchPrefix (p : Pattern) (s : List χ) : Option (List χ × List χ) :=
  run p [] s fun captured rest => some (captured, rest)

def replaceFrom (p : Pattern) (replacement : List χ → List χ) : Nat → List χ → List χ
  | 0, s => s
  | _, [] => []
  | n + 1, g :: s =>
    match matchPrefix p (g :: s) with
    | some (captured, rest) => replacement captured ++ replaceFrom p replacement n rest
    | none => g :: replaceFrom p replacement n s

/-- `Regex::replace_all` with the replacement of each match as a function of its group, for a
pattern that does not match the empty text. -/
def replaceAll (p : Pattern) (replacement : List χ → List χ) (s : List χ) : List χ :=
  replaceFrom p replacement s.length s

end Matcher

/-! ## What a pattern matches -/

def Accepts : Pattern → List Char → Prop
  | .empty, u => u = []
  | .one accepts, u => ∃ c, u = [c] ∧ accepts c = true
  | .seq p q, u => ∃ v w, u = v ++ w ∧ Accepts p v ∧ Accepts q w
  | .alt p q, u => Accepts p u ∨ Accepts q u
  | .star p, u => ∃ rounds : List (List Char), u = rounds.flatten ∧
      ∀ v ∈ rounds, v ≠ [] ∧ Accepts p v
  | .group p, u => Accepts p u

/-- The characters that can be part of a match. -/
def uses : Pattern → Char → Bool
  | .empty, _ => false
  | .one accepts, c => accepts c
  | .seq p q, c => uses p c || uses q c
  | .alt p q, c => uses p c || uses q c
  | .star p, c => uses p c
  | .group p, c => uses p c

lemma accepts_oneOf {set : List Char} {c : Char} (h : set.contains c = true) :
    Accepts (oneOf set) [c] := ⟨c, rfl, h⟩

lemma accepts_opt {p : Pattern} {u : List Char} (h : Accepts p u) : Accepts (opt p) u := .inl h

lemma accepts_star_nil {p : Pattern} : Accepts (.star p) [] := ⟨[], rfl, by simp⟩

lemma accepts_seqs_cons {p : Pattern} {ps : List Pattern} {v w : List Char} (hv : Accepts p v)
    (hw : Accepts (seqs ps) w) (hps : ps ≠ []) : Accepts (seqs (p :: ps)) (v ++ w) := by
  cases ps with
  | nil => exact absurd rfl hps
  | cons q ps => exact ⟨v, w, rfl, hv, hw⟩

lemma accepts_alts {p : Pattern} {ps : List Pattern} {u : List Char} (hp : p ∈ ps)
    (hu : Accepts p u) : Accepts (alts ps) u := by
  induction ps with
  | nil => simp at hp
  | cons q ps ih =>
    cases ps with
    | nil =>
      obtain rfl := List.mem_singleton.mp hp
      exact hu
    | cons q' ps =>
      rcases List.mem_cons.mp hp with rfl | hp
      · exact .inl hu
      · exact .inr (ih hp)

/-- A word matches its letters in any case. -/
lemma accepts_word (literal : String) {u : List Char}
    (h : List.Forall₂ (fun c d => foldsTo c d = true) literal.toList u) :
    Accepts (word literal) u := by
  unfold word
  generalize literal.toList = letters at h
  induction h with
  | nil => rfl
  | @cons c d cs ds hcd hrest ih =>
    cases hrest with
    | nil => exact ⟨d, rfl, hcd⟩
    | cons hcd' hrest' => exact ⟨[d], _, rfl, ⟨d, rfl, hcd⟩, ih⟩

/-- Whether the empty text can be matched. -/
def nullable : Pattern → Bool
  | .empty => true
  | .one _ => false
  | .seq p q => nullable p && nullable q
  | .alt p q => nullable p || nullable q
  | .star _ => true
  | .group p => nullable p

/-- The characters that can be part of a group. -/
def captures : Pattern → Char → Bool
  | .empty, _ | .one _, _ => false
  | .seq p q, c => captures p c || captures q c
  | .alt p q, c => captures p c || captures q c
  | .star p, c => captures p c
  | .group p, c => uses p c

section Sound

variable {χ β : Type} [Glyph χ]

/-- What is consumed consists of characters the pattern uses, and what is captured anew of glyphs
of the consumed text that a group can have matched. -/
def Consumes (p : Pattern) (captured s captured' s' : List χ) : Prop :=
  ∃ u, s = u ++ s' ∧ (nullable p = false → u ≠ []) ∧ (∀ g ∈ u, uses p (chr g) = true) ∧
    ∀ g ∈ captured', g ∈ captured ∨ (g ∈ u ∧ captures p (chr g) = true)

lemma Consumes.mono {p q : Pattern} {c s c' s' : List χ} (h : Consumes p c s c' s')
    (hnullable : nullable q = false → nullable p = false)
    (huses : ∀ d, uses p d = true → uses q d = true)
    (hcaptures : ∀ d, captures p d = true → captures q d = true) : Consumes q c s c' s' := by
  obtain ⟨u, hs, hne, hu, hc⟩ := h
  exact ⟨u, hs, fun hq => hne (hnullable hq), fun g hg => huses _ (hu g hg),
    fun g hg => (hc g hg).imp_right fun h => ⟨h.1, hcaptures _ h.2⟩⟩

lemma Consumes.seq {p q : Pattern} {c s c₁ s₁ c₂ s₂ : List χ} (h₁ : Consumes p c s c₁ s₁)
    (h₂ : Consumes q c₁ s₁ c₂ s₂) : Consumes (.seq p q) c s c₂ s₂ := by
  obtain ⟨u, rfl, hneu, hu, hc⟩ := h₁
  obtain ⟨v, rfl, hnev, hv, hd⟩ := h₂
  refine ⟨u ++ v, (List.append_assoc _ _ _).symm, fun hnull => ?_, fun g hg => ?_, fun g hg => ?_⟩
  · rcases Bool.and_eq_false_iff.mp hnull with h | h
    · exact List.append_ne_nil_of_left_ne_nil (hneu h) v
    · exact List.append_ne_nil_of_right_ne_nil u (hnev h)
  · rcases List.mem_append.mp hg with h | h
    · simp [uses, hu g h]
    · simp [uses, hv g h]
  · rcases hd g hg with h | ⟨h, hcap⟩
    · refine (hc g h).imp_right fun h => ⟨List.mem_append_left _ h.1, ?_⟩
      simp [captures, h.2]
    · exact .inr ⟨List.mem_append_right _ h, by simp [captures, hcap]⟩

lemma Consumes.refl (p : Pattern) (c s : List χ) (hp : nullable p = true) :
    Consumes p c s c s :=
  ⟨[], rfl, by simp [hp], by simp, fun _ hg => .inl hg⟩

lemma orElse_eq_some {x y : Option β} {b : β} (h : (x.orElse fun _ => y) = some b) :
    x = some b ∨ y = some b := by
  cases x with
  | none => exact .inr h
  | some a => exact .inl h

lemma runStar_sound {p : Pattern}
    {round : List χ → List χ → (List χ → List χ → Option β) → Option β}
    (hround : ∀ c s next b, round c s next = some b →
      ∃ c' s', Consumes p c s c' s' ∧ next c' s' = some b)
    {n : Nat} {c s : List χ} {next : List χ → List χ → Option β} {b : β}
    (h : runStar round n c s next = some b) :
    ∃ c' s', Consumes (.star p) c s c' s' ∧ next c' s' = some b := by
  induction n generalizing c s with
  | zero => exact ⟨c, s, .refl _ c s rfl, h⟩
  | succ n ih =>
    rcases orElse_eq_some h with h | h
    · obtain ⟨c₁, s₁, hfirst, h⟩ := hround _ _ _ _ h
      obtain ⟨c₂, s₂, hmore, h⟩ := ih h
      refine ⟨c₂, s₂, (hfirst.seq hmore).mono ?_ ?_ ?_, h⟩ <;> simp [nullable, uses, captures]
    · exact ⟨c, s, .refl _ c s rfl, h⟩

/-- A match consumes a prefix of the text and hands what is left on. -/
theorem run_sound (p : Pattern) {c s : List χ} {next : List χ → List χ → Option β} {b : β}
    (h : run p c s next = some b) : ∃ c' s', Consumes p c s c' s' ∧ next c' s' = some b := by
  induction p generalizing c s next b with
  | empty => exact ⟨c, s, .refl _ c s rfl, h⟩
  | one accepts =>
    cases s with
    | nil => cases h
    | cons g s =>
      simp only [run] at h
      split_ifs at h with hg
      exact ⟨c, s, ⟨[g], rfl, by simp, by simpa [uses] using hg, fun _ hg => .inl hg⟩, h⟩
  | seq p q ihp ihq =>
    obtain ⟨c₁, s₁, hp, h⟩ := ihp h
    obtain ⟨c₂, s₂, hq, h⟩ := ihq h
    exact ⟨c₂, s₂, hp.seq hq, h⟩
  | alt p q ihp ihq =>
    rcases orElse_eq_some h with h | h
    · obtain ⟨c', s', hp, h⟩ := ihp h
      refine ⟨c', s', hp.mono ?_ ?_ ?_, h⟩ <;> simp +contextual [nullable, uses, captures]
    · obtain ⟨c', s', hq, h⟩ := ihq h
      refine ⟨c', s', hq.mono ?_ ?_ ?_, h⟩ <;> simp +contextual [nullable, uses, captures]
  | star p ih =>
    exact runStar_sound (fun c s next b h => ih h) h
  | group p ih =>
    obtain ⟨_, s', ⟨u, rfl, hne, hu, -⟩, h⟩ := ih h
    refine ⟨_, s', ⟨u, rfl, hne, hu, fun g hg => .inr ?_⟩, h⟩
    rw [List.length_append, Nat.add_sub_cancel, List.take_left] at hg
    exact ⟨hg, hu g hg⟩

end Sound

section Complete

variable {χ β : Type} [Glyph χ]

lemma isSome_orElse {x y : Option β} (h : x.isSome = true ∨ y.isSome = true) :
    (x.orElse fun _ => y).isSome = true := by
  cases x <;> simp_all

lemma exists_append_of_chars {s : List χ} {v w : List Char} (h : chars s = v ++ w) :
    ∃ s₁ s₂, s = s₁ ++ s₂ ∧ chars s₁ = v ∧ chars s₂ = w := by
  obtain ⟨s₁, s₂, rfl, h₁, h₂⟩ := List.map_eq_append_iff.mp h
  exact ⟨s₁, s₂, rfl, h₁, h₂⟩

lemma length_le_flatten {rounds : List (List Char)} (h : ∀ v ∈ rounds, v ≠ []) :
    rounds.length ≤ rounds.flatten.length := by
  induction rounds with
  | nil => simp
  | cons v rounds ih =>
    have hv := List.length_pos_iff.mpr (h v List.mem_cons_self)
    have htail := ih fun w hw => h w (List.mem_cons_of_mem _ hw)
    simp only [List.length_cons, List.flatten_cons, List.length_append]
    omega

lemma runStar_complete {p : Pattern}
    {round : List χ → List χ → (List χ → List χ → Option β) → Option β}
    (hround : ∀ (u s' c : List χ) next, Accepts p (chars u) →
      (∀ c', (next c' s').isSome = true) → (round c (u ++ s') next).isSome = true)
    {rounds : List (List Char)} (hrounds : ∀ v ∈ rounds, Accepts p v)
    {n : Nat} (hn : rounds.length ≤ n) {u s' : List χ} (hu : chars u = rounds.flatten)
    (c : List χ) {next : List χ → List χ → Option β}
    (hnext : ∀ c', (next c' s').isSome = true) :
    (runStar round n c (u ++ s') next).isSome = true := by
  induction rounds generalizing n u c with
  | nil =>
    have hempty : u = [] := List.map_eq_nil_iff.mp hu
    subst hempty
    cases n with
    | zero => exact hnext c
    | succ n => exact isSome_orElse (.inr (hnext c))
  | cons v rounds ih =>
    obtain ⟨n, rfl⟩ := Nat.exists_eq_succ_of_ne_zero (by simp at hn; omega : n ≠ 0)
    obtain ⟨u₁, u₂, rfl, h₁, h₂⟩ := exists_append_of_chars hu
    rw [List.append_assoc]
    refine isSome_orElse (.inl (hround u₁ _ c _ ?_ fun c' => ?_))
    · exact h₁ ▸ hrounds v List.mem_cons_self
    · exact ih (fun w hw => hrounds w (List.mem_cons_of_mem _ hw))
        (by simpa using hn) h₂ c'

/-- The matcher finds a match when there is one that what follows can go on from. -/
theorem run_complete (p : Pattern) {u s' : List χ} (hu : Accepts p (chars u)) (c : List χ)
    {next : List χ → List χ → Option β} (hnext : ∀ c', (next c' s').isSome = true) :
    (run p c (u ++ s') next).isSome = true := by
  induction p generalizing u s' c next with
  | empty =>
    have hempty : u = [] := List.map_eq_nil_iff.mp hu
    subst hempty
    exact hnext c
  | one accepts =>
    obtain ⟨d, hd, haccepts⟩ := hu
    obtain ⟨g, u', rfl, rfl, hu'⟩ := List.map_eq_cons_iff.mp hd
    obtain rfl := List.map_eq_nil_iff.mp hu'
    simpa [run, haccepts] using hnext c
  | seq p q ihp ihq =>
    obtain ⟨v, w, huv, hv, hw⟩ := hu
    obtain ⟨u₁, u₂, rfl, rfl, rfl⟩ := exists_append_of_chars huv
    rw [List.append_assoc]
    exact ihp hv c fun c' => ihq hw c' hnext
  | alt p q ihp ihq =>
    rcases hu with hu | hu
    · exact isSome_orElse (.inl (ihp hu c hnext))
    · exact isSome_orElse (.inr (ihq hu c hnext))
  | star p ih =>
    obtain ⟨rounds, hflat, hrounds⟩ := hu
    have hle := length_le_flatten fun v hv => (hrounds v hv).1
    rw [← hflat, length_chars] at hle
    exact runStar_complete (fun _ _ c _ hu hnext => ih hu c hnext)
      (fun v hv => (hrounds v hv).2) (hle.trans (by simp)) hflat c hnext
  | group p ih => exact ih hu c fun _ => hnext _

lemma matchPrefix_complete (p : Pattern) {u s' : List χ} (hu : Accepts p (chars u)) :
    (matchPrefix p (u ++ s')).isSome = true :=
  run_complete p hu [] fun _ => rfl

end Complete

/-! ## Replacing -/

section Replace

variable {χ : Type} [Glyph χ] {p : Pattern} {replacement : List χ → List χ}

lemma matchPrefix_sound {s captured rest : List χ} (h : matchPrefix p s = some (captured, rest)) :
    ∃ u, s = u ++ rest ∧ (nullable p = false → u ≠ []) ∧
      ∀ g ∈ captured, g ∈ u ∧ captures p (chr g) = true := by
  obtain ⟨c', s', ⟨u, hs, hne, -, hc⟩, heq⟩ := run_sound p h
  cases heq
  exact ⟨u, hs, hne, fun g hg => (hc g hg).resolve_left (by simp)⟩

/-- What holds of every glyph of the text and of what is put in holds of every glyph of the
result. -/
lemma all_replaceAll {P : χ → Prop} (hrep : ∀ captured, All P captured → All P (replacement captured))
    {s : List χ} (hs : All P s) : All P (replaceAll p replacement s) := by
  have h : ∀ n s, All P s → All P (replaceFrom p replacement n s) := by
    intro n
    induction n with
    | zero => exact fun s hs => hs
    | succ n ih =>
      intro s hs
      cases s with
      | nil => exact hs
      | cons g s =>
        simp only [replaceFrom]
        split
        · rename_i captured rest hmatch
          obtain ⟨u, hu, -, hcaptured⟩ := matchPrefix_sound hmatch
          rw [hu, all_append] at hs
          exact all_append.mpr ⟨hrep _ fun g hg => hs.1 g (hcaptured g hg).1, ih _ hs.2⟩
        · obtain ⟨hg, hs⟩ := all_cons.mp hs
          exact all_cons.mpr ⟨hg, ih _ hs⟩
  exact h _ s hs

/-- A text without the mark and at the beginning of the result was there before. -/
lemma prefix_of_replaceFrom {mark : Char} {n : Nat} {s : List χ} {v : List Char}
    (hrep : ∀ captured, ∃ r, chars (replacement captured) = mark :: r) (hv : mark ∉ v)
    (h : v <+: chars (replaceFrom p replacement n s)) : v <+: chars s := by
  induction n generalizing s v with
  | zero => exact h
  | succ n ih =>
    cases s with
    | nil => exact h
    | cons g s =>
      cases v with
      | nil => exact List.nil_prefix
      | cons c v =>
        simp only [replaceFrom] at h
        split at h
        · rename_i captured rest hmatch
          obtain ⟨r, hr⟩ := hrep captured
          rw [chars_append, hr, List.cons_append, List.cons_prefix_cons] at h
          exact absurd (h.1 ▸ List.mem_cons_self) hv
        · change c :: v <+: chr g :: chars _ at h
          rw [List.cons_prefix_cons] at h
          change c :: v <+: chr g :: chars s
          rw [List.cons_prefix_cons]
          exact ⟨h.1, ih (fun hmem => hv (List.mem_cons_of_mem _ hmem)) h.2⟩

/-- A tag that the pattern finds wherever it occurs does not occur in the result. -/
theorem not_occursAt_replaceAll (mark head : Char) {tag : List Char}
    (htag : tag.head? = some head) (hmark : mark ∉ tag) (hp : nullable p = false)
    (hfinds : ∀ s : List χ, tag <+: chars s → (matchPrefix p s).isSome = true)
    (hrep : ∀ captured, ∃ r, chars (replacement captured) = mark :: r)
    (hhead : ∀ captured, (∀ g ∈ captured, captures p (chr g) = true) →
      head ∉ chars (replacement captured)) (s : List χ) (i : Nat) :
    ¬ Text.OccursAt tag (chars (replaceAll p replacement s)) i := by
  obtain ⟨tail, rfl⟩ := List.head?_eq_some_iff.mp htag
  have h : ∀ n s, s.length ≤ n → ∀ i,
      ¬ Text.OccursAt (head :: tail) (chars (replaceFrom p replacement n s)) i := by
    intro n
    induction n with
    | zero =>
      intro s hs i hocc
      obtain rfl : s = [] := List.length_eq_zero_iff.mp (by omega)
      simpa [replaceFrom] using hocc.length_le (by simp)
    | succ n ih =>
      intro s hs i hocc
      cases s with
      | nil => simpa [replaceFrom] using hocc.length_le (by simp)
      | cons g s =>
        simp only [List.length_cons] at hs
        simp only [replaceFrom] at hocc
        split at hocc
        · -- A match: the tag cannot begin in what is put in.
          rename_i captured rest hmatch
          obtain ⟨u, hu, hne, hcaptured⟩ := matchPrefix_sound hmatch
          have hrest : rest.length ≤ n := by
            have hlen := congrArg List.length hu
            have hpos := List.length_pos_iff.mpr (hne hp)
            simp only [List.length_append, List.length_cons] at hlen
            omega
          rw [chars_append] at hocc
          rcases Nat.lt_or_ge i (chars (replacement captured)).length with hlt | hge
          · have hget := hocc.getElem? (k := 0) (by simp)
            rw [Nat.add_zero, List.getElem?_append_left hlt] at hget
            exact hhead captured (fun g hg => (hcaptured g hg).2) (List.mem_of_getElem? hget)
          · obtain ⟨j, rfl⟩ := Nat.exists_eq_add_of_le hge
            exact ih rest hrest j ((Text.occursAt_append_right _ _ _ _).mp hocc)
        · -- No match: the tag begins neither here nor, by induction, further on.
          rename_i hmatch
          cases i with
          | zero =>
            have hstart : head :: tail <+: chars (g :: replaceFrom p replacement n s) := by
              obtain ⟨rest, heq⟩ := Text.occursAt_iff_exists.mp hocc
              exact ⟨rest, heq.symm⟩
            change head :: tail <+: chr g :: chars _ at hstart
            rw [List.cons_prefix_cons] at hstart
            have htail := prefix_of_replaceFrom hrep
              (fun hmem => hmark (List.mem_cons_of_mem _ hmem)) hstart.2
            have hfound := hfinds (g :: s) (by
              change head :: tail <+: chr g :: chars s
              rw [List.cons_prefix_cons]
              exact ⟨hstart.1, htail⟩)
            rw [hmatch] at hfound
            cases hfound
          | succ i => exact ih s (by omega) i hocc
  exact h _ s le_rfl i

end Replace

/-! ## Where a pattern matches -/

/-- A match stands at the beginning of the text. -/
def Begins (p : Pattern) (s : List Char) : Prop := ∃ u, u <+: s ∧ Accepts p u

/-- A match stands in the text at position `i`. -/
def MatchesAt (p : Pattern) (s : List Char) (i : Nat) : Prop := Begins p (s.drop i)

/-- The characters that a match can begin with. -/
def starts : Pattern → Char → Bool
  | .empty, _ => false
  | .one accepts, c => accepts c
  | .seq p q, c => starts p c || (nullable p && starts q c)
  | .alt p q, c => starts p c || starts q c
  | .star p, c => starts p c
  | .group p, c => starts p c

lemma uses_of_accepts {p : Pattern} {u : List Char} (h : Accepts p u) :
    ∀ c ∈ u, uses p c = true := by
  induction p generalizing u with
  | empty =>
    obtain rfl := h
    simp
  | one accepts =>
    obtain ⟨c, rfl, hc⟩ := h
    simpa [uses] using hc
  | seq p q ihp ihq =>
    obtain ⟨v, w, rfl, hv, hw⟩ := h
    intro c hc
    rcases List.mem_append.mp hc with hc | hc
    · simp [uses, ihp hv c hc]
    · simp [uses, ihq hw c hc]
  | alt p q ihp ihq =>
    intro c hc
    rcases h with h | h
    · simp [uses, ihp h c hc]
    · simp [uses, ihq h c hc]
  | star p ih =>
    obtain ⟨rounds, rfl, hrounds⟩ := h
    intro c hc
    obtain ⟨v, hv, hcv⟩ := List.mem_flatten.mp hc
    exact ih (hrounds v hv).2 c hcv
  | group p ih => exact ih h

lemma ne_nil_of_accepts {p : Pattern} {u : List Char} (hp : nullable p = false)
    (h : Accepts p u) : u ≠ [] := by
  induction p generalizing u with
  | empty => cases hp
  | one accepts =>
    obtain ⟨c, rfl, -⟩ := h
    simp
  | seq p q ihp ihq =>
    obtain ⟨v, w, rfl, hv, hw⟩ := h
    rcases Bool.and_eq_false_iff.mp hp with hp | hq
    · exact List.append_ne_nil_of_left_ne_nil (ihp hp hv) w
    · exact List.append_ne_nil_of_right_ne_nil v (ihq hq hw)
  | alt p q ihp ihq =>
    obtain ⟨hp, hq⟩ := Bool.or_eq_false_iff.mp hp
    rcases h with h | h
    · exact ihp hp h
    · exact ihq hq h
  | star p ih => cases hp
  | group p ih => exact ih hp h

lemma nullable_of_accepts_nil {p : Pattern} (h : Accepts p []) : nullable p = true := by
  by_contra hp
  exact ne_nil_of_accepts (Bool.eq_false_iff.mpr hp) h rfl

lemma starts_of_accepts {p : Pattern} {c : Char} {u : List Char} (h : Accepts p (c :: u)) :
    starts p c = true := by
  induction p generalizing c u with
  | empty => cases h
  | one accepts =>
    obtain ⟨d, hd, hc⟩ := h
    cases hd
    exact hc
  | seq p q ihp ihq =>
    obtain ⟨v, w, hvw, hv, hw⟩ := h
    cases v with
    | nil =>
      rw [List.nil_append] at hvw
      subst hvw
      simp [starts, nullable_of_accepts_nil hv, ihq hw]
    | cons d v =>
      obtain ⟨rfl, rfl⟩ := List.cons.inj hvw
      simp [starts, ihp hv]
  | alt p q ihp ihq =>
    rcases h with h | h
    · simp [starts, ihp h]
    · simp [starts, ihq h]
  | star p ih =>
    obtain ⟨rounds, hflat, hrounds⟩ := h
    cases rounds with
    | nil => cases hflat
    | cons v rounds =>
      obtain ⟨hne, hv⟩ := hrounds v List.mem_cons_self
      obtain ⟨d, v, rfl⟩ := List.exists_cons_of_ne_nil hne
      obtain ⟨rfl, -⟩ := List.cons.inj hflat
      exact ih hv
  | group p ih => exact ih h

lemma uses_of_starts {p : Pattern} {c : Char} (h : starts p c = true) : uses p c = true := by
  induction p with
  | empty => cases h
  | one accepts => exact h
  | seq p q ihp ihq =>
    rcases Bool.or_eq_true_iff.mp h with h | h
    · simp [uses, ihp h]
    · simp [uses, ihq (Bool.and_eq_true_iff.mp h).2]
  | alt p q ihp ihq =>
    rcases Bool.or_eq_true_iff.mp h with h | h
    · simp [uses, ihp h]
    · simp [uses, ihq h]
  | star p ih => exact ih h
  | group p ih => exact ih h

/-- A match consists of what each part of a sequence matches. -/
lemma exists_of_accepts_seqs {p : Pattern} {ps : List Pattern} {u : List Char} (hps : ps ≠ [])
    (h : Accepts (seqs (p :: ps)) u) : ∃ v w, u = v ++ w ∧ Accepts p v ∧ Accepts (seqs ps) w := by
  cases ps with
  | nil => exact absurd rfl hps
  | cons q ps => exact h

lemma exists_of_accepts_oneOf {set u : List Char} (h : Accepts (oneOf set) u) :
    ∃ c ∈ set, u = [c] := by
  obtain ⟨c, rfl, hc⟩ := h
  exact ⟨c, List.contains_iff_mem.mp hc, rfl⟩

/-- What a word matches are its letters in any case. -/
lemma forall₂_of_accepts_word {literal : String} {u : List Char} (h : Accepts (word literal) u) :
    List.Forall₂ (fun c d => foldsTo c d = true) literal.toList u := by
  unfold word at h
  generalize literal.toList = letters at h ⊢
  induction letters generalizing u with
  | nil =>
    obtain rfl : u = [] := h
    exact .nil
  | cons c letters ih =>
    cases letters with
    | nil =>
      obtain ⟨d, rfl, hd⟩ := h
      exact .cons hd .nil
    | cons c' letters =>
      obtain ⟨v, w, rfl, ⟨d, rfl, hd⟩, hw⟩ := h
      exact .cons hd (ih hw)

section Begins

variable {p : Pattern} {c : Char} {s t : List Char}

lemma Begins.mono (h : Begins p s) (hst : s <+: t) : Begins p t := by
  obtain ⟨u, hu, haccepts⟩ := h
  exact ⟨u, hu.trans hst, haccepts⟩

lemma not_begins_nil (hp : nullable p = false) : ¬ Begins p [] := by
  rintro ⟨u, hu, haccepts⟩
  exact ne_nil_of_accepts hp haccepts (List.prefix_nil.mp hu)

lemma not_begins_cons (hp : nullable p = false) (hc : starts p c = false) : ¬ Begins p (c :: s) := by
  rintro ⟨u, hu, haccepts⟩
  obtain ⟨d, u, rfl⟩ := List.exists_cons_of_ne_nil (ne_nil_of_accepts hp haccepts)
  have hstart := starts_of_accepts haccepts
  rw [(List.cons_prefix_cons.mp hu).1, hc] at hstart
  cases hstart

lemma begins_seqs_oneOf {set : List Char} {ps : List Pattern} (hps : ps ≠ []) :
    Begins (seqs (oneOf set :: ps)) (c :: s) ↔ c ∈ set ∧ Begins (seqs ps) s := by
  constructor
  · rintro ⟨u, hu, haccepts⟩
    obtain ⟨v, w, rfl, hv, hw⟩ := exists_of_accepts_seqs hps haccepts
    obtain ⟨d, hd, rfl⟩ := exists_of_accepts_oneOf hv
    obtain ⟨rfl, hfront⟩ := List.cons_prefix_cons.mp hu
    exact ⟨hd, w, hfront, hw⟩
  · rintro ⟨hc, w, hfront, hw⟩
    refine ⟨c :: w, List.cons_prefix_cons.mpr ⟨rfl, hfront⟩, ?_⟩
    exact accepts_seqs_cons (accepts_oneOf (List.contains_iff_mem.mpr hc)) hw hps

end Begins

section Search

variable {χ β : Type} [Glyph χ] {p q : Pattern}

lemma runStar_accepts
    {round : List χ → List χ → (List χ → List χ → Option β) → Option β}
    (hround : ∀ c s next b, round c s next = some b →
      ∃ u c' s', s = u ++ s' ∧ Accepts p (chars u) ∧ next c' s' = some b)
    {n : Nat} {c s : List χ} {next : List χ → List χ → Option β} {b : β}
    (h : runStar round n c s next = some b) :
    ∃ u c' s', s = u ++ s' ∧ Accepts (.star p) (chars u) ∧ next c' s' = some b := by
  induction n generalizing c s with
  | zero => exact ⟨[], c, s, rfl, accepts_star_nil, h⟩
  | succ n ih =>
    rcases orElse_eq_some h with h | h
    · obtain ⟨u, c₁, s₁, rfl, hu, h⟩ := hround _ _ _ _ h
      obtain ⟨v, c₂, s₂, rfl, ⟨rounds, hflat, hrounds⟩, h⟩ := ih h
      refine ⟨u ++ v, c₂, s₂, by simp, ?_, h⟩
      -- A round that consumes nothing is not counted.
      by_cases hempty : chars u = []
      · exact ⟨rounds, by simp [hempty, hflat], hrounds⟩
      · refine ⟨chars u :: rounds, by simp [hflat], fun w hw => ?_⟩
        rcases List.mem_cons.mp hw with rfl | hw
        · exact ⟨hempty, hu⟩
        · exact hrounds w hw
    · exact ⟨[], c, s, rfl, accepts_star_nil, h⟩

/-- What the matcher consumes is a match. -/
theorem run_accepts (p : Pattern) {c s : List χ} {next : List χ → List χ → Option β} {b : β}
    (h : run p c s next = some b) :
    ∃ u c' s', s = u ++ s' ∧ Accepts p (chars u) ∧ next c' s' = some b := by
  induction p generalizing c s next b with
  | empty => exact ⟨[], c, s, rfl, rfl, h⟩
  | one accepts =>
    cases s with
    | nil => cases h
    | cons g s =>
      simp only [run] at h
      split_ifs at h with hg
      exact ⟨[g], c, s, rfl, ⟨chr g, rfl, hg⟩, h⟩
  | seq p q ihp ihq =>
    obtain ⟨u, c₁, s₁, rfl, hu, h⟩ := ihp h
    obtain ⟨v, c₂, s₂, rfl, hv, h⟩ := ihq h
    exact ⟨u ++ v, c₂, s₂, by simp, ⟨chars u, chars v, by simp, hu, hv⟩, h⟩
  | alt p q ihp ihq =>
    rcases orElse_eq_some h with h | h
    · obtain ⟨u, c', s', hs, hu, h⟩ := ihp h
      exact ⟨u, c', s', hs, .inl hu, h⟩
    · obtain ⟨u, c', s', hs, hu, h⟩ := ihq h
      exact ⟨u, c', s', hs, .inr hu, h⟩
  | star p ih => exact runStar_accepts (fun c s next b h => ih h) h
  | group p ih =>
    obtain ⟨u, _, s', hs, hu, h⟩ := ih h
    exact ⟨u, _, s', hs, hu, h⟩

/-- The matcher decides whether a match stands at the beginning. -/
lemma isSome_matchPrefix_iff {s : List χ} :
    (matchPrefix p s).isSome = true ↔ Begins p (chars s) := by
  constructor
  · intro h
    obtain ⟨b, hb⟩ := Option.isSome_iff_exists.mp h
    obtain ⟨u, _, s', rfl, hu, -⟩ := run_accepts p hb
    exact ⟨chars u, by simp, hu⟩
  · rintro ⟨u, ⟨rest, hrest⟩, hu⟩
    obtain ⟨s₁, s₂, rfl, rfl, -⟩ := exists_append_of_chars hrest.symm
    exact matchPrefix_complete p hu

/-- Where nothing matches, nothing is replaced. -/
lemma replaceAll_eq_self {replacement : List χ → List χ} {s : List χ}
    (h : ∀ i, ¬ MatchesAt p (chars s) i) : replaceAll p replacement s = s := by
  have hfrom : ∀ n (s : List χ), (∀ i, ¬ MatchesAt p (chars s) i) →
      replaceFrom p replacement n s = s := by
    intro n
    induction n with
    | zero => exact fun s _ => by simp [replaceFrom]
    | succ n ih =>
      intro s hs
      cases s with
      | nil => rfl
      | cons g s =>
        have hnone : matchPrefix p (g :: s) = none := by
          rw [← Option.not_isSome_iff_eq_none, isSome_matchPrefix_iff]
          exact hs 0
        rw [replaceFrom, hnone]
        exact congrArg (g :: ·) (ih s fun i => hs (i + 1))
  exact hfrom _ s h

/-- Where a text is put together from one in which no match begins and another, the matches are
those of the other. -/
lemma matchesAt_append_iff {s t : List Char} (hq : nullable q = false)
    (hs : ∀ c ∈ s, starts q c = false) (i : Nat) :
    MatchesAt q (s ++ t) i ↔ s.length ≤ i ∧ MatchesAt q t (i - s.length) := by
  rcases Nat.lt_or_ge i s.length with hlt | hge
  · refine ⟨fun ⟨u, hfront, hu⟩ => ?_, fun h => absurd h.1 (by omega)⟩
    obtain ⟨c, u, rfl⟩ := List.exists_cons_of_ne_nil (ne_nil_of_accepts hq hu)
    rw [List.drop_append_of_le_length (Nat.le_of_lt hlt), List.drop_eq_getElem_cons hlt,
      List.cons_append, List.cons_prefix_cons] at hfront
    have hstart := starts_of_accepts hu
    rw [hs c (hfront.1 ▸ List.getElem_mem hlt)] at hstart
    cases hstart
  · simp only [hge, true_and]
    rw [MatchesAt, List.drop_append, List.drop_of_length_le hge, List.nil_append]
    rfl

/-- What `q` matches does not occur in the result of replacing what `p` matches, if `p` matches
wherever `q` does, and every replacement begins with a character that `q` does not use and brings
no beginning of a match along. -/
theorem not_matchesAt_replaceAll {replacement : List χ → List χ} (mark : Char)
    (hmark : uses q mark = false) (hp : nullable p = false) (hq : nullable q = false)
    (hrep : ∀ captured, ∃ r, chars (replacement captured) = mark :: r)
    (hhead : ∀ captured, (∀ g ∈ captured, captures p (chr g) = true) →
      ∀ c ∈ chars (replacement captured), starts q c = false)
    {s : List χ} (hfinds : ∀ i, MatchesAt q (chars s) i → MatchesAt p (chars s) i) (i : Nat) :
    ¬ MatchesAt q (chars (replaceAll p replacement s)) i := by
  have h : ∀ n (s : List χ), s.length ≤ n →
      (∀ i, MatchesAt q (chars s) i → MatchesAt p (chars s) i) →
      ∀ i, ¬ MatchesAt q (chars (replaceFrom p replacement n s)) i := by
    intro n
    induction n with
    | zero =>
      rintro s hs - i ⟨u, hfront, hu⟩
      obtain rfl : s = [] := List.length_eq_zero_iff.mp (by omega)
      exact ne_nil_of_accepts hq hu (by simpa [replaceFrom] using hfront)
    | succ n ih =>
      intro s hs hfinds i
      cases s with
      | nil =>
        rintro ⟨u, hfront, hu⟩
        exact ne_nil_of_accepts hq hu (by simpa [replaceFrom] using hfront)
      | cons g s =>
        simp only [List.length_cons] at hs
        cases hmatch : matchPrefix p (g :: s) with
        | some found =>
          -- A match: nothing begins in what is put in.
          obtain ⟨captured, rest⟩ := found
          obtain ⟨u, hu, hne, hcaptured⟩ := matchPrefix_sound hmatch
          have hlen := congrArg List.length hu
          have hpos := List.length_pos_iff.mpr (hne hp)
          simp only [List.length_append, List.length_cons] at hlen
          simp only [replaceFrom, hmatch, chars_append]
          rw [matchesAt_append_iff hq (hhead captured fun g hg => (hcaptured g hg).2)]
          refine fun hat => ih rest (by omega) (fun j hj => ?_) _ hat.2
          have hshift : ∀ q', MatchesAt q' (chars (g :: s)) (u.length + j) ↔
              MatchesAt q' (chars rest) j := by
            intro q'
            rw [hu, chars_append, MatchesAt, ← length_chars u, ← List.drop_drop, List.drop_left]
            rfl
          exact (hshift p).mp (hfinds _ ((hshift q).mpr hj))
        | none =>
          simp only [replaceFrom, hmatch]
          cases i with
          | zero =>
            -- No match: `q` does not match here either, since it does not reach a replacement.
            rintro ⟨u, hfront, hu⟩
            obtain ⟨c, u, rfl⟩ := List.exists_cons_of_ne_nil (ne_nil_of_accepts hq hu)
            rw [List.drop_zero, chars_cons, List.cons_prefix_cons] at hfront
            have hfree : mark ∉ u := fun hmem => by
              have hused := uses_of_accepts hu mark (List.mem_cons_of_mem c hmem)
              rw [hmark] at hused
              cases hused
            have hbefore := prefix_of_replaceFrom hrep hfree hfront.2
            have hfound := hfinds 0 ⟨c :: u, by simp [hfront.1, hbefore], hu⟩
            rw [MatchesAt, List.drop_zero, ← isSome_matchPrefix_iff, hmatch] at hfound
            cases hfound
          | succ i => exact ih s (by omega) (fun j => hfinds (j + 1)) i
  exact h _ s le_rfl hfinds i

end Search

end Pattern
