import RustyClaw.Library.JsonEnd

/-!
# How deep the end of a text is nested

`scan` goes through a text and only looks at quotes, backslashes and brackets.  What the parser
reads as a value comes back to the level at which it began and never goes below it
(`closed_of_parseValue`), so a text that ends below the level of its beginning is no JSON text
(`level_of_parse`).

Texts of objects that are put behind one another without a separator, some of them cut short, never
come back to the outermost level, provided that the first key of each object begins with a letter
(`parse_torn`).  A cut inside of a string is the case that needs the letter: the next object closes
the string with the quote of its first key, and the letter behind it cannot follow a string.
-/

namespace Json

open Glyph

variable {χ : Type} [Glyph χ]

/-! ## Scanning -/

/-- Where a text stands: inside of a string, right behind a backslash in it, right behind something
that says itself where it ends, or anywhere else. -/
inductive Place where
  | inside | escaped | behind | outside
  deriving DecidableEq, Repr

structure Spot where
  place : Place
  level : ℕ
  deriving DecidableEq, Repr

def isEscape (c : Char) : Bool := ['"', '\\', '/', 'b', 'f', 'n', 'r', 't', 'u'].contains c

def opens (c : Char) : Bool := c = '\x7b' || c = '['

def closes (c : Char) : Bool := c = '\x7d' || c = ']'

def separates (c : Char) : Bool := c = ',' || c = ':'

/-- A bracket that closes the innermost open one. -/
def Spot.leave (spot : Spot) : Option Spot :=
  match spot.level with
  | 0 => none
  | level + 1 => some ⟨.behind, level⟩

def Spot.next (spot : Spot) (c : Char) : Option Spot :=
  match spot.place with
  | .inside =>
    if c = '"' then some ⟨.behind, spot.level⟩
    else if c = '\\' then some ⟨.escaped, spot.level⟩
    else some spot
  | .escaped => if isEscape c then some ⟨.inside, spot.level⟩ else none
  | .behind =>
    if closes c then spot.leave
    else if separates c then some ⟨.outside, spot.level⟩
    else if isSpace c then some spot
    else none
  | .outside =>
    if c = '"' then some ⟨.inside, spot.level⟩
    else if opens c then some ⟨.outside, spot.level + 1⟩
    else if closes c then spot.leave
    else some spot

def scan (spot : Spot) : List χ → Option Spot
  | [] => some spot
  | g :: text => (spot.next (chr g)).bind fun spot => scan spot text

lemma scan_append (spot : Spot) (text more : List χ) :
    scan spot (text ++ more) = (scan spot text).bind fun spot => scan spot more := by
  induction text generalizing spot with
  | nil => rfl
  | cons g text ih =>
    simp only [List.cons_append, scan]
    rcases spot.next (chr g) with _ | spot'
    · rfl
    · exact ih spot'

/-! ## Texts that come back -/

/-- The text leads from one spot to another and does not go below a level on the way. -/
structure Leads (bottom : ℕ) (start : Spot) (text : List χ) (stop : Spot) : Prop where
  scanned : scan start text = some stop
  above : ∀ front, front <+: text → ∀ spot, scan start front = some spot → bottom ≤ spot.level

variable {bottom level : ℕ} {start middle stop : Spot} {text more : List χ}

lemma Leads.nil (h : bottom ≤ start.level) : Leads bottom start ([] : List χ) start where
  scanned := rfl
  above front hfront spot hspot := by
    rw [List.prefix_nil.mp hfront] at hspot
    rw [← Option.some_inj.mp hspot]
    exact h

lemma Leads.append (h : Leads bottom start text middle) (hmore : Leads bottom middle more stop) :
    Leads bottom start (text ++ more) stop where
  scanned := by rw [scan_append, h.scanned, Option.bind_some, hmore.scanned]
  above front hfront spot hspot := by
    rcases List.prefix_or_prefix_of_prefix hfront (List.prefix_append text more) with
      hshort | ⟨rest, rfl⟩
    · exact h.above front hshort spot hspot
    · rw [scan_append, h.scanned, Option.bind_some] at hspot
      exact hmore.above rest ((List.prefix_append_right_inj text).mp hfront) spot hspot

lemma Leads.cons {g : χ} (hstart : bottom ≤ start.level) (hnext : start.next (chr g) = some middle)
    (h : Leads bottom middle text stop) : Leads bottom start (g :: text) stop where
  scanned := by rw [scan, hnext, Option.bind_some, h.scanned]
  above front hfront spot hspot := by
    rcases List.prefix_cons_iff.mp hfront with rfl | ⟨rest, rfl, hrest⟩
    · rw [← Option.some_inj.mp hspot]
      exact hstart
    · rw [scan, hnext, Option.bind_some] at hspot
      exact h.above rest hrest spot hspot

/-- Characters that change nothing. -/
lemma Leads.of_still (hstart : bottom ≤ start.level)
    (h : ∀ g ∈ text, start.next (chr g) = some start) : Leads bottom start text start := by
  induction text with
  | nil => exact .nil hstart
  | cons g text ih =>
    exact .cons hstart (h g List.mem_cons_self) (ih fun g' hg' => h g' (List.mem_cons_of_mem g hg'))

lemma Leads.mono {bottom' : ℕ} (h : Leads bottom start text stop) (hle : bottom' ≤ bottom) :
    Leads bottom' start text stop :=
  ⟨h.scanned, fun front hfront spot hspot => hle.trans (h.above front hfront spot hspot)⟩

/-- A place at which a value may end. -/
def Place.Free (place : Place) : Prop := place = .outside ∨ place = .behind

/-- A text that comes back to the level at which it begins. -/
def Closed (text : List χ) : Prop :=
  ∃ place : Place, place.Free ∧ ∀ level, Leads level ⟨.outside, level⟩ text ⟨place, level⟩

lemma next_space {place : Place} (hfree : place.Free) {c : Char} (h : isSpace c = true) :
    (Spot.mk place level).next c = some ⟨place, level⟩ := by
  simp only [isSpace, Bool.or_eq_true, decide_eq_true_eq] at h
  rcases hfree with rfl | rfl <;> rcases h with ((rfl | rfl) | rfl) | rfl <;> rfl

/-- White space behind a value. -/
lemma Closed.space (h : Closed text) (hspace : ∀ g ∈ more, isSpace (chr g) = true) :
    Closed (text ++ more) := by
  obtain ⟨place, hfree, hleads⟩ := h
  exact ⟨place, hfree, fun level => (hleads level).append
    (.of_still le_rfl fun g hg => next_space hfree (hspace g hg))⟩

/-- White space in front of a value. -/
lemma Closed.of_space (hspace : ∀ g ∈ text, isSpace (chr g) = true) (h : Closed more) :
    Closed (text ++ more) := by
  obtain ⟨place, hfree, hleads⟩ := h
  have hstill : ∀ level, Leads level ⟨.outside, level⟩ text ⟨.outside, level⟩ := fun level =>
    .of_still le_rfl fun g hg => next_space (.inl rfl) (hspace g hg)
  exact ⟨place, hfree, fun level => (hstill level).append (hleads level)⟩

lemma next_separates {place : Place} (hfree : place.Free) {c : Char} (h : separates c = true) :
    (Spot.mk place level).next c = some ⟨.outside, level⟩ := by
  simp only [separates, Bool.or_eq_true, decide_eq_true_eq] at h
  rcases hfree with rfl | rfl <;> rcases h with rfl | rfl <;> rfl

/-- Two values with a comma or a colon between them. -/
lemma Closed.separated (h : Closed text) {g : χ} (hg : separates (chr g) = true)
    (hmore : Closed more) : Closed (text ++ g :: more) := by
  obtain ⟨place, hfree, hleads⟩ := h
  obtain ⟨place', hfree', hleads'⟩ := hmore
  exact ⟨place', hfree', fun level => (hleads level).append
    (.cons le_rfl (next_separates hfree hg) (hleads' level))⟩

lemma next_closes {place : Place} (hfree : place.Free) {c : Char} (h : closes c = true) :
    (Spot.mk place (level + 1)).next c = some ⟨.behind, level⟩ := by
  simp only [closes, Bool.or_eq_true, decide_eq_true_eq] at h
  rcases hfree with rfl | rfl <;> rcases h with rfl | rfl <;> rfl

lemma next_opens {c : Char} (h : opens c = true) :
    (Spot.mk .outside level).next c = some ⟨.outside, level + 1⟩ := by
  simp only [opens, Bool.or_eq_true, decide_eq_true_eq] at h
  rcases h with rfl | rfl <;> rfl

lemma Closed.brackets (h : Closed text) {g g' : χ} (hg : opens (chr g) = true)
    (hg' : closes (chr g') = true) : Closed (g :: text ++ [g']) := by
  obtain ⟨place, hfree, hleads⟩ := h
  refine ⟨.behind, .inr rfl, fun level => ?_⟩
  have hinner := (hleads (level + 1)).mono (Nat.le_succ level)
  have hclose : Leads level (Spot.mk place (level + 1)) [g'] ⟨.behind, level⟩ :=
    .cons (Nat.le_succ level) (next_closes hfree hg') (.nil le_rfl)
  rw [List.cons_append]
  exact .cons le_rfl (next_opens hg) (hinner.append hclose)

lemma closed_nil : Closed ([] : List χ) := ⟨.outside, .inl rfl, fun _ => .nil le_rfl⟩

/-- Characters with no meaning of their own. -/
def isPlain (c : Char) : Bool := c ≠ '"' && !opens c && !closes c

lemma closed_plain (h : ∀ g ∈ text, isPlain (chr g) = true) : Closed text := by
  refine ⟨.outside, .inl rfl, fun level => .of_still le_rfl fun g hg => ?_⟩
  have hplain := h g hg
  simp only [isPlain, Bool.and_eq_true, decide_eq_true_eq, Bool.not_eq_true'] at hplain
  obtain ⟨⟨hquote, hopens⟩, hcloses⟩ := hplain
  show (if chr g = '"' then _ else if opens (chr g) then _ else if closes (chr g) then _ else _) = _
  rw [if_neg hquote, hopens, hcloses]
  rfl

/-! ## What the parser reads -/

variable {s rest : List χ}

/-- The text goes from one place to another on a level. -/
def Passes (place : Place) (text : List χ) (place' : Place) : Prop :=
  ∀ level, Leads level ⟨place, level⟩ text ⟨place', level⟩

lemma Passes.append {place place' place'' : Place} (h : Passes place text place')
    (hmore : Passes place' more place'') : Passes place (text ++ more) place'' :=
  fun level => (h level).append (hmore level)

lemma Passes.cons {place place' place'' : Place} {g : χ}
    (hnext : ∀ level, (Spot.mk place level).next (chr g) = some ⟨place', level⟩)
    (h : Passes place' text place'') : Passes place (g :: text) place'' :=
  fun level => .cons le_rfl (hnext level) (h level)

lemma Passes.nil (place : Place) : Passes place ([] : List χ) place := fun _ => .nil le_rfl

lemma next_inside {c : Char} (hquote : c ≠ '"') (hslash : c ≠ '\\') (level : ℕ) :
    (Spot.mk .inside level).next c = some ⟨.inside, level⟩ := by
  show (if c = '"' then _ else if c = '\\' then _ else _) = _
  rw [if_neg hquote, if_neg hslash]

lemma next_hex {c : Char} {n : ℕ} (h : hexValue c = some n) (level : ℕ) :
    (Spot.mk .inside level).next c = some ⟨.inside, level⟩ := by
  have hquote : hexValue '"' = none := by decide
  have hslash : hexValue '\\' = none := by decide
  refine next_inside ?_ ?_ level
  · rintro rfl
    rw [hquote] at h
    cases h
  · rintro rfl
    rw [hslash] at h
    cases h

lemma passes_of_takeHex4 {n : Nat} {g : χ} (h : takeHex4 s = some (n, g, rest)) :
    ∃ front, s = front ++ rest ∧ Passes .inside front .inside := by
  match s with
  | a :: b :: c :: d :: s =>
    simp only [takeHex4, Option.bind_eq_bind, Option.bind_eq_some_iff] at h
    obtain ⟨_, ha, _, hb, _, hc, _, hd, heq⟩ := h
    cases heq
    exact ⟨[a, b, c, _], rfl, .cons (next_hex ha) (.cons (next_hex hb) (.cons (next_hex hc)
      (.cons (next_hex hd) (.nil _))))⟩

lemma passes_of_takeUnicode {g : χ} (h : takeUnicode s = some (g, rest)) :
    ∃ front, s = front ++ rest ∧ Passes .inside front .inside := by
  simp only [takeUnicode, Option.bind_eq_bind, Option.bind_eq_some_iff] at h
  obtain ⟨⟨high, g₀, s₀⟩, hhigh, h⟩ := h
  obtain ⟨front, rfl, hfront⟩ := passes_of_takeHex4 hhigh
  dsimp only at h
  split_ifs at h
  · obtain _ | ⟨b, _ | ⟨u, s₁⟩⟩ := s₀
    · cases h
    · cases h
    · dsimp only at h
      split_ifs at h with hpair
      obtain ⟨⟨low, g₁, s₂⟩, hlow, h⟩ := Option.bind_eq_some_iff.mp h
      obtain ⟨front', hs₁, hfront'⟩ := passes_of_takeHex4 hlow
      dsimp only at h
      split_ifs at h
      cases h
      have hslash : ∀ level, (Spot.mk .inside level).next (chr b) = some ⟨.escaped, level⟩ := by
        rw [hpair.1]
        exact fun level => rfl
      have hletter : ∀ level, (Spot.mk .escaped level).next (chr u) = some ⟨.inside, level⟩ := by
        rw [hpair.2]
        exact fun level => rfl
      exact ⟨front ++ b :: u :: front', by simp [hs₁],
        hfront.append (.cons hslash (.cons hletter hfront'))⟩
  · cases h
    exact ⟨front, rfl, hfront⟩

lemma passes_of_takeEscape {g : χ} (h : takeEscape s = some (g, rest)) :
    ∃ front, s = front ++ rest ∧ Passes .escaped front .inside := by
  cases s with
  | nil => cases h
  | cons g₀ s =>
    have hnext : isEscape (chr g₀) = true → ∀ level,
        (Spot.mk .escaped level).next (chr g₀) = some ⟨.inside, level⟩ := by
      intro hescape level
      show (if isEscape (chr g₀) = true then _ else _) = _
      rw [if_pos hescape]
    simp only [takeEscape] at h
    split at h
    case h_9 hchr =>
      obtain ⟨front, rfl, hfront⟩ := passes_of_takeUnicode h
      exact ⟨g₀ :: front, rfl, .cons (hnext (by rw [hchr]; decide)) hfront⟩
    case h_10 => cases h
    all_goals
      rename_i hchr
      cases h
      exact ⟨[g₀], rfl, .cons (hnext (by rw [hchr]; decide)) (.nil _)⟩

/-- A string behind its opening quote. -/
lemma passes_of_takeString {fuel : Nat} {read : List χ}
    (h : takeString fuel s = some (read, rest)) :
    ∃ front, s = front ++ rest ∧ Passes .inside front .behind := by
  induction fuel generalizing s read with
  | zero => cases h
  | succ fuel ih =>
    cases s with
    | nil => cases h
    | cons g s =>
      simp only [takeString] at h
      split_ifs at h with hquote hslash hcontrol
      · cases h
        refine ⟨[g], rfl, .cons (fun level => ?_) (.nil _)⟩
        rw [hquote]
        rfl
      · split at h
        · rename_i g' s' hescape
          obtain ⟨⟨read', rest'⟩, hread, heq⟩ := Option.map_eq_some_iff.mp h
          cases heq
          obtain ⟨front, rfl, hfront⟩ := passes_of_takeEscape hescape
          obtain ⟨front', rfl, hfront'⟩ := ih hread
          refine ⟨g :: (front ++ front'), by simp, .cons (fun level => ?_) (hfront.append hfront')⟩
          rw [hslash]
          rfl
        · cases h
      · obtain ⟨⟨read', rest'⟩, hread, heq⟩ := Option.map_eq_some_iff.mp h
        cases heq
        obtain ⟨front, rfl, hfront⟩ := ih hread
        exact ⟨g :: front, rfl, .cons (next_inside hquote hslash) hfront⟩

lemma closed_of_takeString {fuel : Nat} {read : List χ} {g : χ} (hg : chr g = '"')
    (h : takeString fuel s = some (read, rest)) :
    ∃ front, s = front ++ rest ∧ Closed (g :: front) := by
  obtain ⟨front, rfl, hfront⟩ := passes_of_takeString h
  have hquote : ∀ level, (Spot.mk .outside level).next (chr g) = some ⟨.inside, level⟩ := by
    rw [hg]
    exact fun level => rfl
  exact ⟨front, rfl, .behind, .inr rfl, Passes.cons hquote hfront⟩

lemma isPlain_of_next {st st' : NumState} {c : Char} (h : st.next c = some st') :
    isPlain c = true := by
  by_contra hplain
  have hnumber : isNumberChar c = false := by
    simp only [isPlain, opens, closes, Bool.and_eq_true, decide_eq_true_eq, Bool.not_eq_true',
      Bool.or_eq_false_iff, decide_eq_false_iff_not, not_and_or, not_not] at hplain
    rcases hplain with (rfl | rfl | rfl) | rfl | rfl <;> decide
  rw [NumState.next_eq_none hnumber] at h
  cases h

lemma plain_of_takeNumber {st : NumState} {lexeme : List χ}
    (h : takeNumber st s = some (lexeme, rest)) :
    s = lexeme ++ rest ∧ ∀ g ∈ lexeme, isPlain (chr g) = true := by
  induction s generalizing st lexeme with
  | nil =>
    simp only [takeNumber] at h
    split_ifs at h
    cases h
    exact ⟨rfl, by simp⟩
  | cons g s ih =>
    simp only [takeNumber] at h
    split at h
    · rename_i st' hnext
      obtain ⟨⟨lexeme', rest'⟩, hread, heq⟩ := Option.map_eq_some_iff.mp h
      cases heq
      obtain ⟨rfl, hplain⟩ := ih hread
      refine ⟨rfl, fun g' hg' => ?_⟩
      rcases List.mem_cons.mp hg' with rfl | hg'
      · exact isPlain_of_next hnext
      · exact hplain g' hg'
    · split_ifs at h
      cases h
      exact ⟨rfl, by simp⟩

lemma plain_of_takeLiteral {literal : String} (hplain : literal.toList.all isPlain = true)
    (h : takeLiteral literal s = some rest) :
    ∃ front, s = front ++ rest ∧ ∀ g ∈ front, isPlain (chr g) = true := by
  unfold takeLiteral at h
  split_ifs at h with htake
  cases h
  refine ⟨s.take literal.toList.length, (List.take_append_drop _ s).symm, fun g hg => ?_⟩
  exact List.all_eq_true.mp hplain _ (htake ▸ List.mem_map_of_mem hg)

/-! ### Values -/

/-- What the reader takes comes back. -/
def ReadsClosed (value : Parser χ) : Prop :=
  ∀ s j rest, value s = some (j, rest) → ∃ front, s = front ++ rest ∧ Closed front

/-- The text up to a bracket comes back. -/
def ClosedTo (bracket : Char) (s rest : List χ) : Prop :=
  ∃ front g, s = front ++ g :: rest ∧ chr g = bracket ∧ Closed front

variable {value : Parser χ} {bracket : Char}

lemma exists_space (s : List χ) :
    ∃ space, s = space ++ skipSpace s ∧ ∀ g ∈ space, isSpace (chr g) = true := by
  refine ⟨_, List.takeWhile_append_dropWhile.symm, fun g hg => ?_⟩
  have hspace := List.mem_takeWhile_imp hg
  exact hspace

lemma ReadsClosed.takeItems (hvalue : ReadsClosed value) {fuel : Nat} {items : List (Json χ)}
    (h : takeItems value fuel s = some (items, rest)) : ClosedTo ']' s rest := by
  induction fuel generalizing s items with
  | zero => cases h
  | succ fuel ih =>
    simp only [Json.takeItems, Option.bind_eq_bind, Option.bind_eq_some_iff] at h
    obtain ⟨⟨item, s₁⟩, hitem, h⟩ := h
    obtain ⟨front, rfl, hfront⟩ := hvalue _ _ _ hitem
    dsimp only at h
    obtain ⟨space, hs₁, hspace⟩ := exists_space s₁
    split at h
    · cases h
    rename_i g s₂ hskip
    rw [hskip] at hs₁
    have hspaced := hfront.space hspace
    split_ifs at h with hcomma hbracket
    · obtain ⟨⟨items', rest'⟩, hread, heq⟩ := Option.map_eq_some_iff.mp h
      cases heq
      obtain ⟨front', g', rfl, hg', hfront'⟩ := ih hread
      refine ⟨front ++ space ++ g :: front', g', by simp [hs₁], hg', ?_⟩
      exact hspaced.separated (by rw [hcomma]; decide) hfront'
    · cases h
      exact ⟨front ++ space, g, by simp [hs₁], hbracket, hspaced⟩

lemma ReadsClosed.takeFields (hvalue : ReadsClosed value) {fuel : Nat} {fields : Fields χ}
    (h : takeFields value fuel s = some (fields, rest)) : ClosedTo '\x7d' s rest := by
  induction fuel generalizing s fields with
  | zero => cases h
  | succ fuel ih =>
    simp only [Json.takeFields] at h
    obtain ⟨space₁, hs, hspace₁⟩ := exists_space s
    split at h
    · cases h
    rename_i q s₁ hskip₁
    rw [hskip₁] at hs
    split_ifs at h with hquote
    obtain ⟨⟨key, s₂⟩, hkey, h⟩ := Option.bind_eq_some_iff.mp h
    obtain ⟨key', hs₁, hkey'⟩ := closed_of_takeString hquote hkey
    dsimp only at h
    obtain ⟨space₂, hs₂, hspace₂⟩ := exists_space s₂
    split at h
    · cases h
    rename_i colon s₃ hskip₂
    rw [hskip₂] at hs₂
    split_ifs at h with hcolon
    obtain ⟨⟨item, s₄⟩, hitem, h⟩ := Option.bind_eq_some_iff.mp h
    obtain ⟨front, hs₃, hfront⟩ := hvalue _ _ _ hitem
    dsimp only at h
    obtain ⟨space₄, hs₄, hspace₄⟩ := exists_space s₄
    split at h
    · cases h
    rename_i g s₅ hskip₄
    rw [hskip₄] at hs₄
    -- blanks, the key, blanks, a colon, the value, blanks
    have hfield : Closed (space₁ ++ ((q :: key' ++ space₂) ++ colon :: (front ++ space₄))) :=
      .of_space hspace₁ ((hkey'.space hspace₂).separated (by rw [hcolon]; decide)
        (hfront.space hspace₄))
    split_ifs at h with hcomma hbrace
    · obtain ⟨⟨fields', rest'⟩, hread, heq⟩ := Option.map_eq_some_iff.mp h
      cases heq
      obtain ⟨front', g', rfl, hg', hfront'⟩ := ih hread
      refine ⟨_, g', ?_, hg', hfield.separated (g := g) (by rw [hcomma]; decide) hfront'⟩
      rw [hs, hs₁, hs₂, hs₃, hs₄]
      simp
    · cases h
      refine ⟨_, g, ?_, hbrace, hfield⟩
      rw [hs, hs₁, hs₂, hs₃, hs₄]
      simp

lemma ReadsClosed.takeArray (hvalue : ReadsClosed value) {j : Json χ}
    (h : takeArray value s = some (j, rest)) : ClosedTo ']' s rest := by
  unfold Json.takeArray at h
  obtain ⟨space, hs, hspace⟩ := exists_space s
  split at h
  · cases h
  rename_i g s₁ hskip
  rw [hskip] at hs
  split_ifs at h with hbracket
  · cases h
    refine ⟨space, g, hs, hbracket, ?_⟩
    simpa using Closed.of_space hspace closed_nil
  · obtain ⟨⟨items, rest'⟩, hread, heq⟩ := Option.map_eq_some_iff.mp h
    cases heq
    exact hvalue.takeItems hread

lemma ReadsClosed.takeObject (hvalue : ReadsClosed value) {j : Json χ}
    (h : takeObject value s = some (j, rest)) : ClosedTo '\x7d' s rest := by
  unfold Json.takeObject at h
  obtain ⟨space, hs, hspace⟩ := exists_space s
  split at h
  · cases h
  rename_i g s₁ hskip
  rw [hskip] at hs
  split_ifs at h with hbrace
  · cases h
    refine ⟨space, g, hs, hbrace, ?_⟩
    simpa using Closed.of_space hspace closed_nil
  · obtain ⟨⟨fields, rest'⟩, hread, heq⟩ := Option.map_eq_some_iff.mp h
    cases heq
    exact hvalue.takeFields hread

lemma ClosedTo.closed (h : ClosedTo bracket s rest) (hbracket : closes bracket = true) {g : χ}
    (hg : opens (chr g) = true) : ∃ front, g :: s = front ++ rest ∧ Closed front := by
  obtain ⟨front, g', rfl, hg', hfront⟩ := h
  exact ⟨g :: front ++ [g'], by simp, hfront.brackets hg (hg' ▸ hbracket)⟩

/-- One value, when `nested` takes what comes back. -/
lemma readsClosed_takeValue {nested : Option (Parser χ)}
    (hnested : ∀ value ∈ nested, ReadsClosed value) : ReadsClosed (takeValue nested) := by
  intro s j rest h
  unfold takeValue at h
  obtain ⟨space, hs, hspace⟩ := exists_space s
  split at h
  · cases h
  rename_i g s₁ hskip
  rw [hskip] at hs
  suffices hfront : ∃ front, g :: s₁ = front ++ rest ∧ Closed front by
    obtain ⟨front, heq, hfront⟩ := hfront
    exact ⟨space ++ front, by rw [hs, heq, List.append_assoc], .of_space hspace hfront⟩
  split at h
  case h_1 hg | h_2 hg | h_3 hg =>
    obtain ⟨s₂, hliteral, heq⟩ := Option.map_eq_some_iff.mp h
    cases heq
    obtain ⟨front, rfl, hplain⟩ := plain_of_takeLiteral (by decide) hliteral
    refine ⟨g :: front, rfl, closed_plain fun g' hg' => ?_⟩
    rcases List.mem_cons.mp hg' with rfl | hg'
    · rw [hg]
      decide
    · exact hplain g' hg'
  case h_4 hg =>
    obtain ⟨⟨text, rest'⟩, hread, heq⟩ := Option.map_eq_some_iff.mp h
    cases heq
    obtain ⟨front, rfl, hfront⟩ := closed_of_takeString hg hread
    exact ⟨g :: front, rfl, hfront⟩
  case h_5 hg =>
    obtain ⟨value, hmem, hread⟩ := Option.bind_eq_some_iff.mp h
    exact ((hnested value hmem).takeArray hread).closed (by decide) (by rw [hg]; decide)
  case h_6 hg =>
    obtain ⟨value, hmem, hread⟩ := Option.bind_eq_some_iff.mp h
    exact ((hnested value hmem).takeObject hread).closed (by decide) (by rw [hg]; decide)
  case h_7 =>
    unfold takeNumLit at h
    split at h
    · cases h
    rename_i lexeme rest' hnumber
    cases h
    obtain ⟨heq, hplain⟩ := plain_of_takeNumber hnumber
    exact ⟨lexeme, heq, closed_plain hplain⟩

lemma readsClosed_parseValue (n : Nat) : ReadsClosed (parseValue (χ := χ) n) := by
  induction n with
  | zero => exact readsClosed_takeValue (by simp)
  | succ n ih => exact readsClosed_takeValue (by simpa using ih)

/-- **A JSON text ends at the level at which it begins.** -/
theorem level_of_parse {j : Json χ} (h : parse s = some j) :
    ∃ place, scan ⟨.outside, 0⟩ s = some ⟨place, 0⟩ := by
  unfold parse at h
  split at h
  · rename_i j' rest hread
    split_ifs at h with hblank
    obtain ⟨front, rfl, hfront⟩ := readsClosed_parseValue _ _ _ _ hread
    rw [skipSpace, List.dropWhile_eq_nil_iff] at hblank
    obtain ⟨place, -, hleads⟩ := hfront.space hblank
    exact ⟨place, (hleads 0).scanned⟩
  · cases h

/-! ## Objects behind one another -/

/-- The text of an object whose first key begins with a letter. -/
structure Framed (text : List χ) : Prop where
  headed : ∃ q c more, text = lit '\x7b' :: q :: c :: more ∧ chr q = '"' ∧ (chr c).isAlpha = true
  object : ∃ inner, text = lit '\x7b' :: inner ++ [lit '\x7d'] ∧ Closed inner

/-- A piece is the beginning of the text of an object, possibly all of it. -/
def Piece (piece : List χ) : Prop := piece ≠ [] ∧ ∃ text, Framed text ∧ piece <+: text

lemma Framed.leads (h : Framed text) (level : ℕ) :
    Leads level ⟨.outside, level⟩ text ⟨.behind, level⟩ ∧
      ∀ front, front <+: text → front ≠ [] → front ≠ text → ∀ spot,
        scan ⟨.outside, level⟩ front = some spot → level < spot.level := by
  obtain ⟨inner, rfl, place, hfree, hinner⟩ := h.object
  have hopen : (Spot.mk .outside level).next (chr (lit '\x7b' : χ)) =
      some ⟨.outside, level + 1⟩ := next_opens (by rw [chr_lit]; decide)
  have hclose : (Spot.mk place (level + 1)).next (chr (lit '\x7d' : χ)) =
      some ⟨.behind, level⟩ := next_closes hfree (by rw [chr_lit]; decide)
  have hbody := hinner (level + 1)
  refine ⟨.cons le_rfl hopen (.append (hbody.mono (Nat.le_succ level))
    (.cons (Nat.le_succ level) hclose (.nil le_rfl))), ?_⟩
  intro front hfront hne hproper spot hspot
  rw [List.cons_append] at hfront
  rcases List.prefix_cons_iff.mp hfront with rfl | ⟨front', rfl, hfront'⟩
  · exact absurd rfl hne
  · rw [scan, hopen, Option.bind_some] at hspot
    rcases List.prefix_concat_iff.mp hfront' with rfl | hshort
    · exact absurd (List.cons_append).symm hproper
    · exact hbody.above front' hshort spot hspot

lemma next_behind_letter {c : Char} (h : c.isAlpha = true) :
    (Spot.mk .behind level).next c = none := by
  have hne : ∀ d : Char, d.isAlpha = false → c ≠ d := by
    rintro d hd rfl
    rw [hd] at h
    cases h
  simp [Spot.next, closes, separates, isSpace, hne '\x7d' (by decide), hne ']' (by decide),
    hne ',' (by decide), hne ':' (by decide), hne ' ' (by decide), hne '\n' (by decide),
    hne '\t' (by decide), hne '\r' (by decide)]

/-- The beginning of an object in a string: the string is closed by the quote of the first key, and
no letter may follow. -/
lemma level_of_scan_inside {q c : χ} {more piece : List χ} (hq : chr q = '"')
    (hc : (chr c).isAlpha = true) (hpiece : piece <+: lit '\x7b' :: q :: c :: more) {spot : Spot}
    (hscan : scan ⟨.inside, level⟩ piece = some spot) : spot.level = level := by
  have hbrace : (Spot.mk .inside level).next (chr (lit '\x7b' : χ)) = some ⟨.inside, level⟩ := by
    rw [chr_lit]
    rfl
  have hquote : (Spot.mk .inside level).next (chr q) = some ⟨.behind, level⟩ := by
    rw [hq]
    rfl
  rcases List.prefix_cons_iff.mp hpiece with rfl | ⟨piece₁, rfl, hpiece₁⟩
  · exact congrArg Spot.level (Option.some_inj.mp hscan).symm
  rw [scan, hbrace, Option.bind_some] at hscan
  rcases List.prefix_cons_iff.mp hpiece₁ with rfl | ⟨piece₂, rfl, hpiece₂⟩
  · exact congrArg Spot.level (Option.some_inj.mp hscan).symm
  rw [scan, hquote, Option.bind_some] at hscan
  rcases List.prefix_cons_iff.mp hpiece₂ with rfl | ⟨piece₃, rfl, -⟩
  · exact congrArg Spot.level (Option.some_inj.mp hscan).symm
  · rw [scan, next_behind_letter hc] at hscan
    cases hscan

lemma Piece.exists_cons {piece : List χ} (h : Piece piece) :
    ∃ rest, piece = lit '\x7b' :: rest := by
  obtain ⟨hne, text, htext, hpiece⟩ := h
  obtain ⟨q, c, more, rfl, -, -⟩ := htext.headed
  rcases List.prefix_cons_iff.mp hpiece with rfl | ⟨rest, rfl, -⟩
  · exact absurd rfl hne
  · exact ⟨rest, rfl⟩

/-- The beginning of an object behind something that has not come back to the outermost level, or
that has ended. -/
lemma Piece.level_pos {piece : List χ} (h : Piece piece) {spot spot' : Spot}
    (hspot : spot.place = .behind ∨ 1 ≤ spot.level) (hscan : scan spot piece = some spot') :
    1 ≤ spot'.level := by
  obtain ⟨rest, rfl⟩ := h.exists_cons
  obtain ⟨-, text, htext, hpiece⟩ := h
  obtain ⟨place, level⟩ := spot
  cases place with
  | behind =>
    rw [scan, chr_lit] at hscan
    cases hscan
  | escaped =>
    rw [scan, chr_lit] at hscan
    cases hscan
  | outside =>
    have hlevel : 1 ≤ level := hspot.resolve_left nofun
    exact hlevel.trans ((htext.leads level).1.above _ hpiece _ hscan)
  | inside =>
    have hlevel : 1 ≤ level := hspot.resolve_left nofun
    obtain ⟨q, c, more, rfl, hq, hc⟩ := htext.headed
    exact hlevel.trans (level_of_scan_inside hq hc hpiece hscan).ge

/-- What is put behind something that has not come back does not bring it back. -/
lemma level_pos_of_pieces {pieces : List (List χ)} (h : ∀ piece ∈ pieces, Piece piece)
    {spot spot' : Spot} (hspot : 1 ≤ spot.level) (hscan : scan spot pieces.flatten = some spot') :
    1 ≤ spot'.level := by
  induction pieces generalizing spot with
  | nil => exact Option.some_inj.mp hscan ▸ hspot
  | cons piece pieces ih =>
    rw [List.flatten_cons, scan_append] at hscan
    obtain ⟨middle, hpiece, hrest⟩ := Option.bind_eq_some_iff.mp hscan
    have hmiddle := (h piece List.mem_cons_self).level_pos (.inr hspot) hpiece
    exact ih (fun piece hmem => h piece (List.mem_cons_of_mem _ hmem)) hmiddle hrest

/-- **Objects behind one another, whole or cut, are no JSON text unless there is only one and it is
whole.** -/
theorem parse_torn {pieces : List (List χ)} (h : ∀ piece ∈ pieces, Piece piece)
    (hne : pieces ≠ []) (hone : ∀ text, Framed text → pieces ≠ [text]) :
    parse pieces.flatten = none := by
  by_contra hparse
  obtain ⟨j, hj⟩ := Option.ne_none_iff_exists'.mp hparse
  obtain ⟨place, hscan⟩ := level_of_parse hj
  obtain ⟨piece, pieces, rfl⟩ := List.exists_cons_of_ne_nil hne
  obtain ⟨hpiece, text, htext, hfront⟩ := h piece List.mem_cons_self
  have hrest : ∀ piece ∈ pieces, Piece piece := fun piece hmem =>
    h piece (List.mem_cons_of_mem _ hmem)
  obtain ⟨hwhole, hcut⟩ := htext.leads 0
  suffices hpos : 1 ≤ (Spot.mk place 0).level from absurd hpos (by simp)
  rw [List.flatten_cons, scan_append] at hscan
  obtain ⟨middle, hmiddle, hscan⟩ := Option.bind_eq_some_iff.mp hscan
  by_cases heq : piece = text
  · subst heq
    obtain rfl := Option.some_inj.mp (hwhole.scanned.symm.trans hmiddle)
    cases pieces with
    | nil => exact absurd rfl (hone piece htext)
    | cons second pieces =>
      rw [List.flatten_cons, scan_append] at hscan
      obtain ⟨middle', hmiddle', hscan⟩ := Option.bind_eq_some_iff.mp hscan
      have hpos := (hrest second List.mem_cons_self).level_pos (.inl rfl) hmiddle'
      exact level_pos_of_pieces (fun piece hmem => hrest piece (List.mem_cons_of_mem _ hmem)) hpos
        hscan
  · exact level_pos_of_pieces hrest (hcut piece hfront hpiece heq middle hmiddle) hscan

/-- The text of an object is not the beginning of another one's. -/
lemma Framed.eq_of_isPrefix {text text' : List χ} (h : Framed text) (h' : Framed text')
    (hfront : text <+: text') : text = text' := by
  by_contra hne
  have hnil : text ≠ [] := by
    rintro rfl
    obtain ⟨_, _, _, heq, -⟩ := h.headed
    cases heq
  have hlevel := (h'.leads 0).2 text hfront hnil hne _ (h.leads 0).1.scanned
  exact absurd hlevel (lt_irrefl 0)

lemma escape_letter {c : χ} (hc : (chr c).isAlpha = true) : escape c = [c] := by
  have hplain : escapeChar (chr c) = [chr c] := by
    rcases escapeChar_cases (chr c) with ⟨d, hd, -⟩ | ⟨hcontrol, -⟩ | ⟨-, -, -, hself⟩
    · have hall : ∀ p ∈ shortEscapes, p.1.isAlpha = false := by decide
      rw [hall _ hd] at hc
      cases hc
    · delta Char.isAlpha Char.isUpper Char.isLower at hc
      simp only [Bool.or_eq_true, Bool.and_eq_true, decide_eq_true_eq, UInt32.le_iff_toNat_le] at hc
      have hupper : 'A'.val.toNat = 65 := rfl
      have hlower : 'a'.val.toNat = 97 := rfl
      rw [Char.toNat] at hcontrol
      omega
    · exact hself
  rw [escape, hplain, List.map_singleton, withChr_chr]

/-- The fields come back. -/
lemma closed_renderFields (fields : Fields χ) : Closed (renderFields fields) := by
  have hread := parseValue_render (depth (.obj fields)) (.obj fields) [] le_rfl ends_nil
  rw [List.append_nil, render] at hread
  unfold depth parseValue at hread
  unfold takeValue at hread
  rw [List.cons_append, skipSpace_lit (by decide)] at hread
  dsimp only at hread
  rw [chr_lit] at hread
  obtain ⟨value, hmem, hobject⟩ := Option.bind_eq_some_iff.mp hread
  obtain rfl := Option.some_inj.mp hmem
  obtain ⟨front, g, heq, -, hfront⟩ := (readsClosed_parseValue _).takeObject hobject
  obtain ⟨rfl, -⟩ := List.append_inj' heq rfl
  exact hfront

/-- What an object is written as, when its first key begins with a letter. -/
lemma framed_render {key : List χ} {c : χ} (hc : (chr c).isAlpha = true) (value : Json χ)
    (fields : Fields χ) : Framed (render (.obj ((c :: key, value) :: fields))) where
  headed := by
    have hfirst : ∃ more, renderFields ((c :: key, value) :: fields) =
        lit '"' :: c :: more := by
      cases fields with
      | nil => exact ⟨_, by rw [renderFields, quote, List.flatMap_cons, escape_letter hc]; rfl⟩
      | cons field fields =>
        rw [renderFields, quote, List.flatMap_cons, escape_letter hc]
        · exact ⟨_, rfl⟩
        · exact List.cons_ne_nil field fields
    obtain ⟨more, hmore⟩ := hfirst
    exact ⟨lit '"', c, more ++ [lit '\x7d'], by rw [render, hmore]; rfl, chr_lit _, hc⟩
  object := ⟨renderFields _, rfl, closed_renderFields _⟩

/-! ## Trimmed lines -/

omit [Glyph χ] in
/-- What is kept reaches from the first to the last element that is not dropped. -/
lemma trim_append_cons {p : χ → Bool} {front rest : List χ} {g : χ}
    (hhead : ∀ g' ∈ (front ++ g :: rest).head?, p g' = false) (hg : p g = false) :
    ∃ kept, Text.trim p (front ++ g :: rest) = front ++ g :: kept ∧ kept <+: rest := by
  have hfirst : (front ++ g :: rest).dropWhile p = front ++ g :: rest := by
    cases front with
    | nil => rw [List.nil_append, List.dropWhile_cons_of_neg (by simp [hg])]
    | cons g' front =>
      have hg' : p g' = false := hhead g' rfl
      rw [List.cons_append, List.dropWhile_cons_of_neg (by simp [hg'])]
  refine ⟨rest.rdropWhile p, ?_, List.rdropWhile_prefix p rest⟩
  rw [Text.trim, hfirst, List.rdropWhile, List.reverse_append, List.reverse_cons,
    List.append_assoc, List.singleton_append, List.dropWhile_append]
  split_ifs with hempty
  · rw [List.isEmpty_iff] at hempty
    rw [List.dropWhile_cons_of_neg (by simp [hg]), List.rdropWhile, hempty]
    simp
  · simp [List.rdropWhile]

/-- A line of objects is still one when it has been trimmed, and is no single object when it was
none. -/
lemma exists_pieces_trim {pieces : List (List χ)} (h : ∀ piece ∈ pieces, Piece piece)
    (hne : pieces ≠ []) :
    ∃ pieces', trim pieces.flatten = pieces'.flatten ∧ pieces' ≠ [] ∧
      (∀ piece ∈ pieces', Piece piece) ∧
      ∀ text, Framed text → pieces' = [text] → pieces = [text] := by
  obtain ⟨front, piece, rfl⟩ := (List.eq_nil_or_concat pieces).resolve_left hne
  rw [List.concat_eq_append] at h ⊢
  have hpiece := h piece (List.mem_append_right front List.mem_cons_self)
  have hfront : ∀ piece ∈ front, Piece piece := fun piece hmem =>
    h piece (List.mem_append_left _ hmem)
  obtain ⟨rest, rfl⟩ := hpiece.exists_cons
  have hbrace : isWhitespace (chr (lit '\x7b' : χ)) = false := by
    rw [chr_lit]
    decide
  have hhead : ∀ g' ∈ (front.flatten ++ lit '\x7b' :: rest).head?,
      isWhitespace (chr g') = false := by
    intro g' hg'
    cases front with
    | nil =>
      obtain rfl := Option.some_inj.mp hg'
      exact hbrace
    | cons first front =>
      obtain ⟨rest', rfl⟩ := (hfront first List.mem_cons_self).exists_cons
      obtain rfl := Option.some_inj.mp hg'
      exact hbrace
  obtain ⟨kept, htrim, hkept⟩ := trim_append_cons hhead hbrace
  have hcut : lit '\x7b' :: kept <+: lit '\x7b' :: rest := (List.prefix_cons_inj _).mpr hkept
  obtain ⟨-, text, htext, hprefix⟩ := hpiece
  refine ⟨front ++ [lit '\x7b' :: kept], ?_, by simp, ?_, ?_⟩
  · rw [List.flatten_append, List.flatten_singleton, List.flatten_append, List.flatten_singleton]
    exact htrim
  · intro piece hmem
    rcases List.mem_append.mp hmem with hmem | hmem
    · exact hfront piece hmem
    · rw [List.mem_singleton] at hmem
      exact hmem ▸ ⟨List.cons_ne_nil _ _, text, htext, hcut.trans hprefix⟩
  · -- nothing can have been dropped behind a whole object
    intro text' htext' heq
    obtain ⟨rfl, hsingle⟩ := List.append_eq_singleton_iff.mp heq |>.resolve_right (by simp)
    obtain rfl := List.head_eq_of_cons_eq hsingle
    have hwhole := htext'.eq_of_isPrefix htext (hcut.trans hprefix)
    have hlength := hprefix.length_le
    have hle := hkept.length_le
    rw [← hwhole, List.length_cons, List.length_cons] at hlength
    rw [hkept.eq_of_length (by omega)]
    rfl

end Json
