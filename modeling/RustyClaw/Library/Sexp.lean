import Mathlib.Data.List.Basic

/-!
# Symbolic expressions

Expressions in parentheses, with atoms and with texts between quotation marks, in which a backslash
stands in front of a quotation mark or of another backslash.

A text is read character by character: `step` moves from one `Mode` to the next and yields the
tokens that end there.  So what a text reads as can be found piece by piece (`scan_append`), and an
escaped text inside quotation marks stays there, whatever its characters are (`scan_escape`).
`readAll_of_scan` puts the tokens together, and `scan_lines` the lines.
-/

inductive Sexp where
  | atom (name : List Char)
  | text (content : List Char)
  | list (items : List Sexp)

namespace Sexp

inductive Token where
  | opening | closing
  | atom (name : List Char)
  | text (content : List Char)
  deriving DecidableEq, Repr

/-! ## The tokens of a text -/

/-- Where a reader stands, and what it has of the token that it is in. -/
inductive Mode where
  | between
  | inAtom (name : List Char)
  | inText (content : List Char)
  | escaped (content : List Char)
  deriving DecidableEq, Repr

namespace Mode

def name : Mode → List Char
  | .inAtom name => name
  | _ => []

/-- The atom that ends where another token begins. -/
def ended : Mode → List Token
  | .inAtom name => [.atom name]
  | _ => []

end Mode

def isBlank (c : Char) : Bool := c = ' ' || c = '\n'

/-- No escape is read but the two. -/
def step : Mode → Char → Option (Mode × List Token)
  | .inText content, c =>
    if c = '"' then some (.between, [.text content])
    else if c = '\\' then some (.escaped content, [])
    else some (.inText (content ++ [c]), [])
  | .escaped content, c =>
    if c = '"' ∨ c = '\\' then some (.inText (content ++ [c]), []) else none
  | mode, c =>
    if c = '(' then some (.between, mode.ended ++ [.opening])
    else if c = ')' then some (.between, mode.ended ++ [.closing])
    else if c = '"' then some (.inText [], mode.ended)
    else if isBlank c then some (.between, mode.ended)
    else some (.inAtom (mode.name ++ [c]), [])

def scan : Mode → List Char → Option (Mode × List Token)
  | mode, [] => some (mode, [])
  | mode, c :: s => do
    let (mode, tokens) ← step mode c
    let (mode, tokens') ← scan mode s
    some (mode, tokens ++ tokens')

/-- Nothing may be left open at the end. -/
def tokensOf (s : List Char) : Option (List Token) := do
  let (mode, tokens) ← scan .between s
  match mode with
  | .between | .inAtom _ => some (tokens ++ mode.ended)
  | .inText _ | .escaped _ => none

section Scan

variable {mode mode' mode'' : Mode} {s s' : List Char} {tokens tokens' : List Token}

/-- The second part is read from where the first one ends. -/
lemma scan_append (h : scan mode s = some (mode', tokens))
    (h' : scan mode' s' = some (mode'', tokens')) :
    scan mode (s ++ s') = some (mode'', tokens ++ tokens') := by
  induction s generalizing mode tokens with
  | nil =>
    obtain ⟨rfl, rfl⟩ : mode = mode' ∧ [] = tokens := by simpa [scan] using h
    simpa using h'
  | cons c s ih =>
    cases hstep : step mode c with
    | none => simp [scan, hstep] at h
    | some next =>
      obtain ⟨mid, first⟩ := next
      cases hscan : scan mid s with
      | none => simp [scan, hstep, hscan] at h
      | some rest =>
        obtain ⟨last, rest⟩ := rest
        obtain ⟨rfl, rfl⟩ : last = mode' ∧ first ++ rest = tokens := by
          simpa [scan, hstep, hscan] using h
        simp [scan, hstep, ih hscan]

/-- A character as it is written between quotation marks. -/
def escape (c : Char) : List Char := if c = '"' ∨ c = '\\' then ['\\', c] else [c]

/-- An escaped text does not leave the quotation marks. -/
lemma scan_escape (content s : List Char) :
    scan (.inText content) (s.flatMap escape) = some (.inText (content ++ s), []) := by
  induction s generalizing content with
  | nil => simp [scan]
  | cons c s ih =>
    have hfirst : scan (.inText content) (escape c) = some (.inText (content ++ [c]), []) := by
      by_cases hspecial : c = '"' ∨ c = '\\'
      · rw [escape, if_pos hspecial]
        simp [scan, step, hspecial]
      · have hquote : c ≠ '"' := fun h => hspecial (Or.inl h)
        have hslash : c ≠ '\\' := fun h => hspecial (Or.inr h)
        rw [escape, if_neg hspecial]
        simp [scan, step, hquote, hslash]
    have hrest := ih (content ++ [c])
    rw [List.append_assoc, List.singleton_append] at hrest
    exact scan_append hfirst hrest

end Scan

/-! ## The expressions of a list of tokens -/

/-- `items` is what the innermost open list has so far, and `outer` what those around it have. -/
def build (items : List Sexp) : List (List Sexp) → List Token → Option (List Sexp)
  | [], [] => some items
  | _ :: _, [] => none
  | outer, .opening :: tokens => build [] (items :: outer) tokens
  | [], .closing :: _ => none
  | around :: outer, .closing :: tokens => build (around ++ [.list items]) outer tokens
  | outer, .atom name :: tokens => build (items ++ [.atom name]) outer tokens
  | outer, .text content :: tokens => build (items ++ [.text content]) outer tokens

/-- The expressions that a text consists of. -/
def readAll (s : List Char) : Option (List Sexp) := (tokensOf s).bind (build [] [])

mutual

def tokens : Sexp → List Token
  | .atom name => [.atom name]
  | .text content => [.text content]
  | .list items => .opening :: (tokensAll items ++ [.closing])

def tokensAll : List Sexp → List Token
  | [] => []
  | e :: es => e.tokens ++ tokensAll es

end

lemma tokensAll_append (es es' : List Sexp) :
    tokensAll (es ++ es') = tokensAll es ++ tokensAll es' := by
  induction es with
  | nil => rfl
  | cons e es ih => rw [List.cons_append, tokensAll, tokensAll, ih, List.append_assoc]

mutual

lemma build_tokens (e : Sexp) (items : List Sexp) (outer : List (List Sexp))
    (rest : List Token) :
    build items outer (e.tokens ++ rest) = build (items ++ [e]) outer rest := by
  match e with
  | .atom name => rw [tokens, List.singleton_append, build]
  | .text content => rw [tokens, List.singleton_append, build]
  | .list inner =>
    rw [tokens, List.cons_append, build, List.append_assoc, build_tokensAll inner,
      List.singleton_append, build, List.nil_append]

lemma build_tokensAll (es : List Sexp) (items : List Sexp) (outer : List (List Sexp))
    (rest : List Token) :
    build items outer (tokensAll es ++ rest) = build (items ++ es) outer rest := by
  match es with
  | [] => rw [tokensAll, List.nil_append, List.append_nil]
  | e :: es =>
    rw [tokensAll, List.append_assoc, build_tokens e, build_tokensAll es, List.append_assoc,
      List.singleton_append]

end

/-- The text is one expression and leaves nothing open. -/
def Spells (s : List Char) (e : Sexp) : Prop := scan .between s = some (.between, e.tokens)

/-- Lines of one expression each are these expressions. -/
lemma scan_lines {lines : List (List Char)} {es : List Sexp} (h : List.Forall₂ Spells lines es) :
    scan .between (['\n'].intercalate lines) = some (.between, tokensAll es) := by
  induction h with
  | nil => rfl
  | @cons line e lines es hline hlines ih =>
    rw [tokensAll]
    cases hlines with
    | nil =>
      rw [List.intercalate_singleton, tokensAll, List.append_nil]
      exact hline
    | cons hline' hlines =>
      have hbreak : scan .between ['\n'] = some (.between, []) := rfl
      rw [List.intercalate_cons_cons]
      have hfront := scan_append hline hbreak
      rw [List.append_nil] at hfront
      exact scan_append hfront ih

/-- A text whose tokens are those of some expressions reads as these. -/
theorem readAll_of_scan {s : List Char} {es : List Sexp}
    (h : scan .between s = some (.between, tokensAll es)) : readAll s = some es := by
  have htokens : tokensOf s = some (tokensAll es) := by simp [tokensOf, h, Mode.ended]
  have hbuild := build_tokensAll es [] [] []
  rw [List.append_nil, List.nil_append, build] at hbuild
  rw [readAll, htokens, Option.bind_some, hbuild]

end Sexp
