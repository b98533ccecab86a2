import RustyClaw.Context.Compression
import RustyClaw.Context.StrippedText
import RustyClaw.Library.JsonEnd
import RustyClaw.Library.Lines

/-!
# Stripping what is stripped

What stripping does to the output of an envelope is settled by its tool and its kinds alone
(`StripRule`), and these are read back from the stripped envelope.  So stripping again applies the
same rule to what the rule has made of the output: the text in place of a web page is counted in its
turn, the notice between the first and the last lines of a file is a line of it, and the notice in a
long text counts characters it is itself a part of.

`stripsStably_iff` says which responses stripping leaves alone the second time, and which it makes
no longer: a text is taken for an envelope when it is an object that has none of the fields with a
value of the wrong kind, and the fields that are missing are written out.
-/

namespace RustyClaw.Context

open Glyph
open Json hiding str

variable {χ : Type} [Glyph χ]

/-! ## Rules -/

def charsNotice (count : Nat) : List χ := str s!"\n... [stripped {count} chars] ...\n"

def lineNotice (count : Nat) : List χ := str s!"... [stripped {count} lines] ..."

def webNotice (count : Nat) : List χ := str s!"[web content stripped - {count} chars]"

def browserNotice (count : Nat) : List χ := str s!"[browser snapshot stripped - {count} elements]"

/-- What is measured to see whether a text is too long. -/
def textSize (inBytes : Bool) (text : List χ) : Nat := if inBytes then utf8Len text else text.length

/-- What stripping does to an output. -/
inductive StripRule where
  | plan
  | lines
  | chars (inBytes : Bool) (limit headChars tailChars : Nat)
  | webContent
  | browserSnapshot
  | skill
  | whole

def StripRule.stripped : StripRule → List χ → Option (List χ)
  | .plan, _ => none
  | .lines, output => some <|
    if 10 < (Glyph.lines output).length then truncateLinesWithMarker output 5 5 else output
  | .chars inBytes limit headChars tailChars, output => some <|
    if limit < textSize inBytes output then truncateCharsWithMarker output headChars tailChars
    else output
  | .webContent, output => some (webNotice (utf8Len output))
  | .browserSnapshot, output => some (browserNotice (Glyph.lines output).length)
  | .skill, _ => some (str "Skill loaded.")
  | .whole, output => some output

/-- The rule for an envelope, of which the output does not matter. -/
def stripRule (name : List χ) (envelope : ToolExecutionEnvelope χ) : StripRule :=
  let toolName := if envelope.result.toolName = [] then name else envelope.result.toolName
  let evidenceKind := fun names => envelope.effects.evidenceKind.any fun kind => isOneOf kind names
  let payloadKind := fun names => envelope.effects.payloadKind.any fun kind => isOneOf kind names
  if payloadKind ["plan"] || isOneOf toolName ["task_plan"] then .plan
  else if evidenceKind ["file"] then .lines
  else if evidenceKind ["diagnostic", "directory"] || isOneOf toolName ["execute_bash"] then
    .chars false 500 200 200
  else if payloadKind ["web_content", "web_search"] ||
      isOneOf toolName ["web_fetch", "web_search_tavily"] then .webContent
  else if payloadKind ["browser_snapshot"] || isOneOf toolName ["browser"] then .browserSnapshot
  else if payloadKind ["skill"] || isOneOf toolName ["skill", "use_skill"] then .skill
  else if payloadKind ["code_mode_exec"] || isOneOf toolName ["exec", "wait"] then
    .chars false 1500 700 400
  else if isOneOf toolName ["write_file", "patch_file"] then .whole
  else .chars true 500 200 100

lemma StripRule.stripped_ite (c : Prop) [Decidable c] (rule rule' : StripRule) (output : List χ) :
    (if c then rule else rule').stripped output =
      if c then rule.stripped output else rule'.stripped output :=
  apply_ite (fun rule => StripRule.stripped rule output) c rule rule'

lemma strippedOutput_eq (name : List χ) (envelope : ToolExecutionEnvelope χ) :
    strippedOutput name envelope = (stripRule name envelope).stripped envelope.result.output := by
  unfold strippedOutput stripRule
  simp only [StripRule.stripped_ite]
  simp only [StripRule.stripped, apply_ite (@some (List χ)), textSize, Bool.false_eq_true, if_false,
    if_true]
  rfl

/-! ## When a rule changes nothing the second time -/

/-- What a rule has made of the output it leaves as it is.

The notice in a long text may make it short enough, or tell the length the cut text has; the lines
of a cut file are ten when the last of them is empty, and otherwise eleven, with the notice. -/
def StripRule.Settles : StripRule → List χ → Prop
  | .plan, _ | .skill, _ | .whole, _ => True
  | .lines, output => (Glyph.lines output).length ≤ 10 ∨
      (Glyph.lines output).getLast? = some [] ∨
      ((Glyph.lines output).length = 11 ∧
        ∀ line ∈ (Glyph.lines output).take 5 ++ ((Glyph.lines output).drop 6).dropLast,
          dropReturn line = line)
  | .chars inBytes limit headChars tailChars, output => textSize inBytes output ≤ limit ∨
      output.length ≤ headChars + tailChars ∨
      textSize inBytes (output.take headChars) + textSize inBytes (charsNotice output.length : List χ) +
          textSize inBytes (output.drop (output.length - tailChars)) ≤ limit ∨
      output.length = headChars + (charsNotice output.length : List χ).length + tailChars
  | .webContent, output => utf8Len output = 33
  | .browserSnapshot, output => (Glyph.lines output).length = 1

lemma addsUp_textSize (inBytes : Bool) : AddsUp (textSize inBytes : List χ → Nat) := by
  cases inBytes with
  | false => exact addsUp_length
  | true => exact addsUp_utf8Len

lemma charsNotice_inj {count count' : Nat} (h : (charsNotice count : List χ) = charsNotice count') :
    count = count' := str_number_inj h

lemma webNotice_inj {count count' : Nat} (h : (webNotice count : List χ) = webNotice count') :
    count = count' := str_number_inj h

lemma browserNotice_inj {count count' : Nat}
    (h : (browserNotice count : List χ) = browserNotice count') : count = count' :=
  str_number_inj h

lemma lineNotice_inj {count count' : Nat} (h : (lineNotice count : List χ) = lineNotice count') :
    count = count' := str_number_inj h

/-! ### Long texts -/

lemma truncateCharsWithMarker_of_lt {output : List χ} {headChars tailChars : Nat}
    (h : headChars + tailChars < output.length) :
    truncateCharsWithMarker output headChars tailChars =
      output.take headChars ++ charsNotice output.length ++
        output.drop (output.length - tailChars) :=
  if_neg (Nat.not_le.mpr h)

lemma truncateCharsWithMarker_of_le {output : List χ} {headChars tailChars : Nat}
    (h : output.length ≤ headChars + tailChars) :
    truncateCharsWithMarker output headChars tailChars = output :=
  if_pos h

lemma length_charsNotice_pos (count : Nat) : 0 < (charsNotice count : List χ).length := by
  rw [charsNotice, length_str, String.length_append]
  exact Nat.add_pos_right _ (show 0 < String.length " chars] ...\n" by decide)

/-- A text that was cut is cut again to the same text when its length is the one in the notice. -/
lemma truncateCharsWithMarker_twice {output : List χ} {headChars tailChars : Nat}
    (h : headChars + tailChars < output.length) :
    truncateCharsWithMarker (truncateCharsWithMarker output headChars tailChars) headChars tailChars =
        truncateCharsWithMarker output headChars tailChars ↔
      output.length = headChars + (charsNotice output.length : List χ).length + tailChars := by
  have hhead : (output.take headChars).length = headChars := List.length_take_of_le (by omega)
  have htail : (output.drop (output.length - tailChars)).length = tailChars := by
    rw [List.length_drop]
    omega
  have hpos := length_charsNotice_pos (χ := χ) output.length
  have hcut := truncateCharsWithMarker_of_lt h
  have hlength : (truncateCharsWithMarker output headChars tailChars).length =
      headChars + (charsNotice output.length : List χ).length + tailChars := by
    rw [hcut, List.length_append, List.length_append, hhead, htail]
  have hagain : headChars + tailChars <
      (truncateCharsWithMarker output headChars tailChars).length := by omega
  have htwice := truncateCharsWithMarker_of_lt hagain
  have htake : (truncateCharsWithMarker output headChars tailChars).take headChars =
      output.take headChars := by
    rw [hcut, List.append_assoc, List.take_append_of_le_length hhead.ge, List.take_take,
      Nat.min_self]
  have hdrop : (truncateCharsWithMarker output headChars tailChars).drop
      ((truncateCharsWithMarker output headChars tailChars).length - tailChars) =
        output.drop (output.length - tailChars) := by
    rw [hlength, Nat.add_sub_cancel, hcut, List.drop_append_of_le_length, List.drop_eq_nil_of_le,
      List.nil_append]
    · rw [List.length_append, hhead]
    · rw [List.length_append, hhead]
  rw [htake, hdrop] at htwice
  rw [htwice, hcut, ← hcut, hlength]
  constructor
  · intro heq
    rw [hcut] at heq
    exact (charsNotice_inj (List.append_cancel_left (List.append_cancel_right heq))).symm
  · intro heq
    rw [← heq, ← hcut]

/-! ### Lines -/

/-- The lines that are left of a text of many lines. -/
def cutLines (all : List (List χ)) : List (List χ) :=
  all.take 5 ++ lineNotice all.length :: all.drop (all.length - 5)

lemma onOneLine_lineNotice (count : Nat) : OnOneLine (lineNotice count : List χ) :=
  onOneLine_number (by decide) (by decide) count

lemma str_lineNotice (count : Nat) : (str s!"\n... [stripped {count} lines] ...\n" : List χ) =
    lit '\n' :: (lineNotice count ++ [lit '\n']) := by
  have hbefore : (str "\n... [stripped " : List χ) = lit '\n' :: str "... [stripped " := rfl
  have hafter : (str " lines] ...\n" : List χ) = str " lines] ..." ++ [lit '\n'] := rfl
  show str ("\n... [stripped " ++ toString count ++ " lines] ...\n") =
    lit '\n' :: (str ("... [stripped " ++ toString count ++ " lines] ...") ++ [lit '\n'])
  rw [str_number, str_number, hbefore, hafter]
  simp only [List.cons_append, List.append_assoc]

lemma truncateLinesWithMarker_of_lt {output : List χ} (h : 10 < (lines output).length) :
    truncateLinesWithMarker output 5 5 = join "\n" (cutLines (lines output)) := by
  have hhead : (lines output).take 5 ≠ [] := by
    rw [← List.length_pos_iff, List.length_take]
    omega
  have htail : (lines output).drop ((lines output).length - 5) ≠ [] := by
    rw [← List.length_pos_iff, List.length_drop]
    omega
  obtain ⟨first, rest, hrest⟩ := List.exists_cons_of_ne_nil htail
  refine (if_neg (Nat.not_le.mpr h)).trans ?_
  rw [cutLines, join_append hhead (List.cons_ne_nil _ _), hrest, join_cons_cons, str_lineNotice]
  simp only [List.append_assoc, List.cons_append, List.nil_append]

/-- The lines between the notice and the last line. -/
lemma exists_last_line {output : List χ} (h : 10 < (lines output).length) : ∃ last,
    (lines output).getLast? = some last ∧
      (lines output).drop ((lines output).length - 5) =
        ((lines output).drop ((lines output).length - 5)).dropLast ++ [last] := by
  have htail : (lines output).drop ((lines output).length - 5) ≠ [] := by
    rw [← List.length_pos_iff, List.length_drop]
    omega
  refine ⟨((lines output).drop ((lines output).length - 5)).getLast htail, ?_,
    (List.dropLast_append_getLast htail).symm⟩
  rw [← List.getLast?_eq_some_getLast, List.getLast?_drop, if_neg (by omega)]

lemma cutLines_append {first rest : List (List χ)} (line : List χ) (hfirst : first.length = 5)
    (hrest : rest.length = 5) :
    cutLines (first ++ line :: rest) = first ++ lineNotice 11 :: rest := by
  have hlength : (first ++ line :: rest).length = 11 := by
    rw [List.length_append, List.length_cons, hfirst, hrest]
  have hdrop : (first ++ line :: rest).drop 6 = rest := by
    rw [List.append_cons]
    exact List.drop_left' (by rw [List.length_append, hfirst, List.length_singleton])
  rw [cutLines, hlength, List.take_left' hfirst, hdrop]

/-- A text of many lines that was cut is cut again to the same text when its last line is empty, so
that it is short, or when it had eleven lines without further carriage returns. -/
lemma truncateLinesWithMarker_twice {output : List χ} (h : 10 < (lines output).length) :
    (if 10 < (lines (truncateLinesWithMarker output 5 5)).length then
      truncateLinesWithMarker (truncateLinesWithMarker output 5 5) 5 5
      else truncateLinesWithMarker output 5 5) = truncateLinesWithMarker output 5 5 ↔
        (lines output).getLast? = some [] ∨ ((lines output).length = 11 ∧
          ∀ line ∈ (lines output).take 5 ++ ((lines output).drop 6).dropLast,
            dropReturn line = line) := by
  have honeLine : ∀ line ∈ lines output, OnOneLine line := fun line => onOneLine_of_mem_lines
  obtain ⟨last, hlast, htail⟩ := exists_last_line h
  rw [truncateLinesWithMarker_of_lt h]
  have hhead : ((lines output).take 5).length = 5 := List.length_take_of_le (by omega)
  have hmiddle : ((lines output).drop ((lines output).length - 5)).dropLast.length = 4 := by
    rw [List.length_dropLast, List.length_drop]
    omega
  generalize hall : lines output = all at *
  generalize hfirst : all.take 5 = first at *
  generalize hbetween : (all.drop (all.length - 5)).dropLast = between at *
  have hcut : cutLines all = (first ++ lineNotice all.length :: between) ++ [last] := by
    rw [cutLines, hfirst, htail, ← List.cons_append, ← List.append_assoc]
  have hcutOneLine : ∀ line ∈ cutLines all, OnOneLine line := by
    intro line hmem
    rw [cutLines] at hmem
    rcases List.mem_append.mp hmem with hmem | hmem
    · exact honeLine line (List.mem_of_mem_take hmem)
    · rcases List.mem_cons.mp hmem with rfl | hmem
      · exact onOneLine_lineNotice _
      · exact honeLine line (List.mem_of_mem_drop hmem)
  have hlines : lines (join "\n" (cutLines all)) =
      (first ++ lineNotice all.length :: between).map dropReturn ++
        if last.isEmpty then [] else [last] := by
    rw [hcut]
    exact lines_join (hcut ▸ hcutOneLine)
  cases last with
  | nil =>
    have hlength : ¬ 10 < (lines (join "\n" (cutLines all))).length := by
      rw [hlines, List.length_append, List.length_map, List.length_append, List.length_cons, hhead,
        hmiddle]
      exact Nat.lt_irrefl 10
    rw [if_neg hlength]
    exact iff_of_true rfl (.inl hlast)
  | cons g last =>
    have hlines' : lines (join "\n" (cutLines all)) =
        first.map dropReturn ++ dropReturn (lineNotice all.length) ::
          (between.map dropReturn ++ [g :: last]) := by
      rw [hlines, List.map_append, List.map_cons, List.append_assoc]
      rfl
    have hagain := cutLines_append (dropReturn (lineNotice all.length))
      (show (first.map dropReturn).length = 5 by rw [List.length_map, hhead])
      (show (between.map dropReturn ++ [g :: last]).length = 5 by
        rw [List.length_append, List.length_map, hmiddle]
        rfl)
    rw [← hlines'] at hagain
    have hlong : 10 < (lines (join "\n" (cutLines all))).length := by
      rw [hlines', List.length_append, List.length_cons, List.length_append, List.length_map,
        List.length_map, hhead, hmiddle]
      exact Nat.lt_succ_self 10
    have hsame : join "\n" (cutLines (lines (join "\n" (cutLines all)))) =
        join "\n" (cutLines all) ↔ cutLines (lines (join "\n" (cutLines all))) = cutLines all := by
      refine ⟨fun heq => join_inj ?_ hcutOneLine ?_ heq, fun heq => by rw [heq]⟩
      · intro line hmem
        rw [cutLines] at hmem
        rcases List.mem_append.mp hmem with hmem | hmem
        · exact onOneLine_of_mem_lines (List.mem_of_mem_take hmem)
        · rcases List.mem_cons.mp hmem with rfl | hmem
          · exact onOneLine_lineNotice _
          · exact onOneLine_of_mem_lines (List.mem_of_mem_drop hmem)
      · rw [hagain, hcut]
        simp only [List.length_append, List.length_cons, List.length_map, List.length_nil, hhead,
          hmiddle]
    have hmap : ∀ texts : List (List χ),
        texts.map dropReturn = texts ↔ ∀ line ∈ texts, dropReturn line = line := by
      intro texts
      nth_rewrite 2 [← List.map_id texts]
      exact List.map_inj_left
    rw [if_pos hlong, truncateLinesWithMarker_of_lt hlong, hsame, hagain, hcut, hlast,
      List.append_assoc, List.cons_append]
    constructor
    · intro heq
      obtain ⟨hfirsts, hrest⟩ := List.append_inj heq (List.length_map _)
      obtain ⟨hnotice, hrest⟩ := List.cons.inj hrest
      have hbetweens := List.append_cancel_right hrest
      have heleven := (lineNotice_inj hnotice).symm
      rw [heleven] at hbetween
      refine .inr ⟨heleven, fun line hmem => ?_⟩
      rcases List.mem_append.mp hmem with hmem | hmem
      · exact (hmap first).mp hfirsts line hmem
      · exact (hmap between).mp hbetweens line (hbetween ▸ hmem)
    · rintro (hempty | ⟨heleven, hall⟩)
      · cases hempty
      · rw [heleven] at hbetween ⊢
        rw [(hmap first).mpr fun line hmem => hall line (List.mem_append_left _ hmem),
          (hmap between).mpr fun line hmem =>
            hall line (List.mem_append_right _ (hbetween.symm ▸ hmem))]

/-! ### Placeholders -/

lemma utf8Len_webNotice (count : Nat) :
    utf8Len (webNotice count : List χ) = 31 + (Nat.toDigits 10 count).length := by
  have hbefore : utf8Len (str "[web content stripped - " : List χ) = 24 := by
    rw [utf8Len_str]
    decide
  have hafter : utf8Len (str " chars]" : List χ) = 7 := by
    rw [utf8Len_str]
    decide
  have hnumber := utf8Len_number (χ := χ) "[web content stripped - " " chars]" count
  rw [hbefore, hafter] at hnumber
  refine hnumber.trans ?_
  omega

lemma length_toDigits_eq_iff (count : Nat) :
    31 + (Nat.toDigits 10 count).length = count ↔ count = 33 := by
  have hbound : ∀ digits, 0 < digits →
      ((Nat.toDigits 10 count).length ≤ digits ↔ count < 10 ^ digits) :=
    fun digits h => Nat.length_toDigits_le_iff (by decide) h
  constructor
  · intro heq
    have hone := hbound 1 (by decide)
    have htwo := hbound 2 (by decide)
    generalize hlength : (Nat.toDigits 10 count).length = digits at *
    -- a number of three digits or more is larger than what it takes to tell it
    have hlarge : ∀ n, 34 + n < 10 ^ (n + 2) := by
      intro n
      induction n with
      | zero => decide
      | succ n ih =>
        rw [Nat.pow_succ]
        omega
    rcases Nat.lt_or_ge 2 digits with hmany | hfew
    · have hless := hbound (digits - 1) (by omega)
      have hpower := hlarge (digits - 3)
      rw [show digits - 3 + 2 = digits - 1 by omega] at hpower
      omega
    · omega
  · rintro rfl
    rfl

lemma lines_browserNotice (count : Nat) :
    (lines (browserNotice count : List χ)).length = 1 := by
  have honeLine : OnOneLine (browserNotice count : List χ) :=
    onOneLine_number (by decide) (by decide) count
  have hpos : 0 < (browserNotice count : List χ).length := by
    rw [browserNotice, length_str, String.length_append]
    exact Nat.add_pos_right _ (show 0 < String.length " elements]" by decide)
  rw [lines_onOneLine honeLine, if_neg (by simpa using List.length_pos_iff.mp hpos)]
  rfl

/-- What a rule has made of an output it makes of it again exactly when it settles. -/
lemma StripRule.settles_iff {rule : StripRule} {output output' : List χ}
    (h : rule.stripped output = some output') :
    rule.stripped output' = some output' ↔ rule.Settles output := by
  cases rule with
  | plan => cases h
  | lines =>
    obtain rfl := Option.some_inj.mp h
    rw [stripped, Settles, Option.some_inj]
    by_cases hlong : 10 < (Glyph.lines output).length
    · rw [if_pos hlong, truncateLinesWithMarker_twice hlong, or_iff_right (Nat.not_le.mpr hlong)]
    · rw [if_neg hlong, if_neg hlong]
      exact iff_of_true rfl (.inl (Nat.le_of_not_lt hlong))
  | chars inBytes limit headChars tailChars =>
    obtain rfl := Option.some_inj.mp h
    rw [stripped, Settles, Option.some_inj]
    by_cases hlong : limit < textSize inBytes output
    · rw [if_pos hlong, or_iff_right (Nat.not_le.mpr hlong)]
      rcases Nat.lt_or_ge (headChars + tailChars) output.length with hcut | hwhole
      · have hsize : textSize inBytes (truncateCharsWithMarker output headChars tailChars) =
            textSize inBytes (output.take headChars) +
              textSize inBytes (charsNotice output.length : List χ) +
              textSize inBytes (output.drop (output.length - tailChars)) := by
          rw [truncateCharsWithMarker_of_lt hcut, addsUp_textSize, addsUp_textSize]
        rw [or_iff_right (Nat.not_le.mpr hcut), ← hsize, ← truncateCharsWithMarker_twice hcut]
        rcases Nat.lt_or_ge limit
          (textSize inBytes (truncateCharsWithMarker output headChars tailChars)) with hagain | hshort
        · rw [if_pos hagain, or_iff_right (Nat.not_le.mpr hagain)]
        · rw [if_neg (Nat.not_lt.mpr hshort)]
          exact iff_of_true rfl (.inl hshort)
      · rw [truncateCharsWithMarker_of_le hwhole, if_pos hlong]
        exact iff_of_true (truncateCharsWithMarker_of_le hwhole) (.inl hwhole)
    · rw [if_neg hlong, if_neg hlong]
      exact iff_of_true rfl (.inl (Nat.le_of_not_lt hlong))
  | webContent =>
    obtain rfl := Option.some_inj.mp h
    rw [stripped, Settles, Option.some_inj, utf8Len_webNotice, ← length_toDigits_eq_iff]
    exact ⟨webNotice_inj, fun heq => by rw [heq]⟩
  | browserSnapshot =>
    obtain rfl := Option.some_inj.mp h
    rw [stripped, Settles, Option.some_inj, lines_browserNotice]
    exact ⟨fun heq => (browserNotice_inj heq).symm, fun heq => by rw [heq]⟩
  | skill =>
    obtain rfl := Option.some_inj.mp h
    exact iff_of_true rfl trivial
  | whole =>
    obtain rfl := Option.some_inj.mp h
    exact iff_of_true rfl trivial

/-! ### Sizes -/

/-- The bytes of what a rule keeps of an output and of what it puts in the place of the rest. -/
def StripRule.keptLen : StripRule → List χ → Nat
  | .plan, _ => 0
  | .lines, output =>
    let all := Glyph.lines output
    if 10 < all.length then
      nestedLen (join "\n" (all.take 5)) +
        nestedLen (str s!"\n... [stripped {all.length} lines] ...\n" : List χ) +
        nestedLen (join "\n" (all.drop (all.length - 5)))
    else nestedLen output
  | .chars inBytes limit headChars tailChars, output =>
    if limit < textSize inBytes output ∧ headChars + tailChars < output.length then
      nestedLen (output.take headChars) + nestedLen (charsNotice output.length : List χ) +
        nestedLen (output.drop (output.length - tailChars))
    else nestedLen output
  | .webContent, output => nestedLen (webNotice (utf8Len output) : List χ)
  | .browserSnapshot, output => nestedLen (browserNotice (Glyph.lines output).length : List χ)
  | .skill, _ => nestedLen (str "Skill loaded." : List χ)
  | .whole, output => nestedLen output

lemma StripRule.nestedLen_stripped {rule : StripRule} {output output' : List χ}
    (h : rule.stripped output = some output') : nestedLen output' = rule.keptLen output := by
  cases rule with
  | plan => cases h
  | lines =>
    obtain rfl := Option.some_inj.mp h
    rw [keptLen]
    split_ifs with hlong
    · rw [truncateLinesWithMarker, if_neg (Nat.not_le.mpr hlong), addsUp_nestedLen,
        addsUp_nestedLen]
    · rfl
  | chars inBytes limit headChars tailChars =>
    obtain rfl := Option.some_inj.mp h
    rw [keptLen]
    by_cases hlong : limit < textSize inBytes output
    · rcases Nat.lt_or_ge (headChars + tailChars) output.length with hcut | hwhole
      · rw [if_pos hlong, if_pos ⟨hlong, hcut⟩, truncateCharsWithMarker_of_lt hcut,
          addsUp_nestedLen, addsUp_nestedLen]
      · rw [if_pos hlong, if_neg fun h => absurd h.2 (Nat.not_lt.mpr hwhole),
          truncateCharsWithMarker_of_le hwhole]
    · rw [if_neg hlong, if_neg fun h => hlong h.1]
  | webContent | browserSnapshot | skill | whole =>
    obtain rfl := Option.some_inj.mp h
    rfl

/-! ## A response -/

/-- What is put behind the beginning of a long text that is no envelope. -/
def cutNotice (count : Nat) : List χ := str s!"\n... [stripped {count} chars]"

/-- The response is one that stripping leaves alone the second time and makes no longer.

A plan has to be longer than what stands for it.  Another envelope has to take more room than its
missing fields and what is put into its output, and its output has to settle.  Any other text has to
be short, or longer behind its beginning than the notice, and short when it is cut unless the notice
is as long as what it stands for. -/
def FunctionResponse.Restrippable (response : FunctionResponse χ) : Prop :=
  match response.resultText with
  | none => True
  | some text =>
    match ToolExecutionEnvelope.fromJsonStr text with
    | some envelope =>
      match stripRule response.name envelope with
      | .plan => 14 ≤ escapedLen text
      | rule => rule.Settles envelope.result.output ∧
          escapedLen (strippedEnvelopeText envelope) + rule.keptLen envelope.result.output ≤
            escapedLen text + nestedLen envelope.result.output
    | none => utf8Len text ≤ 500 ∨
        (escapedLen (cutNotice (utf8Len text) : List χ) ≤ escapedLen (text.drop 200) ∧
          (utf8Len (text.take 200) + utf8Len (cutNotice (utf8Len text) : List χ) ≤ 500 ∨
            utf8Len (cutNotice (utf8Len text) : List χ) = utf8Len (text.drop 200)))

section Response

variable {response : FunctionResponse χ} {text : List χ} {envelope : ToolExecutionEnvelope χ}

lemma stripsStably_of_eq (h : stripResponsePayload response = response) :
    response.StripsStably where
  stable := by rw [h, h]
  noLonger := by rw [h]

lemma noLonger_withResult_iff (h : response.resultText = some text) (text' : List χ) :
    utf8Len (response.withResult text').text ≤ utf8Len response.text ↔
      escapedLen text' ≤ escapedLen text := by
  have hsize := utf8Len_withResult h text'
  omega

lemma fromJsonStr_concat {g : χ} (hspace : isSpace (chr g) = false) (hbrace : chr g ≠ '\x7d')
    (s : List χ) : ToolExecutionEnvelope.fromJsonStr (s ++ [g]) = none := by
  unfold ToolExecutionEnvelope.fromJsonStr
  split
  · rename_i fields hparse
    exact absurd hparse (parse_concat_ne_obj hspace hbrace s fields)
  · rfl

/-! ### Envelopes -/

lemma stripResponsePayload_of_envelope {output : List χ} (h : response.resultText = some text)
    (henvelope : ToolExecutionEnvelope.fromJsonStr text = some envelope)
    (hstripped : (stripRule response.name envelope).stripped envelope.result.output =
      some output) :
    stripResponsePayload response =
      response.withResult (strippedEnvelopeText (withOutput envelope output)) := by
  rw [stripResponsePayload, h]
  dsimp only
  rw [henvelope]
  dsimp only
  rw [strippedOutput_eq, hstripped]
  rfl

/-- Only a plan is replaced as a whole. -/
lemma StripRule.exists_stripped {rule : StripRule} (h : rule ≠ .plan) (output : List χ) :
    ∃ output', rule.stripped output = some output' := by
  cases rule with
  | plan => exact absurd rfl h
  | lines | chars | webContent | browserSnapshot | skill | whole => exact ⟨_, rfl⟩

/-- A stripped envelope is stripped again by the same rule. -/
lemma stripResponsePayload_twice_iff {output : List χ} (h : response.resultText = some text)
    (henvelope : ToolExecutionEnvelope.fromJsonStr text = some envelope)
    (hstripped : (stripRule response.name envelope).stripped envelope.result.output =
      some output) :
    stripResponsePayload (stripResponsePayload response) = stripResponsePayload response ↔
      (stripRule response.name envelope).Settles envelope.result.output := by
  have hrule : stripRule response.name envelope ≠ .plan := by
    intro heq
    rw [heq] at hstripped
    cases hstripped
  obtain ⟨output', hagain⟩ := StripRule.exists_stripped hrule output
  have hread := FunctionResponse.resultText_withResult h
    (strippedEnvelopeText (withOutput envelope output))
  have htwice := stripResponsePayload_of_envelope hread (fromJsonStr_strippedEnvelopeText _) hagain
  have htext : strippedEnvelopeText (withOutput (withoutRun (withOutput envelope output)) output') =
      strippedEnvelopeText (withOutput envelope output') :=
    strippedEnvelopeText_withoutRun (withOutput envelope output')
  rw [stripResponsePayload_of_envelope h henvelope hstripped, htwice, htext,
    FunctionResponse.withResult_withResult, FunctionResponse.withResult_inj h,
    ← StripRule.settles_iff hstripped, hagain, Option.some_inj]
  exact ⟨strippedEnvelopeText_inj, fun heq => by rw [heq]⟩

lemma noLonger_envelope_iff {output : List χ} (h : response.resultText = some text)
    (henvelope : ToolExecutionEnvelope.fromJsonStr text = some envelope)
    (hstripped : (stripRule response.name envelope).stripped envelope.result.output =
      some output) :
    utf8Len (stripResponsePayload response).text ≤ utf8Len response.text ↔
      escapedLen (strippedEnvelopeText envelope) +
          (stripRule response.name envelope).keptLen envelope.result.output ≤
        escapedLen text + nestedLen envelope.result.output := by
  have hsize := escapedLen_strippedEnvelopeText envelope output
  have hkept := StripRule.nestedLen_stripped hstripped
  rw [stripResponsePayload_of_envelope h henvelope hstripped, noLonger_withResult_iff h]
  omega

lemma stripsStably_plan_iff (h : response.resultText = some text)
    (henvelope : ToolExecutionEnvelope.fromJsonStr text = some envelope)
    (hplan : stripRule response.name envelope = .plan) :
    response.StripsStably ↔ 14 ≤ escapedLen text := by
  have hstrip : stripResponsePayload response = response.withResult (str "[plan updated]") := by
    rw [stripResponsePayload, h]
    dsimp only
    rw [henvelope]
    dsimp only
    rw [strippedOutput_eq, hplan]
    rfl
  have hagain : stripResponsePayload (response.withResult (str "[plan updated]")) =
      response.withResult (str "[plan updated]") := by
    have hnone : ToolExecutionEnvelope.fromJsonStr (str "[plan updated]" : List χ) = none := by
      have hend : (str "[plan updated]" : List χ) = str "[plan updated" ++ [lit ']'] := rfl
      rw [hend]
      exact fromJsonStr_concat (by rw [chr_lit]; decide) (by rw [chr_lit]; decide) _
    have hshort : ¬ 500 < utf8Len (str "[plan updated]" : List χ) := by
      rw [utf8Len_str]
      decide
    rw [stripResponsePayload, FunctionResponse.resultText_withResult h]
    dsimp only
    rw [hnone]
    exact if_neg hshort
  have hsize : escapedLen (str "[plan updated]" : List χ) = 14 := by
    rw [escapedLen_str]
    decide
  have hnoLonger := noLonger_withResult_iff h (str "[plan updated]")
  rw [hsize] at hnoLonger
  constructor
  · intro hstably
    have hle := hstably.noLonger
    rw [hstrip] at hle
    exact hnoLonger.mp hle
  · intro hle
    refine ⟨by rw [hstrip, hagain], ?_⟩
    rw [hstrip]
    exact hnoLonger.mpr hle

/-! ### Other texts -/

lemma cutNotice_eq (count : Nat) : (cutNotice count : List χ) =
    str "\n... [stripped " ++ (Nat.toDigits 10 count).map lit ++ str " chars]" :=
  str_number "\n... [stripped " " chars]" count

lemma fromJsonStr_cut (text : List χ) (count : Nat) :
    ToolExecutionEnvelope.fromJsonStr (text ++ cutNotice count) = none := by
  have hend : (str " chars]" : List χ) = str " chars" ++ [lit ']'] := rfl
  rw [cutNotice_eq, hend, ← List.append_assoc, ← List.append_assoc]
  exact fromJsonStr_concat (by rw [chr_lit]; decide) (by rw [chr_lit]; decide) _

lemma stripResponsePayload_of_none (h : response.resultText = some text)
    (hnone : ToolExecutionEnvelope.fromJsonStr text = none) :
    stripResponsePayload response = if 500 < utf8Len text then
      response.withResult (text.take 200 ++ cutNotice (utf8Len text)) else response := by
  rw [stripResponsePayload, h]
  dsimp only
  rw [hnone]
  rfl

lemma stripsStably_other_iff (h : response.resultText = some text)
    (hnone : ToolExecutionEnvelope.fromJsonStr text = none) (hlong : 500 < utf8Len text) :
    response.StripsStably ↔
      escapedLen (cutNotice (utf8Len text) : List χ) ≤ escapedLen (text.drop 200) ∧
        (utf8Len (text.take 200) + utf8Len (cutNotice (utf8Len text) : List χ) ≤ 500 ∨
          utf8Len (cutNotice (utf8Len text) : List χ) = utf8Len (text.drop 200)) := by
  have hstrip := stripResponsePayload_of_none h hnone
  rw [if_pos hlong] at hstrip
  have hnoLonger : utf8Len (stripResponsePayload response).text ≤ utf8Len response.text ↔
      escapedLen (cutNotice (utf8Len text) : List χ) ≤ escapedLen (text.drop 200) := by
    have hsplit := addsUp_escapedLen (text.take 200) (text.drop 200)
    have hcut := addsUp_escapedLen (text.take 200) (cutNotice (utf8Len text))
    rw [List.take_append_drop] at hsplit
    rw [hstrip, noLonger_withResult_iff h]
    omega
  have hstable : escapedLen (cutNotice (utf8Len text) : List χ) ≤ escapedLen (text.drop 200) →
      (stripResponsePayload (stripResponsePayload response) = stripResponsePayload response ↔
        (utf8Len (text.take 200) + utf8Len (cutNotice (utf8Len text) : List χ) ≤ 500 ∨
          utf8Len (cutNotice (utf8Len text) : List χ) = utf8Len (text.drop 200))) := by
    intro hle
    -- the text is longer than what is kept of it, so that the same is kept of it when it is cut
    have hmany : 200 ≤ text.length := by
      by_contra hfew
      rw [List.drop_eq_nil_of_le (by omega)] at hle
      have hnotice : 0 < escapedLen (cutNotice (utf8Len text) : List χ) := by
        rw [cutNotice_eq, addsUp_escapedLen, addsUp_escapedLen, escapedLen_str]
        exact Nat.add_pos_left (Nat.add_pos_left (by decide) _) _
      exact Nat.not_le.mpr hnotice hle
    have htake : (text.take 200 ++ cutNotice (utf8Len text)).take 200 = text.take 200 := by
      rw [List.take_append_of_le_length (List.length_take_of_le hmany).ge, List.take_take,
        Nat.min_self]
    have hagain := stripResponsePayload_of_none (FunctionResponse.resultText_withResult h
      (text.take 200 ++ cutNotice (utf8Len text))) (fromJsonStr_cut _ _)
    have hsize := addsUp_utf8Len (text.take 200) (cutNotice (utf8Len text))
    have hsplit := addsUp_utf8Len (text.take 200) (text.drop 200)
    rw [List.take_append_drop] at hsplit
    rw [hstrip, hagain, htake]
    split_ifs with hmore
    · rw [FunctionResponse.withResult_withResult, FunctionResponse.withResult_inj h,
        or_iff_right (by omega)]
      constructor
      · intro heq
        have hcount : utf8Len (text.take 200 ++ cutNotice (utf8Len text)) = utf8Len text :=
          str_number_inj (List.append_cancel_left heq)
        omega
      · intro heq
        rw [hsize, heq, ← hsplit]
    · exact iff_of_true rfl (.inl (by omega))
  rw [← hnoLonger]
  exact ⟨fun hstably => ⟨hstably.noLonger, (hstable (hnoLonger.mp hstably.noLonger)).mp
    hstably.stable⟩, fun ⟨hle, hsettled⟩ => ⟨(hstable (hnoLonger.mp hle)).mpr hsettled, hle⟩⟩

/-- Which responses stripping leaves alone the second time and makes no longer. -/
theorem stripsStably_iff (response : FunctionResponse χ) :
    response.StripsStably ↔ response.Restrippable := by
  unfold FunctionResponse.Restrippable
  split
  · next hresult =>
    refine iff_of_true (stripsStably_of_eq ?_) trivial
    rw [stripResponsePayload, hresult]
  · next text hresult =>
    split
    · next envelope henvelope =>
      split
      · next hplan => exact stripsStably_plan_iff hresult henvelope hplan
      · next rule hplan =>
        obtain ⟨output, hstripped⟩ := StripRule.exists_stripped hplan envelope.result.output
        rw [← stripResponsePayload_twice_iff hresult henvelope hstripped,
          ← noLonger_envelope_iff hresult henvelope hstripped]
        exact ⟨fun h => ⟨h.stable, h.noLonger⟩, fun h => ⟨h.1, h.2⟩⟩
    · next hnone =>
      rcases Nat.lt_or_ge 500 (utf8Len text) with hlong | hshort
      · rw [or_iff_right (Nat.not_le.mpr hlong)]
        exact stripsStably_other_iff hresult hnone hlong
      · refine iff_of_true (stripsStably_of_eq ?_) (.inl hshort)
        rw [stripResponsePayload_of_none hresult hnone, if_neg (Nat.not_lt.mpr hshort)]

end Response

/-! ## The turn -/

/-- The responses that stripping leaves alone the second time and makes no longer; a turn whose
older responses are such is not changed when the pass over it is repeated. -/
theorem strippingStable_iff :
    (∀ response : FunctionResponse χ, response.StripsStably ↔ response.Restrippable) ∧
      ∀ (ctx : AgentContext χ) (maxBytes : Nat),
        (∀ turn, ctx.currentTurn = some turn →
          ∀ response ∈ turn.olderResults, response.Restrippable) →
        (compressCurrentTurn (compressCurrentTurn ctx maxBytes).1 maxBytes).1 =
          (compressCurrentTurn ctx maxBytes).1 := by
  refine ⟨stripsStably_iff, fun ctx maxBytes h => ?_⟩
  cases hcurrent : ctx.currentTurn with
  | none =>
    have hsame : (compressCurrentTurn ctx maxBytes).1 = ctx := by rw [compressCurrentTurn, hcurrent]
    rw [hsame, hsame]
  | some turn =>
    have hturn := compressTurn_compressTurn maxBytes fun response hmem =>
      (stripsStably_iff response).mpr (h turn hcurrent response hmem)
    rw [compressCurrentTurn_of_some hcurrent, compressCurrentTurn_of_some rfl, hturn]

/-- The result of fetching a page. -/
def fetchedPage : ToolExecutionEnvelope Char where
  result := { ok := true, toolName := "web_fetch".toList, output := "Example page".toList }
  effects := { payloadKind := some "web_content".toList }

def fetchedPageResponse : FunctionResponse Char where
  name := "web_fetch".toList
  response := .object [("result", .str fetchedPage.toJsonString)]

/-- What stands for the page is counted as a page when it is stripped again. -/
theorem not_stripsStably_fetchedPage : ¬ fetchedPageResponse.StripsStably := by
  intro h
  have hsettles : utf8Len fetchedPage.result.output = 33 :=
    (stripResponsePayload_twice_iff rfl fetchedPage.fromJsonStr_toJsonString rfl).mp h.stable
  revert hsettles
  decide

end RustyClaw.Context
