import RustyClaw.Library.Lines
import RustyClaw.Tools.Files

/-!
# What a truncated text shows

`truncate_impl` (`utils.rs`) cuts a text in two passes.  The first keeps the first and the last
lines and the second, on what the first has left, the first and the last characters; in the place
of what is cut out stands a marker with its size.

`Truncates` says what the result is: a prefix and a suffix of the text, shown line by line
(`ShowsLines`), and of what is shown a prefix and a suffix (`ShowsChars`), of limited length.  The
markers come on top of the limits: what was cut is beyond a limit again
(`not_within_truncateImpl`), so another truncation cuts it again and, where only one of the passes
has to, writes another number between the same ends.
-/

namespace RustyClaw.Files

open Glyph

/-! ## The two passes -/

def lineMarker (n : ℕ) : List Char :=
  "\n\n[... Truncated ".toList ++ Nat.toDigits 10 n ++ " lines ...]\n\n".toList

def charMarker (n : ℕ) : List Char :=
  "\n\n[... Truncated ".toList ++ Nat.toDigits 10 n ++ " characters ...]\n\n".toList

/-- The lines of a prefix and of a suffix of the text, cut between lines, with a marker for the
lines in the middle. -/
inductive ShowsLines (maxLines : ℕ) (log : List Char) : List Char → Prop
  | whole (h : (lines log).length ≤ maxLines) : ShowsLines maxLines log log
  | cut {before middle after : List Char} (h : log = before ++ middle ++ after)
      (hlines : lines log = lines before ++ lines middle ++ lines after)
      (hbefore : (lines before).length = maxLines / 2)
      (hafter : (lines after).length = maxLines - maxLines / 2) (hmiddle : lines middle ≠ []) :
    ShowsLines maxLines log
      (join "\n" (lines before) ++ lineMarker (lines middle).length ++ join "\n" (lines after))

/-- A prefix and a suffix of a text with a marker for the characters that are too many. -/
inductive ShowsChars (maxChars : ℕ) (text : List Char) : List Char → Prop
  | whole (h : text.length ≤ maxChars) : ShowsChars maxChars text text
  | cut {before middle after : List Char} (h : text = before ++ middle ++ after)
      (hbefore : before.length = maxChars / 2) (hafter : after.length = maxChars / 2)
      (hlong : maxChars < text.length) :
    ShowsChars maxChars text (before ++ charMarker (text.length - maxChars) ++ after)

def Within (maxLines maxChars : ℕ) (text : List Char) : Prop :=
  (lines text).length ≤ maxLines ∧ text.length ≤ maxChars

lemma append_marker (head before number after tail : List Char) :
    head ++ before ++ number ++ after ++ tail = head ++ (before ++ number ++ after) ++ tail := by
  rw [List.append_assoc head, List.append_assoc head]

lemma truncateLines_of_le {maxLines : ℕ} {log : List Char} (h : (lines log).length ≤ maxLines) :
    truncateLines maxLines log = log := if_pos h

lemma truncateLines_of_lt {maxLines : ℕ} {log : List Char} (h : maxLines < (lines log).length) :
    truncateLines maxLines log =
      join "\n" ((lines log).take (maxLines / 2)) ++ lineMarker ((lines log).length - maxLines) ++
        join "\n" ((lines log).drop ((lines log).length - (maxLines - maxLines / 2))) := by
  exact (if_neg (Nat.not_le_of_lt h)).trans (append_marker _ _ _ _ _)

/-- The second pass. -/
def truncateChars (maxChars : ℕ) (text : List Char) : List Char :=
  if text.length ≤ maxChars then text
  else
    text.take (maxChars / 2) ++ charMarker (text.length - maxChars) ++
      text.drop (text.length - maxChars / 2)

lemma truncateImpl_eq (log : List Char) (maxLines maxChars : ℕ) :
    truncateImpl log maxLines maxChars = truncateChars maxChars (truncateLines maxLines log) := by
  exact congrArg (ite _ _) (append_marker _ _ _ _ _)

lemma truncateChars_of_le {maxChars : ℕ} {text : List Char} (h : text.length ≤ maxChars) :
    truncateChars maxChars text = text := if_pos h

lemma truncateChars_of_lt {maxChars : ℕ} {text : List Char} (h : maxChars < text.length) :
    truncateChars maxChars text =
      text.take (maxChars / 2) ++ charMarker (text.length - maxChars) ++
        text.drop (text.length - maxChars / 2) := if_neg (Nat.not_le_of_lt h)

lemma showsChars_truncateChars (maxChars : ℕ) (text : List Char) :
    ShowsChars maxChars text (truncateChars maxChars text) := by
  by_cases h : text.length ≤ maxChars
  · rw [truncateChars_of_le h]
    exact .whole h
  · have hlong := Nat.lt_of_not_le h
    rw [truncateChars_of_lt hlong]
    have hrest : text.take (text.length - maxChars / 2) ++ text.drop (text.length - maxChars / 2) =
        text := List.take_append_drop _ text
    have hhead : text.take (maxChars / 2) ++
        (text.take (text.length - maxChars / 2)).drop (maxChars / 2) =
          text.take (text.length - maxChars / 2) := by
      have hle : maxChars / 2 ≤ text.length - maxChars / 2 := by omega
      have htake := List.take_append_drop (maxChars / 2) (text.take (text.length - maxChars / 2))
      rwa [List.take_take, min_eq_left hle] at htake
    refine .cut (hrest.symm.trans (congrArg (· ++ _) hhead.symm)) ?_ ?_ hlong
    · rw [List.length_take]
      omega
    · rw [List.length_drop]
      omega

lemma showsLines_truncateLines (maxLines : ℕ) (log : List Char) :
    ShowsLines maxLines log (truncateLines maxLines log) := by
  by_cases h : (lines log).length ≤ maxLines
  · rw [truncateLines_of_le h]
    exact .whole h
  · have hlong := Nat.lt_of_not_le h
    rw [truncateLines_of_lt hlong]
    have hhead : maxLines / 2 ≤ (lines log).length := by omega
    obtain ⟨before, rest, hlog, hbefore, hrest⟩ := exists_split_lines hhead
    have hmiddle : (lines log).length - maxLines ≤ (lines rest).length := by
      rw [hrest, List.length_drop]
      omega
    obtain ⟨middle, after, rfl, hmiddle', hafter⟩ := exists_split_lines hmiddle
    have hlines : lines log = lines before ++ lines middle ++ lines after := by
      rw [hbefore, hmiddle', hafter, List.append_assoc, List.take_append_drop, hrest,
        List.take_append_drop]
    have htail : (lines log).drop ((lines log).length - (maxLines - maxLines / 2)) =
        lines after := by
      rw [hafter, hrest, List.drop_drop]
      refine congrArg (fun n => (lines log).drop n) ?_
      omega
    have homitted : (lines middle).length = (lines log).length - maxLines := by
      rw [hmiddle', List.length_take, min_eq_left hmiddle]
    rw [← hbefore, htail, ← homitted]
    refine .cut (hlog.trans (List.append_assoc _ _ _).symm) hlines ?_ ?_ ?_
    · rw [hbefore, List.length_take, min_eq_left hhead]
    · have htotal := congrArg List.length hlines
      have hbefore' := congrArg List.length hbefore
      rw [List.length_append, List.length_append, homitted] at htotal
      rw [List.length_take, min_eq_left hhead] at hbefore'
      omega
    · intro hempty
      rw [hempty, List.length_nil] at homitted
      omega

/-! ## The length of the result -/

lemma two_le_length_charMarker (n : ℕ) : 2 ≤ (charMarker n).length := by
  have hhead : "\n\n[... Truncated ".toList.length = 17 := rfl
  change 2 ≤ ("\n\n[... Truncated ".toList ++ Nat.toDigits 10 n ++
    " characters ...]\n\n".toList).length
  rw [List.length_append, List.length_append, hhead]
  omega

lemma length_truncateChars_of_lt {maxChars : ℕ} {text : List Char} (h : maxChars < text.length) :
    (truncateChars maxChars text).length =
      2 * (maxChars / 2) + (charMarker (text.length - maxChars)).length := by
  rw [truncateChars_of_lt h, List.length_append, List.length_append, List.length_take,
    List.length_drop]
  omega

lemma length_truncateChars_le (maxChars : ℕ) (text : List Char) :
    (truncateChars maxChars text).length ≤
      maxChars + (charMarker (text.length - maxChars)).length := by
  by_cases h : text.length ≤ maxChars
  · rw [truncateChars_of_le h]
    exact h.trans (Nat.le_add_right _ _)
  · rw [length_truncateChars_of_lt (Nat.lt_of_not_le h)]
    omega

/-! ## Truncating again -/

lemma count_newline_le_linesFrom (line text : List Char) :
    text.count '\n' ≤ (linesFrom line text).length := by
  induction text generalizing line with
  | nil => exact Nat.zero_le _
  | cons c text ih =>
    rw [linesFrom]
    by_cases hc : c = '\n'
    · rw [if_pos (show chr c = '\n' from hc), hc, List.count_cons_self, List.length_cons]
      exact Nat.succ_le_succ (ih [])
    · rw [if_neg (show ¬chr c = '\n' from hc), List.count_cons_of_ne hc]
      exact ih _

/-- Every newline ends a line. -/
lemma count_newline_le_lines (text : List Char) : text.count '\n' ≤ (lines text).length :=
  count_newline_le_linesFrom [] text

lemma length_le_count_newline_join (texts : List (List Char)) :
    texts.length ≤ (join "\n" texts).count '\n' + 1 := by
  induction texts with
  | nil => exact Nat.zero_le _
  | cons line texts ih =>
    cases texts with
    | nil => exact Nat.le_add_left 1 _
    | cons line' texts =>
      have hnewline : (lit '\n' : Char) = '\n' := rfl
      rw [join_cons_cons, List.count_append, hnewline, List.count_cons_self, List.length_cons]
      omega

lemma four_le_count_newline_lineMarker (n : ℕ) : 4 ≤ (lineMarker n).count '\n' := by
  have hhead : "\n\n[... Truncated ".toList.count '\n' = 2 := by decide
  have htail : " lines ...]\n\n".toList.count '\n' = 2 := by decide
  change 4 ≤ ("\n\n[... Truncated ".toList ++ Nat.toDigits 10 n ++
    " lines ...]\n\n".toList).count '\n'
  rw [List.count_append, List.count_append, hhead, htail]
  omega

/-- With the lines of the marker there are too many lines again. -/
lemma lt_length_lines_truncateLines {maxLines : ℕ} {log : List Char}
    (h : maxLines < (lines log).length) :
    maxLines < (lines (truncateLines maxLines log)).length := by
  refine Nat.lt_of_lt_of_le ?_ (count_newline_le_lines _)
  have hhead := length_le_count_newline_join ((lines log).take (maxLines / 2))
  have hmarker := four_le_count_newline_lineMarker ((lines log).length - maxLines)
  have htail := length_le_count_newline_join
    ((lines log).drop ((lines log).length - (maxLines - maxLines / 2)))
  rw [List.length_take] at hhead
  rw [List.length_drop] at htail
  rw [truncateLines_of_lt h, List.count_append, List.count_append]
  omega

lemma lt_length_truncateChars {maxChars : ℕ} {text : List Char} (h : maxChars < text.length) :
    maxChars < (truncateChars maxChars text).length := by
  have hmarker := two_le_length_charMarker (text.length - maxChars)
  rw [length_truncateChars_of_lt h]
  omega

lemma truncateImpl_of_within {maxLines maxChars : ℕ} {log : List Char}
    (h : Within maxLines maxChars log) : truncateImpl log maxLines maxChars = log := by
  rw [truncateImpl_eq, truncateLines_of_le h.1, truncateChars_of_le h.2]

/-- What was cut is beyond a limit again. -/
lemma not_within_truncateImpl {maxLines maxChars : ℕ} {log : List Char}
    (h : ¬Within maxLines maxChars log) :
    ¬Within maxLines maxChars (truncateImpl log maxLines maxChars) := by
  rw [truncateImpl_eq]
  rintro ⟨hlines, hchars⟩
  have hshown : (truncateLines maxLines log).length ≤ maxChars :=
    Nat.le_of_not_lt fun hlong => absurd hchars (Nat.not_le_of_lt (lt_length_truncateChars hlong))
  rw [truncateChars_of_le hshown] at hlines
  have hlog : (lines log).length ≤ maxLines :=
    Nat.le_of_not_lt fun hlong =>
      absurd hlines (Nat.not_le_of_lt (lt_length_lines_truncateLines hlong))
  rw [truncateLines_of_le hlog] at hshown
  exact h ⟨hlog, hshown⟩

/-- The same text around the marker, up to the number in it. -/
def SameEnds (marker : ℕ → List Char) (text text' : List Char) : Prop :=
  ∃ before after n n', text = before ++ marker n ++ after ∧ text' = before ++ marker n' ++ after

lemma take_append_append_left {α : Type} (before middle after : List α) :
    (before ++ middle ++ after).take before.length = before := by
  rw [List.append_assoc, List.take_left]

lemma drop_append_append_right {α : Type} (before middle after : List α) :
    (before ++ middle ++ after).drop ((before ++ middle ++ after).length - after.length) = after := by
  have hlength : (before ++ middle ++ after).length = (before ++ middle).length + after.length :=
    List.length_append
  rw [hlength, Nat.add_sub_cancel, List.drop_left]

lemma sameEnds_truncateChars {maxChars : ℕ} {text : List Char} (h : maxChars < text.length) :
    SameEnds charMarker (truncateChars maxChars text)
      (truncateChars maxChars (truncateChars maxChars text)) := by
  refine ⟨text.take (maxChars / 2), text.drop (text.length - maxChars / 2),
    text.length - maxChars, (truncateChars maxChars text).length - maxChars,
    truncateChars_of_lt h, (truncateChars_of_lt (lt_length_truncateChars h)).trans ?_⟩
  have hhead : (text.take (maxChars / 2)).length = maxChars / 2 := by
    rw [List.length_take]
    omega
  have htail : (text.drop (text.length - maxChars / 2)).length = maxChars / 2 := by
    rw [List.length_drop]
    omega
  have htake := take_append_append_left (text.take (maxChars / 2))
    (charMarker (text.length - maxChars)) (text.drop (text.length - maxChars / 2))
  have hdrop := drop_append_append_right (text.take (maxChars / 2))
    (charMarker (text.length - maxChars)) (text.drop (text.length - maxChars / 2))
  rw [hhead, ← truncateChars_of_lt h] at htake
  rw [htail, ← truncateChars_of_lt h] at hdrop
  rw [htake, hdrop]

def markerLine (n : ℕ) : List Char :=
  "[... Truncated ".toList ++ Nat.toDigits 10 n ++ " lines ...]".toList

lemma lineMarker_eq (n : ℕ) : lineMarker n = '\n' :: '\n' :: (markerLine n ++ ['\n', '\n']) := by
  have hhead : "\n\n[... Truncated ".toList = '\n' :: '\n' :: "[... Truncated ".toList := by decide
  have htail : " lines ...]\n\n".toList = " lines ...]".toList ++ ['\n', '\n'] := by decide
  change "\n\n[... Truncated ".toList ++ Nat.toDigits 10 n ++ " lines ...]\n\n".toList =
    '\n' :: '\n' :: (("[... Truncated ".toList ++ Nat.toDigits 10 n ++ " lines ...]".toList) ++ _)
  rw [hhead, htail]
  generalize "[... Truncated ".toList = before, " lines ...]".toList = after
  simp only [List.cons_append, List.append_assoc]

lemma onOneLine_markerLine (n : ℕ) : OnOneLine (markerLine n) := by
  have hbefore : '\n' ∉ "[... Truncated ".toList := by decide
  have hafter : '\n' ∉ " lines ...]".toList := by decide
  have hdigits : '\n' ∉ Nat.toDigits 10 n := Text.not_mem_toDigits rfl n
  rintro c hc rfl
  rcases List.mem_append.mp hc with hc | hc
  · rcases List.mem_append.mp hc with hc | hc
    · exact hbefore hc
    · exact hdigits hc
  · exact hafter hc

/-- The shown lines and the lines of the marker. -/
lemma join_markerLine {head tail : List (List Char)} (hhead : head ≠ []) (htail : tail ≠ [])
    (n : ℕ) :
    join "\n" head ++ lineMarker n ++ join "\n" tail =
      join "\n" (head ++ [[], markerLine n, []] ++ tail) := by
  have hmiddle : join "\n" [[], markerLine n, []] = '\n' :: (markerLine n ++ ['\n']) := by
    rw [join_cons_cons, join_cons_cons]
    rfl
  rw [List.append_assoc head, join_append hhead (by simp), join_append (by simp) htail, hmiddle,
    lineMarker_eq]
  have hnewline : (lit '\n' : Char) = '\n' := rfl
  simp only [List.cons_append, List.append_assoc, List.nil_append, hnewline]

/-- The lines that a truncation shows. -/
def keptLines (maxLines : ℕ) (log : List Char) : List (List Char) :=
  (lines log).take (maxLines / 2) ++
    (lines log).drop ((lines log).length - (maxLines - maxLines / 2))

/-- There is a line before and behind the marker, and they are read again as they are shown: none
ends in a carriage return, and the last is not empty. -/
structure ReadBack (maxLines : ℕ) (log : List Char) : Prop where
  two_le : 2 ≤ maxLines
  noReturn : ∀ line ∈ keptLines maxLines log, line.getLast? ≠ some '\r'
  last : (keptLines maxLines log).getLast? ≠ some []

lemma keptLines_ne_nil {maxLines : ℕ} {log : List Char} (h : maxLines < (lines log).length)
    (hread : ReadBack maxLines log) :
    (lines log).take (maxLines / 2) ≠ [] ∧
      (lines log).drop ((lines log).length - (maxLines - maxLines / 2)) ≠ [] := by
  have htwo := hread.two_le
  constructor
  · rw [← List.length_pos_iff, List.length_take]
    omega
  · rw [← List.length_pos_iff, List.length_drop]
    omega

lemma dropReturn_markerLine (n : ℕ) : dropReturn (markerLine n) = markerLine n := by
  refine dropReturn_eq ?_
  have hlast : " lines ...]".toList.getLast? = some ']' := by decide
  change ("[... Truncated ".toList ++ Nat.toDigits 10 n ++ " lines ...]".toList).getLast? ≠ _
  rw [List.getLast?_append, hlast, Option.some_or]
  decide

lemma lines_truncateLines {maxLines : ℕ} {log : List Char} (h : maxLines < (lines log).length)
    (hread : ReadBack maxLines log) :
    lines (truncateLines maxLines log) =
      (lines log).take (maxLines / 2) ++ [[], markerLine ((lines log).length - maxLines), []] ++
        (lines log).drop ((lines log).length - (maxLines - maxLines / 2)) := by
  obtain ⟨hhead, htail⟩ := keptLines_ne_nil h hread
  rw [truncateLines_of_lt h, join_markerLine hhead htail]
  have hreturn := hread.noReturn
  have hlast := hread.last
  have honeLine : ∀ line ∈ keptLines maxLines log, OnOneLine line := by
    intro line hline
    rcases List.mem_append.mp hline with hline | hline
    · exact onOneLine_of_mem_lines (List.mem_of_mem_take hline)
    · exact onOneLine_of_mem_lines (List.mem_of_mem_drop hline)
  rw [keptLines] at hreturn hlast honeLine
  generalize (lines log).take (maxLines / 2) = head at *
  generalize (lines log).drop ((lines log).length - (maxLines - maxLines / 2)) = tail at *
  generalize (lines log).length - maxLines = omitted
  obtain rfl | ⟨tail', last, rfl⟩ := List.eq_nil_or_concat' tail
  · exact absurd rfl htail
  · have hne : last ≠ [] := by
      rintro rfl
      rw [← List.append_assoc, List.getLast?_concat] at hlast
      exact hlast rfl
    have hmarker : ∀ line ∈ ([[], markerLine omitted, []] : List (List Char)),
        OnOneLine line ∧ dropReturn line = line := by
      intro line hline
      rcases List.mem_cons.mp hline with rfl | hline
      · exact ⟨fun g hg => absurd hg List.not_mem_nil, rfl⟩
      · rcases List.mem_cons.mp hline with rfl | hline
        · exact ⟨onOneLine_markerLine _, dropReturn_markerLine _⟩
        · rw [List.mem_singleton.mp hline]
          exact ⟨fun g hg => absurd hg List.not_mem_nil, rfl⟩
    have hall : ∀ line ∈ head ++ [[], markerLine omitted, []] ++ (tail' ++ [last]),
        OnOneLine line ∧ dropReturn line = line := by
      intro line hline
      rcases List.mem_append.mp hline with hline | hline
      · rcases List.mem_append.mp hline with hline | hline
        · have hmem := List.mem_append_left (tail' ++ [last]) hline
          exact ⟨honeLine line hmem, dropReturn_eq (hreturn line hmem)⟩
        · exact hmarker line hline
      · have hmem := List.mem_append_right head hline
        exact ⟨honeLine line hmem, dropReturn_eq (hreturn line hmem)⟩
    rw [← List.append_assoc] at hall ⊢
    rw [lines_join fun line hline => (hall line hline).1, if_neg (by simpa using hne)]
    refine congrArg (· ++ [last]) ?_
    rw [List.map_congr_left fun line hline => (hall line (List.mem_append_left _ hline)).2,
      List.map_id']

/-- Three lines are too many then, those of the marker. -/
lemma truncateLines_truncateLines {maxLines : ℕ} {log : List Char}
    (h : maxLines < (lines log).length) (hread : ReadBack maxLines log) :
    truncateLines maxLines (truncateLines maxLines log) =
      join "\n" ((lines log).take (maxLines / 2)) ++ lineMarker 3 ++
        join "\n" ((lines log).drop ((lines log).length - (maxLines - maxLines / 2))) := by
  rw [truncateLines_of_lt (lt_length_lines_truncateLines h)]
  have hhead : ((lines log).take (maxLines / 2)).length = maxLines / 2 := by
    rw [List.length_take]
    omega
  have htail : ((lines log).drop ((lines log).length - (maxLines - maxLines / 2))).length =
      maxLines - maxLines / 2 := by
    rw [List.length_drop]
    omega
  have hlines := lines_truncateLines h hread
  generalize (lines log).take (maxLines / 2) = head at hhead hlines ⊢
  generalize (lines log).drop ((lines log).length - (maxLines - maxLines / 2)) = tail
    at htail hlines ⊢
  have hthree : (lines (truncateLines maxLines log)).length - maxLines = 3 := by
    rw [hlines]
    simp only [List.length_append, List.length_cons, List.length_nil]
    omega
  rw [← hhead] at htail
  rw [hthree, hlines, ← hhead, ← htail, take_append_append_left, drop_append_append_right]

lemma sameEnds_truncateLines {maxLines : ℕ} {log : List Char} (h : maxLines < (lines log).length)
    (hread : ReadBack maxLines log) :
    SameEnds lineMarker (truncateLines maxLines log)
      (truncateLines maxLines (truncateLines maxLines log)) :=
  ⟨_, _, _, 3, truncateLines_of_lt h, truncateLines_truncateLines h hread⟩

lemma length_lineMarker_three_le (n : ℕ) : (lineMarker 3).length ≤ (lineMarker n).length := by
  have hthree : (Nat.toDigits 10 3).length = 1 := rfl
  have hdigits : 0 < (Nat.toDigits 10 n).length := List.length_pos_iff.mpr Nat.toDigits_ne_nil
  change ("\n\n[... Truncated ".toList ++ Nat.toDigits 10 3 ++ " lines ...]\n\n".toList).length ≤
    ("\n\n[... Truncated ".toList ++ Nat.toDigits 10 n ++ " lines ...]\n\n".toList).length
  rw [List.length_append, List.length_append, List.length_append, List.length_append, hthree]
  omega

lemma length_truncateLines_again_le {maxLines : ℕ} {log : List Char}
    (h : maxLines < (lines log).length) (hread : ReadBack maxLines log) :
    (truncateLines maxLines (truncateLines maxLines log)).length ≤
      (truncateLines maxLines log).length := by
  have hmarker := length_lineMarker_three_le ((lines log).length - maxLines)
  rw [truncateLines_truncateLines h hread, truncateLines_of_lt h, List.length_append,
    List.length_append, List.length_append, List.length_append]
  omega

/-! ## The whole truncation -/

/-- What becomes of a text. -/
structure Truncates (maxLines maxChars : ℕ) (log : List Char) : Prop where
  shows : ∃ shown, ShowsLines maxLines log shown ∧
    ShowsChars maxChars shown (truncateImpl log maxLines maxChars) ∧
    (truncateImpl log maxLines maxChars).length ≤
      maxChars + (charMarker (shown.length - maxChars)).length
  /-- A text within the limits is left alone, and so again and again. -/
  whole : Within maxLines maxChars log → truncateImpl log maxLines maxChars = log
  /-- Any other is cut again by another truncation. -/
  beyond : ¬Within maxLines maxChars log →
    ¬Within maxLines maxChars (truncateImpl log maxLines maxChars)
  /-- Where only characters have to go, the number in the marker is all that changes. -/
  againChars : (lines log).length ≤ maxLines →
    (lines (truncateImpl log maxLines maxChars)).length ≤ maxLines → maxChars < log.length →
    SameEnds charMarker (truncateImpl log maxLines maxChars)
      (truncateImpl (truncateImpl log maxLines maxChars) maxLines maxChars)
  /-- And where only lines have to go, and are read again as they are shown. -/
  againLines : maxLines < (lines log).length → ReadBack maxLines log →
    (truncateLines maxLines log).length ≤ maxChars →
    SameEnds lineMarker (truncateImpl log maxLines maxChars)
      (truncateImpl (truncateImpl log maxLines maxChars) maxLines maxChars)

lemma truncates_log (maxLines maxChars : ℕ) (log : List Char) :
    Truncates maxLines maxChars log where
  shows := by
    refine ⟨truncateLines maxLines log, showsLines_truncateLines maxLines log, ?_, ?_⟩
    · rw [truncateImpl_eq]
      exact showsChars_truncateChars maxChars _
    · rw [truncateImpl_eq]
      exact length_truncateChars_le maxChars _
  whole := truncateImpl_of_within
  beyond := not_within_truncateImpl
  againChars := by
    intro hlines hagain hchars
    rw [truncateImpl_eq log, truncateLines_of_le hlines] at hagain ⊢
    rw [truncateImpl_eq, truncateLines_of_le hagain]
    exact sameEnds_truncateChars hchars
  againLines := by
    intro hlines hread hchars
    rw [truncateImpl_eq log, truncateChars_of_le hchars, truncateImpl_eq,
      truncateChars_of_le ((length_truncateLines_again_le hlines hread).trans hchars)]
    exact sameEnds_truncateLines hlines hread

/-- When `read_file` says that a text was truncated, it is not the content of the file. -/
def FlagsCuts (fs : FileSystem) (c : Circumstances) (path : List Char) : Prop :=
  ∀ output content, readFile fs c path = .ok output → readToString fs c path = some content →
    output.result.truncated = true → output.result.output ≠ content

lemma flagsCuts (fs : FileSystem) (c : Circumstances) (path : List Char) :
    FlagsCuts fs c path := by
  intro output content hread hcontent hflag heq
  rw [readFile] at hread
  split at hread
  · cases hread
  · rw [hcontent] at hread
    obtain rfl := Except.ok.inj hread
    change (utf8Len (truncateToolOutput content) != utf8Len content) = true at hflag
    change truncateToolOutput content = content at heq
    rw [heq, bne_self_eq_false] at hflag
    exact Bool.false_ne_true hflag

/-- **Every truncation shows both ends of the text and is bounded**; and what `read_file` flags is
cut. -/
theorem truncates : (∀ maxLines maxChars log, Truncates maxLines maxChars log) ∧
    ∀ fs c path, FlagsCuts fs c path :=
  ⟨truncates_log, flagsCuts⟩

/-- A prefix and a suffix of the text around markers, or the text itself. -/
def AroundMarkers (log text : List Char) : Prop :=
  text = log ∨ ∃ before after, ∃ markers : List (List Char),
    before <+: log ∧ after <:+ log ∧ markers ≠ [] ∧
      (∀ marker ∈ markers, ∃ n, marker = lineMarker n ∨ marker = charMarker n) ∧
      text = before ++ markers.flatten ++ after

lemma getLast?_marker {marker : List Char} (h : ∃ n, marker = lineMarker n ∨ marker = charMarker n) :
    marker.getLast? = some '\n' := by
  have hlines : " lines ...]\n\n".toList.getLast? = some '\n' := by decide
  have hchars : " characters ...]\n\n".toList.getLast? = some '\n' := by decide
  obtain ⟨n, rfl | rfl⟩ := h
  · change ("\n\n[... Truncated ".toList ++ Nat.toDigits 10 n ++
      " lines ...]\n\n".toList).getLast? = _
    rw [List.getLast?_append, hlines, Option.some_or]
  · change ("\n\n[... Truncated ".toList ++ Nat.toDigits 10 n ++
      " characters ...]\n\n".toList).getLast? = _
    rw [List.getLast?_append, hchars, Option.some_or]

/-- The newline at the end of a text would be kept. -/
lemma AroundMarkers.getLast?_eq {log text : List Char} (h : AroundMarkers log text)
    (hlog : log.getLast? = some '\n') : text.getLast? = some '\n' := by
  rcases h with rfl | ⟨before, after, markers, -, ⟨cut, hcut⟩, hmarkers, hall, rfl⟩
  · exact hlog
  · rw [← hcut, List.getLast?_append] at hlog
    rw [List.getLast?_append]
    rcases hafter : after.getLast? with _ | c
    · obtain rfl | ⟨markers, marker, rfl⟩ := List.eq_nil_or_concat' markers
      · exact absurd rfl hmarkers
      · have hmarker := getLast?_marker (hall marker (by simp))
        rw [Option.none_or, List.flatten_append, List.flatten_singleton, List.getLast?_append,
          List.getLast?_append, hmarker, Option.some_or, Option.some_or]
    · rw [hafter, Option.some_or] at hlog
      rw [Option.some_or, hlog]

/-- Of three lines with a newline behind the last, two are kept: the newline is not, and the
truncation of the result has another number. -/
theorem not_aroundMarkers_threeLines :
    ¬AroundMarkers "a\nb\nc\n".toList (truncateImpl "a\nb\nc\n".toList 2 100) ∧
      truncateImpl (truncateImpl "a\nb\nc\n".toList 2 100) 2 100 ≠
        truncateImpl "a\nb\nc\n".toList 2 100 := by
  have hresult : truncateImpl "a\nb\nc\n".toList 2 100 =
      "a\n\n[... Truncated 1 lines ...]\n\nc".toList := by decide +kernel
  rw [hresult]
  constructor
  · intro haround
    have hlast := haround.getLast?_eq (by decide)
    revert hlast
    decide
  · decide +kernel

end RustyClaw.Files
