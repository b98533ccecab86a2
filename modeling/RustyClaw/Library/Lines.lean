import RustyClaw.Library.Glyph

/-!
# Texts put together from lines and numbers

Lines that were joined are found again, but for a carriage return at the end of a line and an empty
last line (`lines_join`).  A literal with a number in it tells the number (`str_number_inj`).
-/

namespace Glyph

variable {χ : Type} [Glyph χ]

/-! ## Lines -/

def OnOneLine (line : List χ) : Prop := ∀ g ∈ line, chr g ≠ '\n'

lemma OnOneLine.sublist {line line' : List χ} (h : OnOneLine line) (hsub : line'.Sublist line) :
    OnOneLine line' := fun g hg => h g (hsub.subset hg)

lemma dropReturn_sublist (line : List χ) : (dropReturn line).Sublist line := by
  unfold dropReturn
  split
  · split_ifs
    · exact List.dropLast_sublist line
    · exact List.Sublist.refl line
  · exact List.Sublist.refl line

/-- A line that does not end with a carriage return is left as it is. -/
lemma dropReturn_eq {line : List Char} (h : line.getLast? ≠ some '\r') : dropReturn line = line := by
  rw [dropReturn]
  rcases hlast : line.getLast? with _ | c
  · rfl
  · dsimp only
    rw [hlast] at h
    exact if_neg fun hc => h (congrArg some hc)

lemma onOneLine_of_mem_linesFrom {line s text : List χ} (hline : OnOneLine line)
    (h : text ∈ linesFrom line s) : OnOneLine text := by
  induction s generalizing line with
  | nil =>
    simp only [linesFrom] at h
    split_ifs at h
    · exact absurd h List.not_mem_nil
    · rw [List.mem_singleton] at h
      exact h ▸ hline
  | cons g s ih =>
    simp only [linesFrom] at h
    split_ifs at h with hnewline
    · rcases List.mem_cons.mp h with rfl | h
      · exact hline.sublist (dropReturn_sublist line)
      · exact ih (fun g hg => absurd hg List.not_mem_nil) h
    · refine ih (fun g' hg' => ?_) h
      rcases List.mem_append.mp hg' with hg' | hg'
      · exact hline g' hg'
      · rw [List.mem_singleton] at hg'
        exact hg' ▸ hnewline

lemma onOneLine_of_mem_lines {s text : List χ} (h : text ∈ lines s) : OnOneLine text :=
  onOneLine_of_mem_linesFrom (fun _ hg => absurd hg List.not_mem_nil) h

lemma linesFrom_onOneLine {line s : List χ} (h : OnOneLine s) :
    linesFrom line s = if (line ++ s).isEmpty then [] else [line ++ s] := by
  induction s generalizing line with
  | nil => rw [List.append_nil, linesFrom]
  | cons g s ih =>
    rw [linesFrom, if_neg (h g List.mem_cons_self),
      ih fun g' hg' => h g' (List.mem_cons_of_mem g hg'), List.append_assoc]
    rfl

/-- A last line is no line when it is empty. -/
lemma lines_onOneLine {line : List χ} (h : OnOneLine line) :
    lines line = if line.isEmpty then [] else [line] := linesFrom_onOneLine h

lemma join_cons_cons (line line' : List χ) (rest : List (List χ)) :
    join "\n" (line :: line' :: rest) = line ++ lit '\n' :: join "\n" (line' :: rest) := by
  rw [join, List.intercalate_cons_cons, List.append_assoc]
  rfl

lemma join_append {before after : List (List χ)} (hbefore : before ≠ []) (hafter : after ≠ []) :
    join "\n" (before ++ after) = join "\n" before ++ lit '\n' :: join "\n" after := by
  induction before with
  | nil => exact absurd rfl hbefore
  | cons line before ih =>
    obtain ⟨first, after, rfl⟩ := List.exists_cons_of_ne_nil hafter
    cases before with
    | nil =>
      rw [List.singleton_append, join_cons_cons, join, join, List.intercalate_singleton]
    | cons line' before =>
      rw [List.cons_append, List.cons_append, join_cons_cons, ← List.cons_append,
        ih (List.cons_ne_nil _ _), join_cons_cons, List.append_assoc]
      rfl

/-- What the lines of a joined text are. -/
lemma lines_join {before : List (List χ)} {last : List χ}
    (h : ∀ line ∈ before ++ [last], OnOneLine line) :
    lines (join "\n" (before ++ [last])) =
      before.map dropReturn ++ if last.isEmpty then [] else [last] := by
  induction before with
  | nil =>
    rw [List.nil_append, join, List.intercalate_singleton, lines_onOneLine (h last (by simp))]
    rfl
  | cons line before ih =>
    obtain ⟨first, rest, hrest⟩ := List.exists_cons_of_ne_nil
      (show before ++ [last] ≠ [] by simp)
    have hjoin : join "\n" (line :: before ++ [last]) =
        line ++ lit '\n' :: join "\n" (before ++ [last]) := by
      rw [List.cons_append, hrest, join_cons_cons]
    rw [hjoin, lines, linesFrom_line (h line (by simp)) (chr_lit '\n'), List.nil_append, ← lines,
      ih fun line' hmem => h line' (List.mem_cons_of_mem line hmem)]
    rfl

lemma exists_split_linesFrom {line s : List χ} {i : ℕ} (h : i < (linesFrom line s).length) :
    ∃ before after, s = before ++ after ∧
      linesFrom line before = (linesFrom line s).take (i + 1) ∧
      lines after = (linesFrom line s).drop (i + 1) := by
  induction s generalizing line i with
  | nil =>
    refine ⟨[], [], rfl, ?_, ?_⟩
    · rw [List.take_of_length_le]
      rw [linesFrom]
      split_ifs <;> simp
    · rw [List.drop_of_length_le]
      · rfl
      · rw [linesFrom]
        split_ifs <;> simp
  | cons g s ih =>
    rw [linesFrom] at h ⊢
    split_ifs at h ⊢ with hnewline
    · cases i with
      | zero => exact ⟨[g], s, rfl, by simp [linesFrom, hnewline], rfl⟩
      | succ i =>
        obtain ⟨before, after, rfl, hbefore, hafter⟩ := ih (Nat.lt_of_succ_lt_succ h)
        refine ⟨g :: before, after, rfl, ?_, hafter⟩
        rw [linesFrom, if_pos hnewline, hbefore, List.take_succ_cons]
    · obtain ⟨before, after, rfl, hbefore, hafter⟩ := ih h
      refine ⟨g :: before, after, rfl, ?_, hafter⟩
      rw [linesFrom, if_neg hnewline, hbefore]

/-- A text can be cut behind each of its lines. -/
lemma exists_split_lines {s : List χ} {i : ℕ} (h : i ≤ (lines s).length) :
    ∃ before after, s = before ++ after ∧ lines before = (lines s).take i ∧
      lines after = (lines s).drop i := by
  cases i with
  | zero => exact ⟨[], s, rfl, rfl, rfl⟩
  | succ i => exact exists_split_linesFrom h

lemma OnOneLine.append_inj {line line' rest rest' : List χ} (h : OnOneLine line)
    (h' : OnOneLine line') (heq : line ++ lit '\n' :: rest = line' ++ lit '\n' :: rest') :
    line = line' ∧ rest = rest' := by
  induction line generalizing line' with
  | nil =>
    cases line' with
    | nil => exact ⟨rfl, (List.cons.inj heq).2⟩
    | cons g line' =>
      obtain ⟨rfl, -⟩ := List.cons.inj heq
      exact absurd (chr_lit '\n') (h' _ List.mem_cons_self)
  | cons g line ih =>
    cases line' with
    | nil =>
      obtain ⟨rfl, -⟩ := List.cons.inj heq
      exact absurd (chr_lit '\n') (h _ List.mem_cons_self)
    | cons g' line' =>
      obtain ⟨rfl, htail⟩ := List.cons.inj heq
      obtain ⟨rfl, hrest⟩ := ih (fun g hg => h g (List.mem_cons_of_mem _ hg))
        (fun g hg => h' g (List.mem_cons_of_mem _ hg)) htail
      exact ⟨rfl, hrest⟩

/-- Joined lines are the same only when every line is. -/
lemma join_inj {texts texts' : List (List χ)} (h : ∀ line ∈ texts, OnOneLine line)
    (h' : ∀ line ∈ texts', OnOneLine line) (hlength : texts.length = texts'.length)
    (heq : join "\n" texts = join "\n" texts') : texts = texts' := by
  induction texts generalizing texts' with
  | nil => exact (List.length_eq_zero_iff.mp hlength.symm).symm
  | cons line rest ih =>
    obtain ⟨line', rest', rfl⟩ : ∃ line' rest', texts' = line' :: rest' :=
      List.exists_cons_of_length_eq_add_one hlength.symm
    have hrest := Nat.succ.inj hlength
    cases rest with
    | nil =>
      obtain rfl : rest' = [] := List.length_eq_zero_iff.mp hrest.symm
      simpa [join] using heq
    | cons second rest =>
      obtain ⟨second', rest', rfl⟩ : ∃ second' rest'', rest' = second' :: rest'' :=
        List.exists_cons_of_length_eq_add_one hrest.symm
      rw [join_cons_cons, join_cons_cons] at heq
      obtain ⟨hline, hjoin⟩ := (h line List.mem_cons_self).append_inj (h' line' List.mem_cons_self) heq
      rw [hline, ih (fun line hmem => h line (List.mem_cons_of_mem _ hmem))
        (fun line hmem => h' line (List.mem_cons_of_mem _ hmem)) hrest hjoin]

/-! ## Numbers -/

lemma str_injective : Function.Injective (str : String → List χ) := by
  intro literal literal' h
  have hchars := congrArg chars h
  rw [chars_str, chars_str, str_char, str_char] at hchars
  exact String.ext hchars

/-- A text with a number in it. -/
lemma str_number (before after : String) (n : Nat) :
    (str (before ++ toString n ++ after) : List χ) =
      str before ++ (Nat.toDigits 10 n).map lit ++ str after := by
  rw [str, String.toList_append, String.toList_append, Nat.toString_eq_repr, Nat.toList_repr,
    List.map_append, List.map_append]
  rfl

/-- The number in a text can be told from it. -/
lemma str_number_inj {before after : String} {n n' : Nat}
    (h : (str (before ++ toString n ++ after) : List χ) = str (before ++ toString n' ++ after)) :
    n = n' := by
  have hlist := congrArg String.toList (str_injective h)
  rw [String.toList_append, String.toList_append, String.toList_append, String.toList_append] at hlist
  have hdigits := List.append_cancel_left (List.append_cancel_right hlist)
  rw [Nat.toString_eq_repr, Nat.toString_eq_repr, Nat.toList_repr, Nat.toList_repr] at hdigits
  exact Text.toDigits_injective hdigits

lemma onOneLine_str {literal : String} (h : '\n' ∉ literal.toList) :
    OnOneLine (str literal : List χ) := by
  intro g hg
  obtain ⟨c, hc, rfl⟩ := List.mem_map.mp hg
  rw [chr_lit]
  exact fun heq => h (heq ▸ hc)

lemma onOneLine_number {before after : String} (hbefore : '\n' ∉ before.toList)
    (hafter : '\n' ∉ after.toList) (n : Nat) :
    OnOneLine (str (before ++ toString n ++ after) : List χ) := by
  intro g hg
  rw [str_number] at hg
  rcases List.mem_append.mp hg with hg | hg
  · rcases List.mem_append.mp hg with hg | hg
    · exact onOneLine_str hbefore g hg
    · intro heq
      have hdigit := isDigit_of_mem_digits hg
      rw [heq] at hdigit
      exact absurd hdigit (by decide)
  · exact onOneLine_str hafter g hg

lemma utf8Size_of_isDigit {c : Char} (h : c.isDigit = true) : c.utf8Size = 1 := by
  have hle : c.toNat ≤ '9'.toNat := (Char.isDigit_iff_toNat.mp h).2
  exact Char.utf8Size_eq_one_iff.mpr (UInt32.le_iff_toNat_le.mpr (hle.trans (by decide)))

/-- A number takes a byte for each digit. -/
lemma utf8Len_number (before after : String) (n : Nat) :
    utf8Len (str (before ++ toString n ++ after) : List χ) =
      utf8Len (str before : List χ) + (Nat.toDigits 10 n).length +
        utf8Len (str after : List χ) := by
  have hdigits : ((Nat.toDigits 10 n).map (lit : Char → χ)).map (fun g => (chr g).utf8Size) =
      List.replicate (Nat.toDigits 10 n).length 1 := by
    rw [List.eq_replicate_iff, List.length_map, List.length_map]
    refine ⟨rfl, fun size hsize => ?_⟩
    obtain ⟨g, hg, rfl⟩ := List.mem_map.mp hsize
    exact utf8Size_of_isDigit (isDigit_of_mem_digits hg)
  rw [str_number, utf8Len, List.map_append, List.map_append, List.sum_append, List.sum_append,
    hdigits, List.sum_replicate_nat, Nat.mul_one]
  rfl

end Glyph
