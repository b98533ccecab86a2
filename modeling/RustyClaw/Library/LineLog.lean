import RustyClaw.Library.Lines
import RustyClaw.Library.TextFile

/-!
# A log with a line for each item

Items are appended to a file, each as its text and a newline.  An append that fails or is given up
leaves the first bytes of its line in the file, and the next one goes on right behind them, on the
same line.  The reader takes the file line by line and passes over the lines that it cannot read.

`readAll_content` says what it finds: nothing at all when an append has ended inside of a character,
and otherwise the items whose text is complete and alone on its line.  `length_le_survivors` counts
what is lost: an append that does not end its line costs at most its own item and the next one.
-/

namespace LineLog

open Glyph Utf8

variable {α β : Type}

/-- The text of an item, and what a reader makes of a line. -/
structure Format (α β : Type) where
  text : α → List Char
  read : List Char → Option β
  text_ne_nil : ∀ a, text a ≠ []
  onOneLine : ∀ a, OnOneLine (text a)
  getLast?_ne : ∀ a, (text a).getLast? ≠ some '\r'
  eq_of_isPrefix : ∀ a b, text a <+: text b → text a = text b
  read_nil : read [] = none
  /-- Texts on one line, the last of them possibly cut, are not read. -/
  read_torn : ∀ pieces, pieces ≠ [] → (∀ piece ∈ pieces, piece ≠ [] ∧ ∃ a, piece <+: text a) →
    (∀ a, pieces ≠ [text a]) → read pieces.flatten = none

/-- An item that is appended, and how many bytes of its line get into the file. -/
structure Entry (α : Type) where
  item : α
  written : ℕ

namespace Format

variable (f : Format α β)

/-- The line of an item, with its end. -/
def line (a : α) : List UInt8 := encode (f.text a ++ ['\n'])

def bytes (a : Entry α) : List UInt8 := (f.line a.item).take a.written

/-- What is in the file after all the appends. -/
def content (entries : List (Entry α)) : List UInt8 := entries.flatMap f.bytes

/-- All lines of a file that can be read; there are none when the file is not UTF-8. -/
def readAll (content : List UInt8) : Option (List β) :=
  (decode content).map fun text => (lines text).filterMap f.read

/-- The end of the line has been written. -/
def whole (a : Entry α) : Bool := (encode (f.text a.item)).length < a.written

/-- The text has been written, with or without the end of the line. -/
def complete (a : Entry α) : Bool := (encode (f.text a.item)).length ≤ a.written

/-- The append ended inside of a character. -/
def splits (a : Entry α) : Bool := (decode (f.bytes a)).isNone

/-- The items whose text is alone on its line, when what comes before them ends with a line or
not. -/
def survivors (clean : Bool) : List (Entry α) → List α
  | [] => []
  | a :: later =>
    if a.written = 0 then survivors clean later
    else if f.whole a then
      if clean then a.item :: survivors true later else survivors true later
    else if clean && f.complete a && later.all (·.written = 0) then [a.item]
    else survivors false later

/-! ## What an append leaves -/

variable {f} {a : Entry α} {entries later : List (Entry α)}

/-- The characters that an append leaves. -/
def kept (f : Format α β) (a : Entry α) : List Char := lossy (f.bytes a)

lemma length_line (item : α) : (f.line item).length = (encode (f.text item)).length + 1 := by
  rw [line, encode_append, List.length_append]
  rfl

lemma bytes_eq (h : f.splits a = false) : f.bytes a = encode (f.kept a) := by
  rw [splits, Option.isNone_eq_false_iff, Option.isSome_iff_exists] at h
  obtain ⟨text, htext⟩ := h
  have hbytes := decode_eq_some_iff.mp htext
  rw [kept, hbytes, lossy_encode]

lemma kept_of_silent (h : a.written = 0) : f.kept a = [] := by
  rw [kept, bytes, h, List.take_zero, lossy_nil]

lemma kept_of_whole (h : f.whole a = true) : f.kept a = f.text a.item ++ ['\n'] := by
  have hlength : (f.line a.item).length ≤ a.written := by
    rw [length_line]
    exact of_decide_eq_true h
  rw [kept, bytes, List.take_of_length_le hlength, line, lossy_encode]

lemma kept_ne_nil (hsplits : f.splits a = false) (h : a.written ≠ 0) : f.kept a ≠ [] := by
  intro hnil
  have hbytes := bytes_eq hsplits
  rw [hnil, encode_nil, bytes, List.take_eq_nil_iff] at hbytes
  rcases hbytes with hzero | hline
  · exact h hzero
  · have hlength := length_line (f := f) a.item
    rw [hline] at hlength
    cases hlength

/-- An append that does not end its line leaves a beginning of the text. -/
lemma kept_prefix (hsplits : f.splits a = false) (h : f.whole a = false) :
    f.kept a <+: f.text a.item := by
  have hle : a.written ≤ (encode (f.text a.item)).length := not_lt.mp (of_decide_eq_false h)
  apply prefix_of_encode
  rw [← bytes_eq hsplits, bytes, line, encode_append, List.take_append_of_le_length hle]
  exact List.take_prefix _ _

lemma kept_eq_iff (hsplits : f.splits a = false) (h : f.whole a = false) :
    f.kept a = f.text a.item ↔ f.complete a = true := by
  have hle : a.written ≤ (encode (f.text a.item)).length := not_lt.mp (of_decide_eq_false h)
  have hlength : (encode (f.kept a)).length = a.written := by
    rw [← bytes_eq hsplits, bytes, List.length_take, length_line]
    omega
  rw [complete, decide_eq_true_eq]
  constructor
  · intro heq
    rw [heq] at hlength
    exact hlength.le
  · intro hcomplete
    have hwritten : a.written = (encode (f.text a.item)).length := le_antisymm hle hcomplete
    apply encode_injective
    rw [← bytes_eq hsplits, bytes, line, encode_append, List.take_append_of_le_length hle, hwritten,
      List.take_length]

/-! ## What is on the lines -/

lemma linesFrom_append {line text rest : List Char} (h : OnOneLine text) :
    linesFrom line (text ++ rest) = linesFrom (line ++ text) rest := by
  induction text generalizing line with
  | nil => rw [List.append_nil, List.nil_append]
  | cons g text ih =>
    rw [List.cons_append, linesFrom, if_neg (h g List.mem_cons_self),
      ih fun g' hg' => h g' (List.mem_cons_of_mem g hg'), List.append_assoc]
    rfl

/-- Texts on one line, none of which is empty; not a single one that is whole. -/
structure Torn (f : Format α β) (pieces : List (List Char)) : Prop where
  ne_nil : pieces ≠ []
  piece : ∀ piece ∈ pieces, piece ≠ [] ∧ ∃ a, piece <+: f.text a
  not_single : ∀ a, pieces ≠ [f.text a]

variable {pieces : List (List Char)} {last : List Char}

lemma read_torn_eq_none (h : Torn f pieces) : f.read pieces.flatten = none :=
  f.read_torn pieces h.ne_nil h.piece h.not_single

/-- Another piece behind at least one. -/
lemma torn_concat (hne : pieces ≠ [])
    (h : ∀ piece ∈ pieces ++ [last], piece ≠ [] ∧ ∃ a, piece <+: f.text a) :
    Torn f (pieces ++ [last]) where
  ne_nil := by simp
  piece := h
  not_single a heq := by
    have hlength := congrArg List.length heq
    rw [List.length_append, List.length_singleton, List.length_singleton] at hlength
    exact hne (List.length_eq_zero_iff.mp (Nat.succ.inj hlength))

lemma dropReturn_append_text (line : List Char) (item : α) :
    dropReturn (line ++ f.text item) = line ++ f.text item := by
  apply dropReturn_eq
  rw [List.getLast?_append_of_ne_nil _ (f.text_ne_nil item)]
  exact f.getLast?_ne item

/-- A text of which the end is missing is not the text of another item either. -/
lemma torn_of_incomplete (hsplits : f.splits a = false) (hwritten : a.written ≠ 0)
    (hwhole : f.whole a = false) (hcomplete : f.complete a = false) : Torn f [f.kept a] where
  ne_nil := List.cons_ne_nil _ _
  piece piece hpiece := by
    rw [List.mem_singleton] at hpiece
    exact hpiece ▸ ⟨kept_ne_nil hsplits hwritten, a.item, kept_prefix hsplits hwhole⟩
  not_single b heq := by
    have hprefix := kept_prefix hsplits hwhole
    have hkept : f.kept a = f.text b := List.head_eq_of_cons_eq heq
    rw [hkept] at hprefix
    have hitem := (kept_eq_iff hsplits hwhole).mp (hkept.trans (f.eq_of_isPrefix b a.item hprefix))
    rw [hcomplete] at hitem
    cases hitem

/-- The survivors of a log without split characters, when it goes on behind a line and when it goes
on behind pieces that cannot be read or to which something is added. -/
lemma filterMap_linesFrom (hsplits : ∀ a ∈ entries, f.splits a = false) :
    ((linesFrom [] (entries.flatMap f.kept)).filterMap f.read =
      (f.survivors true entries).filterMap fun item => f.read (f.text item)) ∧
    ∀ pieces, pieces ≠ [] → (∀ piece ∈ pieces, piece ≠ [] ∧ ∃ a, piece <+: f.text a) →
      (Torn f pieces ∨ ∃ a ∈ entries, a.written ≠ 0) →
      (linesFrom pieces.flatten (entries.flatMap f.kept)).filterMap f.read =
        (f.survivors false entries).filterMap fun item => f.read (f.text item) := by
  induction entries with
  | nil =>
    refine ⟨rfl, fun pieces hne hpieces htorn => ?_⟩
    have htorn := htorn.resolve_right (by simp)
    rw [List.flatMap_nil, linesFrom]
    split_ifs
    · rfl
    · rw [List.filterMap_cons, read_torn_eq_none htorn]
      rfl
  | cons a later ih =>
    have hsplit := hsplits a List.mem_cons_self
    obtain ⟨hclean, hbehind⟩ := ih fun b hb => hsplits b (List.mem_cons_of_mem a hb)
    rw [List.flatMap_cons]
    by_cases hsilent : a.written = 0
    · rw [kept_of_silent hsilent, List.nil_append, survivors, survivors, if_pos hsilent,
        if_pos hsilent]
      refine ⟨hclean, fun pieces hne hpieces htorn => hbehind pieces hne hpieces ?_⟩
      simpa [hsilent] using htorn
    rw [survivors, survivors, if_neg hsilent, if_neg hsilent]
    by_cases hwhole : f.whole a = true
    · -- the line is ended, and what comes next goes on behind it
      have hline : ∀ line, linesFrom line (f.kept a ++ later.flatMap f.kept) =
          (line ++ f.text a.item) :: linesFrom [] (later.flatMap f.kept) := by
        intro line
        rw [kept_of_whole hwhole, List.append_assoc, List.singleton_append,
          linesFrom_line (g := '\n') (f.onOneLine a.item) rfl, dropReturn_append_text]
      rw [hline, if_pos hwhole, if_pos rfl, List.filterMap_cons, List.filterMap_cons, hclean,
        List.nil_append]
      refine ⟨rfl, fun pieces hne hpieces _ => ?_⟩
      have htorn : Torn f (pieces ++ [f.text a.item]) := by
        refine torn_concat hne fun piece hpiece => ?_
        rcases List.mem_append.mp hpiece with hpiece | hpiece
        · exact hpieces piece hpiece
        · rw [List.mem_singleton] at hpiece
          exact hpiece ▸ ⟨f.text_ne_nil a.item, a.item, List.prefix_rfl⟩
      have hread := read_torn_eq_none htorn
      rw [List.flatten_append, List.flatten_singleton] at hread
      rw [hline, if_pos hwhole, if_neg Bool.false_ne_true, List.filterMap_cons, hread]
      exact hclean
    · -- the line goes on
      rw [Bool.not_eq_true] at hwhole
      have hprefix := kept_prefix hsplit hwhole
      have hkept := kept_ne_nil hsplit hsilent
      have hone : OnOneLine (f.kept a) := (f.onOneLine a.item).sublist hprefix.sublist
      rw [linesFrom_append hone, hwhole, if_neg Bool.false_ne_true, if_neg Bool.false_ne_true,
        List.nil_append]
      constructor
      · split_ifs with hlast
        · -- the text is complete, and nothing else gets on its line
          simp only [Bool.and_eq_true, List.all_eq_true, decide_eq_true_eq, true_and] at hlast
          obtain ⟨hcomplete, hsilent⟩ := hlast
          have hrest : later.flatMap f.kept = [] := by
            rw [List.flatMap_eq_nil_iff]
            exact fun b hb => kept_of_silent (hsilent b hb)
          rw [hrest, linesFrom, if_neg (by simpa using hkept), (kept_eq_iff hsplit hwhole).mpr hcomplete]
          rfl
        · have hnext := hbehind [f.kept a] (List.cons_ne_nil _ _) ?_ ?_
          · rwa [List.flatten_singleton] at hnext
          · intro piece hpiece
            rw [List.mem_singleton] at hpiece
            exact hpiece ▸ ⟨hkept, a.item, hprefix⟩
          · by_cases hcomplete : f.complete a = true
            · right
              simpa [hcomplete] using hlast
            · rw [Bool.not_eq_true] at hcomplete
              exact .inl (torn_of_incomplete hsplit hsilent hwhole hcomplete)
      · intro pieces hne hpieces _
        have hall : ∀ piece ∈ pieces ++ [f.kept a], piece ≠ [] ∧ ∃ a, piece <+: f.text a := by
          intro piece hpiece
          rcases List.mem_append.mp hpiece with hpiece | hpiece
          · exact hpieces piece hpiece
          · rw [List.mem_singleton] at hpiece
            exact hpiece ▸ ⟨hkept, a.item, hprefix⟩
        have hnext := hbehind (pieces ++ [f.kept a]) (by simp) hall (.inl (torn_concat hne hall))
        rw [List.flatten_append, List.flatten_singleton] at hnext
        rw [linesFrom_append hone, if_neg (by simp)]
        exact hnext

/-! ## What is found in the file -/

lemma encode_flatMap {γ : Type} (g : γ → List Char) (items : List γ) :
    encode (items.flatMap g) = items.flatMap fun item => encode (g item) := by
  induction items with
  | nil => rfl
  | cons item items ih => rw [List.flatMap_cons, encode_append, ih, List.flatMap_cons]

/-- No append begins inside of a character. -/
lemma not_startsInside_bytes (a : Entry α) : ¬StartsInside (f.bytes a) := by
  rintro ⟨b, hhead, hb⟩
  have hline : (f.line a.item).head? = some b := by
    rw [bytes, List.head?_take] at hhead
    split_ifs at hhead
    exact hhead
  obtain ⟨c, text, htext⟩ := List.exists_cons_of_ne_nil (f.text_ne_nil a.item)
  obtain ⟨b', continuation, hc, hb', -⟩ := utf8EncodeChar_eq c
  rw [line, htext, List.cons_append, encode_cons, hc, List.cons_append, List.head?_cons,
    Option.some_inj] at hline
  exact hb' (hline ▸ hb)

lemma exists_encode_of_mem {pieces : List (List UInt8)} {text : List Char}
    (hflatten : pieces.flatten = encode text) (h : ∀ piece ∈ pieces, ¬StartsInside piece) :
    ∀ piece ∈ pieces, ∃ text, piece = encode text := by
  induction pieces generalizing text with
  | nil => exact fun piece hpiece => absurd hpiece List.not_mem_nil
  | cons first pieces ih =>
    have hpieces : ∀ piece ∈ pieces, ¬StartsInside piece :=
      fun piece hpiece => h piece (List.mem_cons_of_mem _ hpiece)
    rw [List.flatten_cons] at hflatten
    obtain ⟨text₁, text₂, -, hfirst, hrest⟩ :=
      exists_encode_of_append hflatten (not_startsInside_flatten hpieces)
    intro piece hpiece
    rcases List.mem_cons.mp hpiece with rfl | hpiece
    · exact ⟨text₁, hfirst⟩
    · exact ih hrest hpieces piece hpiece

/-- A character that has been split makes the whole file unreadable. -/
lemma decode_content_eq_none (ha : a ∈ entries) (h : f.splits a = true) :
    decode (f.content entries) = none := by
  by_contra hsome
  obtain ⟨text, htext⟩ := Option.ne_none_iff_exists'.mp hsome
  have hflatten : (entries.map f.bytes).flatten = encode text := by
    rw [← List.flatMap_def]
    exact decode_eq_some_iff.mp htext
  have hpieces : ∀ piece ∈ entries.map f.bytes, ¬StartsInside piece := by
    intro piece hpiece
    obtain ⟨b, -, rfl⟩ := List.mem_map.mp hpiece
    exact not_startsInside_bytes b
  obtain ⟨kept, hkept⟩ := exists_encode_of_mem hflatten hpieces _ (List.mem_map_of_mem ha)
  rw [splits, hkept, decode_encode] at h
  cases h

lemma decode_content (h : ∀ a ∈ entries, f.splits a = false) :
    decode (f.content entries) = some (entries.flatMap f.kept) := by
  rw [decode_eq_some_iff, encode_flatMap, content]
  exact List.flatMap_congr fun a ha => bytes_eq (h a ha)

/-- **Reading a log of which every append may have been cut.** -/
theorem readAll_content (entries : List (Entry α)) :
    f.readAll (f.content entries) =
      if entries.any f.splits then none
      else some ((f.survivors true entries).filterMap fun item => f.read (f.text item)) := by
  split_ifs with hany
  · obtain ⟨a, ha, hsplits⟩ := List.any_eq_true.mp hany
    rw [readAll, decode_content_eq_none ha hsplits]
    rfl
  · have hsplits : ∀ a ∈ entries, f.splits a = false := by
      rw [Bool.not_eq_true, List.any_eq_false] at hany
      exact fun a ha => Bool.not_eq_true _ ▸ hany a ha
    rw [readAll, decode_content hsplits, Option.map_some, lines, (filterMap_linesFrom hsplits).1]

/-- An append that does not end its line costs at most its own item and the next one. -/
theorem length_le_survivors (entries : List (Entry α)) (clean : Bool) :
    entries.length ≤ (f.survivors clean entries).length +
      2 * entries.countP (fun a => !f.whole a) + if clean then 0 else 1 := by
  induction entries generalizing clean with
  | nil => exact Nat.zero_le _
  | cons a later ih =>
    have hclean := ih true
    have hbehind := ih false
    rw [if_pos rfl] at hclean
    rw [if_neg Bool.false_ne_true] at hbehind
    rw [List.length_cons, survivors]
    by_cases hwhole : f.whole a = true
    · have hwritten : a.written ≠ 0 := by
        have hlt : _ < a.written := of_decide_eq_true hwhole
        omega
      rw [if_neg hwritten, if_pos hwhole, List.countP_cons_of_neg (by simpa using hwhole)]
      cases clean with
      | true =>
        rw [if_pos rfl, if_pos rfl, List.length_cons]
        omega
      | false =>
        rw [if_neg Bool.false_ne_true, if_neg Bool.false_ne_true]
        omega
    · have hclean' := ih clean
      rw [if_neg hwhole, List.countP_cons_of_pos (by simpa using hwhole)]
      cases clean with
      | true =>
        rw [if_pos rfl] at hclean' ⊢
        split_ifs with hsilent hlast
        · omega
        · -- nothing that comes later is whole
          have hcount : later.countP (fun a => !f.whole a) = later.length := by
            rw [List.countP_eq_length]
            intro b hb
            simp only [Bool.and_eq_true, List.all_eq_true, decide_eq_true_eq] at hlast
            simp [whole, hlast.2 b hb]
          rw [List.length_singleton]
          omega
        · omega
      | false =>
        simp only [Bool.false_and, Bool.false_eq_true, if_false] at hclean' ⊢
        split_ifs with hsilent
        · omega
        · omega

/-- What is found is in the order in which it was appended, and nothing is found twice. -/
theorem survivors_sublist (entries : List (Entry α)) (clean : Bool) :
    (f.survivors clean entries).Sublist (entries.map Entry.item) := by
  induction entries generalizing clean with
  | nil => exact List.Sublist.refl _
  | cons a later ih =>
    rw [survivors, List.map_cons]
    split_ifs
    · exact (ih clean).cons _
    · exact (ih true).cons_cons _
    · exact (ih true).cons _
    · exact (List.nil_sublist _).cons_cons _
    · exact (ih false).cons _

end Format

end LineLog
