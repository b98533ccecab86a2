import RustyClaw.Library.ByteOffset

/-!
# The output of a shell command, as it comes

In stream mode the chunks of a command's output are passed on until a limit in bytes is reached; a
notice then says that the rest is left out.  The chunk that crosses the limit is cut at a character
boundary, which may leave some bytes of the limit unused, and nothing but the number of bytes sent
decides about the chunks behind it.

What the output does depends only on the bytes that remain (`events_eq_rest`).  `boundedStream_iff`
says when it is as it should be, a beginning of the stream and at most one notice behind it: when the
limit falls between two characters or nothing comes behind the chunk that crosses it, and no empty
chunk comes after a stream that has exactly the size of the limit.
-/

namespace RustyClaw.Shell

open Glyph ByteOffset

/-- `normalize_chunk`: `str::replace` of a character. -/
def normalizeChunk (chunk : List Char) : List Char :=
  chunk.map fun c => if c = '\r' then '\n' else c

/-- `prefix_by_bytes`, where `none` is the panic of a cut inside a character. -/
def prefixByBytes (text : List Char) (maxBytes : ℕ) : Option (List Char) :=
  if utf8Len text ≤ maxBytes then some text
  else sliceTo text (floorBoundary text 0 maxBytes)

/-- What the front end is told. -/
inductive StreamEvent where
  /-- `on_text` with a part of the output -/
  | visible (text : List Char)
  /-- `on_text` with the notice that the output is truncated, and a flush -/
  | notice
  deriving DecidableEq, Repr

/-- `VisibleOutput` in stream mode. -/
structure VisibleOutput where
  visibleLimitBytes : ℕ
  sentBytes : ℕ := 0
  truncated : Bool := false

/-- `handle_chunk` in stream mode. -/
def VisibleOutput.handleChunk (out : VisibleOutput) (chunk : List Char) :
    Option (VisibleOutput × List StreamEvent) := do
  if out.sentBytes < out.visibleLimitBytes then
    let remaining := out.visibleLimitBytes - out.sentBytes
    let visible ← prefixByBytes chunk remaining
    let sent := if visible = [] then out.sentBytes else out.sentBytes + utf8Len visible
    let cut := utf8Len visible < utf8Len chunk
    return ({ out with sentBytes := sent, truncated := out.truncated || cut },
      (if visible = [] then [] else [.visible visible]) ++ if cut then [.notice] else [])
  else if out.truncated = false then
    return ({ out with truncated := true }, [.notice])
  else return (out, [])

/-- The chunks of a run, each normalised when it is received. -/
def VisibleOutput.run (out : VisibleOutput) : List (List Char) → Option (List StreamEvent)
  | [] => some []
  | chunk :: chunks => do
    let (out', events) ← out.handleChunk (normalizeChunk chunk)
    let later ← out'.run chunks
    return events ++ later

/-- The output that is shown. -/
def visibleText (events : List StreamEvent) : List Char :=
  events.flatMap fun
    | .visible text => text
    | .notice => []

/-- A beginning of the stream is shown, and at most one notice behind it, which comes exactly when
something of the stream is left out. -/
structure BoundedStream (limit : ℕ) (stream : List Char) (events : List StreamEvent) : Prop where
  isPrefix : visibleText events <+: stream
  le_limit : utf8Len (visibleText events) ≤ limit
  notice_once : events.count .notice ≤ 1
  notice_last : ∀ earlier later, events = earlier ++ .notice :: later → visibleText later = []
  notice_iff : .notice ∈ events ↔ visibleText events ≠ stream

/-- The limit falls between two characters or only empty chunks come behind the one that crosses it,
and a stream that has the size of the limit does not end in an empty chunk. -/
structure CutCleanly (limit : ℕ) (chunks : List (List Char)) : Prop where
  crossed : ∀ earlier later, chunks = earlier ++ later → limit < utf8Len earlier.flatten →
    isBoundary chunks.flatten limit = true ∨ later.flatten = []
  reached : utf8Len chunks.flatten = limit → chunks.getLast? ≠ some []

/-! ## What is left of the limit -/

/-- What fits into the limit is cut off at a boundary, so this does not fail. -/
lemma prefixByBytes_eq (text : List Char) (maxBytes : ℕ) :
    prefixByBytes text maxBytes = some (fitting maxBytes text) := by
  rw [prefixByBytes]
  split_ifs with hfits
  · rw [fitting_of_le hfits]
  · exact sliceTo_floorBoundary text maxBytes

/-- The text of a chunk, unless it is empty. -/
def shown (text : List Char) : List StreamEvent := if text = [] then [] else [.visible text]

@[simp] lemma visibleText_nil : visibleText [] = [] := rfl

@[simp] lemma visibleText_append (events later : List StreamEvent) :
    visibleText (events ++ later) = visibleText events ++ visibleText later :=
  List.flatMap_append

@[simp] lemma visibleText_shown (text : List Char) : visibleText (shown text) = text := by
  unfold shown
  split_ifs with h
  · exact h.symm
  · exact List.append_nil text

@[simp] lemma visibleText_notice_cons (events : List StreamEvent) :
    visibleText (.notice :: events) = visibleText events := rfl

@[simp] lemma notice_not_mem_shown (text : List Char) : .notice ∉ shown text := by
  unfold shown
  split_ifs <;> simp

@[simp] lemma count_notice_shown (text : List Char) : (shown text).count .notice = 0 :=
  List.count_eq_zero.mpr (notice_not_mem_shown text)

/-- What is passed on of the chunks when so many bytes remain and the notice has been given or
not. -/
def rest : ℕ → Bool → List (List Char) → List StreamEvent
  | _, _, [] => []
  | 0, truncated, _ :: chunks => (if truncated then [] else [.notice]) ++ rest 0 true chunks
  | room + 1, truncated, chunk :: chunks =>
    if utf8Len chunk ≤ room + 1 then
      shown chunk ++ rest (room + 1 - utf8Len chunk) truncated chunks
    else
      shown (fitting (room + 1) chunk) ++
        .notice :: rest (room + 1 - utf8Len (fitting (room + 1) chunk)) true chunks

lemma fitting_shorter {room : ℕ} {chunk : List Char} (h : ¬utf8Len chunk ≤ room) :
    utf8Len (fitting room chunk) < utf8Len chunk :=
  (utf8Len_fitting_le room chunk).trans_lt (Nat.lt_of_not_le h)

/-- The run never fails, and depends on the bytes that remain. -/
lemma events_eq_rest (out : VisibleOutput) (chunks : List (List Char)) :
    out.run chunks = some (rest (out.visibleLimitBytes - out.sentBytes) out.truncated
      (chunks.map normalizeChunk)) := by
  induction chunks generalizing out with
  | nil => simp [VisibleOutput.run, rest]
  | cons raw chunks ih =>
    rw [List.map_cons, VisibleOutput.run]
    generalize normalizeChunk raw = chunk
    cases hroom : out.visibleLimitBytes - out.sentBytes with
    | zero =>
      have hfull : ¬out.sentBytes < out.visibleLimitBytes := by omega
      cases htruncated : out.truncated with
      | true => simp [VisibleOutput.handleChunk, hfull, htruncated, ih, hroom, rest]
      | false => simp [VisibleOutput.handleChunk, hfull, htruncated, ih, hroom, rest]
    | succ room =>
      have hopen : out.sentBytes < out.visibleLimitBytes := by omega
      have hsent : ∀ text : List Char, (if text = [] then out.sentBytes
          else out.sentBytes + utf8Len text) = out.sentBytes + utf8Len text := by
        intro text
        split_ifs with h
        · rw [h]
          rfl
        · rfl
      have hleft : ∀ k, out.visibleLimitBytes - (out.sentBytes + k) = room + 1 - k := by
        intro k
        omega
      simp only [VisibleOutput.handleChunk, if_pos hopen, hroom, prefixByBytes_eq, hsent,
        Option.bind_eq_bind, Option.bind_some, Option.pure_def, ih, hleft]
      by_cases hfits : utf8Len chunk ≤ room + 1
      · simp [rest, hfits, fitting_of_le hfits, shown]
      · simp [rest, hfits, fitting_shorter hfits, shown]

/-! ## One chunk -/

variable {room : ℕ} {truncated : Bool} {chunk stream : List Char} {chunks : List (List Char)}
  {events : List StreamEvent}

lemma rest_zero_true (chunks : List (List Char)) : rest 0 true chunks = [] := by
  induction chunks with
  | nil => rfl
  | cons chunk chunks ih => exact ih

lemma visible_nil_not_mem_rest : .visible [] ∉ rest room truncated chunks := by
  have hshown : ∀ text, .visible [] ∉ shown text := by
    intro text h
    unfold shown at h
    split_ifs at h with htext
    · exact List.not_mem_nil h
    · rw [List.mem_singleton, StreamEvent.visible.injEq] at h
      exact htext h.symm
  induction chunks generalizing room truncated with
  | nil => simp [rest]
  | cons chunk chunks ih =>
    cases room with
    | zero => cases truncated <;> simp [rest, ih]
    | succ room =>
      rw [rest]
      split_ifs <;> simp [hshown, ih]

/-- After the notice nothing is passed on exactly when nothing of the limit is left or nothing is
to come. -/
lemma rest_true_eq_nil_iff : rest room true chunks = [] ↔ room = 0 ∨ chunks.flatten = [] := by
  have hshown : ∀ text, shown text = [] ↔ text = [] := by
    intro text
    unfold shown
    split_ifs with h <;> simp [h]
  cases room with
  | zero => simp [rest_zero_true]
  | succ room =>
    induction chunks with
    | nil => simp [rest]
    | cons chunk chunks ih =>
      rw [rest, List.flatten_cons, List.append_eq_nil_iff]
      split_ifs with hfits
      · rw [List.append_eq_nil_iff, hshown]
        have hroom : ¬room + 1 = 0 := Nat.succ_ne_zero room
        rw [or_iff_right hroom] at ih
        rw [false_or]
        refine and_congr_right ?_
        rintro rfl
        exact ih
      · have hne : chunk ≠ [] := by
          rintro rfl
          exact hfits (Nat.zero_le _)
        simp [hne]

/-- A chunk that fits is shown, and the stream goes on with what is left of the limit. -/
lemma boundedStream_shown (hfits : utf8Len chunk ≤ room) :
    BoundedStream room (chunk ++ stream) (shown chunk ++ events)
      ↔ BoundedStream (room - utf8Len chunk) stream events := by
  have hsplit : (∀ earlier later, shown chunk ++ events = earlier ++ .notice :: later →
        visibleText later = [])
      ↔ ∀ earlier later, events = earlier ++ .notice :: later → visibleText later = [] := by
    constructor
    · intro h earlier later heq
      exact h (shown chunk ++ earlier) later (by rw [heq, List.append_assoc])
    · intro h earlier later heq
      unfold shown at heq
      split_ifs at heq
      · exact h earlier later heq
      · cases earlier with
        | nil => cases heq
        | cons event earlier =>
          rw [List.singleton_append, List.cons_append, List.cons.injEq] at heq
          exact h earlier later heq.2
  have hvisible : visibleText (shown chunk ++ events) = chunk ++ visibleText events := by simp
  constructor
  · intro h
    refine ⟨?_, ?_, ?_, hsplit.mp h.notice_last, ?_⟩
    · have hprefix := h.isPrefix
      rwa [hvisible, List.prefix_append_right_inj] at hprefix
    · have hle := h.le_limit
      rw [hvisible, utf8Len_append] at hle
      omega
    · simpa using h.notice_once
    · have hiff := h.notice_iff
      rw [hvisible] at hiff
      simpa using hiff
  · intro h
    refine ⟨?_, ?_, ?_, hsplit.mpr h.notice_last, ?_⟩
    · rw [hvisible, List.prefix_append_right_inj]
      exact h.isPrefix
    · have hle := h.le_limit
      rw [hvisible, utf8Len_append]
      omega
    · simpa using h.notice_once
    · rw [hvisible]
      simpa using h.notice_iff

/-- Behind the chunk that crosses the limit nothing may be passed on. -/
lemma boundedStream_crossing (hcross : ¬utf8Len chunk ≤ room)
    (hproper : .visible [] ∉ events) :
    BoundedStream room (chunk ++ stream) (shown (fitting room chunk) ++ .notice :: events)
      ↔ events = [] := by
  constructor
  · intro h
    have hquiet : visibleText events = [] := h.notice_last _ _ rfl
    have hcount : events.count .notice = 0 := by
      have honce := h.notice_once
      rw [List.count_append, count_notice_shown, List.count_cons_self] at honce
      omega
    cases events with
    | nil => rfl
    | cons event events =>
      cases event with
      | notice => simp at hcount
      | visible text =>
        have htext : text = [] := (List.append_eq_nil_iff.mp hquiet).1
        exact absurd (htext ▸ List.mem_cons_self) hproper
  · rintro rfl
    have hvisible : visibleText (shown (fitting room chunk) ++ [.notice]) = fitting room chunk := by
      simp
    have hshorter := fitting_shorter hcross
    refine ⟨?_, ?_, ?_, ?_, ?_⟩
    · rw [hvisible]
      exact (prefix_fitting room chunk).trans (List.prefix_append chunk stream)
    · rw [hvisible]
      exact utf8Len_fitting_le room chunk
    · simp
    · intro earlier later heq
      have hlater : later = [] := by
        unfold shown at heq
        have hlength := congrArg List.length heq
        split_ifs at heq hlength
        · simp only [List.nil_append, List.length_append, List.length_cons, List.length_nil]
            at hlength
          exact List.eq_nil_of_length_eq_zero (by omega)
        · cases earlier with
          | nil => cases heq
          | cons event earlier =>
            simp only [List.length_append, List.length_cons, List.length_nil] at hlength
            exact List.eq_nil_of_length_eq_zero (by omega)
      rw [hlater]
      rfl
    · rw [hvisible]
      refine iff_of_true (by simp) ?_
      intro heq
      have hlen := congrArg utf8Len heq
      rw [utf8Len_append] at hlen
      omega

/-! ## When the stream is bounded -/

lemma cutCleanly_nil : CutCleanly room [] where
  crossed := by
    intro earlier later h _
    exact .inr (by rw [(List.append_eq_nil_iff.mp h.symm).2, List.flatten_nil])
  reached := fun _ => by simp

lemma cutCleanly_zero : CutCleanly 0 chunks ↔ chunks = [] ∨ chunks.flatten ≠ [] := by
  constructor
  · intro h
    by_contra hnot
    push Not at hnot
    obtain ⟨last, hlast⟩ : ∃ last, chunks.getLast? = some last :=
      Option.isSome_iff_exists.mp (List.getLast?_isSome.mpr hnot.1)
    have hempty : last = [] :=
      List.flatten_eq_nil_iff.mp hnot.2 last (List.mem_of_getLast? hlast)
    exact h.reached (utf8Len_eq_zero.mpr hnot.2) (hempty ▸ hlast)
  · intro h
    refine ⟨fun _ _ _ _ => .inl (isBoundary_zero _), ?_⟩
    intro hzero
    rcases h with rfl | h
    · simp
    · exact absurd (utf8Len_eq_zero.mp hzero) h

/-- A chunk that fits takes its size off the limit. -/
lemma cutCleanly_shown (hfits : utf8Len chunk ≤ room + 1) :
    CutCleanly (room + 1) (chunk :: chunks)
      ↔ CutCleanly (room + 1 - utf8Len chunk) chunks := by
  have hroom : room + 1 = utf8Len chunk + (room + 1 - utf8Len chunk) := by omega
  have hboundary : isBoundary (chunk :: chunks).flatten (room + 1)
      = isBoundary chunks.flatten (room + 1 - utf8Len chunk) := by
    rw [List.flatten_cons]
    conv_lhs => rw [hroom]
    exact isBoundary_append chunk chunks.flatten _
  constructor
  · intro h
    refine ⟨?_, ?_⟩
    · intro earlier later heq hlt
      have hlt' : room + 1 < utf8Len (chunk :: earlier).flatten := by
        rw [List.flatten_cons, utf8Len_append]
        omega
      have hcut := h.crossed (chunk :: earlier) later (by rw [heq, List.cons_append]) hlt'
      rwa [hboundary] at hcut
    · intro hlen
      have hlen' : utf8Len (chunk :: chunks).flatten = room + 1 := by
        rw [List.flatten_cons, utf8Len_append]
        omega
      have hlast := h.reached hlen'
      cases chunks with
      | nil => simp
      | cons next chunks => rwa [List.getLast?_cons_cons] at hlast
  · intro h
    refine ⟨?_, ?_⟩
    · intro earlier later heq hlt
      cases earlier with
      | nil => exact absurd hlt (Nat.not_lt_zero _)
      | cons first earlier =>
        rw [List.cons_append] at heq
        obtain ⟨rfl, htail⟩ := List.cons.inj heq
        rw [List.flatten_cons, utf8Len_append] at hlt
        rw [hboundary]
        exact h.crossed earlier later htail (by omega)
    · intro hlen
      rw [List.flatten_cons, utf8Len_append] at hlen
      cases chunks with
      | nil =>
        -- the only chunk has the size of the limit, which is not zero
        simp only [List.getLast?_singleton, ne_eq, Option.some.injEq]
        rintro rfl
        exact Nat.succ_ne_zero room hlen.symm
      | cons next chunks =>
        rw [List.getLast?_cons_cons]
        exact h.reached (by omega)

lemma cutCleanly_crossing (hcross : ¬utf8Len chunk ≤ room) :
    CutCleanly room (chunk :: chunks)
      ↔ room - utf8Len (fitting room chunk) = 0 ∨ chunks.flatten = [] := by
  have hfitting : fitting room (chunk :: chunks).flatten = fitting room chunk :=
    fitting_append_of_lt (Nat.lt_of_not_le hcross)
  have hboundary : isBoundary (chunk :: chunks).flatten room = true
      ↔ room - utf8Len (fitting room chunk) = 0 := by
    have hle := utf8Len_fitting_le room chunk
    rw [isBoundary_iff_fitting, hfitting]
    omega
  constructor
  · intro h
    rw [← hboundary]
    refine h.crossed [chunk] chunks rfl ?_
    rw [List.flatten_singleton]
    exact Nat.lt_of_not_le hcross
  · intro h
    refine ⟨?_, ?_⟩
    · intro earlier later heq hlt
      rw [hboundary]
      refine h.imp id fun hempty => ?_
      cases earlier with
      | nil => exact absurd hlt (Nat.not_lt_zero _)
      | cons first earlier =>
        rw [List.cons_append] at heq
        rw [(List.cons.inj heq).2, List.flatten_append] at hempty
        exact (List.append_eq_nil_iff.mp hempty).2
    · intro hlen
      rw [List.flatten_cons, utf8Len_append] at hlen
      omega

lemma boundedStream_nil : BoundedStream room [] [] where
  isPrefix := List.prefix_rfl
  le_limit := Nat.zero_le room
  notice_once := by simp
  notice_last := by simp
  notice_iff := by simp

/-- Where nothing may be shown there is no more than the notice. -/
lemma boundedStream_notice : BoundedStream 0 stream [.notice] ↔ stream ≠ [] := by
  constructor
  · rintro h rfl
    exact h.notice_iff.mp List.mem_cons_self rfl
  · intro h
    refine ⟨List.nil_prefix, Nat.zero_le 0, by simp, ?_, ?_⟩
    · intro earlier later heq
      have hlength := congrArg List.length heq
      simp only [List.length_append, List.length_cons, List.length_nil] at hlength
      rw [List.eq_nil_of_length_eq_zero (by omega : later.length = 0)]
      rfl
    · exact iff_of_true List.mem_cons_self h.symm

/-- The induction is on the chunks: each of them is shown as a whole until one crosses the limit. -/
lemma boundedStream_rest (room : ℕ) (chunks : List (List Char)) :
    BoundedStream room chunks.flatten (rest room false chunks) ↔ CutCleanly room chunks := by
  induction chunks generalizing room with
  | nil => exact iff_of_true boundedStream_nil cutCleanly_nil
  | cons chunk chunks ih =>
    cases room with
    | zero =>
      have hnotice : rest 0 false (chunk :: chunks) = [.notice] :=
        congrArg (StreamEvent.notice :: ·) (rest_zero_true chunks)
      rw [hnotice, boundedStream_notice, cutCleanly_zero, or_iff_right (List.cons_ne_nil _ _)]
    | succ room =>
      rw [List.flatten_cons, rest]
      split_ifs with hfits
      · rw [boundedStream_shown hfits, ih, cutCleanly_shown hfits]
      · rw [boundedStream_crossing hfits visible_nil_not_mem_rest, rest_true_eq_nil_iff,
          cutCleanly_crossing hfits]

/-- **The stream is bounded where it is cut cleanly.**  For every limit and every sequence of chunks
the front end gets a beginning of the stream, with one notice behind it exactly when something is left
out, if and only if the limit does not leave a gap that a later chunk gets into, and no empty chunk
follows a stream that fills the limit. -/
theorem boundedStream_iff (limit : ℕ) (chunks : List (List Char)) :
    (∃ events, VisibleOutput.run { visibleLimitBytes := limit } chunks = some events ∧
      BoundedStream limit (chunks.map normalizeChunk).flatten events)
      ↔ CutCleanly limit (chunks.map normalizeChunk) := by
  have hrun := events_eq_rest { visibleLimitBytes := limit } chunks
  rw [← boundedStream_rest]
  constructor
  · rintro ⟨events, hevents, h⟩
    rw [hrun, Option.some.injEq] at hevents
    exact hevents ▸ h
  · intro h
    exact ⟨_, hrun, h⟩

/-- The limit of three bytes falls inside the second character, and the next chunk gets into the
gap. -/
theorem not_boundedStream_gap :
    ¬ ∃ events, VisibleOutput.run { visibleLimitBytes := 3 } ["éé".toList, "x".toList] = some events ∧
      BoundedStream 3 (["éé".toList, "x".toList].map normalizeChunk).flatten events := by
  have hrun : VisibleOutput.run { visibleLimitBytes := 3 } ["éé".toList, "x".toList]
      = some [.visible ['é'], .notice, .visible ['x']] := by decide
  rintro ⟨events, hevents, h⟩
  rw [hrun, Option.some.injEq] at hevents
  subst hevents
  exact absurd (h.notice_last [.visible ['é']] [.visible ['x']] rfl) (by decide)

end RustyClaw.Shell
