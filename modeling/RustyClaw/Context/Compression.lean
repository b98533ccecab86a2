import RustyClaw.Context.Truncation
import RustyClaw.Library.Greedy

/-!
# Cutting the current turn down

`compress_current_turn` passes the function messages from the oldest on, all but the newest, and
strips their responses, until the bytes it has saved bring the responses of the turn down to the
limit.  It subtracts what a response has lost and ignores what a response has gained, and it passes
over a response whose text is short and has the word `stripped` in it, whoever wrote that word.

So a pass may leave the turn longer than it was, may take it for short enough when it is not, and
may leave responses that could still be stripped.  `compresses_iff` says when none of this happens.
-/

namespace RustyClaw.Context

open Glyph
open Json hiding str

variable {χ : Type} [Glyph χ]

def functionMessages (messages : List (Message χ)) : List (Message χ) :=
  messages.filter (·.hasRole "function")

def Turn.functions (turn : Turn χ) : List (Message χ) := functionMessages turn.messages

/-- The size of the responses in the function messages. -/
def Turn.resultSize (turn : Turn χ) : Nat := (turn.functions.map Message.responseSize).sum

/-- The responses in the function messages but the newest. -/
def Turn.olderResults (turn : Turn χ) : List (FunctionResponse χ) :=
  turn.functions.dropLast.flatMap Message.responses

/-- The turn after a pass that keeps the newest results and gets somewhere. -/
structure Compressed (maxBytes : Nat) (after before : Turn χ) : Prop where
  others : List.Forall₂ (fun message original => original.hasRole "function" = false →
    message = original) after.messages before.messages
  newest : after.functions.getLast? = before.functions.getLast?
  kept : after.CutFrom before
  bounded : after.resultSize ≤ before.resultSize
  progress : after.resultSize ≤ maxBytes ∨
    ∀ response ∈ after.olderResults, stripResponsePayload response = response
  within : before.resultSize ≤ maxBytes → after = before

def Compresses (ctx : AgentContext χ) (maxBytes : Nat) : Prop :=
  ∀ turn, ctx.currentTurn = some turn → ∃ after,
    (compressCurrentTurn ctx maxBytes).1 = { ctx with currentTurn := some after } ∧
      Compressed maxBytes after turn

/-! ## One response -/

/-- What a pass makes of a response it comes to. -/
def compressResponse (response : FunctionResponse χ) : FunctionResponse χ :=
  if alreadyStripped response then response else stripResponsePayload response

def FunctionResponse.saved (response : FunctionResponse χ) : Nat :=
  utf8Len response.text - utf8Len (compressResponse response).text

def FunctionResponse.grown (response : FunctionResponse χ) : Nat :=
  utf8Len (compressResponse response).text - utf8Len response.text

def totalSaved (responses : List (FunctionResponse χ)) : Nat :=
  (responses.map FunctionResponse.saved).sum

def totalGrown (responses : List (FunctionResponse χ)) : Nat :=
  (responses.map FunctionResponse.grown).sum

def totalSize (responses : List (FunctionResponse χ)) : Nat :=
  (responses.map fun response => utf8Len response.text).sum

lemma totalSize_compressResponse (responses : List (FunctionResponse χ)) :
    totalSize (responses.map compressResponse) + totalSaved responses =
      totalSize responses + totalGrown responses := by
  unfold totalSize totalSaved totalGrown
  induction responses with
  | nil => rfl
  | cons response responses ih =>
    have hone : utf8Len (compressResponse response).text + response.saved =
        utf8Len response.text + response.grown := by
      unfold FunctionResponse.saved FunctionResponse.grown
      omega
    simp only [List.map_cons, List.sum_cons] at ih ⊢
    omega

lemma totalSaved_append (responses responses' : List (FunctionResponse χ)) :
    totalSaved (responses ++ responses') = totalSaved responses + totalSaved responses' := by
  rw [totalSaved, List.map_append, List.sum_append]
  rfl

lemma totalSize_append (responses responses' : List (FunctionResponse χ)) :
    totalSize (responses ++ responses') = totalSize responses + totalSize responses' := by
  rw [totalSize, List.map_append, List.sum_append]
  rfl

/-! ## One message -/

def Message.compressed (message : Message χ) : Message χ :=
  { message with parts := message.parts.map (Part.mapResponse compressResponse) }

def Message.saved (message : Message χ) : Nat := totalSaved message.responses

lemma responseSize_eq (message : Message χ) : message.responseSize = totalSize message.responses := by
  unfold Message.responseSize totalSize Message.responses
  induction message.parts with
  | nil => rfl
  | cons part parts ih =>
    cases hresponse : part.functionResponse with
    | none =>
      rw [List.map_cons, List.sum_cons, ih, hresponse, List.filterMap_cons_none hresponse]
      exact Nat.zero_add _
    | some response =>
      rw [List.map_cons, List.sum_cons, ih, hresponse, List.filterMap_cons_some hresponse]
      rfl

lemma Message.responses_compressed (message : Message χ) :
    message.compressed.responses = message.responses.map compressResponse := by
  unfold responses compressed
  rw [List.filterMap_map, List.map_filterMap]
  rfl

lemma sum_responseSize (messages : List (Message χ)) :
    (messages.map Message.responseSize).sum = totalSize (messages.flatMap Message.responses) := by
  induction messages with
  | nil => rfl
  | cons message messages ih =>
    rw [List.map_cons, List.sum_cons, List.flatMap_cons, totalSize_append, ih, responseSize_eq]

lemma sum_saved (messages : List (Message χ)) :
    (messages.map Message.saved).sum = totalSaved (messages.flatMap Message.responses) := by
  induction messages with
  | nil => rfl
  | cons message messages ih =>
    rw [List.map_cons, List.sum_cons, List.flatMap_cons, totalSaved_append, ih]
    rfl

/-- What the inner loop makes of the parts, and of the size. -/
lemma compressParts_eq (size : Nat) (parts : List (Part χ)) :
    (compressParts size parts).1 = parts.map (Part.mapResponse compressResponse) ∧
      (compressParts size parts).2.1 =
        size - totalSaved (parts.filterMap (·.functionResponse)) := by
  induction parts generalizing size with
  | nil => exact ⟨rfl, rfl⟩
  | cons part parts ih =>
    rw [compressParts]
    cases hresponse : part.functionResponse with
    | none =>
      obtain ⟨hparts, hsize⟩ := ih size
      rw [List.filterMap_cons_none hresponse]
      refine ⟨?_, hsize⟩
      show part :: (compressParts size parts).1 = _
      rw [hparts, List.map_cons, Part.mapResponse, hresponse, Option.map_none, ← hresponse]
    | some response =>
      rw [List.filterMap_cons_some hresponse, List.map_cons, Part.mapResponse, hresponse,
        Option.map_some]
      cases hstripped : alreadyStripped response with
      | true =>
        obtain ⟨hparts, hsize⟩ := ih size
        have hsame : compressResponse response = response := if_pos hstripped
        have hsaved : response.saved = 0 := by
          rw [FunctionResponse.saved, hsame, Nat.sub_self]
        rw [Option.filter_some, hstripped, hsame, ← hresponse]
        refine ⟨congrArg (part :: ·) hparts, hsize.trans ?_⟩
        rw [totalSaved, totalSaved, List.map_cons, List.sum_cons, hsaved, Nat.zero_add]
      | false =>
        have hstrip : compressResponse response = stripResponsePayload response :=
          if_neg (Bool.eq_false_iff.mp hstripped)
        obtain ⟨hparts, hsize⟩ := ih (size - response.saved)
        rw [Option.filter_some, hstripped, hstrip]
        rw [FunctionResponse.saved, hstrip] at hparts hsize
        refine ⟨congrArg (_ :: ·) hparts, hsize.trans ?_⟩
        rw [totalSaved, totalSaved, List.map_cons, List.sum_cons, FunctionResponse.saved, hstrip,
          Nat.sub_sub]

/-! ## The messages -/

/-- The messages of the list that are passed before the size is down to the limit. -/
def reached (maxBytes size : Nat) (messages : List (Message χ)) : List (Message χ) :=
  Greedy.passed Message.saved maxBytes size messages

lemma compressMessages_others (maxBytes left size : Nat) (messages : List (Message χ)) :
    List.Forall₂ (fun message original => original.hasRole "function" = false →
      message = original) (compressMessages maxBytes left size messages).1 messages := by
  induction messages generalizing left size with
  | nil => exact .nil
  | cons message messages ih =>
    cases left with
    | zero => exact List.forall₂_same.mpr fun _ _ _ => rfl
    | succ left =>
      rw [compressMessages]
      by_cases hrole : message.hasRole "function" = true
      · rw [if_pos hrole]
        dsimp only
        have hfunction : message.hasRole "function" ≠ false := by simp [hrole]
        split
        · exact .cons (fun h => absurd h hfunction) (List.forall₂_same.mpr fun _ _ _ => rfl)
        · exact .cons (fun h => absurd h hfunction) (ih _ _)
      · rw [if_neg hrole]
        exact .cons (fun _ => rfl) (ih _ _)

lemma functionMessages_cons_of_pos {message : Message χ} (messages : List (Message χ))
    (h : message.hasRole "function" = true) :
    functionMessages (message :: messages) = message :: functionMessages messages :=
  List.filter_cons_of_pos h

lemma functionMessages_cons_of_neg {message : Message χ} (messages : List (Message χ))
    (h : ¬ message.hasRole "function" = true) :
    functionMessages (message :: messages) = functionMessages messages :=
  List.filter_cons_of_neg h

/-- The function messages after a pass: those it reached are stripped, the others as they were. -/
lemma functionMessages_compressMessages (maxBytes left size : Nat) (messages : List (Message χ)) :
    functionMessages (compressMessages maxBytes left size messages).1 =
      (reached maxBytes size ((functionMessages messages).take left)).map Message.compressed ++
        (functionMessages messages).drop
          (reached maxBytes size ((functionMessages messages).take left)).length := by
  induction messages generalizing left size with
  | nil =>
    rw [compressMessages, functionMessages, List.filter_nil, List.take_nil]
    rfl
  | cons message messages ih =>
    cases left with
    | zero =>
      rw [List.take_zero]
      rfl
    | succ left =>
      rw [compressMessages]
      by_cases hrole : message.hasRole "function" = true
      · obtain ⟨hparts, hsize⟩ := compressParts_eq size message.parts
        have hrole' : message.compressed.hasRole "function" = true := hrole
        rw [if_pos hrole]
        dsimp only
        rw [hparts, hsize, functionMessages_cons_of_pos messages hrole, List.take_succ_cons, reached,
          Greedy.passed]
        change functionMessages (if size - message.saved ≤ maxBytes then (_, _) else (_, _)).1 = _
        split_ifs
        · exact functionMessages_cons_of_pos _ hrole'
        · exact (functionMessages_cons_of_pos _ hrole').trans (congrArg (_ :: ·) (ih left _))
      · rw [if_neg hrole, functionMessages_cons_of_neg messages hrole, ← ih (left + 1) size]
        exact functionMessages_cons_of_neg _ hrole

/-! ## The turn -/

section Turn

variable (turn : Turn χ) (maxBytes : Nat)

/-- The responses that a pass comes to. -/
def Turn.reachedResults : List (FunctionResponse χ) :=
  (reached maxBytes turn.resultSize turn.functions.dropLast).flatMap Message.responses

/-- The responses between these and the newest message. -/
def Turn.unreachedResults : List (FunctionResponse χ) :=
  (turn.functions.dropLast.drop
    (reached maxBytes turn.resultSize turn.functions.dropLast).length).flatMap Message.responses

/-- Every older response is as stripping would leave it once the pass is over: it has not been
reached or looked stripped and is so already, or stripping it twice is stripping it once. -/
structure Turn.Settled : Prop where
  reached : ∀ response ∈ turn.reachedResults maxBytes, if alreadyStripped response then
    stripResponsePayload response = response
    else stripResponsePayload (stripResponsePayload response) = stripResponsePayload response
  unreached : ∀ response ∈ turn.unreachedResults maxBytes, stripResponsePayload response = response

/-- There is nothing to do; or the responses that are reached gain no more than they lose, and
they lose enough or leave nothing to be stripped. -/
def Turn.Compressible : Prop :=
  turn.resultSize ≤ maxBytes ∨
    (totalGrown (turn.reachedResults maxBytes) ≤ totalSaved (turn.reachedResults maxBytes) ∧
      (turn.resultSize + totalGrown (turn.reachedResults maxBytes) ≤
          maxBytes + totalSaved (turn.reachedResults maxBytes) ∨
        turn.Settled maxBytes))

variable {turn maxBytes}

lemma compressTurn_of_le (h : turn.resultSize ≤ maxBytes) :
    compressTurn turn maxBytes = (turn, 0) :=
  if_pos (.inr h)

lemma compressTurn_of_lt (h : maxBytes < turn.resultSize) :
    (compressTurn turn maxBytes).1 =
      { turn with messages := (compressMessages maxBytes (turn.functions.length - 1)
        turn.resultSize turn.messages).1 } := by
  have hne : turn.functions ≠ [] := by
    intro hnil
    rw [Turn.resultSize, hnil] at h
    exact absurd h (Nat.not_lt_zero _)
  exact congrArg Prod.fst (if_neg (not_or.mpr ⟨hne, Nat.not_le.mpr h⟩))

/-- The function messages after a pass: those that are reached are stripped. -/
lemma functions_compressTurn (h : maxBytes < turn.resultSize) : ∃ newest,
    turn.functions = turn.functions.dropLast ++ [newest] ∧
      (compressTurn turn maxBytes).1.functions =
        (reached maxBytes turn.resultSize turn.functions.dropLast).map Message.compressed ++
          turn.functions.dropLast.drop
            (reached maxBytes turn.resultSize turn.functions.dropLast).length ++ [newest] := by
  have hne : turn.functions ≠ [] := by
    intro hnil
    rw [Turn.resultSize, hnil] at h
    exact absurd h (Nat.not_lt_zero _)
  have hprefix : reached maxBytes turn.resultSize turn.functions.dropLast <+:
      turn.functions.dropLast := Greedy.prefix_passed _ _
  refine ⟨turn.functions.getLast hne, (List.dropLast_append_getLast hne).symm, ?_⟩
  rw [compressTurn_of_lt h, Turn.functions, functionMessages_compressMessages, ← Turn.functions,
    ← List.dropLast_eq_take, List.append_assoc, ← List.drop_append_of_le_length hprefix.length_le,
    List.dropLast_append_getLast hne]

/-- The responses before the newest message, split where the pass stops. -/
lemma flatMap_dropLast :
    turn.functions.dropLast.flatMap Message.responses =
      turn.reachedResults maxBytes ++ turn.unreachedResults maxBytes := by
  rw [Turn.reachedResults, Turn.unreachedResults, ← List.flatMap_append]
  exact congrArg (List.flatMap Message.responses) (Greedy.passed_append_drop _ _).symm

lemma flatMap_compressed (messages : List (Message χ)) :
    (messages.map Message.compressed).flatMap Message.responses =
      (messages.flatMap Message.responses).map compressResponse := by
  rw [List.flatMap_map, List.map_flatMap]
  exact List.flatMap_congr fun message _ => message.responses_compressed

lemma olderResults_compressTurn (h : maxBytes < turn.resultSize) :
    (compressTurn turn maxBytes).1.olderResults =
      (turn.reachedResults maxBytes).map compressResponse ++ turn.unreachedResults maxBytes := by
  obtain ⟨newest, -, hafter⟩ := functions_compressTurn h
  rw [Turn.olderResults, hafter, List.dropLast_concat, List.flatMap_append, flatMap_compressed]
  rfl

/-- A pass takes away what it has saved and adds what has grown. -/
lemma resultSize_compressTurn (h : maxBytes < turn.resultSize) :
    (compressTurn turn maxBytes).1.resultSize + totalSaved (turn.reachedResults maxBytes) =
      turn.resultSize + totalGrown (turn.reachedResults maxBytes) := by
  obtain ⟨newest, hbefore, hafter⟩ := functions_compressTurn h
  have hcompressed := totalSize_compressResponse (turn.reachedResults maxBytes)
  have hsize : turn.resultSize = totalSize (turn.reachedResults maxBytes) +
      totalSize (turn.unreachedResults maxBytes) + totalSize newest.responses := by
    rw [Turn.resultSize, hbefore, sum_responseSize, List.flatMap_append, flatMap_dropLast,
      totalSize_append, totalSize_append, List.flatMap_singleton]
  have hsize' : (compressTurn turn maxBytes).1.resultSize =
      totalSize ((turn.reachedResults maxBytes).map compressResponse) +
        totalSize (turn.unreachedResults maxBytes) + totalSize newest.responses := by
    rw [Turn.resultSize, hafter, sum_responseSize, List.flatMap_append, List.flatMap_append,
      flatMap_compressed, totalSize_append, totalSize_append, List.flatMap_singleton]
    rfl
  omega

/-- What is left can be stripped no further exactly when the pass has left it settled. -/
lemma settled_iff (h : maxBytes < turn.resultSize) :
    (∀ response ∈ (compressTurn turn maxBytes).1.olderResults,
      stripResponsePayload response = response) ↔ turn.Settled maxBytes := by
  have hone : ∀ response : FunctionResponse χ,
      stripResponsePayload (compressResponse response) = compressResponse response ↔
        if alreadyStripped response then stripResponsePayload response = response
        else stripResponsePayload (stripResponsePayload response) =
          stripResponsePayload response := by
    intro response
    unfold compressResponse
    split_ifs <;> rfl
  rw [olderResults_compressTurn h]
  constructor
  · intro hall
    refine ⟨fun response hmem => (hone response).mp (hall _ ?_), fun response hmem => hall _ ?_⟩
    · exact List.mem_append_left _ (List.mem_map_of_mem hmem)
    · exact List.mem_append_right _ hmem
  · rintro ⟨hreached, hunreached⟩ response hmem
    rcases List.mem_append.mp hmem with hmem | hmem
    · obtain ⟨original, horiginal, rfl⟩ := List.mem_map.mp hmem
      exact (hone original).mpr (hreached original horiginal)
    · exact hunreached response hmem

/-! ### Responses that may be stripped -/

/-- Stripping the response makes it no longer, and stripping it again changes nothing. -/
structure FunctionResponse.StripsStably (response : FunctionResponse χ) : Prop where
  stable : stripResponsePayload (stripResponsePayload response) = stripResponsePayload response
  noLonger : utf8Len (stripResponsePayload response).text ≤ utf8Len response.text

lemma compressResponse_compressResponse {response : FunctionResponse χ}
    (h : response.StripsStably) :
    compressResponse (compressResponse response) = compressResponse response := by
  have hcases : ∀ response : FunctionResponse χ, compressResponse response = response ∨
      compressResponse response = stripResponsePayload response := by
    intro response
    unfold compressResponse
    split_ifs
    · exact .inl rfl
    · exact .inr rfl
  rcases hcases response with hsame | hstrip
  · rw [hsame, hsame]
  · rw [hstrip]
    exact (hcases _).elim id fun hstrip' => hstrip'.trans h.stable

lemma totalGrown_reachedResults (h : ∀ response ∈ turn.olderResults, response.StripsStably) :
    totalGrown (turn.reachedResults maxBytes) = 0 := by
  have hsplit : turn.olderResults = turn.reachedResults maxBytes ++ turn.unreachedResults maxBytes :=
    flatMap_dropLast
  refine List.sum_eq_zero_iff_forall_eq_nat.mpr fun size hsize => ?_
  obtain ⟨response, hmem, rfl⟩ := List.mem_map.mp hsize
  have hstably := h response (hsplit ▸ List.mem_append_left _ hmem)
  have hle : utf8Len (compressResponse response).text ≤ utf8Len response.text := by
    unfold compressResponse
    split_ifs
    · exact Nat.le_refl _
    · exact hstably.noLonger
  exact Nat.sub_eq_zero_of_le hle

/-- A pass brings the size down to the limit unless it reaches every older message. -/
lemma saved_or_unreached (turn : Turn χ) (maxBytes : Nat) :
    turn.resultSize ≤ maxBytes + totalSaved (turn.reachedResults maxBytes) ∨
      turn.unreachedResults maxBytes = [] := by
  rcases Greedy.passed_eq_or_le turn.resultSize turn.functions.dropLast with hall | hle
  · right
    rw [Turn.unreachedResults, reached, hall, List.drop_length]
    rfl
  · left
    rw [sum_saved] at hle
    exact Nat.sub_le_iff_le_add.mp hle

/-- The pass does what it should when it may strip every older response, and does not pass over one
that is to be stripped. -/
theorem compressible_of_stripsStably (maxBytes : Nat)
    (h : ∀ response ∈ turn.olderResults, response.StripsStably)
    (hrecognised : ∀ response ∈ turn.olderResults, alreadyStripped response = true →
      stripResponsePayload response = response) : turn.Compressible maxBytes := by
  have hsplit : turn.olderResults = turn.reachedResults maxBytes ++ turn.unreachedResults maxBytes :=
    flatMap_dropLast
  right
  rw [totalGrown_reachedResults h]
  refine ⟨Nat.zero_le _, (saved_or_unreached turn maxBytes).imp id fun hnone => ?_⟩
  refine ⟨fun response hmem => ?_, fun response hmem => ?_⟩
  · have hmem' : response ∈ turn.olderResults := hsplit ▸ List.mem_append_left _ hmem
    split_ifs with hstripped
    · exact hrecognised response hmem' hstripped
    · exact (h response hmem').stable
  · rw [hnone] at hmem
    exact absurd hmem List.not_mem_nil

lemma compressed_refl (h : turn.resultSize ≤ maxBytes) : Compressed maxBytes turn turn where
  others := List.forall₂_same.mpr fun _ _ _ => rfl
  newest := rfl
  kept := .refl turn
  bounded := Nat.le_refl _
  progress := .inl h
  within _ := rfl

lemma compressed_iff (turn : Turn χ) (maxBytes : Nat) :
    Compressed maxBytes (compressTurn turn maxBytes).1 turn ↔ turn.Compressible maxBytes := by
  rcases Nat.lt_or_ge maxBytes turn.resultSize with hlt | hle
  · have hsize := resultSize_compressTurn hlt
    have hmore : ¬ turn.resultSize ≤ maxBytes := Nat.not_le.mpr hlt
    constructor
    · intro h
      have hbounded := h.bounded
      refine .inr ⟨by omega, h.progress.imp (fun hwithin => by omega) (settled_iff hlt).mp⟩
    · intro h
      obtain ⟨hgrown, hprogress⟩ := h.resolve_left hmore
      obtain ⟨newest, hbefore, hafter⟩ := functions_compressTurn hlt
      refine ⟨?_, ?_, compressTurn_cutFrom turn maxBytes, by omega, ?_, fun h => absurd h hmore⟩
      · rw [compressTurn_of_lt hlt]
        exact compressMessages_others _ _ _ _
      · rw [hbefore, hafter, List.getLast?_concat, List.getLast?_concat]
      · exact hprogress.imp (fun hwithin => by omega) (settled_iff hlt).mpr
  · rw [compressTurn_of_le hle]
    exact iff_of_true (compressed_refl hle) (.inl hle)

/-! ### A second pass -/

lemma Message.compressed_eq_self {message : Message χ}
    (h : ∀ response ∈ message.responses, compressResponse response = response) :
    message.compressed = message := by
  obtain ⟨role, parts⟩ := message
  have hparts : parts.map (Part.mapResponse compressResponse) = parts := by
    refine (List.map_congr_left fun part hmem => ?_).trans (List.map_id' parts)
    rw [Part.mapResponse]
    cases hresponse : part.functionResponse with
    | none => rw [Option.map_none, ← hresponse]
    | some response =>
      rw [Option.map_some, h response (List.mem_filterMap.mpr ⟨part, hmem, hresponse⟩), ← hresponse]
  rw [Message.compressed, hparts]

lemma compressMessages_of_compressed (maxBytes left size : Nat) (messages : List (Message χ))
    (h : ∀ message ∈ (functionMessages messages).take left, message.compressed = message) :
    (compressMessages maxBytes left size messages).1 = messages := by
  induction messages generalizing left size with
  | nil => rfl
  | cons message messages ih =>
    cases left with
    | zero => rfl
    | succ left =>
      rw [compressMessages]
      by_cases hrole : message.hasRole "function" = true
      · rw [functionMessages_cons_of_pos messages hrole, List.take_succ_cons,
          List.forall_mem_cons] at h
        have hmessage : { message with parts := (compressParts size message.parts).1 } = message := by
          rw [(compressParts_eq size message.parts).1]
          exact h.1
        rw [if_pos hrole]
        dsimp only
        rw [hmessage]
        split_ifs
        · rfl
        · exact congrArg (message :: ·) (ih left _ h.2)
      · rw [functionMessages_cons_of_neg messages hrole] at h
        rw [if_neg hrole]
        exact congrArg (message :: ·) (ih (left + 1) size h)

/-- A pass over a turn that was passed over changes nothing when its responses may be stripped. -/
theorem compressTurn_compressTurn (maxBytes : Nat)
    (h : ∀ response ∈ turn.olderResults, response.StripsStably) :
    (compressTurn (compressTurn turn maxBytes).1 maxBytes).1 = (compressTurn turn maxBytes).1 := by
  rcases Nat.lt_or_ge maxBytes turn.resultSize with hlt | hle
  · have hsize := resultSize_compressTurn hlt
    rw [totalGrown_reachedResults h] at hsize
    rcases Nat.lt_or_ge maxBytes (compressTurn turn maxBytes).1.resultSize with hmore | hless
    · have hnone := (saved_or_unreached turn maxBytes).resolve_left (by omega)
      have holder := olderResults_compressTurn hlt
      rw [hnone, List.append_nil] at holder
      have hfixed : ∀ response ∈ (compressTurn turn maxBytes).1.olderResults,
          compressResponse response = response := by
        intro response hmem
        rw [holder] at hmem
        obtain ⟨original, horiginal, rfl⟩ := List.mem_map.mp hmem
        have hsplit : turn.olderResults =
            turn.reachedResults maxBytes ++ turn.unreachedResults maxBytes := flatMap_dropLast
        exact compressResponse_compressResponse
          (h original (hsplit ▸ List.mem_append_left _ horiginal))
      rw [compressTurn_of_lt hmore, compressMessages_of_compressed]
      intro message hmem
      rw [← Turn.functions, ← List.dropLast_eq_take] at hmem
      exact message.compressed_eq_self fun response hresponse =>
        hfixed response (List.mem_flatMap.mpr ⟨message, hmem, hresponse⟩)
    · rw [compressTurn_of_le hless]
  · rw [compressTurn_of_le hle, compressTurn_of_le hle]

end Turn

/-! ## The context -/

lemma compressCurrentTurn_of_some {ctx : AgentContext χ} {turn : Turn χ}
    (h : ctx.currentTurn = some turn) (maxBytes : Nat) :
    (compressCurrentTurn ctx maxBytes).1 =
      { ctx with currentTurn := some (compressTurn turn maxBytes).1 } := by
  rw [compressCurrentTurn, h]

lemma compresses_iff_compressed (ctx : AgentContext χ) (maxBytes : Nat) :
    Compresses ctx maxBytes ↔ ∀ turn, ctx.currentTurn = some turn →
      Compressed maxBytes (compressTurn turn maxBytes).1 turn := by
  refine forall₂_congr fun turn hturn => ?_
  rw [compressCurrentTurn_of_some hturn]
  constructor
  · rintro ⟨after, heq, h⟩
    obtain rfl : (compressTurn turn maxBytes).1 = after :=
      Option.some_inj.mp (congrArg AgentContext.currentTurn heq)
    exact h
  · intro h
    exact ⟨_, rfl, h⟩

/-- When a pass keeps the newest results and gets somewhere. -/
theorem compresses_iff (ctx : AgentContext χ) (maxBytes : Nat) :
    Compresses ctx maxBytes ↔
      ∀ turn, ctx.currentTurn = some turn → turn.Compressible maxBytes :=
  (compresses_iff_compressed ctx maxBytes).trans
    (forall₂_congr fun turn _ => compressed_iff turn maxBytes)

/-- Two results, of which the older is an object without fields. -/
def emptyResultTurn : Turn Char where
  turnId := "t".toList
  userMessage := "Fix it".toList
  messages := [
    { role := "function".toList
      parts := [{ functionResponse := some {
        name := "read_file".toList
        response := .object [("result", .str "\x7b\x7d".toList)] } }] },
    { role := "function".toList, parts := [] }]

/-- The older result is taken for an envelope, whose fields are all written out. -/
theorem not_compresses_emptyResult : ¬ Compresses { currentTurn := some emptyResultTurn } 0 := by
  intro h
  have hbounded := ((compresses_iff_compressed _ 0).mp h emptyResultTurn rfl).bounded
  revert hbounded
  decide +kernel

end RustyClaw.Context
