import Mathlib.Data.List.Forall2
import RustyClaw.Context.Sanitize

/-!
# Cutting down turns

A turn that grows too large is cut down in place (`compress_current_turn`,
`truncate_current_turn_tool_results`), and the turns of the history are cut down again in every
prompt that is built from them (`build_history_with_token_budget`): the newer ones by the size of
each response, the older ones to calls without their results.

What a text costs is the parameter `estimateTokens`.
-/

namespace RustyClaw.Context

open Glyph
open Json hiding str

variable {χ : Type} [Glyph χ]

def Message.hasRole (message : Message χ) (role : String) : Bool :=
  chars message.role = role.toList

/-- The text that a response is measured by (`fr.response.to_string()`). -/
def FunctionResponse.text (response : FunctionResponse χ) : List χ := render response.response.json

/-- The same part with another response. -/
def Part.mapResponse (f : FunctionResponse χ → FunctionResponse χ) (part : Part χ) : Part χ :=
  { part with functionResponse := part.functionResponse.map f }

/-! ## The current turn -/

def Message.responseSize (message : Message χ) : Nat :=
  (message.parts.map fun part => (part.functionResponse.map fun response =>
    utf8Len response.text).getD 0).sum

def alreadyStripped (response : FunctionResponse χ) : Bool :=
  Text.contains "stripped".toList (chars response.text) && decide (utf8Len response.text < 1000)

/-- The inner loop of `compress_current_turn`: the parts, and what is left of the size. -/
def compressParts : Nat → List (Part χ) → List (Part χ) × Nat × Nat
  | size, [] => ([], size, 0)
  | size, part :: parts =>
    match part.functionResponse.filter fun response => !alreadyStripped response with
    | none =>
      let (parts, size, count) := compressParts size parts
      (part :: parts, size, count)
    | some response =>
      let stripped := stripResponsePayload response
      let (parts, size, count) :=
        compressParts (size - (utf8Len response.text - utf8Len stripped.text)) parts
      ({ part with functionResponse := some stripped } :: parts, size, count + 1)

/-- The outer loop, for as many function messages as `left` says. -/
def compressMessages (maxBytes : Nat) : Nat → Nat → List (Message χ) → List (Message χ) × Nat
  | _, _, [] => ([], 0)
  | 0, _, messages => (messages, 0)
  | left + 1, size, message :: messages =>
    if message.hasRole "function" then
      let (parts, size, count) := compressParts size message.parts
      if size ≤ maxBytes then ({ message with parts } :: messages, count)
      else
        let (messages, count') := compressMessages maxBytes left size messages
        ({ message with parts } :: messages, count + count')
    else
      let (messages, count) := compressMessages maxBytes (left + 1) size messages
      (message :: messages, count)

/-- The newest of the function messages stays as it is. -/
def compressTurn (turn : Turn χ) (maxBytes : Nat) : Turn χ × Nat :=
  let functions := turn.messages.filter (·.hasRole "function")
  let size := (functions.map Message.responseSize).sum
  if functions = [] ∨ size ≤ maxBytes then (turn, 0)
  else
    let (messages, count) := compressMessages maxBytes (functions.length - 1) size turn.messages
    ({ turn with messages }, count)

def compressCurrentTurn (ctx : AgentContext χ) (maxBytes : Nat) : AgentContext χ × Nat :=
  match ctx.currentTurn with
  | none => (ctx, 0)
  | some turn =>
    let (turn, count) := compressTurn turn maxBytes
    ({ ctx with currentTurn := some turn }, count)

/-- What stands for a response that is too long: its beginning and its end. -/
def truncatedResponse (maxChars : Nat) (response : FunctionResponse χ) : FunctionResponse χ :=
  let text := response.text
  let keepHalf := maxChars / 2
  { response with
    response := .object [
      ("result", .str (text.take keepHalf ++
        str s!"\n... [Truncated by context recovery: {text.length - maxChars} chars hidden] ...\n" ++
        text.drop (text.length - keepHalf))),
      ("original_chars", ofNat text.length)] }

def truncateResponse (maxChars : Nat) (response : FunctionResponse χ) : FunctionResponse χ :=
  if response.text.length ≤ maxChars then response else truncatedResponse maxChars response

def truncateTurn (turn : Turn χ) (maxChars : Nat) : Turn χ :=
  { turn with
    messages := turn.messages.map fun message =>
      if message.hasRole "function" then
        { message with parts := message.parts.map (Part.mapResponse (truncateResponse maxChars)) }
      else message }

/-- How many responses `truncate_current_turn_tool_results` cuts. -/
def truncatedParts (turn : Turn χ) (maxChars : Nat) : Nat :=
  ((turn.messages.filter (·.hasRole "function")).flatMap Message.parts).countP fun part =>
    part.functionResponse.any fun response => maxChars < response.text.length

def truncateCurrentTurnToolResults (ctx : AgentContext χ) (maxChars : Nat) :
    AgentContext χ × Nat :=
  match ctx.currentTurn with
  | none => (ctx, 0)
  | some turn =>
    ({ ctx with currentTurn := some (truncateTurn turn maxChars) }, truncatedParts turn maxChars)

/-! ## What is left of a turn -/

/-- The part with another value in its response. -/
structure Part.CutFrom (part original : Part χ) : Prop where
  text : part.text = original.text
  functionCall : part.functionCall = original.functionCall
  thoughtSignature : part.thoughtSignature = original.thoughtSignature
  fileData : part.fileData = original.fileData
  response : part.functionResponse.map FunctionResponse.key =
    original.functionResponse.map FunctionResponse.key

structure Message.CutFrom (message original : Message χ) : Prop where
  role : message.role = original.role
  parts : List.Forall₂ Part.CutFrom message.parts original.parts

/-- The turn with other values in its responses. -/
structure Turn.CutFrom (turn original : Turn χ) : Prop where
  turnId : turn.turnId = original.turnId
  userMessage : turn.userMessage = original.userMessage
  messages : List.Forall₂ Message.CutFrom turn.messages original.messages

section CutFrom

lemma forall₂_comp {α β γ : Type} {r : α → β → Prop} {p : β → γ → Prop} {q : α → γ → Prop}
    (hcomp : ∀ a b c, r a b → p b c → q a c) {xs : List α} {ys : List β} {zs : List γ}
    (h : List.Forall₂ r xs ys) (h' : List.Forall₂ p ys zs) : List.Forall₂ q xs zs := by
  induction h generalizing zs with
  | nil =>
    cases h'
    exact .nil
  | cons hxy _ ih =>
    cases h' with
    | cons hyz htail => exact .cons (hcomp _ _ _ hxy hyz) (ih htail)

variable {part part' original : Part χ} {message message' originalMessage : Message χ}
  {turn turn' originalTurn : Turn χ}

@[refl] lemma Part.CutFrom.refl (part : Part χ) : part.CutFrom part := ⟨rfl, rfl, rfl, rfl, rfl⟩

lemma Part.CutFrom.trans (h : part.CutFrom part') (h' : part'.CutFrom original) :
    part.CutFrom original where
  text := h.text.trans h'.text
  functionCall := h.functionCall.trans h'.functionCall
  thoughtSignature := h.thoughtSignature.trans h'.thoughtSignature
  fileData := h.fileData.trans h'.fileData
  response := h.response.trans h'.response

lemma Part.CutFrom.of_response {response response' : FunctionResponse χ}
    (h : part.functionResponse = some response) (hkey : response'.key = response.key) :
    Part.CutFrom { part with functionResponse := some response' } part :=
  ⟨rfl, rfl, rfl, rfl, by simp [h, hkey]⟩

@[refl] lemma Message.CutFrom.refl (message : Message χ) : message.CutFrom message :=
  ⟨rfl, List.forall₂_same.mpr fun part _ => .refl part⟩

lemma Message.CutFrom.trans (h : message.CutFrom message') (h' : message'.CutFrom originalMessage) :
    message.CutFrom originalMessage :=
  ⟨h.role.trans h'.role, forall₂_comp (fun _ _ _ hab hbc => hab.trans hbc) h.parts h'.parts⟩

lemma cutFrom_messages_refl (messages : List (Message χ)) :
    List.Forall₂ Message.CutFrom messages messages :=
  List.forall₂_same.mpr fun message _ => .refl message

@[refl] lemma Turn.CutFrom.refl (turn : Turn χ) : turn.CutFrom turn :=
  ⟨rfl, rfl, cutFrom_messages_refl _⟩

lemma Turn.CutFrom.trans (h : turn.CutFrom turn') (h' : turn'.CutFrom originalTurn) :
    turn.CutFrom originalTurn where
  turnId := h.turnId.trans h'.turnId
  userMessage := h.userMessage.trans h'.userMessage
  messages := forall₂_comp (fun _ _ _ hab hbc => hab.trans hbc) h.messages h'.messages

/-- A message that is added to both stays the same in both. -/
lemma Turn.CutFrom.addMessage (h : turn.CutFrom originalTurn) (message : Message χ) :
    Turn.CutFrom { turn with messages := turn.messages ++ [message] }
      { originalTurn with messages := originalTurn.messages ++ [message] } where
  turnId := h.turnId
  userMessage := h.userMessage
  messages := List.rel_append h.messages (cutFrom_messages_refl [message])

lemma compressParts_cutFrom (size : Nat) (parts : List (Part χ)) :
    List.Forall₂ Part.CutFrom (compressParts size parts).1 parts := by
  induction parts generalizing size with
  | nil => exact .nil
  | cons part parts ih =>
    unfold compressParts
    split
    · exact .cons (.refl part) (ih size)
    · next response hresponse =>
      obtain ⟨hsome, -⟩ := Option.filter_eq_some_iff.mp hresponse
      exact .cons (.of_response hsome (stripResponsePayload_key response)) (ih _)

lemma compressMessages_cutFrom (maxBytes left size : Nat) (messages : List (Message χ)) :
    List.Forall₂ Message.CutFrom (compressMessages maxBytes left size messages).1 messages := by
  induction messages generalizing left size with
  | nil => exact cutFrom_messages_refl _
  | cons message messages ih =>
    cases left with
    | zero => exact cutFrom_messages_refl _
    | succ left =>
      have hparts := compressParts_cutFrom size message.parts
      rw [compressMessages]
      by_cases hrole : message.hasRole "function" = true
      · rw [if_pos hrole]
        dsimp only
        split
        · exact .cons ⟨rfl, hparts⟩ (cutFrom_messages_refl _)
        · exact .cons ⟨rfl, hparts⟩ (ih _ _)
      · rw [if_neg hrole]
        exact .cons (.refl message) (ih _ _)

lemma compressTurn_cutFrom (turn : Turn χ) (maxBytes : Nat) :
    (compressTurn turn maxBytes).1.CutFrom turn := by
  unfold compressTurn
  dsimp only
  split
  · exact .refl turn
  · exact ⟨rfl, rfl, compressMessages_cutFrom _ _ _ _⟩

lemma truncateResponse_key (maxChars : Nat) (response : FunctionResponse χ) :
    (truncateResponse maxChars response).key = response.key := by
  unfold truncateResponse
  split <;> rfl

lemma truncateTurn_cutFrom (turn : Turn χ) (maxChars : Nat) :
    (truncateTurn turn maxChars).CutFrom turn := by
  refine ⟨rfl, rfl, List.forall₂_map_left_iff.mpr (List.forall₂_same.mpr fun message _ => ?_)⟩
  split
  · refine ⟨rfl, List.forall₂_map_left_iff.mpr (List.forall₂_same.mpr fun part _ => ?_)⟩
    refine ⟨rfl, rfl, rfl, rfl, ?_⟩
    rw [Part.mapResponse, Option.map_map]
    exact congrArg (fun f => part.functionResponse.map f)
      (funext fun response => truncateResponse_key maxChars response)
  · exact .refl message

/-- What `reconcile_after_tool_calls` leaves of the current turn. -/
lemma cutFrom_currentTurn {ctx : AgentContext χ} {maxBytes maxChars : Nat}
    (h : (truncateCurrentTurnToolResults (compressCurrentTurn ctx maxBytes).1
      maxChars).1.currentTurn = some turn) : ∃ turn', ctx.currentTurn = some turn' ∧ turn.CutFrom turn' := by
  cases hcurrent : ctx.currentTurn with
  | none =>
    rw [compressCurrentTurn, hcurrent] at h
    dsimp only at h
    rw [truncateCurrentTurnToolResults, hcurrent] at h
    rw [hcurrent] at h
    cases h
  | some turn' =>
    rw [compressCurrentTurn, hcurrent] at h
    cases h
    exact ⟨turn', rfl, (truncateTurn_cutFrom _ _).trans (compressTurn_cutFrom _ _)⟩

end CutFrom

end RustyClaw.Context
