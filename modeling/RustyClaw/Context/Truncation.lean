import RustyClaw.Context.Reducers
import RustyClaw.Library.JsonSize

/-!
# Cutting the current turn twice

`truncate_current_turn_tool_results` keeps as many characters of a long result as the limit allows,
puts a notice between them, and stores the text in an object with the number of characters there
were.  It measures the whole object, so a result that was cut is longer than the limit
(`lt_length_truncatedResponse`), and the next call cuts it again: every call cuts as many results
as the first (`truncatedParts_truncateTurn`).

`truncationSettles_iff` says that the results fit, and stay as they are, only when there was nothing
to cut.
-/

namespace RustyClaw.Context

open Glyph
open Json hiding str

variable {χ : Type} [Glyph χ]

def Message.toolResults (message : Message χ) : List (FunctionResponse χ) :=
  if message.hasRole "function" then message.parts.filterMap (·.functionResponse) else []

/-- The responses in the function messages. -/
def Turn.toolResults (turn : Turn χ) : List (FunctionResponse χ) :=
  turn.messages.flatMap Message.toolResults

/-- A call leaves no result that is longer than the limit, and another one nothing to do. -/
structure TruncationSettles (ctx : AgentContext χ) (maxChars : Nat) : Prop where
  fits : ∀ turn, (truncateCurrentTurnToolResults ctx maxChars).1.currentTurn = some turn →
    ∀ response ∈ turn.toolResults, response.text.length ≤ maxChars
  settled : truncateCurrentTurnToolResults (truncateCurrentTurnToolResults ctx maxChars).1
    maxChars = ((truncateCurrentTurnToolResults ctx maxChars).1, 0)

/-- No result of the current turn is longer than the limit. -/
def Fits (ctx : AgentContext χ) (maxChars : Nat) : Prop :=
  ∀ turn, ctx.currentTurn = some turn →
    ∀ response ∈ turn.toolResults, response.text.length ≤ maxChars

variable {turn : Turn χ} {maxChars : Nat}

/-! ## One result -/

lemma truncateResponse_of_le {response : FunctionResponse χ}
    (h : response.text.length ≤ maxChars) : truncateResponse maxChars response = response :=
  if_pos h

lemma truncateResponse_of_lt {response : FunctionResponse χ}
    (h : maxChars < response.text.length) :
    truncateResponse maxChars response = truncatedResponse maxChars response :=
  if_neg (Nat.not_le.mpr h)

/-- What is left of a result that is cut is longer than the limit. -/
lemma lt_length_truncatedResponse {response : FunctionResponse χ}
    (h : maxChars < response.text.length) :
    maxChars < (truncatedResponse maxChars response).text.length := by
  have hnodup : ([("result", Json.str (response.text.take (maxChars / 2) ++
      str s!"\n... [Truncated by context recovery: {response.text.length - maxChars} chars hidden] ...\n" ++
      response.text.drop (response.text.length - maxChars / 2))),
      ("original_chars", ofNat response.text.length)].map Prod.fst).Nodup := by simp
  obtain ⟨sorted, hsorted, hmem⟩ := mem_object hnodup List.mem_cons_self
  have hlength := length_lt_render_obj hmem
  have hmarker : 2 ≤ (str s!"\n... [Truncated by context recovery: {
      response.text.length - maxChars} chars hidden] ...\n" : List χ).length := by
    rw [length_str, String.length_append, String.length_append]
    exact Nat.le_add_left_of_le (show 2 ≤ String.length " chars hidden] ...\n" by decide)
  show maxChars < (render (Value.object _).json).length
  rw [hsorted]
  refine lt_of_le_of_lt ?_ hlength
  simp only [List.length_append, List.length_take, List.length_drop]
  omega

/-! ## The turn -/

lemma toolResults_truncateTurn (turn : Turn χ) (maxChars : Nat) :
    (truncateTurn turn maxChars).toolResults =
      turn.toolResults.map (truncateResponse maxChars) := by
  rw [Turn.toolResults, truncateTurn, List.flatMap_map, Turn.toolResults, List.map_flatMap]
  refine List.flatMap_congr fun message _ => ?_
  by_cases hrole : message.hasRole "function" = true
  · have hrole' : Message.hasRole
        { message with parts := message.parts.map (Part.mapResponse (truncateResponse maxChars)) }
        "function" = true := hrole
    rw [if_pos hrole, Message.toolResults, if_pos hrole', Message.toolResults, if_pos hrole,
      List.filterMap_map, List.map_filterMap]
    rfl
  · rw [if_neg hrole, Message.toolResults, if_neg hrole, List.map_nil]

lemma truncatedParts_eq (turn : Turn χ) (maxChars : Nat) :
    truncatedParts turn maxChars =
      turn.toolResults.countP fun response => maxChars < response.text.length := by
  rw [truncatedParts, Turn.toolResults, List.countP_flatMap, List.countP_flatMap]
  induction turn.messages with
  | nil => rfl
  | cons message messages ih =>
    by_cases hrole : message.hasRole "function" = true
    · rw [List.filter_cons, if_pos hrole, List.map_cons, List.map_cons, List.sum_cons,
        List.sum_cons, ih, Function.comp_apply, Function.comp_apply, Message.toolResults,
        if_pos hrole, List.countP_filterMap]
      congr 2
      funext part
      cases part.functionResponse <;> rfl
    · rw [List.filter_cons, if_neg hrole, ih, List.map_cons, List.sum_cons, Function.comp_apply,
        Message.toolResults, if_neg hrole, List.countP_nil, Nat.zero_add]

/-- Every call cuts as many results as the one before. -/
theorem truncatedParts_truncateTurn (turn : Turn χ) (maxChars : Nat) :
    truncatedParts (truncateTurn turn maxChars) maxChars = truncatedParts turn maxChars := by
  rw [truncatedParts_eq, truncatedParts_eq, toolResults_truncateTurn, List.countP_map]
  refine List.countP_congr fun response _ => ?_
  simp only [Function.comp_apply, decide_eq_true_eq]
  rcases Nat.lt_or_ge maxChars response.text.length with hlt | hle
  · rw [truncateResponse_of_lt hlt]
    exact iff_of_true (lt_length_truncatedResponse hlt) hlt
  · rw [truncateResponse_of_le hle]

/-- A turn whose results fit stays as it is. -/
lemma truncateTurn_of_fits
    (h : ∀ response ∈ turn.toolResults, response.text.length ≤ maxChars) :
    truncateTurn turn maxChars = turn := by
  have hmessage : ∀ message ∈ turn.messages, (if message.hasRole "function" then
      { message with parts := message.parts.map (Part.mapResponse (truncateResponse maxChars)) }
      else message) = message := by
    intro message hmem
    by_cases hrole : message.hasRole "function" = true
    · rw [if_pos hrole]
      have hpart : ∀ part ∈ message.parts,
          Part.mapResponse (truncateResponse maxChars) part = part := by
        intro part hpart
        rw [Part.mapResponse]
        cases hresponse : part.functionResponse with
        | none =>
          rw [Option.map_none, ← hresponse]
        | some response =>
          have hresult : response ∈ turn.toolResults := by
            refine List.mem_flatMap.mpr ⟨message, hmem, ?_⟩
            rw [Message.toolResults, if_pos hrole]
            exact List.mem_filterMap.mpr ⟨part, hpart, hresponse⟩
          rw [Option.map_some, truncateResponse_of_le (h response hresult), ← hresponse]
      rw [List.map_congr_left hpart, List.map_id']
    · rw [if_neg hrole]
  rw [truncateTurn, List.map_congr_left hmessage, List.map_id']

/-! ## The context -/

lemma fits_of_settles {ctx : AgentContext χ} (h : TruncationSettles ctx maxChars) :
    Fits ctx maxChars := by
  intro turn hturn response hmem
  have hcut : (truncateCurrentTurnToolResults ctx maxChars).1.currentTurn =
      some (truncateTurn turn maxChars) := by
    rw [truncateCurrentTurnToolResults, hturn]
  by_contra hlong
  rw [Nat.not_le] at hlong
  refine Nat.not_le.mpr (lt_length_truncatedResponse hlong)
    (h.fits _ hcut (truncatedResponse maxChars response) ?_)
  rw [toolResults_truncateTurn, ← truncateResponse_of_lt hlong]
  exact List.mem_map_of_mem hmem

lemma truncate_of_fits {ctx : AgentContext χ} (h : Fits ctx maxChars) :
    truncateCurrentTurnToolResults ctx maxChars = (ctx, 0) := by
  unfold truncateCurrentTurnToolResults
  cases hcurrent : ctx.currentTurn with
  | none => rfl
  | some turn =>
    have hfits := h turn hcurrent
    have hnone : truncatedParts turn maxChars = 0 := by
      rw [truncatedParts_eq, List.countP_eq_zero]
      intro response hmem
      have hle := hfits response hmem
      simp only [decide_eq_true_eq]
      omega
    dsimp only
    rw [truncateTurn_of_fits hfits, hnone, ← hcurrent]

/-- The results fit after a call, and another one leaves them alone, only when no result was too
long before. -/
theorem truncationSettles_iff (ctx : AgentContext χ) (maxChars : Nat) :
    TruncationSettles ctx maxChars ↔ Fits ctx maxChars := by
  refine ⟨fits_of_settles, fun h => ⟨?_, ?_⟩⟩
  · rw [truncate_of_fits h]
    exact h
  · rw [truncate_of_fits h, truncate_of_fits h]

/-- A result that is one character too long. -/
def longResultContext : AgentContext Char :=
  { currentTurn := some {
      turnId := "t".toList
      userMessage := "Fix it".toList
      messages := [{
        role := "function".toList
        parts := [{ functionResponse := some {
          name := "execute_bash".toList
          response := .object [("result", .str "ok".toList)] } }] }] } }

theorem not_truncationSettles_longResult : ¬ TruncationSettles longResultContext 14 := by
  intro h
  have hfits := fits_of_settles h _ rfl
  revert hfits
  decide

end RustyClaw.Context
