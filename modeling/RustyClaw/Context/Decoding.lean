import RustyClaw.Context.Sanitize

/-!
# Which texts are taken for envelopes

The text under `result` is an envelope that a tool has written, or any other text.
`prepare_function_response_for_llm` tells them apart by reading: what can be read as an envelope is
written again from the fields that were read.  All of these fields have defaults, so every object
can be read in which no known field has a value of another kind, and what else is in it is lost.

An envelope that was written as a text is read back as it was
(`ToolExecutionEnvelope.fromJsonStr_toJsonString`).  `decodesFaithfully_iff` says that another text
comes through exactly when it does not look like an envelope.
-/

namespace RustyClaw.Context

open Glyph ToolExecutionEnvelope
open Json hiding str

variable {χ : Type} [Glyph χ] (toLowercase : List Char → List Char)

/-- An envelope is read back as it was written, and any other text reaches the model as it is. -/
structure DecodesFaithfully (text : List χ) : Prop where
  roundTrip : ∀ envelope : ToolExecutionEnvelope χ, text = envelope.toJsonString →
    fromJsonStr text = some envelope
  passedOn : (∀ envelope : ToolExecutionEnvelope χ, text ≠ envelope.toJsonString) →
    ∀ response : FunctionResponse χ, response.resultText = some text →
      prepareFunctionResponseForLlm toLowercase response = response

variable {toLowercase} {text : List χ} {response : FunctionResponse χ}

lemma prepare_of_not_looksLikeEnvelope (hresult : response.resultText = some text)
    (h : ¬ LooksLikeEnvelope text) :
    prepareFunctionResponseForLlm toLowercase response = response := by
  have hnone : fromJsonStr text = none := by
    rw [← Option.not_isSome_iff_eq_none, isSome_fromJsonStr_iff]
    exact h
  rw [prepareFunctionResponseForLlm, hresult, Option.bind_some, hnone]

lemma prepare_of_fromJsonStr {envelope : ToolExecutionEnvelope χ}
    (hresult : response.resultText = some text) (h : fromJsonStr text = some envelope) :
    prepareFunctionResponseForLlm toLowercase response =
      response.withResult (envelope.intoLlmContext toLowercase).toJsonString := by
  rw [prepareFunctionResponseForLlm, hresult, Option.bind_some, h]

/-- `json!({ "result": text })`, as the response of some tool. -/
def textResponse (text : List χ) : FunctionResponse χ :=
  { name := [], response := .object [("result", .str text)] }

lemma resultText_textResponse (text : List χ) : (textResponse text).resultText = some text := by
  have hkey : chars (str "result" : List χ) = "result".toList := by rw [chars_str, str_char]
  show (Json.get "result".toList (.obj [(str "result", .str text)])).bind asStr = some text
  simp [Json.get, hkey, asStr]

/-- What can be read as an envelope reaches the model as it is only if it was written as one. -/
lemma exists_toJsonString (hpassed : ∀ response : FunctionResponse χ,
    response.resultText = some text → prepareFunctionResponseForLlm toLowercase response = response)
    (h : LooksLikeEnvelope text) :
    ∃ envelope : ToolExecutionEnvelope χ, text = envelope.toJsonString := by
  obtain ⟨envelope, henvelope⟩ := Option.isSome_iff_exists.mp ((isSome_fromJsonStr_iff text).mpr h)
  have hresult := resultText_textResponse text
  have hkept := hpassed _ hresult
  rw [prepare_of_fromJsonStr hresult henvelope] at hkept
  have htext := (textResponse text).resultText_withResult hresult
    (envelope.intoLlmContext toLowercase).toJsonString
  rw [hkept, hresult, Option.some_inj] at htext
  exact ⟨_, htext⟩

/-- A text is decoded without a loss exactly when it was written as an envelope, or does not look
like one. -/
theorem decodesFaithfully_iff (text : List χ) : DecodesFaithfully toLowercase text ↔
    (∃ envelope : ToolExecutionEnvelope χ, text = envelope.toJsonString) ∨
      ¬ LooksLikeEnvelope text := by
  constructor
  · intro h
    by_cases hwritten : ∃ envelope : ToolExecutionEnvelope χ, text = envelope.toJsonString
    · exact .inl hwritten
    · rw [not_exists] at hwritten
      refine .inr fun hlooks => ?_
      obtain ⟨envelope, heq⟩ := exists_toJsonString (h.passedOn hwritten) hlooks
      exact hwritten envelope heq
  · rintro (⟨envelope, rfl⟩ | hlooks)
    · refine ⟨fun envelope' heq => ?_, fun h => absurd rfl (h envelope)⟩
      rw [heq, fromJsonStr_toJsonString]
    · refine ⟨?_, fun _ response hresult => prepare_of_not_looksLikeEnvelope hresult hlooks⟩
      rintro envelope rfl
      exact fromJsonStr_toJsonString envelope

/-! ## An object that is no envelope -/

/-- What a tool of another kind returns: the city under `city`. -/
def weatherText : List Char := render (objOf [("city", .str "Berlin".toList)])

/-- An object without a field of an envelope is read as an envelope that is empty. -/
lemma decode_of_absent {field : Lookup χ} (h : ∀ key, key ≠ "city" → field key = some none) :
    decode field = some { result := {}, effects := {} } := by
  simp [decode, decodeResult, decodeEffects, readField, readText, h]

lemma fromJsonStr_weatherText : fromJsonStr weatherText = some { result := {}, effects := {} } := by
  have hparse : parse weatherText = some (objOf [("city", .str "Berlin".toList)]) :=
    parse_render _ (by decide)
  rw [fromJsonStr, hparse, objOf]
  refine decode_of_absent fun key hne => ?_
  have hbeq : (key == "city") = false := by simpa using hne
  refine (takeField_objOf _ (by simp) key).trans ?_
  rw [List.lookup_cons, hbeq]
  rfl

/-- The first field of every envelope is `ok`. -/
lemma exists_toJsonString_eq (envelope : ToolExecutionEnvelope Char) :
    ∃ tail, envelope.toJsonString = '\x7b' :: '"' :: 'o' :: tail := by
  obtain ⟨value, field, rest, hfields⟩ : ∃ value field rest,
      envelope.fields = ("ok", value) :: field :: rest := ⟨_, _, _, rfl⟩
  have hkey : (quote (str "ok") : List Char) = ['"', 'o', 'k', '"'] := by decide
  rw [toJsonString, toJson, hfields, objOf, List.map_cons, List.map_cons, render, renderFields,
    hkey]
  · exact ⟨_, rfl⟩
  · exact List.cons_ne_nil _ _

lemma weatherText_ne_toJsonString (envelope : ToolExecutionEnvelope Char) :
    weatherText ≠ envelope.toJsonString := by
  obtain ⟨tail, htail⟩ := exists_toJsonString_eq envelope
  intro heq
  have hkey : weatherText[2]? = some 'o' := by rw [heq, htail]; rfl
  revert hkey
  decide

theorem not_decodesFaithfully_weatherText :
    ¬ DecodesFaithfully (List.map Char.toLower) weatherText := by
  intro h
  have hresult := resultText_textResponse weatherText
  have hkept := h.passedOn weatherText_ne_toJsonString _ hresult
  rw [prepare_of_fromJsonStr hresult fromJsonStr_weatherText] at hkept
  have htext := (textResponse weatherText).resultText_withResult hresult
    (intoLlmContext (List.map Char.toLower) { result := {}, effects := {} }).toJsonString
  rw [hkept, hresult, Option.some_inj] at htext
  exact weatherText_ne_toJsonString _ htext

end RustyClaw.Context
