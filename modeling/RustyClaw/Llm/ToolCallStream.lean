import RustyClaw.Context.Model
import RustyClaw.Core.Streaming

/-!
# Tool calls in a stream

A streamed chat completion brings the text of an answer and its tool calls in pieces (`delta`).  The
pieces of a call are told by an id or, where they have none, by an index that the calls of one
stream may share.  `process_delta_json` keeps the calls under storage indices, numbered from zero in
the order in which their ids appear, and remembers for every index of the provider which call has
taken it last; at the end of the stream the calls are sent in the order of their storage indices.

`streamed_of_delivers` is the whole story for streams in which a call begins with its id and its
name, and goes on with its id or with its index while no other call has taken it (`Delivers`): the
calls that are sent are those of the stream, each with the text of its own pieces.  A call with a
blank name is left out, and a blank text of arguments counts as none.
-/

namespace RustyClaw.Llm

open Glyph
open Json hiding str
open RustyClaw.Context (FunctionCall)
open RustyClaw.Streaming (StreamEvent)

/-! ## What is kept -/

/-- The name, the text of the arguments and the id of a call, as far as they have come. -/
structure ActiveTool where
  name : List Char
  args : List Char
  id : Option (List Char)
  deriving DecidableEq

/-- `active_tools`, in the order in which its keys have come, and `index_map`. -/
structure ToolState where
  activeTools : List (Nat × ActiveTool)
  indexMap : Nat → Option Nat

def ToolState.new : ToolState := ⟨[], fun _ => none⟩

/-- An element of `tool_calls`. -/
structure Delta where
  index : Nat
  id : Option (List Char)
  name : Option (List Char)
  arguments : Option (List Char)
  deriving DecidableEq

def readDelta (toolCall : Json Char) : Delta where
  index := (((get "index".toList toolCall).bind readUInt64).map UInt64.toNat).getD 0
  id := (get "id".toList toolCall).bind asStr
  name := ((get "function".toList toolCall).bind (get "name".toList)).bind asStr
  arguments := ((get "function".toList toolCall).bind (get "arguments".toList)).bind asStr

/-- Where the call is kept, and `index_map` after it has been looked up. -/
def storageIndex (s : ToolState) (delta : Delta) : Nat × (Nat → Option Nat) :=
  match delta.id with
  | some id =>
    match s.activeTools.find? fun entry => decide (entry.2.id = some id) with
    | some entry => (entry.1, s.indexMap)
    | none =>
      let nextIdx := (s.activeTools.map Prod.fst).foldl max 0 +
        if s.activeTools = [] then 0 else 1
      (nextIdx, Function.update s.indexMap delta.index (some nextIdx))
  | none => ((s.indexMap delta.index).getD delta.index, s.indexMap)

/-- An entry with what the delta has for it. -/
def ActiveTool.extend (tool : ActiveTool) (delta : Delta) : ActiveTool where
  name :=
    match delta.name with
    | some name =>
      if tool.name = [] || !Text.contains name tool.name then tool.name ++ name else tool.name
    | none => tool.name
  args := tool.args ++ delta.arguments.getD []
  id := delta.id.or tool.id

/-- `entry(storage_idx).or_insert_with(..)`, and what is done to the entry. -/
def modifyEntry (k : Nat) (f : ActiveTool → ActiveTool) (tools : List (Nat × ActiveTool)) :
    List (Nat × ActiveTool) :=
  if tools.any fun entry => entry.1 == k then
    tools.map fun entry => if entry.1 = k then (k, f entry.2) else entry
  else tools ++ [(k, f ⟨[], [], none⟩)]

def ToolState.take (s : ToolState) (delta : Delta) : ToolState where
  activeTools := modifyEntry (storageIndex s delta).1 (·.extend delta) s.activeTools
  indexMap := (storageIndex s delta).2

/-! ## An event of the stream -/

/-- A call and the signature of the thought before it. -/
abbrev ToolCallEvent := FunctionCall Char × Option (List Char)

/-- A text that is there and not empty. -/
def nonemptyText (text : Option (List Char)) : Option (List Char) := text.filter (· ≠ [])

/-- What a choice has for the reader. -/
def choiceEvents (delta : Json Char) : List (StreamEvent Char ToolCallEvent) :=
  ((nonemptyText ((get "content".toList delta).bind asStr)).map StreamEvent.text).toList ++
    ((nonemptyText ((get "reasoning_content".toList delta).bind asStr)).map
      StreamEvent.thought).toList

def choiceDeltas (delta : Json Char) : List Delta :=
  (((get "tool_calls".toList delta).bind asArr).getD []).map readDelta

/-- The `delta` of each choice. -/
def choices (json : Json Char) : List (Json Char) :=
  (((get "choices".toList json).bind asArr).getD []).filterMap (get "delta".toList)

/-- `process_delta_json`: the events that are sent, and the calls afterwards. -/
def processDeltaJson (s : ToolState) (json : Json Char) :
    List (StreamEvent Char ToolCallEvent) × ToolState :=
  (choices json).foldl
    (fun acc delta =>
      (acc.1 ++ choiceEvents delta, (choiceDeltas delta).foldl ToolState.take acc.2))
    ([], s)

/-! ## The end of the stream -/

/-- What the crate makes of the numbers of a text, and the text of the `Uuid::new_v4` that is made
for a call without an id. -/
structure Environment where
  number : NumLit Char → Option (NumLit Char)
  uuid : Nat → List Char

/-- `serde_json::from_str(..).unwrap_or(Value::Null)`. -/
def parseArgs (env : Environment) (args : List Char) : Value Char :=
  ((parse args).bind (readValue env.number)).getD ⟨.null, trivial⟩

def argsOf (env : Environment) (args : List Char) : Value Char :=
  if trim args = [] then Value.object [] else parseArgs env args

/-- The event for an entry; none for a blank name. -/
def toolCallEvent (env : Environment) (k : Nat) (tool : ActiveTool) :
    Option (StreamEvent Char ToolCallEvent) :=
  if trim tool.name = [] then none
  else some (.toolCall (⟨tool.name, argsOf env tool.args,
    some (tool.id.getD (str "call_" ++ env.uuid k))⟩, none))

/-- The events at the end, in the order of the storage indices. -/
def finish (env : Environment) (s : ToolState) : List (StreamEvent Char ToolCallEvent) :=
  ((s.activeTools.mergeSort fun a b => decide (a.1 ≤ b.1)).filterMap fun entry =>
    toolCallEvent env entry.1 entry.2) ++ [.done]

/-- The events of a stream of JSON values. -/
def streamed (env : Environment) (jsons : List (Json Char)) :
    List (StreamEvent Char ToolCallEvent) :=
  let (events, s) := jsons.foldl
    (fun acc json =>
      let (events, s) := processDeltaJson acc.2 json
      (acc.1 ++ events, s))
    ([], ToolState.new)
  events ++ finish env s

/-! ## What the calls of a stream are -/

/-- A call as its first delta has it. -/
structure Call where
  id : List Char
  name : List Char
  index : Nat
  deriving DecidableEq

/-- The deltas, each with the number of the call it belongs to, are those of the calls, which are
numbered in the order of their first deltas. -/
inductive Delivers : List Call → List (Nat × Delta) → Prop where
  | nil : Delivers [] []
  | first {calls : List Call} {sent : List (Nat × Delta)} (call : Call)
    (arguments : Option (List Char)) (h : Delivers calls sent)
    (hfresh : ∀ other ∈ calls, other.id ≠ call.id) :
    Delivers (calls ++ [call])
      (sent ++ [(calls.length, ⟨call.index, some call.id, some call.name, arguments⟩)])
  | later {calls : List Call} {sent : List (Nat × Delta)} {k : Nat} {call : Call} (delta : Delta)
    (h : Delivers calls sent) (hcall : calls[k]? = some call)
    (hname : delta.name = none ∨ delta.name = some call.name)
    (htold : delta.id = some call.id ∨
      delta.id = none ∧ delta.index = call.index ∧
        ∀ j other, k < j → calls[j]? = some other → other.index ≠ call.index) :
    Delivers calls (sent ++ [(k, delta)])

/-- The pieces of the arguments of a call. -/
def fragments (sent : List (Nat × Delta)) (k : Nat) : List (List Char) :=
  sent.filterMap fun entry => if entry.1 = k then entry.2.arguments else none

/-- The deltas of the calls, in the order of the stream. -/
def deltasOf (jsons : List (Json Char)) : List Delta :=
  jsons.flatMap fun json => (choices json).flatMap choiceDeltas

/-- The texts and thoughts of the stream. -/
def textEvents (jsons : List (Json Char)) : List (StreamEvent Char ToolCallEvent) :=
  jsons.flatMap fun json => (choices json).flatMap choiceEvents

def callEvent (args : List (List Char) → Value Char) (sent : List (Nat × Delta)) (k : Nat)
    (call : Call) : StreamEvent Char ToolCallEvent :=
  .toolCall (⟨call.name, args (fragments sent k), some call.id⟩, none)

/-! ## The calls after each delta -/

section Invariant

variable {calls : List Call} {sent : List (Nat × Delta)} {s : ToolState} {k : Nat} {call : Call}
  {delta : Delta}

/-- What is kept of a call. -/
def toolOf (sent : List (Nat × Delta)) (k : Nat) (call : Call) : ActiveTool :=
  ⟨call.name, (fragments sent k).flatten, some call.id⟩

/-- The storage index of a call is its number, and an index of the provider stands for the last call
that has taken it. -/
structure Reassembles (calls : List Call) (sent : List (Nat × Delta)) (s : ToolState) : Prop where
  tools : s.activeTools = calls.mapIdx fun k call => (k, toolOf sent k call)
  last : ∀ k call, calls[k]? = some call →
    (∀ j other, k < j → calls[j]? = some other → other.index ≠ call.index) →
      s.indexMap call.index = some k

lemma Delivers.lt_length (h : Delivers calls sent) : ∀ entry ∈ sent, entry.1 < calls.length := by
  induction h with
  | nil => simp
  | first call arguments h hfresh ih =>
    intro entry hentry
    rw [List.length_append, List.length_singleton]
    rcases List.mem_append.mp hentry with hentry | hentry
    · exact (ih entry hentry).trans (Nat.lt_succ_self _)
    · rw [List.mem_singleton.mp hentry]
      exact Nat.lt_succ_self _
  | later delta h hcall hname htold ih =>
    intro entry hentry
    rcases List.mem_append.mp hentry with hentry | hentry
    · exact ih entry hentry
    · rw [List.mem_singleton.mp hentry]
      exact (List.getElem?_eq_some_iff.mp hcall).1

lemma getElem?_concat {new : Call} (h : (calls ++ [new])[k]? = some call) :
    calls[k]? = some call ∨ k = calls.length ∧ new = call := by
  rw [List.getElem?_append] at h
  split at h
  · exact Or.inl h
  · next hge =>
    rw [List.getElem?_singleton] at h
    split at h
    · exact Or.inr ⟨by omega, Option.some_inj.mp h⟩
    · cases h

/-- Calls are told apart by their ids. -/
lemma Delivers.eq_of_id (h : Delivers calls sent) {j k : Nat} {other call : Call}
    (hj : calls[j]? = some other) (hk : calls[k]? = some call) (hid : other.id = call.id) :
    j = k := by
  induction h generalizing j k other call with
  | nil => cases hj
  | first new arguments h hfresh ih =>
    rcases getElem?_concat hj with hj | ⟨rfl, rfl⟩
    · rcases getElem?_concat hk with hk | ⟨rfl, rfl⟩
      · exact ih hj hk hid
      · exact absurd hid (hfresh other (List.mem_of_getElem? hj))
    · rcases getElem?_concat hk with hk | ⟨rfl, rfl⟩
      · exact absurd hid.symm (hfresh call (List.mem_of_getElem? hk))
      · rfl
  | later delta h hcall hname htold ih => exact ih hj hk hid

lemma fragments_concat (sent : List (Nat × Delta)) (j k : Nat) (delta : Delta) :
    fragments (sent ++ [(j, delta)]) k =
      fragments sent k ++ if j = k then delta.arguments.toList else [] := by
  rw [fragments, List.filterMap_append, ← fragments, List.filterMap_cons, List.filterMap_nil]
  by_cases hjk : j = k
  · rw [if_pos hjk, if_pos hjk]
    cases delta.arguments <;> rfl
  · rw [if_neg hjk, if_neg hjk]

lemma toolOf_concat_of_ne {j : Nat} (h : j ≠ k) :
    toolOf (sent ++ [(j, delta)]) k call = toolOf sent k call := by
  rw [toolOf, fragments_concat, if_neg h, List.append_nil, toolOf]

lemma contains_self (name : List Char) (h : name ≠ []) : Text.contains name name = true := by
  rw [Text.contains_iff_infix h]

/-- A later delta of a call adds its piece to the arguments. -/
lemma extend_toolOf (hname : delta.name = none ∨ delta.name = some call.name)
    (hid : delta.id = none ∨ delta.id = some call.id) :
    (toolOf sent k call).extend delta = toolOf (sent ++ [(k, delta)]) k call := by
  have hargs : (fragments (sent ++ [(k, delta)]) k).flatten =
      (fragments sent k).flatten ++ delta.arguments.getD [] := by
    rw [fragments_concat, if_pos rfl, List.flatten_append]
    cases delta.arguments <;> simp
  have hkept : (match delta.name with
      | some name =>
        if call.name = [] || !Text.contains name call.name then call.name ++ name else call.name
      | none => call.name) = call.name := by
    rcases hname with hname | hname
    · rw [hname]
    · rw [hname]
      by_cases hempty : call.name = []
      · simp [hempty]
      · simp [hempty, contains_self]
  have htold : delta.id.or (some call.id) = some call.id := by
    rcases hid with hid | hid <;> rw [hid] <;> rfl
  unfold ActiveTool.extend toolOf
  rw [hargs]
  simp only [hkept, htold]

lemma mem_tools (h : Reassembles calls sent s) {entry : Nat × ActiveTool}
    (hentry : entry ∈ s.activeTools) :
    ∃ call, calls[entry.1]? = some call ∧ entry.2 = toolOf sent entry.1 call := by
  rw [h.tools] at hentry
  obtain ⟨k, hk, rfl⟩ := List.mem_mapIdx.mp hentry
  exact ⟨calls[k], List.getElem?_eq_getElem hk, rfl⟩

lemma foldl_max_range (n : Nat) : (List.range n).foldl max 0 = n - 1 := by
  induction n with
  | zero => rfl
  | succ n ih =>
    rw [List.range_succ, List.foldl_append, ih, List.foldl_cons, List.foldl_nil]
    omega

/-- A fresh id gets the next index. -/
lemma storageIndex_fresh (h : Reassembles calls sent s)
    (hfresh : ∀ other ∈ calls, other.id ≠ call.id) (hid : delta.id = some call.id) :
    storageIndex s delta =
      (calls.length, Function.update s.indexMap delta.index (some calls.length)) := by
  have hnone : s.activeTools.find? (fun entry => decide (entry.2.id = some call.id)) = none := by
    rw [List.find?_eq_none]
    intro entry hentry hsame
    obtain ⟨other, hother, htool⟩ := mem_tools h hentry
    rw [htool, decide_eq_true_eq] at hsame
    exact hfresh other (List.mem_of_getElem? hother) (Option.some_inj.mp hsame)
  have hkeys : s.activeTools.map Prod.fst = List.range calls.length := by
    rw [h.tools]
    apply List.ext_getElem?
    intro k
    by_cases hk : k < calls.length
    · simp [hk]
    · simp [hk]
  have hnext : (s.activeTools.map Prod.fst).foldl max 0 +
      (if s.activeTools = [] then 0 else 1) = calls.length := by
    rw [hkeys, foldl_max_range]
    have hlength : s.activeTools.length = calls.length := by rw [h.tools, List.length_mapIdx]
    split
    · next hempty =>
      rw [hempty, List.length_nil] at hlength
      omega
    · next hne =>
      have := List.length_pos_of_ne_nil hne
      omega
  rw [storageIndex, hid]
  simp only [hnone, hnext]

/-- An id that is known leads to its call. -/
lemma storageIndex_known (h : Reassembles calls sent s) (hcalls : Delivers calls sent)
    (hcall : calls[k]? = some call) (hid : delta.id = some call.id) :
    storageIndex s delta = (k, s.indexMap) := by
  rw [storageIndex, hid]
  cases hfind : s.activeTools.find? fun entry => decide (entry.2.id = some call.id) with
  | none =>
    have hk := (List.getElem?_eq_some_iff.mp hcall).1
    have hmem : (k, toolOf sent k call) ∈ s.activeTools := by
      rw [h.tools, List.mem_mapIdx]
      exact ⟨k, hk, by rw [(List.getElem?_eq_some_iff.mp hcall).2]⟩
    have := List.find?_eq_none.mp hfind _ hmem
    exact absurd (decide_eq_true rfl) this
  | some entry =>
    obtain ⟨other, hother, htool⟩ := mem_tools h (List.mem_of_find?_eq_some hfind)
    have hsame := List.find?_some hfind
    rw [htool, decide_eq_true_eq] at hsame
    have hk := hcalls.eq_of_id hother hcall (Option.some_inj.mp hsame)
    simp only [hfind, hk]

lemma storageIndex_index (h : Reassembles calls sent s) (hcall : calls[k]? = some call)
    (hid : delta.id = none) (hindex : delta.index = call.index)
    (hlast : ∀ j other, k < j → calls[j]? = some other → other.index ≠ call.index) :
    storageIndex s delta = (k, s.indexMap) := by
  rw [storageIndex, hid]
  simp only [hindex, h.last k call hcall hlast, Option.getD_some]

lemma activeTools_take (s : ToolState) (delta : Delta) : (s.take delta).activeTools =
    modifyEntry (storageIndex s delta).1 (·.extend delta) s.activeTools := rfl

lemma indexMap_take (s : ToolState) (delta : Delta) :
    (s.take delta).indexMap = (storageIndex s delta).2 := rfl

/-- The first delta of a call. -/
lemma Reassembles.first (h : Reassembles calls sent s) (hcalls : Delivers calls sent)
    (hfresh : ∀ other ∈ calls, other.id ≠ call.id) {arguments : Option (List Char)}
    (hdelta : delta = ⟨call.index, some call.id, some call.name, arguments⟩) :
    Reassembles (calls ++ [call]) (sent ++ [(calls.length, delta)]) (s.take delta) := by
  have hstored : storageIndex s delta = _ := storageIndex_fresh h hfresh (by rw [hdelta])
  have hmiss : ¬ (s.activeTools.any fun entry => entry.1 == calls.length) = true := by
    rw [List.any_eq_true]
    rintro ⟨entry, hentry, hkey⟩
    obtain ⟨other, hother, -⟩ := mem_tools h hentry
    rw [eq_of_beq hkey] at hother
    exact absurd (List.getElem?_eq_some_iff.mp hother).1 (lt_irrefl _)
  have hnone : fragments sent calls.length = [] := by
    rw [fragments, List.filterMap_eq_nil_iff]
    intro entry hentry
    exact if_neg (Nat.ne_of_lt (hcalls.lt_length entry hentry))
  refine ⟨?_, ?_⟩
  · rw [activeTools_take, hstored, modifyEntry, if_neg hmiss, h.tools, List.mapIdx_append]
    congr 1
    · apply List.ext_getElem?
      intro k
      rw [List.getElem?_mapIdx, List.getElem?_mapIdx]
      cases hk : calls[k]? with
      | none => rfl
      | some other =>
        have hlt := (List.getElem?_eq_some_iff.mp hk).1
        rw [Option.map_some, Option.map_some, toolOf_concat_of_ne (Nat.ne_of_gt hlt)]
    · have hargs : (fragments (sent ++ [(calls.length, delta)]) calls.length).flatten =
          arguments.getD [] := by
        rw [fragments_concat, hnone, if_pos rfl, hdelta]
        cases arguments <;> simp
      have htool : ActiveTool.extend ⟨[], [], none⟩ delta =
          toolOf (sent ++ [(calls.length, delta)]) calls.length call := by
        rw [toolOf, hargs, hdelta]
        rfl
      simp [htool]
  · intro k other hk hlast
    have hmap : (s.take delta).indexMap =
        Function.update s.indexMap call.index (some calls.length) := by
      rw [indexMap_take, hstored, hdelta]
    rw [hmap, Function.update_apply]
    rcases getElem?_concat hk with hk' | ⟨rfl, rfl⟩
    · have hlt := (List.getElem?_eq_some_iff.mp hk').1
      have hne : call.index ≠ other.index := hlast calls.length call hlt (by simp)
      rw [if_neg hne.symm]
      apply h.last k other hk'
      intro j later hj hlater
      refine hlast j later hj ?_
      rw [List.getElem?_append_left (List.getElem?_eq_some_iff.mp hlater).1, hlater]
    · rw [if_pos rfl]

/-- A later delta of a call. -/
lemma Reassembles.later (h : Reassembles calls sent s) (hcalls : Delivers calls sent)
    (hcall : calls[k]? = some call) (hname : delta.name = none ∨ delta.name = some call.name)
    (htold : delta.id = some call.id ∨
      delta.id = none ∧ delta.index = call.index ∧
        ∀ j other, k < j → calls[j]? = some other → other.index ≠ call.index) :
    Reassembles calls (sent ++ [(k, delta)]) (s.take delta) := by
  have hstored : storageIndex s delta = (k, s.indexMap) := by
    rcases htold with hid | ⟨hid, hindex, hlast⟩
    · exact storageIndex_known h hcalls hcall hid
    · exact storageIndex_index h hcall hid hindex hlast
  have hid : delta.id = none ∨ delta.id = some call.id :=
    htold.elim Or.inr fun h => Or.inl h.1
  have hk := (List.getElem?_eq_some_iff.mp hcall).1
  have hthere : (s.activeTools.any fun entry => entry.1 == k) = true := by
    rw [List.any_eq_true]
    refine ⟨(k, toolOf sent k call), ?_, beq_self_eq_true k⟩
    rw [h.tools, List.mem_mapIdx]
    exact ⟨k, hk, by rw [(List.getElem?_eq_some_iff.mp hcall).2]⟩
  refine ⟨?_, ?_⟩
  · rw [activeTools_take, hstored, modifyEntry, if_pos hthere, h.tools]
    apply List.ext_getElem?
    intro j
    rw [List.getElem?_map, List.getElem?_mapIdx, List.getElem?_mapIdx]
    cases hj : calls[j]? with
    | none => rfl
    | some other =>
      rw [Option.map_some, Option.map_some, Option.map_some]
      by_cases hjk : j = k
      · subst hjk
        rw [hcall, Option.some_inj] at hj
        rw [if_pos rfl, ← hj, extend_toolOf hname hid]
      · rw [if_neg hjk, toolOf_concat_of_ne (Ne.symm hjk)]
  · rw [indexMap_take, hstored]
    exact h.last

/-- The calls are kept as they should be after every delta of every interleaving. -/
lemma reassembles_of_delivers (h : Delivers calls sent) :
    Reassembles calls sent ((sent.map Prod.snd).foldl ToolState.take ToolState.new) := by
  induction h with
  | nil => exact ⟨rfl, fun k call hk => by cases hk⟩
  | first call arguments h hfresh ih =>
    rw [List.map_append, List.foldl_append]
    exact ih.first h hfresh rfl
  | later delta h hcall hname htold ih =>
    rw [List.map_append, List.foldl_append]
    exact ih.later h hcall hname htold

end Invariant

/-! ## The events of a stream -/

section Events

variable {env : Environment} {calls : List Call} {sent : List (Nat × Delta)} {s : ToolState}

lemma processDeltaJson_eq (s : ToolState) (json : Json Char) :
    processDeltaJson s json = ((choices json).flatMap choiceEvents,
      ((choices json).flatMap choiceDeltas).foldl ToolState.take s) := by
  have hfold : ∀ (deltas : List (Json Char)) (events : List (StreamEvent Char ToolCallEvent))
      (s : ToolState), deltas.foldl (fun acc delta =>
          (acc.1 ++ choiceEvents delta, (choiceDeltas delta).foldl ToolState.take acc.2))
        (events, s) =
      (events ++ deltas.flatMap choiceEvents,
        (deltas.flatMap choiceDeltas).foldl ToolState.take s) := by
    intro deltas
    induction deltas with
    | nil => simp
    | cons delta deltas ih =>
      intro events s
      rw [List.foldl_cons, ih, List.flatMap_cons, List.flatMap_cons, List.foldl_append,
        List.append_assoc]
  exact hfold _ [] s

lemma streamed_eq (env : Environment) (jsons : List (Json Char)) :
    streamed env jsons = textEvents jsons ++
      finish env ((deltasOf jsons).foldl ToolState.take ToolState.new) := by
  have hfold : ∀ (jsons : List (Json Char)) (events : List (StreamEvent Char ToolCallEvent))
      (s : ToolState), jsons.foldl (fun acc json =>
          (acc.1 ++ (processDeltaJson acc.2 json).1, (processDeltaJson acc.2 json).2)) (events, s) =
      (events ++ textEvents jsons, (deltasOf jsons).foldl ToolState.take s) := by
    intro jsons
    induction jsons with
    | nil => simp [textEvents, deltasOf]
    | cons json jsons ih =>
      intro events s
      rw [List.foldl_cons, ih, processDeltaJson_eq, textEvents, textEvents, deltasOf, deltasOf,
        List.flatMap_cons, List.flatMap_cons, List.foldl_append, List.append_assoc]
  have hrun := hfold jsons [] ToolState.new
  unfold streamed
  dsimp only
  rw [hrun, List.nil_append]

/-- The entries are in the order of their indices already. -/
lemma finish_of_reassembles (h : Reassembles calls sent s) :
    finish env s = (calls.mapIdx fun k call =>
      toolCallEvent env k (toolOf sent k call)).filterMap id ++ [.done] := by
  have hsorted : s.activeTools.Pairwise fun a b => decide (a.1 ≤ b.1) = true := by
    rw [h.tools, List.pairwise_iff_getElem]
    intro i j hi hj hij
    rw [List.getElem_mapIdx, List.getElem_mapIdx]
    exact decide_eq_true hij.le
  rw [finish, List.mergeSort_of_pairwise hsorted, h.tools]
  congr 1
  have hmap : (calls.mapIdx fun k call => toolCallEvent env k (toolOf sent k call)) =
      (calls.mapIdx fun k call => (k, toolOf sent k call)).map fun entry =>
        toolCallEvent env entry.1 entry.2 := by
    apply List.ext_getElem?
    intro k
    simp only [List.getElem?_map, List.getElem?_mapIdx, Option.map_map]
    rfl
  rw [hmap, List.filterMap_map]
  rfl

lemma toolCallEvent_toolOf (k : Nat) (call : Call) :
    toolCallEvent env k (toolOf sent k call) = if trim call.name = [] then none
      else some (callEvent (fun pieces => argsOf env pieces.flatten) sent k call) := rfl

end Events

/-- Each call of a stream is sent at its end with its id, its name and the arguments of its own
pieces, in the order in which the calls have begun.  Calls with a blank name are left out, and a
blank text of arguments is taken for no arguments. -/
theorem streamed_of_delivers (env : Environment) {calls : List Call} {sent : List (Nat × Delta)}
    {jsons : List (Json Char)} (h : Delivers calls sent)
    (hsent : deltasOf jsons = sent.map Prod.snd) :
    streamed env jsons = textEvents jsons ++ ((calls.mapIdx fun k call =>
      if trim call.name = [] then none
      else some (callEvent (fun pieces => argsOf env pieces.flatten) sent k call)).filterMap id ++
        [.done]) := by
  rw [streamed_eq, hsent, finish_of_reassembles (reassembles_of_delivers h)]
  simp only [toolCallEvent_toolOf]

/-! ## Streams -/

section Streams

def someEnvironment : Environment := ⟨some, fun _ => []⟩

/-- An element of `tool_calls` with an id and a name. -/
def namedItem (index : Nat) (id name arguments : String) : Json Char :=
  objOf [("index", .num (.ofInt index)), ("id", .str (str id)),
    ("function", objOf [("name", .str (str name)), ("arguments", .str (str arguments))])]

/-- An element of `tool_calls` that has nothing but its index and a piece of the arguments. -/
def pieceItem (index : Nat) (arguments : String) : Json Char :=
  objOf [("index", .num (.ofInt index)), ("function", objOf [("arguments", .str (str arguments))])]

/-- An event of the stream with one element. -/
def chunkOf (item : Json Char) : Json Char :=
  objOf [("choices", .arr [objOf [("delta", objOf [("tool_calls", .arr [item])])]])]

/-- Two calls that share an index; the first goes on with its id. -/
def sharedIndex : List (Json Char) :=
  [chunkOf (namedItem 0 "call_1" "read_file" "\x7b\"path\":"),
    chunkOf (namedItem 0 "call_2" "list_files" ""),
    chunkOf (namedItem 1 "call_1" "read_file" "\"a.txt\"\x7d"),
    chunkOf (pieceItem 0 "\x7b\x7d")]

def readFile : Call := ⟨str "call_1", str "read_file", 0⟩

def listFiles : Call := ⟨str "call_2", str "list_files", 0⟩

def sharedSent : List (Nat × Delta) :=
  [(0, ⟨0, some (str "call_1"), some (str "read_file"), some (str "\x7b\"path\":")⟩),
    (1, ⟨0, some (str "call_2"), some (str "list_files"), some []⟩),
    (0, ⟨1, some (str "call_1"), some (str "read_file"), some (str "\"a.txt\"\x7d")⟩),
    (1, ⟨0, none, none, some (str "\x7b\x7d")⟩)]

lemma delivers_shared : Delivers [readFile, listFiles] sharedSent := by
  have hread := Delivers.first readFile (some (str "\x7b\"path\":")) .nil (by simp)
  have hlist := Delivers.first listFiles (some []) hread (by simp [readFile, listFiles, str_char])
  have hmore := @Delivers.later _ _ 0 readFile
    ⟨1, some (str "call_1"), some (str "read_file"), some (str "\"a.txt\"\x7d")⟩ hlist rfl
    (Or.inr rfl) (Or.inl rfl)
  refine @Delivers.later _ _ 1 listFiles ⟨0, none, none, some (str "\x7b\x7d")⟩ hmore rfl
    (Or.inl rfl) (Or.inr ⟨rfl, rfl, ?_⟩)
  -- the second call is the last
  intro j other hj hother
  have hlt := (List.getElem?_eq_some_iff.mp hother).1
  exact absurd hlt (Nat.not_lt.mpr hj)

theorem streamed_shared : Delivers [readFile, listFiles] sharedSent ∧
    deltasOf sharedIndex = sharedSent.map Prod.snd ∧
    streamed someEnvironment sharedIndex = textEvents sharedIndex ++
      (([readFile, listFiles].mapIdx fun k call =>
        if trim call.name = [] then none
        else some (callEvent (fun pieces => argsOf someEnvironment pieces.flatten) sharedSent k
          call)).filterMap id ++ [.done]) := by
  have hsent : deltasOf sharedIndex = sharedSent.map Prod.snd := by decide +kernel
  exact ⟨delivers_shared, hsent, streamed_of_delivers someEnvironment delivers_shared hsent⟩

/-- The arguments as they are promised: no piece is the empty object, and a text that does not parse
is null. -/
def promisedArgs (env : Environment) (pieces : List (List Char)) : Value Char :=
  if pieces = [] then Value.object [] else parseArgs env pieces.flatten

/-- A call whose only piece is a blank. -/
def blankPiece : List (Json Char) := [chunkOf (namedItem 0 "call_2" "list_files" " ")]

/-- The first event is a call with the arguments null. -/
def startsWithNull : List (StreamEvent Char ToolCallEvent) → Bool
  | .toolCall (call, _) :: _ =>
    match call.args.json with
    | .null => true
    | _ => false
  | _ => false

/-- The arguments of the call are sent as the empty object, and not as null. -/
theorem not_streamed_blankPiece : ¬ ∀ (env : Environment) (calls : List Call)
    (sent : List (Nat × Delta)) (jsons : List (Json Char)), Delivers calls sent →
      deltasOf jsons = sent.map Prod.snd →
        streamed env jsons =
          textEvents jsons ++ (calls.mapIdx (callEvent (promisedArgs env) sent) ++ [.done]) := by
  intro h
  have hdelivers : Delivers [listFiles]
      [(0, ⟨0, some (str "call_2"), some (str "list_files"), some (str " ")⟩)] :=
    .first listFiles (some (str " ")) .nil (by simp)
  have hstream := h someEnvironment _ _ blankPiece hdelivers (by decide +kernel)
  have hnull := congrArg startsWithNull hstream
  rw [streamed_eq] at hnull
  revert hnull
  decide +kernel

end Streams

end RustyClaw.Llm
