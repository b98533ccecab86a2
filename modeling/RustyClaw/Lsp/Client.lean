import RustyClaw.Library.JsonValue
import RustyClaw.Library.Transition
import RustyClaw.Tools.Envelope

/-!
# Requests to the language server

A request takes an id from a counter, puts the sender of a oneshot channel into the table of pending
requests under it, writes itself to the server and waits for its channel.  One reader takes messages
from the server: it reads lines until one gives a length, a line that it takes to be empty, and as
many bytes.  A message with a numeric `id` completes the pending request of this id; other messages
are notifications.

The reader does not ask whether a message with an `id` has a `method`, as a request of the server
has, and whatever ends it leaves the table of pending requests as it is.  `correlated_iff` says
that nothing else goes wrong: a run is as it should be exactly when every step is `Orderly`.

A move is what a caller or the reader does from one `await` to the next; what the pipes deliver is part
of the move.  The bytes of a body are given as the text that `from_utf8_lossy` makes of them.
-/

namespace RustyClaw.Lsp

open Glyph Transition
open Json hiding str

/-! ## Messages -/

/-- What other crates decide: how a number is represented, and what `lsp_types` makes of published
diagnostics. -/
structure Crates where
  number : NumLit Char → Option (NumLit Char)
  readDiagnostics : Json Char → Option (List Char × Json Char)

/-- `serde_json::from_str`. -/
def fromStr (crates : Crates) (body : List Char) : Option (Json Char) :=
  ((parse body).bind (readValue crates.number)).map Value.json

/-- `val.get("id").and_then(as_u64)`. -/
def idOf (message : Json Char) : Option UInt64 := (get "id".toList message).bind readUInt64

def methodOf (message : Json Char) : Option (List Char) :=
  (get "method".toList message).bind asStr

/-- What a request is completed with. -/
def answer (message : Json Char) : Except (List Char) (Json Char) :=
  match get "error".toList message with
  | some error => .error (render error)
  | none => .ok ((get "result".toList message).getD .null)

def contentLength : List Char := "Content-Length: ".toList

/-! ## The client -/

/-- The oneshot channel of a request. -/
inductive Channel where
  | empty
  | sent (result : Except (List Char) (Json Char))
  /-- the sender is gone -/
  | closed

inductive Phase where
  /-- the id is taken -/
  | allocated
  /-- the sender is in the table; the message is being written -/
  | writing
  /-- `rx.await` -/
  | waiting
  | returned (result : Except (List Char) (Json Char))

structure Request where
  id : UInt64
  phase : Phase
  channel : Channel

inductive Reader where
  | header
  | emptyLine (len : Nat)
  | body (len : Nat)
  /-- a message with an id; waits for the lock of the table -/
  | responding (message : Json Char) (id : UInt64)
  | ended

structure LspClient where
  nextId : UInt64
  requests : Nat → Option Request
  /-- the table: whose sender is under an id -/
  pending : UInt64 → Option Nat
  reader : Reader
  diagnostics : List Char → Option (Json Char)

def LspClient.new : LspClient where
  nextId := 1
  requests := fun _ => none
  pending := fun _ => none
  reader := .header
  diagnostics := fun _ => none

inductive Label where
  /-- `next_id.fetch_add` -/
  | request (n : Nat)
  | insert (n : Nat)
  /-- `write_all` and `flush` -/
  | write (n : Nat) (result : Except (List Char) Unit)
  /-- the channel of the request is ready -/
  | wake (n : Nat)
  /-- `read_line`; no line on an error -/
  | readLine (line : Option (List Char))
  /-- `read_exact`; no body on an error -/
  | readExact (body : Option (List Char))
  /-- the reader has the lock of the table -/
  | respond

def cancelled : List Char := str "LSP request cancelled"

def LspClient.setRequest (s : LspClient) (n : Nat) (request : Request) : LspClient :=
  { s with requests := Function.update s.requests n (some request) }

/-- The sender of a request goes without sending. -/
def LspClient.dropSender (s : LspClient) (n : Nat) : LspClient :=
  match s.requests n with
  | some request => s.setRequest n { request with channel := .closed }
  | none => s

/-- `pending.insert`: a sender that is under the id already is dropped. -/
def LspClient.insertPending (s : LspClient) (n : Nat) (request : Request) : LspClient :=
  let s := match s.pending request.id with
    | some other => s.dropSender other
    | none => s
  { s.setRequest n { request with phase := .writing } with
    pending := Function.update s.pending request.id (some n) }

/-- A line of the server, after `read_line`. -/
def LspClient.takeLine (s : LspClient) (line : List Char) : LspClient :=
  match s.reader with
  | .header =>
    if line = [] then { s with reader := .ended }
    else if contentLength.isPrefixOf line then
      match parseUnsigned (2 ^ 64) (trim (line.drop contentLength.length)) with
      | some len => { s with reader := .emptyLine len }
      | none => s
    else s
  -- a buffer of more than `isize::MAX` bytes cannot be allocated: the task of the reader panics
  | .emptyLine len => { s with reader := if 2 ^ 63 ≤ len then .ended else .body len }
  | _ => s

/-- A notification. -/
def LspClient.notified (crates : Crates) (s : LspClient) (message : Json Char) : LspClient :=
  if methodOf message = some "textDocument/publishDiagnostics".toList then
    match (get "params".toList message).bind crates.readDiagnostics with
    | some (uri, diagnostics) =>
      { s with diagnostics := Function.update s.diagnostics uri (some diagnostics) }
    | none => s
  else s

/-- The body of a message. -/
def LspClient.takeBody (crates : Crates) (s : LspClient) (body : List Char) : LspClient :=
  match fromStr crates body with
  | some message =>
    match idOf message with
    | some id => { s with reader := .responding message id }
    | none => { s.notified crates message with reader := .header }
  | none => { s with reader := .header }

/-- The reader at the table. -/
def LspClient.complete (s : LspClient) (message : Json Char) (id : UInt64) : LspClient :=
  let s := { s with reader := .header }
  match s.pending id with
  | some n =>
    let s := { s with pending := Function.update s.pending id none }
    match s.requests n with
    | some request => s.setRequest n { request with channel := .sent (answer message) }
    | none => s
  | none => s

def step (crates : Crates) (s : LspClient) : Label → Option LspClient
  | .request n =>
    match s.requests n with
    | some _ => none
    | none => some { s.setRequest n ⟨s.nextId, .allocated, .empty⟩ with nextId := s.nextId + 1 }
  | .insert n =>
    match s.requests n with
    | some ⟨id, .allocated, channel⟩ => some (s.insertPending n ⟨id, .allocated, channel⟩)
    | _ => none
  | .write n result =>
    match s.requests n with
    | some ⟨id, .writing, channel⟩ =>
      match result with
      | .ok () => some (s.setRequest n ⟨id, .waiting, channel⟩)
      | .error error => some (s.setRequest n ⟨id, .returned (.error error), channel⟩)
    | _ => none
  | .wake n =>
    match s.requests n with
    | some ⟨id, .waiting, .sent result⟩ => some (s.setRequest n ⟨id, .returned result, .sent result⟩)
    | some ⟨id, .waiting, .closed⟩ =>
      some (s.setRequest n ⟨id, .returned (.error cancelled), .closed⟩)
    | _ => none
  | .readLine line =>
    match s.reader with
    | .header | .emptyLine _ =>
      match line with
      | some line => some (s.takeLine line)
      | none => some { s with reader := .ended }
    | _ => none
  | .readExact body =>
    match s.reader with
    | .body _ =>
      match body with
      | some body => some (s.takeBody crates body)
      | none => some { s with reader := .ended }
    | _ => none
  | .respond =>
    match s.reader with
    | .responding message id => some (s.complete message id)
    | _ => none

/-! ## What is promised -/

/-- The request that a move completes, with the message. -/
def completionAt (s : LspClient) : Label → Option (Nat × Json Char)
  | .respond =>
    match s.reader with
    | .responding message id => (s.pending id).map (·, message)
    | _ => none
  | _ => none

/-- The completions of a run in their order. -/
def completions (crates : Crates) (labels : List Label) : List (Nat × Json Char) :=
  events (step crates) completionAt LspClient.new labels

/-- The message is a response to the request: it has its id and no method, and the request gets its
error or its result. -/
def Answers (message : Json Char) (request : Request) : Prop :=
  get "method".toList message = none ∧ idOf message = some request.id ∧
    ((∃ error, get "error".toList message = some error ∧
        request.channel = .sent (.error (render error))) ∨
      get "error".toList message = none ∧
        request.channel = .sent (.ok ((get "result".toList message).getD .null)))

/-- The request waits, and nothing has been sent to it. -/
def Request.Waits (request : Request) : Prop := request.phase = .waiting ∧ request.channel = .empty

/-- No request has lost its sender without an answer, and none waits when there is no reader. -/
def Served (s : LspClient) : Prop :=
  ∀ n request, s.requests n = some request →
    request.channel ≠ .closed ∧ (s.reader = .ended → ¬ request.Waits)

/-- Every request is completed at most once, by a response to it, and at no time is one left
behind. -/
def Correlated (crates : Crates) (labels : List Label) (s : LspClient) : Prop :=
  ((completions crates labels).map Prod.fst).Nodup ∧
    (∀ n message, (n, message) ∈ completions crates labels →
      ∃ request, s.requests n = some request ∧ Answers message request) ∧
    ∀ before after u, labels = before ++ after →
      run (step crates) LspClient.new before = some u → Served u

/-! ## The condition -/

/-- No request waits. -/
def NobodyWaits (s : LspClient) : Prop :=
  ∀ n request, s.requests n = some request → ¬ request.Waits

/-- The move ends the reader. -/
def endsReader (s : LspClient) : Label → Bool
  | .readLine none => true
  | .readLine (some line) =>
    match s.reader with
    | .header => line == []
    | .emptyLine len => decide (2 ^ 63 ≤ len)
    | _ => false
  | .readExact none => true
  | _ => false

/-- A message that completes a request has no method, the reader ends only when nobody waits, no
request is written and left to wait when the reader has ended, and an id is not taken a second time
while the first request with it is pending. -/
def Orderly (s : LspClient) : Label → Prop
  | .respond =>
    ∀ message id, s.reader = .responding message id → s.pending id ≠ none →
      get "method".toList message = none
  | .write n (.ok ()) =>
    s.reader = .ended → ∀ request, s.requests n = some request → request.channel ≠ .empty
  | .insert n => ∀ request, s.requests n = some request → s.pending request.id = none
  | label => endsReader s label = true → NobodyWaits s

/-! ## What an orderly move does -/

section Moves

variable {crates : Crates} {s s' : LspClient} {label : Label} {n other : Nat} {request : Request}

lemma requests_setRequest :
    (s.setRequest n request).requests other = if other = n then some request else s.requests other :=
  Function.update_apply _ _ _ _

/-- The client after an orderly move: a new request, a request in another phase, a sender in the
table, the reader at another place, or a response. -/
inductive Moved (s : LspClient) : Label → LspClient → Prop where
  | fresh {n : Nat} {s' : LspClient} (hnone : s.requests n = none)
    (hrequests : s'.requests = (s.setRequest n ⟨s.nextId, .allocated, .empty⟩).requests)
    (hpending : s'.pending = s.pending) (hreader : s'.reader = s.reader) :
    Moved s (.request n) s'
  | advanced {label : Label} {n : Nat} {request : Request} {phase : Phase}
    (hrequest : s.requests n = some request) (hphase : phase ≠ .allocated)
    (hwaits : s.reader = .ended → ¬ (Request.mk request.id phase request.channel).Waits)
    (hcompletes : completionAt s label = none) :
    Moved s label (s.setRequest n { request with phase })
  | inserted {n : Nat} {id : UInt64} {channel : Channel} {s' : LspClient}
    (hrequest : s.requests n = some ⟨id, .allocated, channel⟩) (hfree : s.pending id = none)
    (hrequests : s'.requests = (s.setRequest n ⟨id, .writing, channel⟩).requests)
    (hpending : s'.pending = Function.update s.pending id (some n))
    (hreader : s'.reader = s.reader) : Moved s (.insert n) s'
  | read {label : Label} {s' : LspClient} (hrequests : s'.requests = s.requests)
    (hpending : s'.pending = s.pending)
    (hends : s'.reader = .ended → s.reader = .ended ∨ NobodyWaits s)
    (hresponds : ∀ message id, s'.reader = .responding message id →
      s.reader = .responding message id ∨ idOf message = some id)
    (hcompletes : completionAt s label = none) : Moved s label s'
  | responded {message : Json Char} {id : UInt64} (hreader : s.reader = .responding message id)
    (hmethod : s.pending id ≠ none → get "method".toList message = none) :
    Moved s .respond (s.complete message id)

lemma takeLine_moved {line : List Char} (hquiet : Orderly s (.readLine (some line))) :
    Moved s (.readLine (some line)) (s.takeLine line) := by
  have hends : endsReader s (.readLine (some line)) = true → NobodyWaits s := hquiet
  unfold LspClient.takeLine
  simp only [endsReader] at hends
  split
  · next hreader =>
    rw [hreader] at hends
    split
    · next hempty =>
      have hline : (line == []) = true := by rw [hempty]; rfl
      exact .read rfl rfl (fun _ => .inr (hends hline)) (fun _ _ h => by cases h) rfl
    · split
      · split
        · exact .read rfl rfl (fun h => by cases h) (fun _ _ h => by cases h) rfl
        · exact .read rfl rfl .inl (fun _ _ => .inl) rfl
      · exact .read rfl rfl .inl (fun _ _ => .inl) rfl
  · next len hreader =>
    rw [hreader] at hends
    refine .read rfl rfl (fun h => ?_) (fun _ _ h => ?_) rfl
    · dsimp only at h
      split at h
      · next hlarge => exact .inr (hends (decide_eq_true hlarge))
      · cases h
    · dsimp only at h
      split at h
      · cases h
      · cases h
  · exact .read rfl rfl .inl (fun _ _ => .inl) rfl

lemma takeBody_moved {body : List Char} :
    Moved s (.readExact (some body)) (s.takeBody crates body) := by
  unfold LspClient.takeBody
  split
  · split
    · next message _ _ hid =>
      refine .read rfl rfl (fun h => by cases h) (fun _ _ h => ?_) rfl
      cases h
      exact .inr hid
    · unfold LspClient.notified
      split
      · split
        · exact .read rfl rfl (fun h => by cases h) (fun _ _ h => by cases h) rfl
        · exact .read rfl rfl (fun h => by cases h) (fun _ _ h => by cases h) rfl
      · exact .read rfl rfl (fun h => by cases h) (fun _ _ h => by cases h) rfl
  · exact .read rfl rfl (fun h => by cases h) (fun _ _ h => by cases h) rfl

/-- Every orderly move is of one of these kinds. -/
lemma moved_of_step (hquiet : Orderly s label) (hstep : step crates s label = some s') :
    Moved s label s' := by
  cases label with
  | request n =>
    simp only [step] at hstep
    split at hstep
    · cases hstep
    · next hnone =>
      cases hstep
      exact .fresh hnone rfl rfl rfl
  | insert n =>
    simp only [step] at hstep
    split at hstep
    · next id channel hrequest =>
      cases hstep
      have hfree : s.pending id = none := hquiet _ hrequest
      have hinsert : s.insertPending n ⟨id, .allocated, channel⟩ =
          { s.setRequest n ⟨id, .writing, channel⟩ with
            pending := Function.update s.pending id (some n) } := by
        simp only [LspClient.insertPending, hfree]
      rw [hinsert]
      exact .inserted hrequest hfree rfl rfl rfl
    · cases hstep
  | write n result =>
    simp only [step] at hstep
    split at hstep
    · next id channel hrequest =>
      split at hstep
      · cases hstep
        refine .advanced hrequest Phase.noConfusion (fun hended hwaits => ?_) rfl
        exact hquiet hended _ hrequest hwaits.2
      · cases hstep
        exact .advanced hrequest Phase.noConfusion (fun _ hwaits => by cases hwaits.1) rfl
    · cases hstep
  | wake n =>
    simp only [step] at hstep
    split at hstep
    · next id result hrequest =>
      cases hstep
      exact .advanced hrequest Phase.noConfusion (fun _ hwaits => by cases hwaits.1) rfl
    · next id hrequest =>
      cases hstep
      exact .advanced hrequest Phase.noConfusion (fun _ hwaits => by cases hwaits.1) rfl
    · cases hstep
  | readLine line =>
    cases line with
    | none =>
      have hread : Moved s (.readLine none) { s with reader := .ended } :=
        .read rfl rfl (fun _ => .inr (hquiet rfl)) (fun _ _ h => by cases h) rfl
      simp only [step] at hstep
      split at hstep
      · cases hstep
        exact hread
      · cases hstep
        exact hread
      · cases hstep
    | some line =>
      simp only [step] at hstep
      split at hstep
      · cases hstep
        exact takeLine_moved hquiet
      · cases hstep
        exact takeLine_moved hquiet
      · cases hstep
  | readExact body =>
    simp only [step] at hstep
    split at hstep
    · split at hstep
      · cases hstep
        exact takeBody_moved
      · cases hstep
        exact .read rfl rfl (fun _ => .inr (hquiet rfl)) (fun _ _ h => by cases h) rfl
    · cases hstep
  | respond =>
    simp only [step] at hstep
    split at hstep
    · next message id hreader =>
      cases hstep
      exact .responded hreader (hquiet message id hreader)
    · cases hstep

/-! ## The invariant -/

/-- Whoever is in the table is there under the own id and has not been answered. -/
structure Matched (s : LspClient) : Prop where
  pending : ∀ id n, s.pending id = some n →
    ∃ phase, s.requests n = some ⟨id, phase, .empty⟩ ∧ phase ≠ .allocated
  allocated : ∀ n id channel, s.requests n = some ⟨id, .allocated, channel⟩ → channel = .empty
  reader : ∀ message id, s.reader = .responding message id → idOf message = some id

lemma complete_of_none {message : Json Char} {id : UInt64} (h : s.pending id = none) :
    s.complete message id = { s with reader := .header } := by
  simp only [LspClient.complete, h]

lemma complete_of_some {message : Json Char} {id : UInt64} {phase : Phase} {channel : Channel}
    (h : s.pending id = some n) (hrequest : s.requests n = some ⟨id, phase, channel⟩) :
    s.complete message id =
      { s.setRequest n ⟨id, phase, .sent (answer message)⟩ with
        reader := .header
        pending := Function.update s.pending id none } := by
  simp only [LspClient.complete, h, hrequest]
  rfl

lemma matched_new : Matched LspClient.new := by
  constructor
  · intro id n h
    cases h
  · intro n id channel h
    cases h
  · intro message id h
    cases h

/-- A request that changes its phase stays in the table. -/
lemma Matched.advance {phase : Phase} (h : Matched s) (hrequest : s.requests n = some request)
    (hphase : phase ≠ .allocated) : Matched (s.setRequest n { request with phase }) := by
  constructor
  · intro id other hother
    obtain ⟨phase', hrequest', hphase'⟩ := h.pending id other hother
    rw [requests_setRequest]
    by_cases hn : other = n
    · subst hn
      obtain rfl := Option.some_inj.mp (hrequest.symm.trans hrequest')
      exact ⟨phase, if_pos rfl, hphase⟩
    · exact ⟨phase', by rw [if_neg hn, hrequest'], hphase'⟩
  · intro other id channel hother
    rw [requests_setRequest] at hother
    split at hother
    · cases hother
      exact absurd rfl hphase
    · exact h.allocated other id channel hother
  · exact h.reader

lemma Matched.moved (h : Matched s) (hmoved : Moved s label s') : Matched s' := by
  cases hmoved with
  | @fresh n _ hnone hrequests hpending hreader =>
    constructor
    · intro id other hother
      rw [hpending] at hother
      obtain ⟨phase, hrequest, hphase⟩ := h.pending id other hother
      refine ⟨phase, ?_, hphase⟩
      have hn : other ≠ n := by
        rintro rfl
        rw [hnone] at hrequest
        cases hrequest
      rw [hrequests, requests_setRequest, if_neg hn, hrequest]
    · intro other id channel hother
      rw [hrequests, requests_setRequest] at hother
      split at hother
      · cases hother
        rfl
      · exact h.allocated other id channel hother
    · exact fun message id hmessage => h.reader message id (hreader ▸ hmessage)
  | advanced hrequest hphase _ _ => exact h.advance hrequest hphase
  | @inserted n id channel _ hrequest _ hrequests hpending hreader =>
    obtain rfl := h.allocated n id channel hrequest
    constructor
    · intro id' other hother
      rw [hpending, Function.update_apply] at hother
      rw [hrequests, requests_setRequest]
      split at hother
      · next hid =>
        obtain rfl := Option.some_inj.mp hother
        exact ⟨.writing, by rw [if_pos rfl, hid], Phase.noConfusion⟩
      · obtain ⟨phase, hrequest', hphase⟩ := h.pending id' other hother
        have hn : other ≠ n := by
          rintro rfl
          rw [hrequest] at hrequest'
          cases hrequest'
          exact hphase rfl
        exact ⟨phase, by rw [if_neg hn, hrequest'], hphase⟩
    · intro other id' channel hother
      rw [hrequests, requests_setRequest] at hother
      split at hother
      · cases hother
      · exact h.allocated other id' channel hother
    · exact fun message id hmessage => h.reader message id (hreader ▸ hmessage)
  | read hrequests hpending _ hresponds _ =>
    constructor
    · intro id other hother
      rw [hrequests]
      exact h.pending id other (hpending ▸ hother)
    · intro other id channel hother
      exact h.allocated other id channel (hrequests ▸ hother)
    · intro message id hmessage
      rcases hresponds message id hmessage with hbefore | hid
      · exact h.reader message id hbefore
      · exact hid
  | @responded message id _ _ =>
    cases hpending : s.pending id with
    | none =>
      rw [complete_of_none hpending]
      exact ⟨h.pending, h.allocated, fun _ _ hmessage => by cases hmessage⟩
    | some n =>
      obtain ⟨phase, hrequest, hphase⟩ := h.pending id n hpending
      rw [complete_of_some hpending hrequest]
      constructor
      · intro id' other hother
        change Function.update s.pending id none id' = some other at hother
        rw [Function.update_apply] at hother
        split at hother
        · cases hother
        · next hid =>
          obtain ⟨phase', hrequest', hphase'⟩ := h.pending id' other hother
          have hn : other ≠ n := by
            rintro rfl
            rw [hrequest] at hrequest'
            cases hrequest'
            exact hid rfl
          refine ⟨phase', ?_, hphase'⟩
          change (s.setRequest n _).requests other = _
          rw [requests_setRequest, if_neg hn, hrequest']
      · intro other id' channel hother
        change (s.setRequest n _).requests other = _ at hother
        rw [requests_setRequest] at hother
        split at hother
        · cases hother
          exact absurd rfl hphase
        · exact h.allocated other id' channel hother
      · intro message id hmessage
        cases hmessage

/-- Nobody is left behind by an orderly move. -/
lemma Served.moved (h : Served s) (hmatched : Matched s) (hmoved : Moved s label s') :
    Served s' := by
  cases hmoved with
  | fresh hnone hrequests _ hreader =>
    intro other request hother
    rw [hrequests, requests_setRequest] at hother
    split at hother
    · cases hother
      exact ⟨Channel.noConfusion, fun _ hwaits => by cases hwaits.1⟩
    · rw [hreader]
      exact h other request hother
  | advanced hrequest _ hwaits _ =>
    intro other request hother
    rw [requests_setRequest] at hother
    split at hother
    · cases hother
      exact ⟨(h _ _ hrequest).1, hwaits⟩
    · exact h other request hother
  | inserted hrequest _ hrequests _ hreader =>
    intro other request hother
    rw [hrequests, requests_setRequest] at hother
    split at hother
    · cases hother
      exact ⟨(h _ _ hrequest).1, fun _ hwaits => by cases hwaits.1⟩
    · rw [hreader]
      exact h other request hother
  | read hrequests _ hends _ _ =>
    intro other request hother
    rw [hrequests] at hother
    obtain ⟨hopen, hserved⟩ := h other request hother
    exact ⟨hopen, fun hended => (hends hended).elim hserved fun hnobody =>
      hnobody other request hother⟩
  | @responded message id hreader _ =>
    intro other request hother
    cases hpending : s.pending id with
    | none =>
      rw [complete_of_none hpending] at hother ⊢
      exact ⟨(h other request hother).1, fun hended => by cases hended⟩
    | some n =>
      obtain ⟨phase, hrequest, -⟩ := hmatched.pending id n hpending
      rw [complete_of_some hpending hrequest] at hother ⊢
      refine ⟨?_, fun hended => by cases hended⟩
      change (s.setRequest n _).requests other = _ at hother
      rw [requests_setRequest] at hother
      split at hother
      · cases hother
        exact Channel.noConfusion
      · exact (h other request hother).1

/-- A request keeps its id, and what has been sent to it. -/
def Kept (request request' : Request) : Prop :=
  request'.id = request.id ∧ (request.channel ≠ .empty → request'.channel = request.channel)

lemma exists_kept (hmatched : Matched s) (hmoved : Moved s label s')
    (hrequest : s.requests n = some request) :
    ∃ request', s'.requests n = some request' ∧ Kept request request' := by
  have hsame : Kept request request := ⟨rfl, fun _ => rfl⟩
  cases hmoved with
  | fresh hnone hrequests _ _ =>
    refine ⟨request, ?_, hsame⟩
    rw [hrequests, requests_setRequest, if_neg, hrequest]
    rintro rfl
    rw [hnone] at hrequest
    cases hrequest
  | @advanced _ other request' phase hother _ _ _ =>
    rw [requests_setRequest]
    by_cases hn : n = other
    · subst hn
      obtain rfl := Option.some_inj.mp (hrequest.symm.trans hother)
      exact ⟨_, if_pos rfl, rfl, fun _ => rfl⟩
    · exact ⟨request, by rw [if_neg hn, hrequest], hsame⟩
  | @inserted other id channel _ hother _ hrequests _ _ =>
    rw [hrequests, requests_setRequest]
    by_cases hn : n = other
    · subst hn
      obtain rfl := Option.some_inj.mp (hrequest.symm.trans hother)
      exact ⟨_, if_pos rfl, rfl, fun _ => rfl⟩
    · exact ⟨request, by rw [if_neg hn, hrequest], hsame⟩
  | read hrequests _ _ _ _ => exact ⟨request, by rw [hrequests, hrequest], hsame⟩
  | @responded message id _ _ =>
    cases hpending : s.pending id with
    | none =>
      rw [complete_of_none hpending]
      exact ⟨request, hrequest, hsame⟩
    | some other =>
      obtain ⟨phase, hother, -⟩ := hmatched.pending id other hpending
      rw [complete_of_some hpending hother]
      change ∃ request', (s.setRequest other _).requests n = some request' ∧ _
      rw [requests_setRequest]
      by_cases hn : n = other
      · subst hn
        obtain rfl := Option.some_inj.mp (hrequest.symm.trans hother)
        exact ⟨_, if_pos rfl, rfl, fun hne => absurd rfl hne⟩
      · exact ⟨request, by rw [if_neg hn, hrequest], hsame⟩

lemma answers_sent {message : Json Char} {id : UInt64} {phase : Phase}
    (hmethod : get "method".toList message = none) (hid : idOf message = some id) :
    Answers message ⟨id, phase, .sent (answer message)⟩ := by
  refine ⟨hmethod, hid, ?_⟩
  unfold answer
  cases herror : get "error".toList message with
  | some error => exact .inl ⟨error, rfl, rfl⟩
  | none => exact .inr ⟨rfl, rfl⟩

/-- A completion is a response to a request that has not been answered. -/
lemma answers_of_completion {message : Json Char} (hmatched : Matched s)
    (hmoved : Moved s label s') (hcompletes : completionAt s label = some (n, message)) :
    (∃ request, s.requests n = some request ∧ request.channel = .empty) ∧
      ∃ request, s'.requests n = some request ∧ Answers message request := by
  cases hmoved with
  | fresh _ _ _ _ => cases hcompletes
  | advanced _ _ _ hnone =>
    rw [hnone] at hcompletes
    cases hcompletes
  | inserted _ _ _ _ _ => cases hcompletes
  | read _ _ _ _ hnone =>
    rw [hnone] at hcompletes
    cases hcompletes
  | @responded message' id hreader hmethod =>
    simp only [completionAt, hreader] at hcompletes
    obtain ⟨n', hpending, heq⟩ := Option.map_eq_some_iff.mp hcompletes
    cases heq
    obtain ⟨phase, hrequest, -⟩ := hmatched.pending id n hpending
    refine ⟨⟨_, hrequest, rfl⟩, ⟨id, phase, .sent (answer message)⟩, ?_, ?_⟩
    · rw [complete_of_some hpending hrequest]
      change (s.setRequest n _).requests n = _
      rw [requests_setRequest, if_pos rfl]
    · refine answers_sent (hmethod ?_) (hmatched.reader message id hreader)
      rw [hpending]
      exact Option.some_ne_none n

end Moves

/-! ## Whole runs -/

section Runs

variable {crates : Crates} {labels : List Label} {s t : LspClient}

lemma Kept.trans {r₁ r₂ r₃ : Request} (h : Kept r₁ r₂) (h' : Kept r₂ r₃) : Kept r₁ r₃ := by
  refine ⟨h'.1.trans h.1, fun hne => ?_⟩
  have hchannel := h.2 hne
  rw [h'.2 (hchannel ▸ hne), hchannel]

/-- What is kept at every step is kept along a run, with the invariant. -/
lemma run_orderly (hquiet : Along (step crates) Orderly s labels)
    (hrun : run (step crates) s labels = some t) (hmatched : Matched s) (hserved : Served s) :
    Matched t ∧ Served t ∧ ∀ n request, s.requests n = some request →
      ∃ request', t.requests n = some request' ∧ Kept request request' := by
  induction labels generalizing s with
  | nil =>
    cases hrun
    exact ⟨hmatched, hserved, fun n request hrequest => ⟨request, hrequest, rfl, fun _ => rfl⟩⟩
  | cons label labels ih =>
    obtain ⟨u, hstep, hrest⟩ := run_cons_eq_some.mp hrun
    have hmoved := moved_of_step hquiet.1 hstep
    obtain ⟨hmatched', hserved', hkept⟩ :=
      ih (hquiet.2 u hstep) hrest (hmatched.moved hmoved) (hserved.moved hmatched hmoved)
    refine ⟨hmatched', hserved', fun n request hrequest => ?_⟩
    obtain ⟨request', hrequest', hfirst⟩ := exists_kept hmatched hmoved hrequest
    obtain ⟨request'', hrequest'', hlater⟩ := hkept n request' hrequest'
    exact ⟨request'', hrequest'', hfirst.trans hlater⟩

lemma served_new : Served LspClient.new := by
  intro n request h
  cases h

/-- A request to which something has been sent is not completed again. -/
lemma not_mem_completions (hquiet : Along (step crates) Orderly s labels) (hmatched : Matched s)
    (hserved : Served s) {n : Nat} {request : Request} (hrequest : s.requests n = some request)
    (hsent : request.channel ≠ .empty) (message : Json Char) :
    (n, message) ∉ events (step crates) completionAt s labels := by
  intro hmem
  obtain ⟨before, label, after, u, u', rfl, hbefore, hstep, hcompletes⟩ := mem_events.mp hmem
  obtain ⟨hmatched', -, hkept⟩ := run_orderly hquiet.left hbefore hmatched hserved
  have hmoved := moved_of_step (hquiet.right hbefore).1 hstep
  obtain ⟨⟨request', hrequest', hempty⟩, -⟩ := answers_of_completion hmatched' hmoved hcompletes
  obtain ⟨request'', hrequest'', hsame⟩ := hkept n request hrequest
  obtain rfl := Option.some_inj.mp (hrequest'.symm.trans hrequest'')
  exact hsent (hsame.2 hsent ▸ hempty)

lemma nodup_completions (hquiet : Along (step crates) Orderly s labels) (hmatched : Matched s)
    (hserved : Served s) :
    ((events (step crates) completionAt s labels).map Prod.fst).Nodup := by
  induction labels generalizing s with
  | nil => exact List.nodup_nil
  | cons label labels ih =>
    cases hstep : step crates s label with
    | none =>
      rw [events, hstep]
      exact List.nodup_nil
    | some u =>
      have hmoved := moved_of_step hquiet.1 hstep
      have hquiet' := hquiet.2 u hstep
      have hmatched' := hmatched.moved hmoved
      have hserved' := hserved.moved hmatched hmoved
      have hrest := ih hquiet' hmatched' hserved'
      rw [events_cons hstep]
      cases hcompletes : completionAt s label with
      | none => exact hrest
      | some completion =>
        obtain ⟨n, message⟩ := completion
        obtain ⟨-, request, hrequest, hanswers⟩ :=
          answers_of_completion hmatched hmoved hcompletes
        have hsent : request.channel ≠ .empty := by
          rcases hanswers.2.2 with ⟨error, -, hchannel⟩ | ⟨-, hchannel⟩
          · rw [hchannel]
            exact Channel.noConfusion
          · rw [hchannel]
            exact Channel.noConfusion
        refine List.nodup_cons.mpr ⟨fun hmem => ?_, hrest⟩
        obtain ⟨⟨n', message'⟩, hcompletion, rfl⟩ := List.mem_map.mp hmem
        exact not_mem_completions hquiet' hmatched' hserved' hrequest hsent message' hcompletion

lemma correlated_of_orderly (hquiet : Along (step crates) Orderly LspClient.new labels)
    (hrun : run (step crates) LspClient.new labels = some s) : Correlated crates labels s := by
  refine ⟨nodup_completions hquiet matched_new served_new, fun n message hmem => ?_, ?_⟩
  · obtain ⟨before, label, after, u, u', rfl, hbefore, hstep, hcompletes⟩ := mem_events.mp hmem
    obtain ⟨u'', hu, htail⟩ := run_append_eq_some.mp hrun
    obtain rfl := Option.some_inj.mp (hbefore.symm.trans hu)
    obtain ⟨u'', hu', hafter⟩ := run_cons_eq_some.mp htail
    obtain rfl := Option.some_inj.mp (hstep.symm.trans hu')
    obtain ⟨hmatched, hserved, -⟩ := run_orderly hquiet.left hbefore matched_new served_new
    have hlater := hquiet.right hbefore
    have hmoved := moved_of_step hlater.1 hstep
    obtain ⟨-, request, hrequest, hmethod, hid, hsent⟩ :=
      answers_of_completion hmatched hmoved hcompletes
    obtain ⟨-, -, hkept⟩ := run_orderly (hlater.2 u' hstep) hafter (hmatched.moved hmoved)
      (hserved.moved hmatched hmoved)
    obtain ⟨request', hrequest', hsameId, hsame⟩ := hkept n request hrequest
    refine ⟨request', hrequest', hmethod, hsameId ▸ hid, ?_⟩
    rcases hsent with ⟨error, herror, hchannel⟩ | ⟨hnone, hchannel⟩
    · refine .inl ⟨error, herror, ?_⟩
      rw [hsame (by rw [hchannel]; exact Channel.noConfusion), hchannel]
    · refine .inr ⟨hnone, ?_⟩
      rw [hsame (by rw [hchannel]; exact Channel.noConfusion), hchannel]
  · rintro before after u rfl hbefore
    exact (run_orderly hquiet.left hbefore matched_new served_new).2.1

lemma ended_of_endsReader {u u' : LspClient} {label : Label}
    (hstep : step crates u label = some u') (hends : endsReader u label = true) :
    u'.reader = .ended ∧ u'.requests = u.requests := by
  cases label with
  | readLine line =>
    simp only [step] at hstep
    cases line with
    | none =>
      split at hstep
      · cases hstep
        exact ⟨rfl, rfl⟩
      · cases hstep
        exact ⟨rfl, rfl⟩
      · cases hstep
    | some line =>
      simp only [endsReader] at hends
      split at hends
      · next hreader =>
        obtain rfl : line = [] := by simpa using hends
        simp only [hreader] at hstep
        cases hstep
        simp only [LspClient.takeLine, hreader, if_pos]
        exact ⟨trivial, trivial⟩
      · next len hreader =>
        have hlarge := of_decide_eq_true hends
        simp only [hreader] at hstep
        cases hstep
        simp only [LspClient.takeLine, hreader, if_pos hlarge]
        exact ⟨trivial, trivial⟩
      · cases hends
  | readExact body =>
    cases body with
    | none =>
      simp only [step] at hstep
      split at hstep
      · cases hstep
        exact ⟨rfl, rfl⟩
      · cases hstep
    | some body => cases hends
  | _ => cases hends

/-- A sender whose id is taken is lost. -/
lemma closed_of_insert {u u' : LspClient} {n : Nat} {request : Request} (hmatched : Matched u)
    (hstep : step crates u (.insert n) = some u') (hrequest : u.requests n = some request)
    (htaken : u.pending request.id ≠ none) :
    ∃ other request', u'.requests other = some request' ∧ request'.channel = .closed := by
  obtain ⟨other, hother⟩ := Option.ne_none_iff_exists'.mp htaken
  simp only [step, hrequest] at hstep
  split at hstep
  · next id channel heq =>
    obtain rfl := Option.some_inj.mp heq
    obtain ⟨phase, hpending, hphase⟩ := hmatched.pending _ other hother
    have hne : other ≠ n := by
      rintro rfl
      rw [hrequest] at hpending
      cases hpending
      exact hphase rfl
    cases hstep
    refine ⟨other, ⟨id, phase, .closed⟩, ?_, rfl⟩
    simp only [LspClient.insertPending, hother, LspClient.dropSender, hpending]
    change ((u.setRequest other _).setRequest n _).requests other = _
    rw [requests_setRequest, if_neg hne, requests_setRequest, if_pos rfl]
  · cases hstep

/-- A step that is not orderly breaks what is promised. -/
lemma not_correlated_of_disorderly {before after : List Label} {label : Label} {u u' : LspClient}
    (hquiet : Along (step crates) Orderly LspClient.new before)
    (hbefore : run (step crates) LspClient.new before = some u)
    (hstep : step crates u label = some u') (hdisorder : ¬ Orderly u label) :
    ¬ Correlated crates (before ++ label :: after) s := by
  rintro ⟨-, hanswers, hserved⟩
  obtain ⟨hmatched, -, -⟩ := run_orderly hquiet hbefore matched_new served_new
  have hserved' : Served u' := by
    refine hserved (before ++ [label]) after u' (by simp) ?_
    exact run_append_eq_some.mpr ⟨u, hbefore, by rw [run_cons, hstep]; rfl⟩
  have hends : ¬ (endsReader u label = true → NobodyWaits u) → False := by
    intro hnot
    push Not at hnot
    obtain ⟨hends, hsomebody⟩ := hnot
    unfold NobodyWaits at hsomebody
    push Not at hsomebody
    obtain ⟨n, request, hrequest, hwaits⟩ := hsomebody
    obtain ⟨hended, hrequests⟩ := ended_of_endsReader hstep hends
    exact (hserved' n request (hrequests ▸ hrequest)).2 hended hwaits
  cases label with
  | respond =>
    unfold Orderly at hdisorder
    push Not at hdisorder
    obtain ⟨message, id, hreader, hpending, hmethod⟩ := hdisorder
    obtain ⟨n, hn⟩ := Option.ne_none_iff_exists'.mp hpending
    have hcompletes : completionAt u .respond = some (n, message) := by
      simp only [completionAt, hreader, hn]
      rfl
    obtain ⟨request, -, hnone, -⟩ :=
      hanswers n message (mem_events.mpr ⟨before, _, after, u, u', rfl, hbefore, hstep, hcompletes⟩)
    exact hmethod hnone
  | insert n =>
    unfold Orderly at hdisorder
    push Not at hdisorder
    obtain ⟨request, hrequest, htaken⟩ := hdisorder
    obtain ⟨other, request', hrequest', hclosed⟩ :=
      closed_of_insert hmatched hstep hrequest htaken
    exact (hserved' other request' hrequest').1 hclosed
  | write n result =>
    cases result with
    | error error => exact hends hdisorder
    | ok value =>
      unfold Orderly at hdisorder
      push Not at hdisorder
      obtain ⟨hended, request, hrequest, hempty⟩ := hdisorder
      simp only [step, hrequest] at hstep
      split at hstep
      · next id channel heq =>
        obtain rfl := Option.some_inj.mp heq
        cases hstep
        have hself : (u.setRequest n ⟨id, .waiting, channel⟩).requests n =
            some ⟨id, .waiting, channel⟩ := by rw [requests_setRequest, if_pos rfl]
        exact (hserved' n _ hself).2 hended ⟨rfl, hempty⟩
      · cases hstep
  | request n => exact hends hdisorder
  | wake n => exact hends hdisorder
  | readLine line => exact hends hdisorder
  | readExact body => exact hends hdisorder

/-- A run is as it should be exactly when every step is orderly. -/
theorem correlated_iff (hrun : run (step crates) LspClient.new labels = some s) :
    Correlated crates labels s ↔ Along (step crates) Orderly LspClient.new labels := by
  refine ⟨fun hcorrelated => ?_, fun hquiet => correlated_of_orderly hquiet hrun⟩
  by_contra hnot
  obtain ⟨before, label, after, u, rfl, hbefore, hquiet, hdisorder⟩ :=
    exists_first_of_not_along hnot
  obtain ⟨u₁, hu, htail⟩ := run_append_eq_some.mp hrun
  obtain rfl := Option.some_inj.mp (hbefore.symm.trans hu)
  obtain ⟨u', hstep, -⟩ := run_cons_eq_some.mp htail
  exact not_correlated_of_disorderly hquiet hbefore hstep hdisorder hcorrelated

end Runs

/-! ## One request -/

section Examples

def plainCrates : Crates where
  number := some
  readDiagnostics := fun _ => none

/-- A request, and one message of the server with the given body. -/
def oneMessage (header body : String) : List Label :=
  [.request 0, .insert 0, .write 0 (.ok ()), .readLine (some header.toList),
    .readLine (some "\r\n".toList), .readExact (some body.toList), .respond]

/-- The server answers. -/
def answered : List Label := oneMessage "Content-Length: 22\r\n" "\x7b\"id\":1,\"result\":null\x7d"

/-- The server asks, under an id of its own that a request of the client has, too. -/
def asked : List Label :=
  oneMessage "Content-Length: 37\r\n" "\x7b\"id\":1,\"method\":\"workspace/refresh\"\x7d"

theorem correlated_answered_iff :
    ∃ s, run (step plainCrates) LspClient.new answered = some s ∧
      (Correlated plainCrates answered s ↔
        Along (step plainCrates) Orderly LspClient.new answered) := by
  obtain ⟨s, hs⟩ : ∃ s, run (step plainCrates) LspClient.new answered = some s :=
    Option.isSome_iff_exists.mp (by decide +kernel)
  exact ⟨s, hs, correlated_iff hs⟩

theorem not_correlated_asked :
    ¬ ∀ (crates : Crates) (labels : List Label) (s : LspClient),
      run (step crates) LspClient.new labels = some s → Correlated crates labels s := by
  intro h
  obtain ⟨s, hs⟩ : ∃ s, run (step plainCrates) LspClient.new asked = some s :=
    Option.isSome_iff_exists.mp (by decide +kernel)
  have hmethod : (completions plainCrates asked).any
      (fun completion => (get "method".toList completion.2).isSome) = true := by decide +kernel
  obtain ⟨⟨n, message⟩, hmem, hsome⟩ := List.any_eq_true.mp hmethod
  obtain ⟨-, hanswers, -⟩ := h plainCrates asked s hs
  obtain ⟨request, -, hnone, -⟩ := hanswers n message hmem
  rw [hnone] at hsome
  cases hsome

end Examples

end RustyClaw.Lsp
