import Mathlib.Data.List.Basic
import RustyClaw.Library.Glyph

/-!
# Live messages in a Telegram chat

`TelegramOutput` collects the text of a turn in a buffer and shows it while it grows: a live
message is sent once and then edited with the whole buffer, at most every two seconds, and a flush
edits it for the last time.  A text that does not go into one message is sent in chunks.

The service is part of the model.  It rejects a message or an edit of more than 4096 characters and
accepts everything else; an edit that changes nothing may be answered by an error of its own, which
the code tells from the others.

`shownOnce_iff` says when the chat shows every piece of text once: exactly when the live message is
never due for an edit with more than 4096 characters.  When it is, the edit is rejected and the
whole buffer is sent again beside the live message that already shows its beginning.  What the
proofs follow is `visible`, the text that the chat would show after a flush whose edit is accepted;
no call loses any of it (`length_visible_call`).
-/

namespace RustyClaw.Telegram

open Glyph

/-! ## The service -/

/-- The longest message, in characters. -/
def messageLimit : Nat := 4096

structure Service where
  /-- whether an edit that changes nothing is answered by "message is not modified" -/
  reportsUnmodified : Bool

inductive ApiError where
  | notModified
  | other
  deriving DecidableEq, Repr

/-- The text messages of the chat; the id of a message is its position. -/
abbrev Chat := List (List Char)

def Chat.sendMessage (chat : Chat) (text : List Char) : Except ApiError (Nat × Chat) :=
  if text.length ≤ messageLimit then .ok (chat.length, chat ++ [text]) else .error .other

def Chat.editMessageText (service : Service) (chat : Chat) (id : Nat) (text : List Char) :
    Except ApiError Chat :=
  if messageLimit < text.length then .error .other
  else if service.reportsUnmodified && chat[id]? = some text then .error .notModified
  else .ok (chat.set id text)

/-! ## What is taken out of a text -/

/-- `strip_ansi`; the flag says that a code has begun and its letter has not come. -/
def stripAnsiFrom : Bool → List Char → List Char
  | _, [] => []
  | true, c :: s => stripAnsiFrom (!c.isAlpha) s
  | false, '\x1b' :: '[' :: s => stripAnsiFrom true s
  | false, c :: s => c :: stripAnsiFrom false s

def stripAnsi (text : List Char) : List Char := stripAnsiFrom false text

/-- The occurrences of `pattern` from the left taken out; so many characters are still to skip. -/
def removeFrom (pattern : List Char) : Nat → List Char → List Char
  | _, [] => []
  | skip + 1, _ :: s => removeFrom pattern skip s
  | 0, c :: s =>
    if pattern.isPrefixOf (c :: s) then removeFrom pattern (pattern.length - 1) s
    else c :: removeFrom pattern 0 s

/-- `str::replace` by the empty text. -/
def remove (pattern : String) (text : List Char) : List Char :=
  removeFrom pattern.toList 0 text

def clean (text : List Char) : List Char :=
  remove "</final>" (remove "<final>" (stripAnsi text))

lemma stripAnsi_eq_self {text : List Char} (h : '\x1b' ∉ text) : stripAnsi text = text := by
  induction text with
  | nil => rfl
  | cons c text ih =>
    obtain ⟨hc, htext⟩ := List.ne_and_not_mem_of_not_mem_cons h
    rw [stripAnsi, stripAnsiFrom]
    · exact congrArg (c :: ·) (ih htext)
    · exact fun _ heq => absurd heq.symm hc

lemma remove_eq_self {pattern : String} {c : Char} {text : List Char}
    (hhead : pattern.toList.head? = some c) (h : c ∉ text) : remove pattern text = text := by
  obtain ⟨rest, hrest⟩ := List.head?_eq_some_iff.mp hhead
  rw [remove]
  induction text with
  | nil => rfl
  | cons d text ih =>
    obtain ⟨hd, htext⟩ := List.ne_and_not_mem_of_not_mem_cons h
    have hother : pattern.toList.isPrefixOf (d :: text) = false := by
      rw [hrest, List.isPrefixOf, beq_eq_false_iff_ne.mpr hd, Bool.false_and]
    rw [removeFrom, hother, ih htext]
    rfl

/-- Text with no codes and no markers stays as it is. -/
lemma clean_eq_self {text : List Char} (hcode : '\x1b' ∉ text) (hmarker : '<' ∉ text) :
    clean text = text := by
  have hfinal : remove "<final>" text = text := remove_eq_self (by decide +kernel) hmarker
  rw [clean, stripAnsi_eq_self hcode, hfinal]
  exact remove_eq_self (by decide +kernel) hmarker

/-! ## The output -/

/-- A `TelegramOutput` with the chat it writes to. -/
structure TelegramOutput where
  chat : Chat := []
  textBuffer : List Char := []
  streamingMessageId : Option Nat := none
  /-- the instant of the last update, in nanoseconds -/
  lastUpdate : Nat

def TelegramOutput.new (now : Nat) : TelegramOutput where
  lastUpdate := now

/-- The characters of a text that end within its first bytes, and the others. -/
def splitAtByte : Nat → List Char → List Char × List Char
  | _, [] => ([], [])
  | room, c :: s =>
    if c.utf8Size ≤ room then
      let (chunk, rest) := splitAtByte (room - c.utf8Size) s
      (c :: chunk, rest)
    else ([], c :: s)

/-- The most bytes that are sent in one chunk. -/
def maxLen : Nat := 4000

/-- The chunks of a text; the first argument bounds their number. -/
def chunks : Nat → List Char → List (List Char)
  | 0, _ => []
  | n + 1, text =>
    if text = [] then []
    else (splitAtByte maxLen text).1 :: chunks n (splitAtByte maxLen text).2

/-- One message without a parse mode, whose failure is only logged. -/
def sendChunk (chat : Chat) (chunk : List Char) : Chat :=
  match chat.sendMessage chunk with
  | .ok (_, chat') => chat'
  | .error _ => chat

/-- `send_long_message`, without a parse mode. -/
def sendLongMessage (chat : Chat) (text : List Char) : Chat :=
  (chunks text.length text).foldl sendChunk chat

def updateInterval : Nat := 2 * 1000000000

section Output

variable (service : Service) (s : TelegramOutput)

def flushInternal : TelegramOutput :=
  let text := s.textBuffer
  let s := { s with textBuffer := [] }
  if text = [] then { s with streamingMessageId := none }
  else
    match s.streamingMessageId with
    | some id =>
      match s.chat.editMessageText service id text with
      | .ok chat => { s with chat := chat, streamingMessageId := none }
      | .error .notModified => { s with streamingMessageId := none }
      | .error .other =>
        { s with chat := sendLongMessage s.chat text, streamingMessageId := none }
    | none => { s with chat := sendLongMessage s.chat text, streamingMessageId := none }

/-- The edit of the live message `id` with the whole buffer. -/
def editLiveMessage (id : Nat) : TelegramOutput :=
  match s.chat.editMessageText service id s.textBuffer with
  | .ok chat => { s with chat := chat }
  | .error error =>
    let s' := if error = .notModified then s else { s with streamingMessageId := none }
    if 3500 < utf8Len s.textBuffer then flushInternal service s' else s'

def maybeUpdateLiveMessage (now : Nat) (force : Bool) : TelegramOutput :=
  if s.textBuffer = [] then s
  else if !force && now - s.lastUpdate < updateInterval then s
  else
    match s.streamingMessageId with
    | some id => { editLiveMessage service s id with lastUpdate := now }
    | none =>
      match s.chat.sendMessage s.textBuffer with
      | .ok (id, chat) =>
        { s with chat := chat, streamingMessageId := some id, lastUpdate := now }
      | .error _ => { s with lastUpdate := now }

def onText (text : List Char) (now : Nat) : TelegramOutput :=
  if clean text = [] then s
  else
    maybeUpdateLiveMessage service { s with textBuffer := s.textBuffer ++ clean text } now false

end Output

/-! ## Sequences of calls -/

inductive Call where
  | onText (text : List Char) (now : Nat)
  | flush

/-- The text that a call passes in. -/
def Call.text : Call → List Char
  | .onText text _ => clean text
  | .flush => []

def call (service : Service) (s : TelegramOutput) : Call → TelegramOutput
  | .onText text now => onText service s text now
  | .flush => flushInternal service s

def runCalls (service : Service) (s : TelegramOutput) (calls : List Call) : TelegramOutput :=
  calls.foldl (call service) s

/-- After a final flush the chat shows exactly the text that was passed in. -/
def ShownOnce (service : Service) (created : Nat) (calls : List Call) : Prop :=
  (runCalls service (.new created) (calls ++ [.flush])).chat.flatten = calls.flatMap Call.text

/-- A live message that is due for an edit gets a text that goes into one message. -/
def Fits (s : TelegramOutput) : Call → Prop
  | .onText text now =>
    s.streamingMessageId ≠ none → clean text ≠ [] → updateInterval ≤ now - s.lastUpdate →
      (s.textBuffer ++ clean text).length ≤ messageLimit
  | .flush => s.streamingMessageId ≠ none → s.textBuffer.length ≤ messageLimit

def AlwaysFits (service : Service) : TelegramOutput → List Call → Prop
  | _, [] => True
  | s, c :: calls => Fits s c ∧ AlwaysFits service (call service s c) calls

/-! ## Chunks -/

section Chunks

variable {chat : Chat} {text : List Char}

lemma splitAtByte_append (room : Nat) (text : List Char) :
    (splitAtByte room text).1 ++ (splitAtByte room text).2 = text := by
  induction text generalizing room with
  | nil => rfl
  | cons c text ih =>
    rw [splitAtByte]
    split
    · exact congrArg (c :: ·) (ih _)
    · rfl

/-- A chunk has at most as many characters as bytes. -/
lemma length_splitAtByte_le (room : Nat) (text : List Char) :
    (splitAtByte room text).1.length ≤ room := by
  induction text generalizing room with
  | nil => exact Nat.zero_le _
  | cons c text ih =>
    rw [splitAtByte]
    split
    · next hfits =>
      have hpos := c.utf8Size_pos
      have htail := ih (room - c.utf8Size)
      simp only [List.length_cons]
      omega
    · exact Nat.zero_le _

/-- With room for one character something is split off. -/
lemma splitAtByte_ne_nil {room : Nat} (hroom : 4 ≤ room) (htext : text ≠ []) :
    (splitAtByte room text).1 ≠ [] := by
  obtain ⟨c, rest, rfl⟩ := List.exists_cons_of_ne_nil htext
  have hfits : c.utf8Size ≤ room := c.utf8Size_le_four.trans hroom
  rw [splitAtByte, if_pos hfits]
  exact List.cons_ne_nil _ _

lemma flatten_chunks {n : Nat} (h : text.length ≤ n) : (chunks n text).flatten = text := by
  induction n generalizing text with
  | zero =>
    rw [List.eq_nil_of_length_eq_zero (Nat.le_zero.mp h)]
    rfl
  | succ n ih =>
    rw [chunks]
    by_cases htext : text = []
    · rw [if_pos htext, htext]
      rfl
    · rw [if_neg htext, List.flatten_cons]
      have hsplit := splitAtByte_append maxLen text
      have hpos : 0 < (splitAtByte maxLen text).1.length :=
        List.length_pos_iff.mpr (splitAtByte_ne_nil (by decide) htext)
      have hlength := congrArg List.length hsplit
      rw [List.length_append] at hlength
      rw [ih (by omega), hsplit]

lemma length_le_of_mem_chunks {n : Nat} {chunk : List Char} (h : chunk ∈ chunks n text) :
    chunk.length ≤ messageLimit := by
  induction n generalizing text with
  | zero => cases h
  | succ n ih =>
    rw [chunks] at h
    split at h
    · cases h
    · rcases List.mem_cons.mp h with rfl | h
      · exact (length_splitAtByte_le _ _).trans (by decide)
      · exact ih h

/-- Chunks are never rejected. -/
lemma sendLongMessage_eq (chat : Chat) (text : List Char) :
    sendLongMessage chat text = chat ++ chunks text.length text := by
  have hall : ∀ texts : List (List Char), (∀ chunk ∈ texts, chunk.length ≤ messageLimit) →
      ∀ chat : Chat, texts.foldl sendChunk chat = chat ++ texts := by
    intro texts htexts
    induction texts with
    | nil => exact fun chat => (List.append_nil chat).symm
    | cons chunk texts ih =>
      intro chat
      obtain ⟨hchunk, hrest⟩ := List.forall_mem_cons.mp htexts
      have hsent : sendChunk chat chunk = chat ++ [chunk] := by
        rw [sendChunk, Chat.sendMessage, if_pos hchunk]
      rw [List.foldl_cons, hsent, ih hrest, List.append_assoc]
      rfl
  exact hall _ (fun chunk hmem => length_le_of_mem_chunks hmem) chat

lemma flatten_sendLongMessage (chat : Chat) (text : List Char) :
    (sendLongMessage chat text).flatten = chat.flatten ++ text := by
  rw [sendLongMessage_eq, List.flatten_append, flatten_chunks le_rfl]

end Chunks

/-! ## What a call keeps -/

/-- What the chat would show after a flush whose edit is accepted. -/
def visible (s : TelegramOutput) : List Char :=
  match s.streamingMessageId with
  | some id => (s.chat.take id).flatten ++ s.textBuffer
  | none => s.chat.flatten ++ s.textBuffer

/-- The live message is the last one, and shows the beginning of the buffer. -/
def LiveMessage (s : TelegramOutput) : Prop :=
  ∀ id ∈ s.streamingMessageId, ∃ sent shown, s.chat = sent ++ [shown] ∧ id = sent.length ∧
    shown ≠ [] ∧ shown <+: s.textBuffer

/-- From `s` to `s'` the text `added` is passed in.  Nothing visible is lost, and nothing is shown
again if and only if `fits` holds. -/
structure Passes (added : List Char) (fits : Prop) (s s' : TelegramOutput) : Prop where
  live : LiveMessage s'
  visible_eq : fits → visible s' = visible s ++ added
  length_lt : ¬ fits → (visible s).length + added.length < (visible s').length

section Passes

variable {service : Service} {s s' : TelegramOutput} {id : Nat} {text : List Char}

lemma visible_of_none (h : s.streamingMessageId = none) :
    visible s = s.chat.flatten ++ s.textBuffer := by
  rw [visible, h]

lemma visible_of_some {sent : Chat} {shown : List Char} (h : s.streamingMessageId = some id)
    (hchat : s.chat = sent ++ [shown]) (hid : id = sent.length) :
    visible s = sent.flatten ++ s.textBuffer := by
  rw [visible, h]
  dsimp only
  rw [hchat, hid, List.take_left]

lemma liveMessage_of_none (h : s.streamingMessageId = none) : LiveMessage s := by
  intro id hid
  rw [h] at hid
  cases hid

lemma length_le_utf8Len (text : List Char) : text.length ≤ utf8Len text := by
  induction text with
  | nil => exact Nat.zero_le _
  | cons c text ih =>
    have hpos := c.utf8Size_pos
    have hsum : utf8Len (c :: text) = c.utf8Size + utf8Len text := rfl
    rw [List.length_cons, hsum]
    omega

lemma editMessageText_of_le (service : Service) (chat : Chat) (id : Nat)
    (h : text.length ≤ messageLimit) :
    chat.editMessageText service id text = .ok (chat.set id text) ∨
      chat.editMessageText service id text = .error .notModified ∧ chat[id]? = some text := by
  rw [Chat.editMessageText, if_neg (Nat.not_lt.mpr h)]
  split
  · next hsame =>
    simp only [Bool.and_eq_true, decide_eq_true_eq] at hsame
    exact .inr ⟨rfl, hsame.2⟩
  · exact .inl rfl

lemma editMessageText_of_lt (chat : Chat) (id : Nat) (h : messageLimit < text.length) :
    chat.editMessageText service id text = .error .other := if_pos h

/-- Text that goes into one message is put in the place of what the live message shows. -/
lemma flatten_edit {sent : Chat} {shown : List Char} (hchat : s.chat = sent ++ [shown]) :
    (s.chat.set sent.length text).flatten = sent.flatten ++ text := by
  rw [hchat, List.set_append_right _ _ le_rfl, Nat.sub_self]
  simp

/-- Chunks repeat what the live message shows. -/
lemma length_visible_lt (hlive : LiveMessage s) (hid : s.streamingMessageId = some id) :
    (visible s).length < (s.chat.flatten ++ s.textBuffer).length := by
  obtain ⟨sent, shown, hchat, hlen, hne, -⟩ := hlive id hid
  have hpos := List.length_pos_iff.mpr hne
  rw [visible_of_some hid hchat hlen, hchat]
  simp only [List.flatten_append, List.flatten_singleton, List.length_append]
  omega

lemma flushInternal_eq (hbuffer : s.textBuffer ≠ []) (hid : s.streamingMessageId = none) :
    flushInternal service s =
      { s with
        chat := sendLongMessage s.chat s.textBuffer
        textBuffer := []
        streamingMessageId := none } := by
  rw [flushInternal]
  dsimp only
  rw [if_neg hbuffer, hid]

/-- After a flush there is no live message, and the chat shows what is visible. -/
lemma flushInternal_idle (service : Service) (s : TelegramOutput) :
    (flushInternal service s).streamingMessageId = none ∧
      (flushInternal service s).textBuffer = [] := by
  unfold flushInternal
  dsimp only
  split
  · exact ⟨rfl, rfl⟩
  · split
    · split <;> exact ⟨rfl, rfl⟩
    · exact ⟨rfl, rfl⟩

lemma passes_flush (service : Service) (hlive : LiveMessage s) :
    Passes [] (Fits s .flush) s (flushInternal service s) := by
  obtain ⟨hnone, hempty⟩ := flushInternal_idle service s
  have hvisible : visible (flushInternal service s) = (flushInternal service s).chat.flatten := by
    rw [visible_of_none hnone, hempty, List.append_nil]
  refine ⟨liveMessage_of_none hnone, ?_, ?_⟩
  · intro hfits
    rw [hvisible, List.append_nil]
    by_cases hbuffer : s.textBuffer = []
    · -- without text there is no live message
      have hid : s.streamingMessageId = none := by
        by_contra hsome
        obtain ⟨id, hid⟩ := Option.ne_none_iff_exists'.mp hsome
        obtain ⟨-, shown, -, -, hne, hprefix⟩ := hlive id hid
        rw [hbuffer, List.prefix_nil] at hprefix
        exact hne hprefix
      rw [visible_of_none hid, hbuffer, List.append_nil, flushInternal]
      dsimp only
      rw [if_pos hbuffer]
    · cases hid : s.streamingMessageId with
      | none =>
        rw [visible_of_none hid, flushInternal_eq hbuffer hid]
        exact flatten_sendLongMessage _ _
      | some id =>
        obtain ⟨sent, shown, hchat, rfl, -, -⟩ := hlive id hid
        have hle : s.textBuffer.length ≤ messageLimit := hfits (by simp [hid])
        rw [visible_of_some hid hchat rfl, flushInternal]
        dsimp only
        rw [if_neg hbuffer, hid]
        dsimp only
        rcases editMessageText_of_le service s.chat sent.length hle with
          hok | ⟨hsame, hget⟩
        · rw [hok]
          exact flatten_edit hchat
        · rw [hsame]
          have hshown : shown = s.textBuffer := by
            rw [hchat, List.getElem?_append_right le_rfl, Nat.sub_self] at hget
            exact Option.some_inj.mp hget
          change s.chat.flatten = _
          rw [hchat, hshown, List.flatten_append, List.flatten_singleton]
  · intro hfits
    have hover : s.streamingMessageId ≠ none ∧ messageLimit < s.textBuffer.length := by
      simpa [Fits] using hfits
    obtain ⟨id, hid⟩ := Option.ne_none_iff_exists'.mp hover.1
    have hbuffer : s.textBuffer ≠ [] := by
      intro hnil
      rw [hnil] at hover
      exact absurd hover.2 (by decide)
    have hsent : (flushInternal service s).chat = sendLongMessage s.chat s.textBuffer := by
      rw [flushInternal]
      dsimp only
      rw [if_neg hbuffer, hid]
      dsimp only
      rw [editMessageText_of_lt _ _ hover.2]
    rw [hvisible, hsent, flatten_sendLongMessage]
    exact length_visible_lt hlive hid

lemma LiveMessage.push (h : LiveMessage s) (added : List Char) :
    LiveMessage { s with textBuffer := s.textBuffer ++ added } := by
  intro id hid
  obtain ⟨sent, shown, hchat, hlen, hne, hprefix⟩ := h id hid
  exact ⟨sent, shown, hchat, hlen, hne, hprefix.trans (List.prefix_append _ _)⟩

lemma visible_push (s : TelegramOutput) (added : List Char) :
    visible { s with textBuffer := s.textBuffer ++ added } = visible s ++ added := by
  cases hid : s.streamingMessageId <;> simp only [visible, hid, List.append_assoc]

/-- Text that only goes into the buffer. -/
lemma passes_push {fits : Prop} (hlive : LiveMessage s) (added : List Char) (hfits : fits) :
    Passes added fits s { s with textBuffer := s.textBuffer ++ added } :=
  ⟨hlive.push added, fun _ => visible_push s added, fun hnot => absurd hfits hnot⟩

lemma Passes.trans {added : List Char} {fits fits' : Prop} {s₁ s₂ : TelegramOutput}
    (h : Passes added fits s s₁) (h' : Passes [] fits' s₁ s₂) (hfits : fits) (hfits' : fits') :
    Passes added fits s s₂ := by
  refine ⟨h'.live, fun _ => ?_, fun hnot => absurd hfits hnot⟩
  rw [h'.visible_eq hfits', List.append_nil, h.visible_eq hfits]

lemma Passes.congr {added : List Char} {fits fits' : Prop} (h : Passes added fits s s')
    (hiff : fits' ↔ fits) : Passes added fits' s s' :=
  ⟨h.live, fun hfits => h.visible_eq (hiff.mp hfits), fun hnot => h.length_lt (hiff.not.mp hnot)⟩

/-- When the update took place does not matter to what is visible. -/
lemma Passes.at {added : List Char} {fits : Prop} (h : Passes added fits s s') (now : Nat) :
    Passes added fits s { s' with lastUpdate := now } :=
  ⟨h.live, h.visible_eq, h.length_lt⟩

/-- The edit of a live message with a buffer that has grown. -/
lemma passes_edit (hlive : LiveMessage s) (hid : s.streamingMessageId = some id)
    {added : List Char} (hadded : added ≠ []) :
    Passes added ((s.textBuffer ++ added).length ≤ messageLimit) s
      (editLiveMessage service { s with textBuffer := s.textBuffer ++ added } id) := by
  obtain ⟨sent, shown, hchat, rfl, hne, hprefix⟩ := hlive id hid
  have hbuffer : s.textBuffer ++ added ≠ [] := List.append_ne_nil_of_right_ne_nil _ hadded
  have hpush := visible_push s added
  by_cases hle : (s.textBuffer ++ added).length ≤ messageLimit
  · rw [editLiveMessage]
    dsimp only
    rcases editMessageText_of_le service s.chat sent.length hle with
      hok | ⟨hsame, -⟩
    · rw [hok]
      have hset : s.chat.set sent.length (s.textBuffer ++ added) =
          sent ++ [s.textBuffer ++ added] := by
        rw [hchat, List.set_append_right _ _ le_rfl, Nat.sub_self]
        rfl
      refine ⟨fun id' hid' => ?_, fun _ => ?_, fun hnot => absurd hle hnot⟩
      · obtain rfl : sent.length = id' := Option.some_inj.mp (hid.symm.trans hid')
        exact ⟨sent, _, hset, rfl, hbuffer, List.prefix_rfl⟩
      · rw [visible_of_some hid hchat rfl, List.append_assoc]
        exact visible_of_some hid hset rfl
    · rw [hsame]
      dsimp only
      rw [if_pos rfl]
      have hkept : Passes added ((s.textBuffer ++ added).length ≤ messageLimit) s _ :=
        passes_push hlive added hle
      split
      · exact hkept.trans (passes_flush service hkept.live) hle fun _ => hle
      · exact hkept
  · have hlt := Nat.lt_of_not_le hle
    have hlong : 3500 < utf8Len (s.textBuffer ++ added) := by
      have hbytes := length_le_utf8Len (s.textBuffer ++ added)
      have hlimit : messageLimit = 4096 := rfl
      omega
    rw [editLiveMessage]
    dsimp only
    rw [editMessageText_of_lt _ _ hlt]
    dsimp only
    rw [if_pos hlong, if_neg (by decide), flushInternal_eq hbuffer rfl]
    refine ⟨liveMessage_of_none rfl, fun h => absurd h hle, fun _ => ?_⟩
    have hshown := length_visible_lt (hlive.push added) hid
    rw [hpush, List.length_append] at hshown
    change _ < ((sendLongMessage s.chat (s.textBuffer ++ added)).flatten ++ []).length
    rwa [List.append_nil, flatten_sendLongMessage]

lemma passes_onText (hlive : LiveMessage s) (text : List Char) (now : Nat) :
    Passes (clean text) (Fits s (.onText text now)) s (onText service s text now) := by
  rw [onText]
  by_cases hclean : clean text = []
  · rw [if_pos hclean, hclean]
    have hkept : Passes [] (Fits s (.onText text now)) s _ :=
      passes_push hlive [] fun _ hne => absurd hclean hne
    simpa using hkept
  · rw [if_neg hclean, maybeUpdateLiveMessage]
    dsimp only
    rw [if_neg (List.append_ne_nil_of_right_ne_nil _ hclean), Bool.not_false, Bool.true_and]
    by_cases hsoon : now - s.lastUpdate < updateInterval
    · rw [if_pos (decide_eq_true hsoon)]
      exact passes_push hlive _ fun _ _ hdue => absurd hsoon (Nat.not_lt.mpr hdue)
    · rw [if_neg (by simpa using hsoon)]
      have hdue := Nat.le_of_not_lt hsoon
      split
      · next id hid =>
        refine ((passes_edit hlive hid hclean).congr ?_).at now
        simp [Fits, hid, hclean, hdue]
      · next hid =>
        have hfits : Fits s (.onText text now) := fun hsome => absurd hid hsome
        by_cases hle : (s.textBuffer ++ clean text).length ≤ messageLimit
        · -- the first message of this text
          rw [Chat.sendMessage, if_pos hle]
          refine ⟨fun id' hid' => ?_, fun _ => ?_, fun hnot => absurd hfits hnot⟩
          · obtain rfl := Option.some_inj.mp hid'
            exact ⟨s.chat, _, rfl, rfl, List.append_ne_nil_of_right_ne_nil _ hclean,
              List.prefix_rfl⟩
          · rw [visible_of_none hid, List.append_assoc]
            exact visible_of_some rfl rfl rfl
        · rw [Chat.sendMessage, if_neg hle]
          exact (passes_push hlive (clean text) hfits).at now

lemma passes_call (service : Service) (hlive : LiveMessage s) (c : Call) :
    Passes c.text (Fits s c) s (call service s c) := by
  cases c with
  | onText text now => exact passes_onText hlive text now
  | flush => exact passes_flush service hlive

/-- No call loses anything that is visible. -/
lemma length_visible_call (service : Service) (hlive : LiveMessage s) (c : Call) :
    (visible s).length + c.text.length ≤ (visible (call service s c)).length := by
  have hpasses := passes_call service hlive c
  by_cases hfits : Fits s c
  · rw [hpasses.visible_eq hfits, List.length_append]
  · exact Nat.le_of_lt (hpasses.length_lt hfits)

end Passes

/-! ## Whole sequences -/

section Runs

variable {service : Service} {s : TelegramOutput}

lemma runCalls_cons (c : Call) (calls : List Call) :
    runCalls service s (c :: calls) = runCalls service (call service s c) calls := rfl

lemma visible_runCalls_of_alwaysFits {calls : List Call} (hlive : LiveMessage s)
    (hfits : AlwaysFits service s calls) :
    visible (runCalls service s calls) = visible s ++ calls.flatMap Call.text := by
  induction calls generalizing s with
  | nil => exact (List.append_nil _).symm
  | cons c calls ih =>
    have hpasses := passes_call service hlive c
    rw [runCalls_cons, ih hpasses.live hfits.2, hpasses.visible_eq hfits.1, List.flatMap_cons,
      List.append_assoc]

lemma length_visible_runCalls_le (service : Service) (calls : List Call) (hlive : LiveMessage s) :
    (visible s).length + (calls.flatMap Call.text).length ≤
      (visible (runCalls service s calls)).length := by
  induction calls generalizing s with
  | nil => exact le_rfl
  | cons c calls ih =>
    have hpasses := passes_call service hlive c
    have hstep := length_visible_call service hlive c
    have hrest := ih hpasses.live
    rw [runCalls_cons, List.flatMap_cons, List.length_append]
    omega

/-- What is shown a second time stays in the chat. -/
lemma length_visible_runCalls_lt {calls : List Call} (hlive : LiveMessage s)
    (hfits : ¬ AlwaysFits service s calls) :
    (visible s).length + (calls.flatMap Call.text).length <
      (visible (runCalls service s calls)).length := by
  induction calls generalizing s with
  | nil => exact absurd trivial hfits
  | cons c calls ih =>
    have hpasses := passes_call service hlive c
    rw [runCalls_cons, List.flatMap_cons, List.length_append]
    by_cases hfirst : Fits s c
    · have hstep := length_visible_call service hlive c
      have hrest := ih hpasses.live fun h => hfits ⟨hfirst, h⟩
      omega
    · have hstep := hpasses.length_lt hfirst
      have hrest := length_visible_runCalls_le service calls hpasses.live
      omega

lemma visible_new (created : Nat) : visible (.new created) = [] := rfl

lemma liveMessage_new (created : Nat) : LiveMessage (.new created) := liveMessage_of_none rfl

/-- After the final flush the chat shows what is visible. -/
lemma visible_final (calls : List Call) :
    visible (runCalls service s (calls ++ [.flush])) =
      (runCalls service s (calls ++ [.flush])).chat.flatten := by
  have hfinal : runCalls service s (calls ++ [.flush]) =
      flushInternal service (runCalls service s calls) := List.foldl_append
  obtain ⟨hnone, hempty⟩ := flushInternal_idle service (runCalls service s calls)
  rw [hfinal, visible_of_none hnone, hempty, List.append_nil]

lemma flatMap_final (calls : List Call) :
    (calls ++ [Call.flush]).flatMap Call.text = calls.flatMap Call.text := by
  rw [List.flatMap_append]
  exact List.append_nil _

/-- What does not fit is shown a second time. -/
lemma alwaysFits_of_shownOnce {created : Nat} {calls : List Call}
    (h : ShownOnce service created calls) :
    AlwaysFits service (.new created) (calls ++ [.flush]) := by
  by_contra hfits
  have hlt := length_visible_runCalls_lt (liveMessage_new created) hfits
  rw [visible_final, h, flatMap_final, visible_new, List.length_nil, Nat.zero_add] at hlt
  exact Nat.lt_irrefl _ hlt

end Runs

/-- The chat shows every piece of text once if and only if the live message is never due for an
edit with more text than goes into one message, the final flush included. -/
theorem shownOnce_iff (service : Service) (created : Nat) (calls : List Call) :
    ShownOnce service created calls ↔
      AlwaysFits service (.new created) (calls ++ [.flush]) := by
  constructor
  · exact alwaysFits_of_shownOnce
  · intro hfits
    rw [ShownOnce, ← visible_final,
      visible_runCalls_of_alwaysFits (liveMessage_new created) hfits, flatMap_final, visible_new,
      List.nil_append]

/-- The state in which a live message shows one letter. -/
def oneLetter : TelegramOutput where
  chat := [['a']]
  textBuffer := ['a']
  streamingMessageId := some 0
  lastUpdate := updateInterval

/-- Text behind a live message that comes too soon for an edit, and with which the buffer goes into
no message any more. -/
lemma not_shownOnce_of_length {service : Service} {text : List Char} (hclean : clean text = text)
    (hlength : messageLimit ≤ text.length) :
    ¬ ShownOnce service 0 [.onText ['a'] updateInterval, .onText text updateInterval] := by
  have hfirst : call service (.new 0) (.onText ['a'] updateInterval) = oneLetter := rfl
  have hsecond : call service oneLetter (.onText text updateInterval) =
      { oneLetter with textBuffer := 'a' :: text } := by
    have hne : text ≠ [] := by
      rintro rfl
      exact absurd hlength (by decide)
    rw [call, onText, hclean, if_neg hne, maybeUpdateLiveMessage]
    simp [oneLetter, updateInterval]
  intro hshown
  obtain ⟨-, -, hflush, -⟩ := alwaysFits_of_shownOnce hshown
  rw [hfirst, hsecond] at hflush
  have hle : ('a' :: text).length ≤ messageLimit := hflush (by simp [oneLetter])
  rw [List.length_cons] at hle
  omega

/-- A live message shows the first letter; the rest comes too soon for an edit, and the flush has
one character too many. -/
theorem not_shownOnce :
    ¬ ∀ (service : Service) (created : Nat) (calls : List Call),
      ShownOnce service created calls := by
  intro hall
  have hclean : clean (List.replicate messageLimit 'b') = List.replicate messageLimit 'b' :=
    clean_eq_self (fun h => absurd (List.eq_of_mem_replicate h) (by decide))
      fun h => absurd (List.eq_of_mem_replicate h) (by decide)
  have hlength : messageLimit ≤ (List.replicate messageLimit 'b').length :=
    Nat.le_of_eq List.length_replicate.symm
  exact not_shownOnce_of_length hclean hlength (hall ⟨true⟩ 0 _)

end RustyClaw.Telegram
