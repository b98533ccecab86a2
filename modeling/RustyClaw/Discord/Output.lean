import Mathlib.Data.List.Basic
import Mathlib.Data.List.Infix

/-!
# Live messages in a Discord channel

`DiscordOutput` shows the text of a turn while it grows: a live message is sent once, edited with
the whole buffer at most every two seconds, and edited for the last time by a flush, which empties
the buffer.  Without a live message the flush sends the buffer as a message of its own.

The service rejects a message or an edit of more than 2000 characters and accepts everything else,
and the code looks at an answer only to keep the id of the live message.  So a text that has grown
too long stays as it was shown last, or is not shown at all, and the flush drops the rest.

What belongs to one message is the text between two flushes, a *segment*.  `losesNoText_iff` says
that the channel shows every piece of text once exactly when no segment is longer than a message.
-/

namespace RustyClaw.Discord

/-! ## The service -/

/-- The longest message, in characters. -/
def messageLimit : Nat := 2000

/-- The text messages of the channel; the id of a message is its position. -/
abbrev Channel := List (List Char)

/-- `ChannelId::say`. -/
def Channel.say (channel : Channel) (text : List Char) : Option (Nat × Channel) :=
  if text.length ≤ messageLimit then some (channel.length, channel ++ [text]) else none

def Channel.editMessage (channel : Channel) (id : Nat) (text : List Char) : Option Channel :=
  if text.length ≤ messageLimit then some (channel.set id text) else none

/-! ## The output -/

/-- A `DiscordOutput` with the channel it writes to. -/
structure DiscordOutput where
  channel : Channel := []
  textBuffer : List Char := []
  streamingMessageId : Option Nat := none
  /-- the instant of the last update, in nanoseconds -/
  lastUpdate : Nat

def DiscordOutput.new (now : Nat) : DiscordOutput where
  lastUpdate := now

def updateInterval : Nat := 2 * 1000000000

section Output

variable (s : DiscordOutput)

/-- The edit of the live message, or the first message, with the whole buffer. -/
def showBuffer : DiscordOutput :=
  match s.streamingMessageId with
  | some id => { s with channel := (s.channel.editMessage id s.textBuffer).getD s.channel }
  | none =>
    match s.channel.say s.textBuffer with
    | some (id, channel) => { s with channel := channel, streamingMessageId := some id }
    | none => s

def maybeUpdateLiveMessage (now : Nat) (force : Bool) : DiscordOutput :=
  if s.textBuffer = [] then s
  else if !force && now - s.lastUpdate < updateInterval then s
  else { showBuffer s with lastUpdate := now }

/-- The flush forgets the buffer and the live message whatever the service answers. -/
def flushInternal : DiscordOutput :=
  let s' := if s.textBuffer = [] then s else showBuffer s
  { s' with textBuffer := [], streamingMessageId := none }

def onText (text : List Char) (now : Nat) : DiscordOutput :=
  if text = [] then s
  else maybeUpdateLiveMessage { s with textBuffer := s.textBuffer ++ text } now false

end Output

/-! ## Sequences of calls -/

inductive Call where
  | onText (text : List Char) (now : Nat)
  | flush

/-- The text that a call passes in. -/
def Call.text : Call → List Char
  | .onText text _ => text
  | .flush => []

def call (s : DiscordOutput) : Call → DiscordOutput
  | .onText text now => onText s text now
  | .flush => flushInternal s

def runCalls (s : DiscordOutput) (calls : List Call) : DiscordOutput :=
  calls.foldl call s

/-- After a final flush the channel shows exactly the text that was passed in. -/
def ShownOnce (created : Nat) (calls : List Call) : Prop :=
  (runCalls (.new created) (calls ++ [.flush])).channel.flatten = calls.flatMap Call.text

/-- The texts passed in between two flushes; `segment` has been passed in already. -/
def segmentsFrom (segment : List Char) : List Call → List (List Char)
  | [] => [segment]
  | .onText text _ :: calls => segmentsFrom (segment ++ text) calls
  | .flush :: calls => segment :: segmentsFrom [] calls

def segments (calls : List Call) : List (List Char) := segmentsFrom [] calls

/-! ## What a call keeps -/

/-- The messages in front of the live one. -/
def settled (s : DiscordOutput) : List Char :=
  match s.streamingMessageId with
  | some id => (s.channel.take id).flatten
  | none => s.channel.flatten

/-- The live message is the last one, and shows a beginning of the buffer that goes into one
message. -/
def LiveMessage (s : DiscordOutput) : Prop :=
  ∀ id ∈ s.streamingMessageId, ∃ sent shown, s.channel = sent ++ [shown] ∧ id = sent.length ∧
    shown ≠ [] ∧ shown <+: s.textBuffer ∧ shown.length ≤ messageLimit

section Calls

variable {s : DiscordOutput} {id : Nat}

lemma settled_of_some {sent : Channel} {shown : List Char} (hid : s.streamingMessageId = some id)
    (hchannel : s.channel = sent ++ [shown]) (hlen : id = sent.length) :
    settled s = sent.flatten := by
  rw [settled, hid]
  dsimp only
  rw [hchannel, hlen, List.take_left]

lemma settled_of_none (hid : s.streamingMessageId = none) : settled s = s.channel.flatten := by
  rw [settled, hid]

lemma liveMessage_of_none (hid : s.streamingMessageId = none) : LiveMessage s := by
  intro id h
  rw [hid] at h
  cases h

lemma showBuffer_of_some (hid : s.streamingMessageId = some id) :
    showBuffer s =
      { s with channel := (s.channel.editMessage id s.textBuffer).getD s.channel } := by
  rw [showBuffer, hid]

lemma showBuffer_of_none (hid : s.streamingMessageId = none) :
    showBuffer s =
      if s.textBuffer.length ≤ messageLimit then
        { s with
          channel := s.channel ++ [s.textBuffer]
          streamingMessageId := some s.channel.length }
      else s := by
  rw [showBuffer, hid]
  dsimp only
  by_cases hfits : s.textBuffer.length ≤ messageLimit
  · rw [Channel.say, if_pos hfits, if_pos hfits]
  · rw [Channel.say, if_neg hfits, if_neg hfits]

/-- The live message gets the text, if it goes into one message. -/
lemma editMessage_last (sent : Channel) (shown text : List Char) :
    (Channel.editMessage (sent ++ [shown]) sent.length text).getD (sent ++ [shown]) =
      sent ++ [if text.length ≤ messageLimit then text else shown] := by
  by_cases hfits : text.length ≤ messageLimit
  · rw [Channel.editMessage, if_pos hfits, if_pos hfits,
      List.set_append_right _ _ (Nat.le_refl _), Nat.sub_self]
    rfl
  · rw [Channel.editMessage, if_neg hfits, if_neg hfits]
    rfl

/-- Showing the buffer leaves the messages in front of the live one alone. -/
lemma showBuffer_keeps (hlive : LiveMessage s) (hbuffer : s.textBuffer ≠ []) :
    LiveMessage (showBuffer s) ∧ settled (showBuffer s) = settled s ∧
      (showBuffer s).textBuffer = s.textBuffer := by
  cases hid : s.streamingMessageId with
  | some id =>
    obtain ⟨sent, shown, hchannel, rfl, hne, hprefix, hle⟩ := hlive id hid
    rw [showBuffer_of_some hid, hchannel, editMessage_last]
    refine ⟨?_, ?_, rfl⟩
    · intro id' hid'
      obtain rfl : sent.length = id' := Option.some.inj (hid.symm.trans hid')
      refine ⟨sent, _, rfl, rfl, ?_⟩
      split
      · next hfits => exact ⟨hbuffer, List.prefix_refl _, hfits⟩
      · exact ⟨hne, hprefix, hle⟩
    · rw [settled_of_some hid hchannel rfl]
      exact settled_of_some hid rfl rfl
  | none =>
    rw [showBuffer_of_none hid]
    split
    · next hfits =>
      refine ⟨?_, ?_, rfl⟩
      · intro id' hid'
        obtain rfl : s.channel.length = id' := Option.some.inj hid'
        exact ⟨s.channel, s.textBuffer, rfl, rfl, hbuffer, List.prefix_refl _, hfits⟩
      · rw [settled_of_none hid]
        exact settled_of_some rfl rfl rfl
    · exact ⟨hlive, rfl, rfl⟩

/-- What a text of which `shown` is to be seen has lost: nothing if it goes into one message, and
something otherwise. -/
structure Shows (text shown : List Char) : Prop where
  eq_of_le : text.length ≤ messageLimit → shown = text
  length_lt : messageLimit < text.length → shown.length < text.length

lemma shows_self (text : List Char) (hfits : text.length ≤ messageLimit) : Shows text text :=
  ⟨fun _ => rfl, fun hover => absurd hfits (Nat.not_le.mpr hover)⟩

lemma Shows.of_le {text shown : List Char} (hover : ¬ text.length ≤ messageLimit)
    (hle : shown.length ≤ messageLimit) : Shows text shown :=
  ⟨fun hfits => absurd hfits hover, fun hlt => Nat.lt_of_le_of_lt hle hlt⟩

/-- After the buffer was shown, the channel shows the settled messages and what goes into one
message. -/
lemma flatten_showBuffer (hlive : LiveMessage s) :
    ∃ shown, (showBuffer s).channel.flatten = settled s ++ shown ∧ Shows s.textBuffer shown := by
  cases hid : s.streamingMessageId with
  | some id =>
    obtain ⟨sent, shown, hchannel, rfl, -, -, hle⟩ := hlive id hid
    rw [settled_of_some hid hchannel rfl, showBuffer_of_some hid, hchannel, editMessage_last,
      List.flatten_append, List.flatten_singleton]
    refine ⟨_, rfl, ?_⟩
    split
    · next hfits => exact shows_self _ hfits
    · next hover => exact .of_le hover hle
  | none =>
    rw [settled_of_none hid, showBuffer_of_none hid]
    split
    · next hfits => exact ⟨s.textBuffer, by simp, shows_self _ hfits⟩
    · next hover => exact ⟨[], (List.append_nil _).symm, .of_le hover (Nat.zero_le _)⟩

lemma LiveMessage.push (hlive : LiveMessage s) (text : List Char) :
    LiveMessage { s with textBuffer := s.textBuffer ++ text } := by
  intro id hid
  obtain ⟨sent, shown, hchannel, hlen, hne, hprefix, hle⟩ := hlive id hid
  exact ⟨sent, shown, hchannel, hlen, hne, hprefix.trans (List.prefix_append _ _), hle⟩

/-- Text goes behind the buffer, and settles nothing. -/
lemma onText_keeps (hlive : LiveMessage s) (text : List Char) (now : Nat) :
    LiveMessage (onText s text now) ∧ settled (onText s text now) = settled s ∧
      (onText s text now).textBuffer = s.textBuffer ++ text := by
  rw [onText]
  by_cases htext : text = []
  · rw [if_pos htext, htext, List.append_nil]
    exact ⟨hlive, rfl, rfl⟩
  · have hpush := hlive.push text
    have hbuffer : s.textBuffer ++ text ≠ [] := List.append_ne_nil_of_right_ne_nil _ htext
    rw [if_neg htext, maybeUpdateLiveMessage]
    dsimp only
    rw [if_neg hbuffer]
    split
    · exact ⟨hpush, rfl, rfl⟩
    · exact showBuffer_keeps hpush hbuffer

/-- After a flush the channel shows the settled messages and what goes into one message. -/
lemma flush_shows (hlive : LiveMessage s) :
    ∃ shown, settled (flushInternal s) = settled s ++ shown ∧ Shows s.textBuffer shown := by
  rw [settled_of_none (s := flushInternal s) rfl, flushInternal]
  dsimp only
  by_cases hbuffer : s.textBuffer = []
  · -- without text there is no live message
    have hid : s.streamingMessageId = none := by
      by_contra hsome
      obtain ⟨id, hid⟩ := Option.ne_none_iff_exists'.mp hsome
      obtain ⟨-, shown, -, -, hne, hprefix, -⟩ := hlive id hid
      rw [hbuffer, List.prefix_nil] at hprefix
      exact hne hprefix
    rw [if_pos hbuffer, settled_of_none hid, hbuffer]
    exact ⟨[], (List.append_nil _).symm, shows_self [] (Nat.zero_le _)⟩
  · rw [if_neg hbuffer]
    exact flatten_showBuffer hlive

end Calls

/-! ## Whole sequences -/

section Runs

variable {s : DiscordOutput} {calls : List Call}

lemma runCalls_cons (c : Call) (calls : List Call) :
    runCalls s (c :: calls) = runCalls (call s c) calls := rfl

/-- What the channel shows in the end, segment by segment. -/
lemma settled_runCalls (hlive : LiveMessage s) (calls : List Call) :
    ∃ shown : List (List Char),
      settled (flushInternal (runCalls s calls)) = settled s ++ shown.flatten ∧
        List.Forall₂ Shows (segmentsFrom s.textBuffer calls) shown := by
  induction calls generalizing s with
  | nil =>
    obtain ⟨shown, hsettled, hshows⟩ := flush_shows hlive
    refine ⟨[shown], ?_, .cons hshows .nil⟩
    rw [List.flatten_singleton]
    exact hsettled
  | cons c calls ih =>
    rw [runCalls_cons]
    cases c with
    | onText text now =>
      obtain ⟨hlive', hsettled, hbuffer⟩ := onText_keeps hlive text now
      obtain ⟨shown, heq, hshows⟩ := ih hlive'
      rw [call, heq, hsettled]
      refine ⟨shown, rfl, ?_⟩
      rw [segmentsFrom, ← hbuffer]
      exact hshows
    | flush =>
      obtain ⟨first, hsettled, hfirst⟩ := flush_shows hlive
      obtain ⟨shown, heq, hshows⟩ :=
        ih (s := flushInternal s) (liveMessage_of_none rfl)
      rw [call, heq, hsettled]
      refine ⟨first :: shown, ?_, .cons hfirst hshows⟩
      rw [List.flatten_cons, List.append_assoc]

lemma flatten_segmentsFrom (segment : List Char) (calls : List Call) :
    (segmentsFrom segment calls).flatten = segment ++ calls.flatMap Call.text := by
  induction calls generalizing segment with
  | nil => simp [segmentsFrom]
  | cons c calls ih =>
    cases c with
    | onText text now =>
      rw [segmentsFrom, ih, List.append_assoc]
      rfl
    | flush =>
      rw [segmentsFrom, List.flatten_cons, ih]
      rfl

lemma Shows.length_le {text shown : List Char} (h : Shows text shown) :
    shown.length ≤ text.length := by
  by_cases hfits : text.length ≤ messageLimit
  · rw [h.eq_of_le hfits]
  · exact Nat.le_of_lt (h.length_lt (Nat.lt_of_not_le hfits))

section Segments

variable {texts shown : List (List Char)}

lemma length_flatten_le_of_shows (h : List.Forall₂ Shows texts shown) :
    shown.flatten.length ≤ texts.flatten.length := by
  induction h with
  | nil => exact Nat.le_refl _
  | cons hfirst _ ih =>
    rw [List.flatten_cons, List.flatten_cons, List.length_append, List.length_append]
    exact Nat.add_le_add hfirst.length_le ih

lemma length_flatten_lt_of_shows (h : List.Forall₂ Shows texts shown)
    (hover : ∃ text ∈ texts, messageLimit < text.length) :
    shown.flatten.length < texts.flatten.length := by
  induction h with
  | nil =>
    obtain ⟨text, hmem, -⟩ := hover
    cases hmem
  | cons hfirst hrest ih =>
    rw [List.flatten_cons, List.flatten_cons, List.length_append, List.length_append]
    have hle := hfirst.length_le
    obtain ⟨text, hmem, hlong⟩ := hover
    obtain rfl | hmem := List.mem_cons.mp hmem
    · have hlt := hfirst.length_lt hlong
      have htail := length_flatten_le_of_shows hrest
      omega
    · have htail := ih ⟨text, hmem, hlong⟩
      omega

lemma eq_of_shows (h : List.Forall₂ Shows texts shown)
    (hfits : ∀ text ∈ texts, text.length ≤ messageLimit) : shown = texts := by
  induction h with
  | nil => rfl
  | cons hfirst _ ih =>
    obtain ⟨hhead, htail⟩ := List.forall_mem_cons.mp hfits
    rw [hfirst.eq_of_le hhead, ih htail]

end Segments

/-- What the channel shows of each segment. -/
lemma exists_shows (created : Nat) (calls : List Call) :
    ∃ shown, (ShownOnce created calls ↔ shown.flatten = (segments calls).flatten) ∧
      List.Forall₂ Shows (segments calls) shown := by
  have hfinal : runCalls (.new created) (calls ++ [.flush]) =
      flushInternal (runCalls (.new created) calls) := List.foldl_append
  have hlive : LiveMessage (.new created) := liveMessage_of_none rfl
  obtain ⟨shown, hsettled, hshows⟩ := settled_runCalls hlive calls
  have hchannel : (flushInternal (runCalls (.new created) calls)).channel.flatten =
      shown.flatten := by
    rw [← settled_of_none rfl, hsettled]
    rfl
  have htexts : (segments calls).flatten = calls.flatMap Call.text := flatten_segmentsFrom [] calls
  refine ⟨shown, ?_, hshows⟩
  rw [ShownOnce, hfinal, hchannel, ← htexts]

lemma not_shownOnce_of_long {created : Nat}
    (hlong : ∃ segment ∈ segments calls, messageLimit < segment.length) :
    ¬ ShownOnce created calls := by
  obtain ⟨shown, hiff, hshows⟩ := exists_shows created calls
  intro hshown
  have hlt := length_flatten_lt_of_shows hshows hlong
  rw [hiff.mp hshown] at hlt
  exact Nat.lt_irrefl _ hlt

lemma shownOnce_of_fits {created : Nat}
    (hfits : ∀ segment ∈ segments calls, segment.length ≤ messageLimit) :
    ShownOnce created calls := by
  obtain ⟨shown, hiff, hshows⟩ := exists_shows created calls
  exact hiff.mpr (by rw [eq_of_shows hshows hfits])

end Runs

/-- The channel shows every piece of text once if and only if no text between two flushes is longer
than a message. -/
theorem losesNoText_iff (created : Nat) (calls : List Call) :
    ShownOnce created calls ↔ ∀ segment ∈ segments calls, segment.length ≤ messageLimit := by
  constructor
  · intro hshown segment hmem
    by_contra hlong
    exact not_shownOnce_of_long ⟨segment, hmem, Nat.lt_of_not_le hlong⟩ hshown
  · exact shownOnce_of_fits

/-- One letter that is shown, and behind it a text with which the buffer goes into no message any
more: the flush drops it. -/
theorem not_shownOnce_longText :
    ¬ ShownOnce 0 [.onText ['a'] updateInterval,
      .onText (List.replicate messageLimit 'b') updateInterval] := by
  refine not_shownOnce_of_long ⟨['a'] ++ List.replicate messageLimit 'b', ?_, ?_⟩
  · exact List.mem_singleton_self _
  · rw [List.length_append, List.length_replicate]
    exact Nat.lt_add_of_pos_left (Nat.succ_pos 0)

end RustyClaw.Discord
