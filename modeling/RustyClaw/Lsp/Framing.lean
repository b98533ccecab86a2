import RustyClaw.Library.Utf8
import RustyClaw.Lsp.Client

/-!
# Messages on the wire

A message of the base protocol is a block of header fields, one of which gives the length of the
body, an empty line, and the body.  The reader takes lines until one begins with `Content-Length: `,
takes the next line to be the empty one, and then as many bytes as the header says.

So the field has to be spelled as it is written in the source and has to be the last one: with a
field after it the body is taken from the middle of the header, and when it is spelled otherwise the
body is read as lines.  `framed_iff` says that the reader gets all messages with headers of given
kinds right, whatever bytes their bodies are, exactly when all the kinds meet these two conditions.
-/

namespace RustyClaw.Lsp

open Glyph Utf8
open Json hiding str

/-! ## The reader -/

/-- The bytes of the next line, with the newline. -/
def splitLine : List UInt8 → List UInt8 × List UInt8
  | [] => ([], [])
  | b :: bytes => if b = 10 then ([b], bytes) else (b :: (splitLine bytes).1, (splitLine bytes).2)

/-- What `read_line` makes of the bytes of a line; an error when they are no UTF-8. -/
def decodeLine (bytes : List UInt8) : Option (List Char) :=
  if encode (lossy bytes) = bytes then some (lossy bytes) else none

/-- The length that a line gives. -/
def lengthOf (line : List Char) : Option Nat :=
  if contentLength.isPrefixOf line then
    parseUnsigned (2 ^ 64) (trim (line.drop contentLength.length))
  else none

/-- The bodies that the reader takes from what the server writes, in at most `fuel` rounds of its
loop. -/
def bodiesFrom : Nat → List UInt8 → List (List UInt8)
  | 0, _ => []
  | fuel + 1, bytes =>
    let (line, rest) := splitLine bytes
    match decodeLine line with
    | none => []
    | some line =>
      if line = [] then []
      else
        match lengthOf line with
        -- another line, or no number
        | none => bodiesFrom fuel rest
        | some len =>
          let (emptyLine, rest) := splitLine rest
          match decodeLine emptyLine with
          | none => []
          | some _ =>
            -- no buffer has so many bytes, or they do not come
            if 2 ^ 63 ≤ len ∨ rest.length < len then []
            else rest.take len :: bodiesFrom fuel (rest.drop len)

/-- Every round takes a byte at least. -/
def bodies (bytes : List UInt8) : List (List UInt8) := bodiesFrom (bytes.length + 1) bytes

/-- The messages that the reader hands on. -/
def handedOn (crates : Crates) (bytes : List UInt8) : List (Json Char) :=
  (bodies bytes).filterMap fun body => fromStr crates (lossy body)

/-! ## What the server writes -/

/-- A header field that does not give the length. -/
structure Field where
  name : List Char
  value : List Char
  name_line : '\n' ∉ name
  value_line : '\n' ∉ value
  no_colon : ':' ∉ name
  other : name.map Char.toLower ≠ "content-length".toList

/-- How a header is written: the fields before and after the length, and the letters of its name. -/
structure Layout where
  before : List Field
  spelling : List Char
  after : List Field
  spelled : spelling.map Char.toLower = "content-length".toList

def Field.text (field : Field) : List Char := field.name ++ str ": " ++ field.value ++ str "\r\n"

def lengthField (spelling : List Char) (len : Nat) : List Char :=
  spelling ++ str ": " ++ Nat.toDigits 10 len ++ str "\r\n"

def Layout.header (layout : Layout) (len : Nat) : List Char :=
  layout.before.flatMap Field.text ++ lengthField layout.spelling len ++
    layout.after.flatMap Field.text ++ str "\r\n"

/-- The body may be anything that fits into a buffer. -/
structure Message where
  layout : Layout
  body : List UInt8
  fits : body.length < 2 ^ 63

def Message.bytes (message : Message) : List UInt8 :=
  encode (message.layout.header message.body.length) ++ message.body

/-! ## What the client writes -/

/-- A message of the client. -/
inductive Outgoing where
  | request (id : UInt64) (method : List Char) (params : Json Char)
  | notify (method : List Char) (params : Json Char)

def Outgoing.body : Outgoing → List Char
  | .request id method params => render (Value.object [("jsonrpc", .str (str "2.0")),
      ("id", .num (.ofInt id.toNat)), ("method", .str method), ("params", params)]).json
  | .notify method params => render (Value.object [("jsonrpc", .str (str "2.0")),
      ("method", .str method), ("params", params)]).json

/-- `msg.as_bytes()`. -/
def Outgoing.bytes (message : Outgoing) : List UInt8 :=
  encode (str "Content-Length: " ++ Nat.toDigits 10 (utf8Len message.body) ++ str "\r\n\r\n" ++
    message.body)

/-! ## What the reader should make of it -/

/-- The reader takes all bodies in their order and hands on those that are JSON. -/
def Reads (messages : List Message) : Prop :=
  bodies (messages.flatMap Message.bytes) = messages.map Message.body ∧
    ∀ crates, handedOn crates (messages.flatMap Message.bytes) =
      messages.filterMap fun message => fromStr crates (lossy message.body)

/-- The reader reads all messages with headers of these kinds, and all that the client writes. -/
def Framed (layouts : Set Layout) : Prop :=
  (∀ messages : List Message, (∀ message ∈ messages, message.layout ∈ layouts) → Reads messages) ∧
    ∀ messages : List Outgoing, (∀ message ∈ messages, utf8Len message.body < 2 ^ 63) →
      bodies (messages.flatMap Outgoing.bytes) =
        messages.map fun message => encode message.body

/-- The name is written as in the source, and no field follows. -/
structure Layout.Plain (layout : Layout) : Prop where
  spelling : layout.spelling = "Content-Length".toList
  last : layout.after = []

/-! ## Rounds of the reader -/

section Rounds

variable {bytes rest body : List UInt8} {line : List Char} {len : Nat}

lemma splitLine_append {l : List UInt8} (h : 10 ∉ l) :
    splitLine (l ++ 10 :: rest) = (l ++ [10], rest) := by
  induction l with
  | nil => rfl
  | cons b l ih =>
    have hb : b ≠ 10 := fun hb => h (hb ▸ List.mem_cons_self)
    rw [List.cons_append, splitLine, if_neg hb, ih fun hl => h (List.mem_cons_of_mem _ hl)]
    rfl

lemma length_splitLine (bytes : List UInt8) :
    (splitLine bytes).1.length + (splitLine bytes).2.length = bytes.length := by
  induction bytes with
  | nil => rfl
  | cons b bytes ih =>
    rw [splitLine]
    split
    · rw [List.length_singleton, List.length_cons, Nat.add_comm]
    · show (splitLine bytes).1.length + 1 + (splitLine bytes).2.length = bytes.length + 1
      omega

lemma decodeLine_eq_some (h : decodeLine bytes = some line) : encode line = bytes := by
  unfold decodeLine at h
  split at h
  · next hvalid => rw [← Option.some_inj.mp h, hvalid]
  · cases h

@[simp] lemma decodeLine_encode (line : List Char) : decodeLine (encode line) = some line := by
  rw [decodeLine, lossy_encode, if_pos rfl]

/-- A round that goes on has taken a byte. -/
lemma length_rest_lt (h : decodeLine (splitLine bytes).1 = some line) (hline : line ≠ []) :
    (splitLine bytes).2.length < bytes.length := by
  have hlength := length_splitLine bytes
  have hencode := decodeLine_eq_some h
  have hpos : 0 < (splitLine bytes).1.length := by
    apply List.length_pos_of_ne_nil
    intro hnil
    rw [hnil] at hencode
    exact hline (encode_injective (hencode.trans encode_nil.symm))
  omega

lemma bodiesFrom_eq {fuel fuel' : Nat} (h : bytes.length < fuel) (h' : bytes.length < fuel') :
    bodiesFrom fuel bytes = bodiesFrom fuel' bytes := by
  induction fuel generalizing fuel' bytes with
  | zero => exact absurd h (Nat.not_lt_zero _)
  | succ fuel ih =>
    obtain ⟨fuel', rfl⟩ := Nat.exists_eq_succ_of_ne_zero (Nat.ne_of_gt (Nat.zero_lt_of_lt h'))
    have hround : ∀ line, decodeLine (splitLine bytes).1 = some line → line ≠ [] →
        (splitLine bytes).2.length < bytes.length := fun _ => length_rest_lt
    rw [bodiesFrom, bodiesFrom]
    rcases hsplit : splitLine bytes with ⟨first, rest⟩
    rw [hsplit] at hround
    cases hline : decodeLine first with
    | none => simp only [hline]
    | some line =>
      by_cases hend : line = []
      · simp only [hline, if_pos hend]
      · have hshort : rest.length < bytes.length := hround line hline hend
        cases hlength : lengthOf line with
        | none =>
          simp only [hline, if_neg hend, hlength]
          exact ih (by omega) (by omega)
        | some len =>
          rcases hsplit' : splitLine rest with ⟨next, rest'⟩
          have hnext : next.length + rest'.length = rest.length := by
            rw [← length_splitLine rest, hsplit']
          cases hempty : decodeLine next with
          | none => simp only [hline, if_neg hend, hlength, hsplit', hempty]
          | some emptyLine =>
            simp only [hline, if_neg hend, hlength, hsplit', hempty]
            split
            · rfl
            · have hdrop : (rest'.drop len).length ≤ rest'.length := by
                rw [List.length_drop]
                exact Nat.sub_le _ _
              exact congrArg _ (ih (by omega) (by omega))

lemma bodiesFrom_length_lt {fuel : Nat} (h : bytes.length < fuel) :
    bodiesFrom fuel bytes = bodies bytes :=
  bodiesFrom_eq h (Nat.lt_succ_self _)

lemma splitLine_encode (hline : '\n' ∉ line) (rest : List UInt8) :
    splitLine (encode (line ++ ['\n']) ++ rest) = (encode (line ++ ['\n']), rest) := by
  have hnewline : encode (line ++ ['\n']) = encode line ++ [10] := encode_append _ _
  rw [hnewline, List.append_assoc]
  exact splitLine_append fun h => hline (newline_mem_encode h)

lemma concat_ne_nil : line ++ ['\n'] ≠ [] := List.append_ne_nil_of_right_ne_nil _ (by decide)

lemma length_lt_encode : rest.length < (encode (line ++ ['\n']) ++ rest).length := by
  rw [encode_append, List.length_append, List.length_append]
  show rest.length < (encode line).length + 1 + rest.length
  omega

/-- A line that gives no length is skipped. -/
lemma bodies_skip (hline : '\n' ∉ line) (hlength : lengthOf (line ++ ['\n']) = none) :
    bodies (encode (line ++ ['\n']) ++ rest) = bodies rest := by
  rw [bodies, bodiesFrom, splitLine_encode hline]
  simp only [decodeLine_encode, if_neg concat_ne_nil, hlength]
  exact bodiesFrom_length_lt length_lt_encode

/-- Behind a line that gives a length, one line is skipped, and as many bytes are a body. -/
lemma bodies_take {next : List Char} (hline : '\n' ∉ line)
    (hlength : lengthOf (line ++ ['\n']) = some body.length) (hnext : '\n' ∉ next)
    (hfits : body.length < 2 ^ 63) :
    bodies (encode (line ++ ['\n']) ++ (encode (next ++ ['\n']) ++ (body ++ rest))) =
      body :: bodies rest := by
  have hroom : ¬ (2 ^ 63 ≤ body.length ∨ (body ++ rest).length < body.length) := by
    rw [List.length_append]
    omega
  rw [bodies, bodiesFrom, splitLine_encode hline]
  simp only [decodeLine_encode, if_neg concat_ne_nil, hlength, splitLine_encode hnext,
    if_neg hroom, List.take_left, List.drop_left]
  refine congrArg _ (bodiesFrom_length_lt (Nat.lt_of_le_of_lt ?_ length_lt_encode))
  rw [List.length_append, List.length_append]
  omega

end Rounds

/-- The client makes the same of a line. -/
lemma takeLine_header {s : LspClient} {line : List Char} (h : s.reader = .header) (hne : line ≠ []) :
    s.takeLine line = (lengthOf line).elim s fun len => { s with reader := .emptyLine len } := by
  unfold LspClient.takeLine lengthOf
  rw [h]
  simp only [if_neg hne]
  split
  · cases parseUnsigned (2 ^ 64) (trim (line.drop contentLength.length)) <;> rfl
  · rfl

/-! ## Header fields -/

section Headers

variable {rest : List UInt8} {len : Nat}

/-- The name before the colon decides. -/
lemma lengthOf_other {name tail : List Char} (hcolon : ':' ∉ name)
    (hname : name ≠ "Content-Length".toList) : lengthOf (name ++ ':' :: tail) = none := by
  apply if_neg
  rw [List.isPrefixOf_iff_prefix]
  rintro ⟨suffix, hsuffix⟩
  have hletters : ∀ c ∈ name, decide (c ≠ ':') = true := by
    intro c hc
    exact decide_eq_true fun heq => hcolon (heq ▸ hc)
  have htake := congrArg (List.takeWhile fun c => decide (c ≠ ':')) hsuffix
  rw [List.takeWhile_append_of_pos hletters] at htake
  apply hname
  have hleft : (contentLength ++ suffix).takeWhile (fun c => decide (c ≠ ':')) =
      "Content-Length".toList := rfl
  have hright : (':' :: tail).takeWhile (fun c => decide (c ≠ ':')) = [] := rfl
  rw [hleft, hright, List.append_nil] at htake
  exact htake.symm

lemma trim_line {digits : List Char} (h : ∀ c ∈ digits, c.isDigit = true) :
    trim (digits ++ str "\r\n") = digits := by
  have hdigit : ∀ c ∈ digits, ¬ isWhitespace (chr c) = true := by
    intro c hc
    have hrange : 48 ≤ c.toNat ∧ c.toNat ≤ 57 := by
      simpa [Char.isDigit, Char.le_def, UInt32.le_iff_toNat_le] using h c hc
    show ¬ isWhitespace c = true
    simp only [isWhitespace, Bool.or_eq_true, Bool.and_eq_true, decide_eq_true_eq]
    omega
  have hend : ∀ c ∈ (str "\r\n" : List Char), isWhitespace (chr c) = true := by
    show ∀ c ∈ ['\r', '\n'], isWhitespace c = true
    simp only [List.mem_cons, List.not_mem_nil, or_false, forall_eq_or_imp, forall_eq]
    exact ⟨rfl, rfl⟩
  rw [trim, Text.trim_append_of_all _ hend, Text.trim, List.dropWhile_eq_self_iff.mpr,
    List.rdropWhile_eq_self_iff.mpr]
  · exact fun hne => hdigit _ (List.getLast_mem hne)
  · exact fun hpos => hdigit _ (List.getElem_mem hpos)

lemma lengthOf_lengthField (hlen : len < 2 ^ 64) :
    lengthOf (lengthField "Content-Length".toList len) = some len := by
  have hfield : lengthField "Content-Length".toList len =
      contentLength ++ (Nat.toDigits 10 len ++ str "\r\n") := by
    rw [lengthField, List.append_assoc]
    rfl
  have hdigits : allDigits (Nat.toDigits 10 len) = true := allDigits_toDigits len
  have hread : parseUnsigned (2 ^ 64) (Nat.toDigits 10 len) = some len := by
    have hvalue : Nat.ofDigitChars 10 (Nat.toDigits 10 len) 0 = len := Nat.ofDigitChars_ten_toDigits
    rw [parseUnsigned_digits (List.ne_nil_of_length_pos Nat.length_toDigits_pos) hdigits
      (by rw [hvalue]; exact hlen), hvalue]
  rw [hfield, lengthOf, if_pos (List.isPrefixOf_iff_prefix.mpr (List.prefix_append _ _)),
    List.drop_left, trim_line (List.all_eq_true.mp hdigits), hread]

def Field.line (field : Field) : List Char := field.name ++ ':' :: (' ' :: field.value ++ ['\r'])

lemma Field.text_eq (field : Field) : field.text = field.line ++ ['\n'] := by
  simp [Field.text, Field.line, str_char]

lemma Field.newline_not_mem (field : Field) : '\n' ∉ field.line := by
  simp [Field.line, field.name_line, field.value_line]

lemma Field.lengthOf_text (field : Field) : lengthOf field.text = none := by
  have hname : field.name ≠ "Content-Length".toList := by
    intro heq
    exact field.other (by rw [heq]; decide)
  rw [field.text_eq, Field.line, List.append_assoc, List.cons_append]
  exact lengthOf_other field.no_colon hname

lemma bodies_fields (fields : List Field) (rest : List UInt8) :
    bodies (encode (fields.flatMap Field.text) ++ rest) = bodies rest := by
  induction fields with
  | nil => rfl
  | cons field fields ih =>
    rw [List.flatMap_cons, encode_append, List.append_assoc, field.text_eq]
    rw [bodies_skip field.newline_not_mem (by rw [← field.text_eq]; exact field.lengthOf_text), ih]

def lengthLine (spelling : List Char) (len : Nat) : List Char :=
  spelling ++ ':' :: (' ' :: Nat.toDigits 10 len ++ ['\r'])

lemma lengthField_eq (spelling : List Char) (len : Nat) :
    lengthField spelling len = lengthLine spelling len ++ ['\n'] := by
  simp [lengthField, lengthLine, str_char]

/-- The letters of the name, in either case. -/
lemma Layout.not_mem_spelling (layout : Layout) {c : Char}
    (hc : c.toLower ∉ "content-length".toList) : c ∉ layout.spelling := by
  intro hmem
  apply hc
  rw [← layout.spelled]
  exact List.mem_map_of_mem hmem

lemma newline_not_mem_lengthLine (layout : Layout) (len : Nat) :
    '\n' ∉ lengthLine layout.spelling len := by
  have hspelling : '\n' ∉ layout.spelling := layout.not_mem_spelling (by decide)
  have hdigits : '\n' ∉ Nat.toDigits 10 len := Text.not_mem_toDigits (by decide) _
  simp [lengthLine, hspelling, hdigits]

/-- The bytes of a message from its length on. -/
lemma bytes_eq (message : Message) (rest : List UInt8) :
    message.bytes ++ rest = encode (message.layout.before.flatMap Field.text) ++
      (encode (lengthField message.layout.spelling message.body.length) ++
        (encode (message.layout.after.flatMap Field.text ++ str "\r\n") ++
          (message.body ++ rest))) := by
  simp only [Message.bytes, Layout.header, encode_append, List.append_assoc]

/-! ## Plain headers -/

lemma bodies_message {message : Message} (hplain : message.layout.Plain) (rest : List UInt8) :
    bodies (message.bytes ++ rest) = message.body :: bodies rest := by
  have hline := newline_not_mem_lengthLine message.layout message.body.length
  have hfits := message.fits
  have hempty : str "\r\n" = ['\r'] ++ ['\n'] := rfl
  rw [bytes_eq, bodies_fields, hplain.last, List.flatMap_nil, List.nil_append, hempty,
    lengthField_eq]
  apply bodies_take hline
  · rw [← lengthField_eq, hplain.spelling]
    exact lengthOf_lengthField (by omega)
  · decide
  · exact hfits

lemma bodies_messages {messages : List Message}
    (h : ∀ message ∈ messages, message.layout.Plain) :
    bodies (messages.flatMap Message.bytes) = messages.map Message.body := by
  induction messages with
  | nil => rfl
  | cons message messages ih =>
    rw [List.flatMap_cons, bodies_message (h message List.mem_cons_self), List.map_cons,
      ih fun other hother => h other (List.mem_cons_of_mem _ hother)]

end Headers

/-! ## What the client writes is plain -/

section Client

def plainLayout : Layout := ⟨[], "Content-Length".toList, [], by decide⟩

lemma plain_plainLayout : plainLayout.Plain := ⟨rfl, rfl⟩

lemma length_encode_eq (text : List Char) : (encode text).length = utf8Len text :=
  length_encode text

/-- A message of the client as a message of a server. -/
def Outgoing.message (message : Outgoing) (h : utf8Len message.body < 2 ^ 63) : Message :=
  ⟨plainLayout, encode message.body, by rw [length_encode_eq]; exact h⟩

lemma Outgoing.bytes_message (message : Outgoing) (h : utf8Len message.body < 2 ^ 63) :
    (message.message h).bytes = message.bytes := by
  have hheader : plainLayout.header (utf8Len message.body) =
      str "Content-Length: " ++ Nat.toDigits 10 (utf8Len message.body) ++ str "\r\n\r\n" := by
    simp [Layout.header, plainLayout, lengthField, str_char]
  rw [Message.bytes, Outgoing.bytes]
  show encode (plainLayout.header (encode message.body).length) ++ encode message.body = _
  rw [length_encode_eq, hheader, encode_append (_ ++ str "\r\n\r\n")]

lemma bodies_outgoing {messages : List Outgoing}
    (h : ∀ message ∈ messages, utf8Len message.body < 2 ^ 63) :
    bodies (messages.flatMap Outgoing.bytes) = messages.map fun message => encode message.body := by
  induction messages with
  | nil => rfl
  | cons message messages ih =>
    have hfits := h message List.mem_cons_self
    have hread : bodies ((message.message hfits).bytes ++ messages.flatMap Outgoing.bytes) = _ :=
      bodies_message plain_plainLayout _
    rw [List.flatMap_cons, ← message.bytes_message hfits, hread,
      ih fun other hother => h other (List.mem_cons_of_mem _ hother)]
    rfl

end Client

/-! ## Other headers -/

section Others

variable {layout : Layout}

/-- A body of one byte behind a header of this kind. -/
def oneByte (layout : Layout) (d : UInt8) : Message := ⟨layout, [d], (by decide : 1 < 2 ^ 63)⟩

/-- With another spelling there is no body. -/
lemma bodies_otherSpelling (h : layout.spelling ≠ "Content-Length".toList) :
    bodies (oneByte layout 48).bytes = [] := by
  have hcolon : ':' ∉ layout.spelling := layout.not_mem_spelling (by decide)
  have hempty : str "\r\n" = ['\r'] ++ ['\n'] := rfl
  have hother : lengthOf (lengthLine layout.spelling 1 ++ ['\n']) = none := by
    rw [lengthLine, List.append_assoc, List.cons_append]
    exact lengthOf_other hcolon h
  rw [← List.append_nil (oneByte layout 48).bytes, bytes_eq]
  show bodies (encode (layout.before.flatMap Field.text) ++ (encode (lengthField layout.spelling 1) ++
    (encode (layout.after.flatMap Field.text ++ str "\r\n") ++ ([48] ++ [])))) = []
  rw [bodies_fields, lengthField_eq, bodies_skip (newline_not_mem_lengthLine layout 1) hother,
    encode_append, List.append_assoc, bodies_fields, hempty, bodies_skip (by decide) (by decide)]
  rfl

/-- With a field behind the length the body is taken from the header. -/
lemma exists_bodies_of_after (hspelling : layout.spelling = "Content-Length".toList)
    (hafter : layout.after ≠ []) :
    ∃ b, ∀ d, ∃ others, bodies (oneByte layout d).bytes = [b] :: others := by
  obtain ⟨field, fields, hfields⟩ := List.exists_cons_of_ne_nil hafter
  obtain ⟨b, bytes, hbytes⟩ : ∃ b bytes,
      encode (fields.flatMap Field.text ++ str "\r\n") = b :: bytes := by
    apply List.exists_cons_of_ne_nil
    intro hnil
    have := encode_injective (hnil.trans encode_nil.symm)
    exact List.append_ne_nil_of_right_ne_nil _ (by decide) this
  refine ⟨b, fun d => ⟨bodies (bytes ++ [d]), ?_⟩⟩
  rw [← List.append_nil (oneByte layout d).bytes, bytes_eq]
  show bodies (encode (layout.before.flatMap Field.text) ++ (encode (lengthField layout.spelling 1) ++
    (encode (layout.after.flatMap Field.text ++ str "\r\n") ++ ([d] ++ [])))) = _
  rw [bodies_fields, hfields, List.flatMap_cons, List.append_assoc field.text, encode_append,
    List.append_assoc, hbytes, lengthField_eq, field.text_eq]
  show bodies (encode (lengthLine layout.spelling 1 ++ ['\n']) ++
    (encode (field.line ++ ['\n']) ++ ([b] ++ (bytes ++ [d])))) = [b] :: bodies (bytes ++ [d])
  apply bodies_take (newline_not_mem_lengthLine layout 1)
  · rw [← lengthField_eq, hspelling]
    exact lengthOf_lengthField (by decide)
  · exact field.newline_not_mem
  · show 1 < 2 ^ 63
    decide

lemma plain_of_reads (h : ∀ d, Reads [oneByte layout d]) : layout.Plain := by
  have hbytes : ∀ d, bodies (oneByte layout d).bytes = [[d]] := by
    intro d
    have hread := (h d).1
    rw [List.flatMap_cons, List.flatMap_nil, List.append_nil] at hread
    exact hread
  have hspelling : layout.spelling = "Content-Length".toList := by
    by_contra hother
    have hnone := bodies_otherSpelling hother
    rw [hbytes] at hnone
    cases hnone
  refine ⟨hspelling, ?_⟩
  by_contra hafter
  obtain ⟨b, htaken⟩ := exists_bodies_of_after hspelling hafter
  have hsame : ∀ d, d = b := by
    intro d
    obtain ⟨others, hothers⟩ := htaken d
    rw [hbytes] at hothers
    exact (List.cons.inj (List.cons.inj hothers).1).1
  exact absurd ((hsame 48).trans (hsame 49).symm) (by decide)

end Others

/-- The reader gets all messages with headers of given kinds right exactly when each of these
spells the name of the length as the source does and has no field behind it. -/
theorem framed_iff (layouts : Set Layout) :
    Framed layouts ↔ ∀ layout ∈ layouts, layout.Plain := by
  constructor
  · intro h layout hlayout
    apply plain_of_reads
    intro d
    apply h.1
    intro message hmessage
    rw [List.mem_singleton.mp hmessage]
    exact hlayout
  · intro h
    refine ⟨fun messages hmessages => ?_, fun messages => bodies_outgoing⟩
    have hread := bodies_messages fun message hmessage =>
      h message.layout (hmessages message hmessage)
    refine ⟨hread, fun crates => ?_⟩
    rw [handedOn, hread, List.filterMap_map]
    rfl

/-- The length in front of the type of the content, as the protocol has them. -/
def typedLayout : Layout where
  before := []
  spelling := "Content-Length".toList
  after := [⟨"Content-Type".toList, "application/vscode-jsonrpc; charset=utf-8".toList,
    by decide, by decide, by decide, by decide⟩]
  spelled := by decide

def typedMessage : Message := ⟨typedLayout, encode (str "\x7b\x7d"), by decide⟩

/-- The empty line of this message is taken for its body. -/
theorem not_reads_typed : ¬ ∀ messages : List Message, Reads messages := by
  intro h
  have hread := (h [typedMessage]).1
  have htaken : bodies ([typedMessage].flatMap Message.bytes) = [encode (str "\r\n")] := by
    decide +kernel
  rw [htaken] at hread
  exact absurd hread (by decide)

end RustyClaw.Lsp
