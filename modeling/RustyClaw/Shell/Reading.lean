import RustyClaw.Library.Utf8

/-!
# Reading the output of a command

The output of a command arrives in reads of any length.  `read_pipe` (`shell_escape.rs`) sends each
of them on as text, and the loop of `BashTool` (`tools/bash.rs`) appends the text of each to what
it has.  Both decode every read by itself.

A `Split` of a text is a way in which the operating system may hand out its bytes.
`decodesStream_iff` says for which of them the two loops give the text: for those where no read
starts inside of a character.
-/

namespace RustyClaw.Shell

open Utf8

/-! ## The loops -/

/-- What a read gives; nothing at the end of the stream. -/
inductive ReadResult where
  | ok (bytes : List UInt8)
  | err (message : List Char)

/-- The chunks that `read_pipe` sends.  The receiver takes them until there are no more. -/
def readPipe : List ReadResult → List (List Char)
  | [] => []
  | .ok [] :: _ => []
  | .ok bytes :: results => lossy bytes :: readPipe results
  | .err message :: _ =>
    ["\n[shell stream read error: ".toList ++ message ++ "]\n".toList]

/-- The chunks that the thread at the terminal sends. -/
def terminalChunks : List ReadResult → List (List UInt8)
  | [] => []
  | .ok [] :: _ => []
  | .ok bytes :: results => bytes :: terminalChunks results
  | .err _ :: _ => []

/-- `raw_output` when the last chunk has come. -/
def rawOutput (chunks : List (List UInt8)) : List Char :=
  chunks.foldl (fun raw chunk => raw ++ lossy chunk) []

/-! ## Streams -/

/-- The bytes of a text in the reads in which they arrive. -/
structure Split (text : List Char) where
  reads : List (List UInt8)
  nonempty : ∀ read ∈ reads, read ≠ []
  flatten : reads.flatten = encode text
  /-- A terminal that is hung up may give an error in the place of the end. -/
  hangUp : Option (List Char) := none

namespace Split

variable {text : List Char} (split : Split text)

def pipeResults : List ReadResult := split.reads.map .ok ++ [.ok []]

def terminalResults : List ReadResult :=
  split.reads.map .ok ++ [(split.hangUp.map .err).getD (.ok [])]

/-- Both loops give the text. -/
def DecodesStream : Prop :=
  (readPipe split.pipeResults).flatten = text ∧
    rawOutput (terminalChunks split.terminalResults) = text

end Split

lemma readPipe_map {reads : List (List UInt8)} (h : ∀ read ∈ reads, read ≠ []) :
    readPipe (reads.map .ok ++ [.ok []]) = reads.map lossy := by
  induction reads with
  | nil => rfl
  | cons read reads ih =>
    obtain ⟨b, bytes, rfl⟩ := List.exists_cons_of_ne_nil (h read List.mem_cons_self)
    have hreads := ih fun read hread => h read (List.mem_cons_of_mem _ hread)
    show lossy (b :: bytes) :: readPipe (reads.map .ok ++ [.ok []]) = _
    rw [hreads, List.map_cons]

lemma terminalChunks_map {reads : List (List UInt8)} (h : ∀ read ∈ reads, read ≠ [])
    (hangUp : Option (List Char)) :
    terminalChunks (reads.map .ok ++ [(hangUp.map .err).getD (.ok [])]) = reads := by
  induction reads with
  | nil => cases hangUp <;> rfl
  | cons read reads ih =>
    obtain ⟨b, bytes, rfl⟩ := List.exists_cons_of_ne_nil (h read List.mem_cons_self)
    have hreads := ih fun read hread => h read (List.mem_cons_of_mem _ hread)
    show (b :: bytes) :: terminalChunks (reads.map .ok ++ [(hangUp.map .err).getD (.ok [])]) = _
    rw [hreads]

lemma foldl_lossy (raw : List Char) (chunks : List (List UInt8)) :
    chunks.foldl (fun raw chunk => raw ++ lossy chunk) raw = raw ++ chunks.flatMap lossy := by
  induction chunks generalizing raw with
  | nil => exact (List.append_nil raw).symm
  | cons chunk chunks ih => rw [List.foldl_cons, ih, List.flatMap_cons, List.append_assoc]

/-- What is read at the terminal is what comes through the pipe. -/
lemma rawOutput_eq (chunks : List (List UInt8)) : rawOutput chunks = chunks.flatMap lossy :=
  foldl_lossy [] chunks

namespace Split

variable {text : List Char} {split : Split text}

lemma flatten_readPipe : (readPipe split.pipeResults).flatten = split.reads.flatMap lossy := by
  rw [pipeResults, readPipe_map split.nonempty, List.flatMap_def]

lemma rawOutput_terminalChunks :
    rawOutput (terminalChunks split.terminalResults) = split.reads.flatMap lossy := by
  rw [terminalResults, terminalChunks_map split.nonempty, rawOutput_eq]

/-- **The text is what is read, exactly when no read starts inside of a character.** -/
theorem decodesStream_iff (split : Split text) :
    split.DecodesStream ↔ ∀ read ∈ split.reads, ¬StartsInside read := by
  rw [DecodesStream, flatten_readPipe, rawOutput_terminalChunks, and_self]
  exact flatMap_lossy_eq_iff split.flatten

lemma flatten_brokenLetter : [[0xC3], [0xA9]].flatten = encode ['é'] := by decide

lemma nonempty_brokenLetter : ∀ read ∈ ([[0xC3], [0xA9]] : List (List UInt8)), read ≠ [] := by
  decide

/-- One letter in two reads. -/
def brokenLetter : Split ['é'] where
  reads := [[0xC3], [0xA9]]
  nonempty := nonempty_brokenLetter
  flatten := flatten_brokenLetter

theorem not_decodesStream_brokenLetter : ¬brokenLetter.DecodesStream := by
  rw [DecodesStream, flatten_readPipe]
  rintro ⟨hpipe, -⟩
  revert hpipe
  decide

end Split

end RustyClaw.Shell
