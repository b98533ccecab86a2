import Mathlib.Data.List.Basic
import RustyClaw.Context.Evidence
import RustyClaw.Tools.Output
import RustyClaw.Tools.Protocol

/-!
# The file tools and the shell

`read_file`, `write_file`, `patch_file` and `execute_bash`, as far as they touch files and evidence.
A file is its bytes and the time of its last modification; paths lead to files, and two paths may
lead to the same one.  What a command of the shell does to the files is not modelled here.
-/

namespace RustyClaw.Files

open Glyph

/-! ## Files -/

structure File where
  bytes : ByteArray
  mtimeNanos : Nat

structure FileSystem where
  /-- the file that a path leads to, or would lead to if it were created -/
  resolve : List Char → Nat
  file : Nat → Option File

namespace FileSystem

variable (fs : FileSystem)

def read (path : List Char) : Option File := fs.file (fs.resolve path)

def write (path : List Char) (written : File) : FileSystem :=
  { fs with file := fun n => if n = fs.resolve path then some written else fs.file n }

/-- What `fs::metadata` tells. -/
def metadata : Metadata := fun path =>
  (fs.read path).map fun file =>
    { mtimeSecs := file.mtimeNanos / 1000000000, len := file.bytes.size }

/-- The bytes of the file that a path leads to. -/
def bytes (path : List Char) : Option ByteArray := (fs.read path).map File.bytes

end FileSystem

/-- The circumstances of a call: what the sandbox and the disk answer, and the clock. -/
structure Circumstances where
  /-- the text of the sandbox violation, if the guard denies the path -/
  denied : Option (List Char) := none
  /-- the disk refuses to read -/
  unreadable : Bool := false
  /-- the disk refuses to write -/
  unwritable : Bool := false
  /-- the text of the I/O error, if there is one -/
  ioError : List Char := []
  /-- the time in nanoseconds -/
  now : Nat
  elapsed : UInt64 := 0

/-- What a tool has returned, and the files it leaves. -/
structure Ran where
  files : FileSystem
  result : Except ToolError StructuredToolOutput

/-! ## Truncation -/

/-- The lines of a text that are left out, or the text itself. -/
def truncateLines (maxLines : Nat) (log : List Char) : List Char :=
  let linesRaw := lines log
  if linesRaw.length ≤ maxLines then log
  else
    let keepHead := maxLines / 2
    let keepTail := maxLines - keepHead
    join "\n" (linesRaw.take keepHead) ++ "\n\n[... Truncated ".toList ++
      Nat.toDigits 10 (linesRaw.length - maxLines) ++ " lines ...]\n\n".toList ++
      join "\n" (linesRaw.drop (linesRaw.length - keepTail))

def truncateImpl (log : List Char) (maxLines maxChars : Nat) : List Char :=
  let truncatedByLines := truncateLines maxLines log
  let keep := maxChars / 2
  if truncatedByLines.length ≤ maxChars then truncatedByLines
  else
    truncatedByLines.take keep ++ "\n\n[... Truncated ".toList ++
      Nat.toDigits 10 (truncatedByLines.length - maxChars) ++ " characters ...]\n\n".toList ++
      truncatedByLines.drop (truncatedByLines.length - keep)

def truncateToolOutput (log : List Char) : List Char := truncateImpl log 1500 30000

/-! ## Reading and writing -/

section Tools

variable (fs : FileSystem) (c : Circumstances)

def ioError : ToolError := .ioError (String.ofList c.ioError)

/-- `fs::read_to_string`. -/
def readToString (path : List Char) : Option (List Char) :=
  if c.unreadable then none
  else ((fs.bytes path).bind String.fromUTF8?).map String.toList

/-- `serialize_tool_envelope` for a failure with exit code 1. -/
def failure (toolName : String) (output : List Char) : StructuredToolOutput :=
  .new toolName false output (some 1) (some c.elapsed) false

def readFile (path : List Char) : Except ToolError StructuredToolOutput :=
  match c.denied with
  | some violation => .error (.executionFailed (String.ofList violation))
  | none =>
    match readToString fs c path with
    | some content =>
      let truncatedContent := truncateToolOutput content
      .ok (((StructuredToolOutput.new "read_file" true truncatedContent none (some c.elapsed)
        (utf8Len truncatedContent != utf8Len content)).markVerbatim).withEvidence "file" path
          ("Direct read of ".toList ++ path))
    | none =>
      .ok (failure c "read_file" ("Failed to read ".toList ++ path ++ ": ".toList ++ c.ioError))

/-- `fs::write`, when the disk does not refuse it. -/
def writeBytes (path content : List Char) : FileSystem :=
  fs.write path { bytes := (String.ofList content).toUTF8, mtimeNanos := c.now }

def writeFile (path content : List Char) : Ran :=
  match c.denied with
  | some violation => ⟨fs, .error (.executionFailed (String.ofList violation))⟩
  | none =>
    if c.unwritable then
      ⟨fs, .ok (failure c "write_file"
        ("Failed to write ".toList ++ path ++ ": ".toList ++ c.ioError))⟩
    else
      ⟨writeBytes fs c path content,
        .ok (((StructuredToolOutput.new "write_file" true
          ("Successfully wrote ".toList ++ Nat.toDigits 10 (utf8Len content) ++ " bytes to ".toList ++
            path)
          none (some c.elapsed) false).withInvalidatedDiagnostics).withFilePath path)⟩

/-! ## Patching -/

/-- How often a text occurs, from left to right and not overlapping (`str::match_indices`), when the
next `skip` characters belong to the last occurrence. -/
def countFrom (search : List Char) : Nat → List Char → Nat
  | _, [] => 0
  | skip + 1, _ :: s => countFrom search skip s
  | 0, d :: s =>
    if search.isPrefixOf (d :: s) then 1 + countFrom search (search.length - 1) s
    else countFrom search 0 s

/-- The empty text occurs between any two characters and at the ends. -/
def countMatches (search content : List Char) : Nat :=
  if search = [] then content.length + 1 else countFrom search 0 content

def replaceFrom (search replace : List Char) : Nat → List Char → List Char
  | _, [] => []
  | skip + 1, _ :: s => replaceFrom search replace skip s
  | 0, d :: s =>
    if search.isPrefixOf (d :: s) then
      replace ++ replaceFrom search replace (search.length - 1) s
    else d :: replaceFrom search replace 0 s

/-- `str::replace`. -/
def replaceMatches (search replace content : List Char) : List Char :=
  if search = [] then replace ++ content.flatMap (· :: replace)
  else replaceFrom search replace 0 content

structure Edit where
  search : List Char
  replace : List Char

/-- The texts that an edit looks for and puts in, and how often the first occurs: trimmed, if only
then it occurs, and only once. -/
def chosen (content : List Char) (edit : Edit) : List Char × List Char × Nat :=
  let found := countMatches edit.search content
  let trimmed := trim edit.search
  if found = 0 && !trimmed.isEmpty && countMatches trimmed content = 1 then
    (trimmed, trim edit.replace, 1)
  else (edit.search, edit.replace, found)

/-- The edits one after the other, or what is wrong with the first that cannot be made. -/
def applyEdits : Nat → List Edit → List Char → Except (List Char) (List Char)
  | _, [], content => .ok content
  | i, edit :: edits, content =>
    let (search, replace, found) := chosen content edit
    if found = 0 then
      .error ("Edit ".toList ++ Nat.toDigits 10 (i + 1) ++ (" failed: Search text not found in " ++
        "file. Exact and fuzzy match failed. Please ensure you provide the exact text.").toList)
    else if 1 < found then
      .error ("Edit ".toList ++ Nat.toDigits 10 (i + 1) ++ (" failed: Search text found multiple " ++
        "times in file. Please provide more context lines to make it unique.").toList)
    else applyEdits (i + 1) edits (replaceMatches search replace content)

def patchFile (path : List Char) (edits : List Edit) : Ran :=
  match c.denied with
  | some violation => ⟨fs, .error (.executionFailed (String.ofList violation))⟩
  | none =>
    match readToString fs c path with
    | none => ⟨fs, .error (ioError c)⟩
    | some fileContent =>
      match applyEdits 0 edits fileContent with
      | .error message => ⟨fs, .ok (failure c "patch_file" message)⟩
      | .ok patched =>
        if c.unwritable then ⟨fs, .error (ioError c)⟩
        else
          ⟨writeBytes fs c path patched,
            .ok (((StructuredToolOutput.new "patch_file" true
              ("Successfully applied ".toList ++ Nat.toDigits 10 edits.length ++
                " edits to ".toList ++ path)
              (some 0) (some c.elapsed) false).withInvalidatedDiagnostics).withFilePath path)⟩

/-! ## The shell -/

/-- The kind, the source and the summary of the evidence that a command gives. -/
def classifyCommandEffect (cmd : List Char) : Option (String × List Char × List Char) :=
  let cmdTrim := trim cmd
  let has (text : String) := Text.contains text.toList cmdTrim
  let begins (text : String) := text.toList.isPrefixOf cmdTrim
  let isDiagnostic := has "cargo " || has "npm run" || has "pytest" || has "tsc" || has "make"
  let isDirList := begins "ls " || cmdTrim = "ls".toList || begins "tree " ||
    cmdTrim = "tree".toList || begins "find "
  let summary := ("Bash snapshot: ".toList ++ cmdTrim).take 200
  if isDiagnostic then some ("diagnostic", "workspace_state".toList, summary)
  else if isDirList then some ("directory", cmdTrim, summary)
  else none

/-- A command that has ended by itself, with what it printed. -/
def executeBash (cmd stdout : List Char) (exitCode : Int32) :
    Except ToolError StructuredToolOutput :=
  match c.denied with
  | some violation => .error (.executionFailed (String.ofList violation))
  | none =>
    let truncatedStdout := truncateToolOutput stdout
    let structured := (StructuredToolOutput.new "execute_bash" (exitCode = 0) truncatedStdout
      (some exitCode) (some c.elapsed) (truncatedStdout != stdout)).markUntrusted
    match classifyCommandEffect cmd with
    | some (kind, sourcePath, summary) => .ok (structured.withEvidence kind sourcePath summary)
    | none => .ok structured

end Tools

end RustyClaw.Files
