import RustyClaw.Library.Glyph

/-!
# Evidence

What the tools have read for the task is kept as *evidence*, and every prompt shows it as long as
it is fresh.  A file or directory has a version made of the second of its last modification and
its size; evidence of any other kind has none and is always fresh.
-/

namespace RustyClaw

/-- What the file system tells about an existing path. -/
structure FileMetadata where
  mtimeSecs : Nat
  len : Nat
  deriving DecidableEq, Repr

/-- The metadata of the paths that exist. -/
abbrev Metadata := List Char → Option FileMetadata

structure Evidence where
  evidenceId : List Char
  sourceKind : List Char
  sourcePath : List Char
  sourceVersion : Option (List Char)
  score : Float32
  summary : List Char
  content : List Char

namespace Evidence

def fileVersion (metadata : FileMetadata) : List Char :=
  "v1-".toList ++ Nat.toDigits 10 metadata.mtimeSecs ++ "-".toList ++ Nat.toDigits 10 metadata.len

/-- The kinds whose source is a path. -/
def hasPath (sourceKind : List Char) : Bool :=
  sourceKind = "file".toList || sourceKind = "directory".toList

/-- `generate_freshness`, without the time of retrieval. -/
def generateFreshness (metadata : Metadata) (sourceKind sourcePath : List Char) :
    Option (List Char) :=
  if hasPath sourceKind then (metadata sourcePath).map fileVersion else none

def new (metadata : Metadata) (evidenceId sourceKind sourcePath : List Char) (score : Float32)
    (summary content : List Char) : Evidence :=
  { evidenceId := evidenceId
    sourceKind := sourceKind
    sourcePath := sourcePath
    sourceVersion := generateFreshness metadata sourceKind sourcePath
    score := score
    summary := summary
    content := content }

def tombstone (ev : Evidence) : List Char :=
  let kindLabel := if ev.sourceKind = "directory".toList then "directory" else "file"
  "[Evidence '".toList ++ ev.sourcePath ++
    "' automatically invalidated because the underlying ".toList ++ kindLabel.toList ++
    " was modified since retrieval]".toList

/-- `is_fresh`: whether the evidence is shown, and the text that replaces it otherwise. -/
def isFresh (metadata : Metadata) (ev : Evidence) : Bool × Option (List Char) :=
  if hasPath ev.sourceKind &&
      generateFreshness metadata ev.sourceKind ev.sourcePath != ev.sourceVersion then
    (false, some ev.tombstone)
  else (true, none)

end Evidence

end RustyClaw
