/-!
# Tool errors and tool results

The types every tool shares (`tools/protocol.rs`).
-/

namespace RustyClaw

/-! ## Tool errors -/

/-- `ToolError`; an I/O error is carried as its rendered text. -/
inductive ToolError where
  | executionFailed (message : String)
  | invalidArguments (message : String)
  | timeout
  | cancelled (message : String)
  | ioError (message : String)
  deriving DecidableEq, Repr

/-- The `Display` text of an error. -/
def ToolError.display : ToolError → String
  | .executionFailed message => s!"Execution failed: {message}"
  | .invalidArguments message => s!"Invalid arguments: {message}"
  | .timeout => "Timeout"
  | .cancelled message => s!"Cancelled: {message}"
  | .ioError message => s!"IO error: {message}"

end RustyClaw
