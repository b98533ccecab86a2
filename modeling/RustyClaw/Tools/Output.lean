import RustyClaw.Tools.Envelope

/-!
# Building the output of a tool

`StructuredToolOutput` of `tools/protocol.rs` has the fields of an envelope, and its JSON text is
that of the envelope with the same fields.  A tool starts from `StructuredToolOutput.new` and adds
the effects of its call.
-/

namespace RustyClaw

/-- The output of a tool that has run. -/
abbrev StructuredToolOutput := ToolExecutionEnvelope Char

namespace StructuredToolOutput

def new (toolName : String) (ok : Bool) (output : List Char) (exitCode : Option Int32)
    (durationMs : Option UInt64) (truncated : Bool) : StructuredToolOutput where
  result := {
    ok := ok, toolName := toolName.toList, output := output, exitCode := exitCode,
    durationMs := durationMs, truncated := truncated }
  effects := {}

variable (out : StructuredToolOutput)

def withFilePath (path : List Char) : StructuredToolOutput :=
  { out with effects := { out.effects with filePath := some path } }

def withEvidence (kind : String) (sourcePath summary : List Char) : StructuredToolOutput :=
  { out with effects := { out.effects with
      evidenceKind := some kind.toList, evidenceSourcePath := some sourcePath,
      evidenceSummary := some summary } }

def withInvalidatedDiagnostics : StructuredToolOutput :=
  { out with effects := { out.effects with invalidateDiagnosticEvidence := true } }

def withPayloadKind (kind : String) : StructuredToolOutput :=
  { out with effects := { out.effects with payloadKind := some kind.toList } }

def withUntrustedOutput (source : List Char) : StructuredToolOutput :=
  { out with effects := { out.effects with
      outputSecurity := some .untrusted, outputSource := some source } }

def markUntrusted : StructuredToolOutput := out.withUntrustedOutput out.result.toolName

def withVerbatimOutput (source : List Char) : StructuredToolOutput :=
  { out with effects := { out.effects with
      outputSecurity := some .verbatim, outputSource := some source } }

def markVerbatim : StructuredToolOutput := out.withVerbatimOutput out.result.toolName

end StructuredToolOutput

end RustyClaw
