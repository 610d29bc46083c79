import ObjectIds.Diagnostic

/-!
# Reports

A report is a diagnostic as it is shown to a person: it names the file, carries the
text that it is about, and points into that text with a label.
-/

namespace ObjectIds

/-- How a report is marked. -/
inductive Report.Level where
  | error
  | warning
  | advice
deriving DecidableEq, Repr

/-- A pointer to some bytes of a source text. -/
structure Report.Label where
  text : String
  offset : UInt32
  length : UInt32
deriving DecidableEq, Repr

/-- A diagnostic about a file, ready to be shown. -/
structure Report where
  level : Report.Level
  message : String
  help : Option String
  file : String
  source : String
  label : Report.Label
deriving DecidableEq, Repr

namespace Report

/-- The code that all reports carry. -/
def code : String := "objid::scan"

/-- The mark for a severity. -/
def Level.ofSeverity : Severity → Level
  | .error => .error
  | .warning => .warning
  | .hint => .advice

/-- The name of a mark. -/
def Level.name : Level → String
  | .error => "Error"
  | .warning => "Warning"
  | .advice => "Advice"

/-- What the label says at a severity. -/
def labelText : Severity → String
  | .error => "error here"
  | .warning => "warning here"
  | .hint => "note"

/-- The report of a diagnostic about a file. -/
def ofDiagnostic (file source : String) (diagnostic : Diagnostic) : Report where
  level := Level.ofSeverity diagnostic.severity
  message := diagnostic.message
  help := diagnostic.hint
  file := file
  source := source
  label :=
    ⟨labelText diagnostic.severity, diagnostic.span.start, diagnostic.span.length⟩

end Report

end ObjectIds
