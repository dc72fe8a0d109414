import Gamebook.Text.Span

/-!
# Diagnostics

Authored text may be wrong in many ways, and none of them stops the game. Problems are collected
in the order in which they were noticed, each with the span of the definition it belongs to.
-/

namespace Gamebook

/-- How serious a problem is. -/
inductive Severity where
  | error
  | warning
  deriving DecidableEq, Repr

/-- The word for a severity. -/
def Severity.text : Severity → String
  | error => "error"
  | warning => "warning"

/-- A problem found in a story. -/
structure Diagnostic where
  severity : Severity
  span : Span
  message : String
  /-- Where the problem is, or what may be done about it. -/
  label : Option String := none
  deriving DecidableEq, Repr

namespace Diagnostic

/-- An error without a label. -/
def error (span : Span) (message : String) : Diagnostic :=
  ⟨.error, span, message, none⟩

/-- A warning without a label. -/
def warning (span : Span) (message : String) : Diagnostic :=
  ⟨.warning, span, message, none⟩

/-- The same problem with a label. -/
def labelled (d : Diagnostic) (label : String) : Diagnostic :=
  { d with label := some label }

/-- A problem on one line. -/
def display (d : Diagnostic) : String :=
  let shown := match d.label with
    | some label => s!" ({label})"
    | none => ""
  s!"{d.severity.text}: {d.message}{shown}"

/-- Whether a problem is an error. -/
def isError (d : Diagnostic) : Bool :=
  d.severity == .error

end Diagnostic

end Gamebook
