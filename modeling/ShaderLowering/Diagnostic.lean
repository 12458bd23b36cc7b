import ShaderLowering.Source.Attributes

/-!
# Diagnostics

What a compile has to tell the programmer, in the order in which it was found.
-/

namespace ShaderLowering

/-- How grave a diagnostic is. -/
inductive Severity
  /-- Lowering cannot go on. -/
  | fatal
  /-- Lowering goes on, but its result must not be used. -/
  | error
  | warning
  /-- More about the diagnostic before it. -/
  | note
deriving DecidableEq, Repr, Inhabited

namespace Severity

/-- The severity in a message. -/
def text : Severity → String
  | fatal => "fatal error"
  | error => "error"
  | warning => "warning"
  | note => "note"

/-- Whether the result of the compile must not be used. -/
def isError : Severity → Bool
  | fatal | error => true
  | _ => false

end Severity

/-- One message about a place in the source. -/
structure Diagnostic where
  severity : Severity
  message : String
  position : Source.Position
deriving DecidableEq, Repr, Inhabited

/-- A diagnostic in one line. -/
def Diagnostic.text (d : Diagnostic) : String :=
  d.position.text ++ ": " ++ d.severity.text ++ ": " ++ d.message

/-- The diagnostics of a compile. -/
structure DiagnosticLog where
  entries : List Diagnostic := []
deriving DecidableEq, Repr, Inhabited

namespace DiagnosticLog

/-- The log with one more diagnostic. -/
def push (log : DiagnosticLog) (d : Diagnostic) : DiagnosticLog := ⟨log.entries ++ [d]⟩

/-- The number of errors, fatal ones included. -/
def errorCount (log : DiagnosticLog) : Nat :=
  (log.entries.filter (·.severity.isError)).length

/-- Whether there is an error. -/
def hasErrors (log : DiagnosticLog) : Bool := log.entries.any (·.severity.isError)

/-- The messages of one severity. -/
def messages (log : DiagnosticLog) (severity : Severity) : List String :=
  (log.entries.filter (·.severity = severity)).map (·.message)

end DiagnosticLog

end ShaderLowering
