/-!
# Notices

What the library reports on the side while it works: a severity, a message and named values.
-/

namespace RequestAudit

/-- How grave a notice is. -/
inductive Severity where
  | trace
  | debug
  | info
  | warn
  | error
  deriving DecidableEq, Repr

/-- The word for a severity. -/
def Severity.name : Severity → String
  | trace => "TRACE"
  | debug => "DEBUG"
  | info => "INFO"
  | warn => "WARN"
  | error => "ERROR"

/-- A value that a notice carries. -/
inductive Notice.Value where
  | number (n : Nat)
  | text (s : String)
  deriving DecidableEq, Repr

/-- One report. -/
structure Notice where
  /-- How grave it is. -/
  severity : Severity
  /-- What has happened. -/
  message : String
  /-- The values that belong to it, by name. -/
  fields : List (String × Notice.Value) := []
  deriving DecidableEq, Repr

end RequestAudit
