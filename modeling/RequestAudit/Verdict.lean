import RequestAudit.Level
import RequestAudit.Stage

/-!
# Verdicts

How a request is audited, and which rule has decided it.
-/

namespace RequestAudit

/-- How one request is audited. -/
structure Verdict where
  /-- How much of the request is recorded. -/
  level : Level
  /-- The stages for which nothing is recorded. -/
  omitStages : List Stage
  /-- Whether managed fields are left out of recorded bodies. -/
  omitManagedFields : Bool
  deriving DecidableEq, Repr

namespace Verdict

/-- Whether nothing is recorded at this stage. -/
def omits (v : Verdict) (s : Stage) : Bool := v.omitStages.contains s

/-- Whether nothing is recorded at all. -/
def isSilent (v : Verdict) : Bool := v.level == .none

end Verdict

/-- A verdict with the place of the rule that has decided, if one has. -/
structure Decision where
  /-- The place of the deciding rule. -/
  rule? : Option Nat
  /-- The verdict. -/
  verdict : Verdict
  deriving DecidableEq, Repr

open Text in
instance : ToTerm Verdict where
  term v := .record "Disposition" [("level", term v.level), ("omit_stages", term v.omitStages),
    ("omit_managed_fields", term v.omitManagedFields)]

open Text in
instance : ToTerm Decision where
  term d := .tuple "" [term d.rule?, term d.verdict]

end RequestAudit
