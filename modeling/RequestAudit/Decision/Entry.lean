import RequestAudit.Decision.Id
import RequestAudit.Decision.Timestamp
import RequestAudit.Request
import RequestAudit.Verdict

/-!
# Entries of the decision log

A decision as it is logged: what was asked, in outline, and how it is audited.
-/

namespace RequestAudit

/-- What a request was for. -/
inductive Target where
  | resource (r : Resource)
  | path (p : String)
  deriving DecidableEq, Repr

/-- The parts of a request that are kept beside its decision. -/
structure Outline where
  /-- The requester's name, unless the request is anonymous. -/
  user? : Option String
  /-- What was to be done. -/
  verb : String
  /-- What the request was for. -/
  target : Target
  deriving DecidableEq, Repr

/-- The outline of a request. A resource goes before a path. -/
def Request.outline (r : Request) : Outline where
  user? := r.user?.map (·.name)
  verb := r.verb
  target := match r.resource? with
    | some resource => .resource resource
    | none => .path r.path

/-- What tells an entry from all others. -/
structure Stamp where
  id : Id
  time : Timestamp
  deriving DecidableEq, Repr

/-- The stamp of entries that need not be told apart. -/
def Stamp.zero : Stamp := ⟨.zero, .epoch⟩

/-- An entry of the log. -/
structure Entry where
  /-- Which entry it is, and when it was made. -/
  stamp : Stamp
  /-- What was asked. -/
  request : Outline
  /-- How it is audited. -/
  verdict : Verdict
  /-- The place of the rule that has decided, if one has. -/
  rule? : Option Nat
  deriving DecidableEq, Repr

/-- The entry of a decision on a request. -/
def Entry.of (stamp : Stamp) (request : Request) (d : Decision) : Entry :=
  ⟨stamp, request.outline, d.verdict, d.rule?⟩

open Text in
instance : ToTerm Target where
  term
    | .resource r => .record "Resource" [("api_group", term r.apiGroup),
        ("api_version", term r.apiVersion), ("resource", term r.type),
        ("subresource", term r.subresource), ("name", term r.name), ("namespace", term r.ns)]
    | .path p => .record "NonResource" [("path", term p)]

open Text in
instance : ToTerm Outline where
  term o := .record "RequestSummary" [("user", term o.user?), ("verb", term o.verb),
    ("target", term o.target)]

end RequestAudit
