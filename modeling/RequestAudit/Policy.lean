import RequestAudit.Level
import RequestAudit.Stage

/-!
# Policies

An audit policy is an ordered list of rules. A rule selects requests by lists of accepted
values, of which an empty one accepts everything, and says how much of a selected request is
recorded. The first rule that selects a request decides.
-/

namespace RequestAudit

/-- Types and objects within one group of types. -/
structure ResourceSelector where
  /-- The group; the core group has the empty name. -/
  group : String := ""
  /-- Specs of types, such as `pods` or `*/status`; none selects the whole group. -/
  types : List String := []
  /-- Names of objects; none selects any object. -/
  names : List String := []
  deriving DecidableEq, Repr, Inhabited

/-- Which requests are meant, and how they are audited. -/
structure Rule where
  /-- How much of the request is recorded. -/
  level : Level := .none
  /-- Accepted names of requesters. -/
  users : List String := []
  /-- Accepted groups of requesters; one of them is enough. -/
  userGroups : List String := []
  /-- Accepted verbs. -/
  verbs : List String := []
  /-- Accepted resources. -/
  resources : List ResourceSelector := []
  /-- Accepted namespaces; the empty name stands for what is in none. -/
  namespaces : List String := []
  /-- Accepted paths of requests that are for no resource. -/
  paths : List String := []
  /-- The stages for which nothing is recorded. -/
  omitStages : List Stage := []
  /-- Whether managed fields are left out, if the rule says so itself. -/
  omitManagedFields? : Option Bool := none
  deriving DecidableEq, Repr, Inhabited

/-- Whether the rule is restricted to requests for resources. -/
def Rule.selectsResources (r : Rule) : Bool :=
  !r.namespaces.isEmpty || !r.resources.isEmpty

/-- A whole policy. -/
structure Policy where
  /-- The version of the policy's own form. -/
  apiVersion : String := "audit.k8s.io/v1"
  /-- What the document is. -/
  kind : String := "Policy"
  /-- The rules, in the order in which they are tried. -/
  rules : List Rule := []
  /-- The stages for which nothing is recorded, whatever the rule. -/
  omitStages : List Stage := []
  /-- Whether managed fields are left out where the rule does not say. -/
  omitManagedFields : Bool := false
  deriving DecidableEq, Repr, Inhabited

namespace Policy

/-- The same policy with the stages that it omits everywhere listed in every rule too, first
and each once. -/
def normal (p : Policy) : Policy :=
  { p with rules := p.rules.map fun r =>
      { r with omitStages := Stage.union [p.omitStages, r.omitStages] } }

@[simp] theorem normal_omitStages (p : Policy) : p.normal.omitStages = p.omitStages := rfl

@[simp] theorem length_normal_rules (p : Policy) : p.normal.rules.length = p.rules.length := by
  simp [normal]

end Policy

open Text in
instance : ToTerm ResourceSelector where
  term s := .record "GroupResources" [("group", term s.group), ("resources", term s.types),
    ("resource_names", term s.names)]

end RequestAudit
