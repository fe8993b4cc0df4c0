import RequestAudit.Matching.Spec
import RequestAudit.Policy
import RequestAudit.Request

/-!
# Which requests a rule selects

Every list of a rule is a condition of its own and an empty list is none. A rule that names
requesters or groups never selects an anonymous request; one that names namespaces or resources
selects only requests for resources, and otherwise one that names paths only the others.
-/

namespace RequestAudit

open Attributes

/-- Whether the selector, already known to be of the right group, covers the object. -/
def ResourceSelector.covers (s : ResourceSelector) (type sub name : String) : Bool :=
  s.types.isEmpty
    || ((s.names.isEmpty || s.names.contains name)
      && s.types.any fun spec => Spec.coversResource spec type sub)

namespace Rule

variable {α : Type} [Attributes α]

/-- The condition on the requester's name. -/
def acceptsUser (r : Rule) (a : α) : Bool :=
  r.users.isEmpty || (user? a).any fun u => r.users.contains u.name

/-- The condition on the requester's groups. -/
def acceptsGroups (r : Rule) (a : α) : Bool :=
  r.userGroups.isEmpty || (user? a).any fun u => u.groups.any r.userGroups.contains

/-- The condition on the verb. -/
def acceptsVerb (r : Rule) (a : α) : Bool :=
  r.verbs.isEmpty || r.verbs.contains (verb a)

/-- The condition on the namespace and the resource. -/
def acceptsResource (r : Rule) (a : α) : Bool :=
  isForResource a && (r.namespaces.isEmpty || r.namespaces.contains (ns a))
    && (r.resources.isEmpty || r.resources.any fun s =>
      s.group == apiGroup a && s.covers (type a) (subresource a) (name a))

/-- The condition on the path. -/
def acceptsPath (r : Rule) (a : α) : Bool :=
  !isForResource a && r.paths.any fun spec => Spec.coversPath spec (path a)

/-- The condition on what the request is for. -/
def acceptsTarget (r : Rule) (a : α) : Bool :=
  if r.selectsResources then r.acceptsResource a
  else if r.paths.isEmpty then true
  else r.acceptsPath a

/-- Whether the rule selects the request. -/
def selects (r : Rule) (a : α) : Bool :=
  r.acceptsUser a && r.acceptsGroups a && r.acceptsVerb a && r.acceptsTarget a

end Rule

end RequestAudit
