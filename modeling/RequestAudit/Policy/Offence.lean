import RequestAudit.Policy
import RequestAudit.Text.Affix
import RequestAudit.Text.Blank

/-!
# What a policy may not say

A policy that could be read may still be refused. `Policy.offence?` finds the first offence: the
version and the kind of the document come before the rules, and the rules are examined in order.
Names of stages are not examined.
-/

namespace RequestAudit

/-- The versions of a policy's form that are understood. -/
def supportedVersions : List String :=
  ["audit.k8s.io/v1", "audit.k8s.io/v1beta1", "audit.k8s.io/v1alpha1"]

/-- What is wrong with a rule. -/
inductive Rule.Offence where
  /-- The rule selects both resources and paths. -/
  | mixed
  /-- A path spec neither begins with a slash nor is the star. -/
  | unrooted (path : String)
  /-- A path spec has a star before its end. -/
  | innerStar (path : String)
  /-- A selector of the group names a type with the empty name. -/
  | emptyType (group : String)
  deriving DecidableEq, Repr

/-- What is wrong with a policy. -/
inductive Policy.Offence where
  /-- The form's version is not understood. -/
  | version (v : String)
  /-- The document is something else. -/
  | kind (k : String)
  /-- The rule at this place is wrong. -/
  | rule (place : Nat) (offence : Rule.Offence)
  deriving DecidableEq, Repr

/-- What is wrong with one path spec. -/
def pathOffence? (path : String) : Option Rule.Offence :=
  if path = "*" then none
  else if path.toList.head? ≠ some '/' then some (.unrooted path)
  else if '*' ∈ Text.dropEndWhile (· == '*') path.toList then some (.innerStar path)
  else none

/-- What is wrong with one selector. -/
def ResourceSelector.offence? (s : ResourceSelector) : Option Rule.Offence :=
  if s.types.contains "" then some (.emptyType s.group) else none

/-- The first thing that is wrong with a rule: a mixture, then a path, then a selector. -/
def Rule.offence? (r : Rule) : Option Rule.Offence :=
  if r.selectsResources && !r.paths.isEmpty then some .mixed
  else (r.paths.findSome? pathOffence?).or (r.resources.findSome? ResourceSelector.offence?)

/-- The first rule that is wrong, counting from `place`, and what is wrong with it. -/
def Rule.firstOffence? (place : Nat) : List Rule → Option Policy.Offence
  | [] => none
  | r :: rs => match r.offence? with
    | some o => some (.rule place o)
    | none => firstOffence? (place + 1) rs

/-- The first thing that is wrong with a policy. -/
def Policy.offence? (p : Policy) : Option Policy.Offence :=
  if !supportedVersions.contains p.apiVersion then some (.version p.apiVersion)
  else if p.kind ≠ "Policy" then some (.kind p.kind)
  else Rule.firstOffence? 0 p.rules

/-- How the offence of a rule is worded. -/
def Rule.Offence.message : Rule.Offence → String
  | mixed => "rule may not combine nonResourceURLs with resources or namespaces"
  | unrooted path => "nonResourceURL '" ++ path ++ "' must begin with '/' or be '*'"
  | innerStar path => "nonResourceURL '" ++ path ++ "' may only use '*' as a trailing wildcard"
  | emptyType group => "empty resource name in group '" ++ group ++ "'"

/-- How the offence of a policy is worded. -/
def Policy.Offence.message : Policy.Offence → String
  | version v => "unsupported policy apiVersion '" ++ v ++ "'; expected one of "
      ++ Text.describe supportedVersions
  | kind k => "unsupported kind '" ++ k ++ "'; expected 'Policy'"
  | rule place o => "invalid rule at index " ++ toString place ++ ": " ++ o.message

end RequestAudit
