import RequestAudit.Matching.Selection
import RequestAudit.Notice
import RequestAudit.Verdict

/-!
# Evaluators

An evaluator answers how a request is audited. The usual one is made from a policy and goes by
the first rule that selects the request; `Evaluator.Fixed` gives every request the same answer.
-/

namespace RequestAudit

/-- The policy in the form in which requests are judged. -/
structure Evaluator where
  /-- The rules in order, each with all the stages that it omits. -/
  rules : List Rule
  /-- The stages that are omitted where no rule decides. -/
  omitStages : List Stage
  /-- Whether managed fields are left out where no rule says. -/
  omitManagedFields : Bool
  deriving DecidableEq, Repr

namespace Evaluator

/-- The evaluator of a policy, which need not be normal. -/
def ofPolicy (p : Policy) : Evaluator where
  rules := p.normal.rules
  omitStages := Stage.union [p.omitStages]
  omitManagedFields := p.omitManagedFields

/-- The verdict of a rule on the requests that it selects. -/
def verdictOf (e : Evaluator) (r : Rule) : Verdict where
  level := r.level
  omitStages := r.omitStages
  omitManagedFields := r.omitManagedFields?.getD e.omitManagedFields

/-- The verdict on requests that no rule selects. -/
def default (e : Evaluator) : Verdict where
  level := .none
  omitStages := e.omitStages
  omitManagedFields := e.omitManagedFields

variable {α : Type} [Attributes α]

/-- The first rule that selects the request, with its place. -/
def first? (e : Evaluator) (a : α) : Option (Rule × Nat) :=
  e.rules.zipIdx.find? fun r => r.1.selects a

/-- The verdict on a request and the place of the rule that decides it. -/
def judge (e : Evaluator) (a : α) : Decision :=
  match e.first? a with
  | some (r, place) => ⟨some place, e.verdictOf r⟩
  | none => ⟨none, e.default⟩

open Text in
instance : ToTerm Evaluator where
  term e := .record "RuleEvaluator" [("num_rules", term e.rules.length),
    ("omit_stages", term e.omitStages), ("omit_managed_fields", term e.omitManagedFields)]

open Text in
/-- What is reported of a rule when its policy is taken into use. -/
def ruleNotice (r : Rule) (place : Nat) : Notice where
  severity := .debug
  message := "audit policy rule loaded"
  fields := [("index", .number place), ("level", .text r.level.name),
    ("users", .text (describe r.users)), ("user_groups", .text (describe r.userGroups)),
    ("verbs", .text (describe r.verbs)), ("resources", .text (describe r.resources)),
    ("namespaces", .text (describe r.namespaces)),
    ("non_resource_urls", .text (describe r.paths)),
    ("omit_stages", .text (describe r.omitStages)),
    ("omit_managed_fields", .text (describe r.omitManagedFields?))]

/-- What is reported when the evaluator is taken into use. -/
def notices (e : Evaluator) : List Notice :=
  e.rules.zipIdx.map fun r => ruleNotice r.1 r.2

/-- What is reported when a request is judged. -/
def judgeNotice (e : Evaluator) (a : α) : Notice :=
  match (e.judge a).rule? with
  | some place => ⟨.trace, "audit policy rule matched",
      [("rule", .number place), ("verb", .text (Attributes.verb a))]⟩
  | none => ⟨.trace, "no audit policy rule matched", [("verb", .text (Attributes.verb a))]⟩

/-- An evaluator that gives every request the same answer. -/
structure Fixed where
  /-- How much of every request is recorded. -/
  level : Level
  /-- The stages for which nothing is recorded. -/
  omitStages : List Stage
  deriving DecidableEq, Repr

/-- The one verdict of a fixed evaluator, which keeps managed fields. -/
def Fixed.verdict (f : Fixed) : Verdict :=
  ⟨f.level, f.omitStages, false⟩

open Text in
instance : ToTerm Fixed where
  term f := .record "ConstantEvaluator" [("level", term f.level),
    ("omit_stages", term f.omitStages)]

end Evaluator

end RequestAudit
