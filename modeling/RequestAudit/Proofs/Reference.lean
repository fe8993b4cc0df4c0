import Mathlib.Data.List.Basic
import RequestAudit.Evaluator
import RequestAudit.Proofs.SpecMeaning
import RequestAudit.Proofs.StageUnion

/-!
# The reference evaluation of a policy

The reference reads a policy as it is declared: it tries the rules from the top, and merges the
stages of the policy with those of the rule only when a rule has been found. The evaluator scans
rules that were made normal beforehand. Both give every request the same decision.
-/

namespace RequestAudit

open Attributes

variable {α : Type} [Attributes α]

namespace ResourceSelector

/-- The selector is of the requested group and selects all of it, or the name and the type. -/
def Applies (s : ResourceSelector) (a : α) : Prop :=
  s.group = apiGroup a ∧ (s.types = [] ∨
    ((s.names = [] ∨ name a ∈ s.names) ∧
      ∃ spec ∈ s.types, Spec.NamesResource spec (type a) (subresource a)))

theorem covers_iff (s : ResourceSelector) (a : α) :
    (s.group == apiGroup a && s.covers (type a) (subresource a) (name a)) = true ↔
      s.Applies a := by
  simp [covers, Applies, Spec.coversResource_iff]

end ResourceSelector

namespace Rule

/-- The condition on what is requested. Namespaces and resources go before paths. -/
def TargetApplies (r : Rule) (a : α) : Prop :=
  if r.namespaces ≠ [] ∨ r.resources ≠ [] then
    isForResource a = true ∧ (r.namespaces = [] ∨ ns a ∈ r.namespaces) ∧
      (r.resources = [] ∨ ∃ s ∈ r.resources, s.Applies a)
  else if r.paths ≠ [] then
    isForResource a = false ∧ ∃ spec ∈ r.paths, Spec.NamesPath spec (path a)
  else True

/-- The rule applies to the request. -/
structure Applies (r : Rule) (a : α) : Prop where
  user : r.users = [] ∨ ∃ u, user? a = some u ∧ u.name ∈ r.users
  groups : r.userGroups = [] ∨ ∃ u, user? a = some u ∧ ∃ g ∈ u.groups, g ∈ r.userGroups
  verb : r.verbs = [] ∨ verb a ∈ r.verbs
  target : r.TargetApplies a

theorem selectsResources_iff (r : Rule) :
    r.selectsResources = true ↔ r.namespaces ≠ [] ∨ r.resources ≠ [] := by
  simp [selectsResources]

theorem acceptsUser_iff (r : Rule) (a : α) :
    r.acceptsUser a = true ↔ r.users = [] ∨ ∃ u, user? a = some u ∧ u.name ∈ r.users := by
  simp [acceptsUser, Option.any_eq_true]

theorem acceptsGroups_iff (r : Rule) (a : α) :
    r.acceptsGroups a = true ↔
      r.userGroups = [] ∨ ∃ u, user? a = some u ∧ ∃ g ∈ u.groups, g ∈ r.userGroups := by
  simp [acceptsGroups, Option.any_eq_true]

theorem acceptsVerb_iff (r : Rule) (a : α) :
    r.acceptsVerb a = true ↔ r.verbs = [] ∨ verb a ∈ r.verbs := by
  simp [acceptsVerb]

theorem acceptsResource_iff (r : Rule) (a : α) :
    r.acceptsResource a = true ↔
      isForResource a = true ∧ (r.namespaces = [] ∨ ns a ∈ r.namespaces) ∧
        (r.resources = [] ∨ ∃ s ∈ r.resources, s.Applies a) := by
  simp only [acceptsResource, Bool.and_eq_true, Bool.or_eq_true, List.isEmpty_iff,
    List.contains_iff_mem, List.any_eq_true, ← ResourceSelector.covers_iff, and_assoc]

theorem acceptsPath_iff (r : Rule) (a : α) :
    r.acceptsPath a = true ↔
      isForResource a = false ∧ ∃ spec ∈ r.paths, Spec.NamesPath spec (path a) := by
  simp [acceptsPath, Spec.coversPath_iff]

theorem acceptsTarget_iff (r : Rule) (a : α) :
    r.acceptsTarget a = true ↔ r.TargetApplies a := by
  unfold acceptsTarget TargetApplies
  by_cases hres : r.selectsResources = true
  · rw [if_pos hres, if_pos ((selectsResources_iff r).mp hres), acceptsResource_iff]
  · rw [if_neg hres, if_neg (mt (selectsResources_iff r).mpr hres)]
    by_cases hpaths : r.paths = []
    · simp [hpaths]
    · rw [if_neg (by simpa using hpaths), if_pos hpaths, acceptsPath_iff]

theorem selects_iff (r : Rule) (a : α) : r.selects a = true ↔ r.Applies a := by
  simp only [selects, Bool.and_eq_true, acceptsUser_iff, acceptsGroups_iff, acceptsVerb_iff,
    acceptsTarget_iff]
  constructor
  · rintro ⟨⟨⟨huser, hgroups⟩, hverb⟩, htarget⟩
    exact ⟨huser, hgroups, hverb, htarget⟩
  · rintro ⟨huser, hgroups, hverb, htarget⟩
    exact ⟨⟨⟨huser, hgroups⟩, hverb⟩, htarget⟩

instance (r : Rule) (a : α) : Decidable (r.Applies a) :=
  decidable_of_iff (r.selects a = true) (selects_iff r a)

/-- What a rule omits has no part in what it selects. -/
theorem selects_with_omitStages (r : Rule) (ss : List Stage) (a : α) :
    ({ r with omitStages := ss } : Rule).selects a = r.selects a := rfl

end Rule

namespace Policy

/-- The verdict of a rule as the policy declares it. The stages of the policy come first, and
of equal ones the first stays. -/
def declaredVerdict (p : Policy) (r : Rule) : Verdict where
  level := r.level
  omitStages := (p.omitStages ++ r.omitStages).eraseDups
  omitManagedFields := r.omitManagedFields?.getD p.omitManagedFields

/-- The verdict on requests to which no rule applies. -/
def declaredDefault (p : Policy) : Verdict where
  level := .none
  omitStages := p.omitStages.eraseDups
  omitManagedFields := p.omitManagedFields

/-- Tries declared rules in order, the first of which stands at `place`. -/
def declaredFrom (p : Policy) (a : α) : ℕ → List Rule → Decision
  | _, [] => ⟨none, p.declaredDefault⟩
  | place, r :: rs =>
      if r.Applies a then ⟨some place, p.declaredVerdict r⟩ else p.declaredFrom a (place + 1) rs

/-- The decision of the policy as it is declared. -/
def declaredDecision (p : Policy) (a : α) : Decision := p.declaredFrom a 0 p.rules

/-- A declared rule with the stages of its policy. -/
def merged (p : Policy) (r : Rule) : Rule :=
  { r with omitStages := Stage.union [p.omitStages, r.omitStages] }

theorem verdictOf_merged (p : Policy) (r : Rule) :
    (Evaluator.ofPolicy p).verdictOf (p.merged r) = p.declaredVerdict r := by
  simp [Evaluator.verdictOf, Evaluator.ofPolicy, merged, declaredVerdict,
    Stage.union_eq_eraseDups]

theorem default_ofPolicy (p : Policy) :
    (Evaluator.ofPolicy p).default = p.declaredDefault := by
  simp [Evaluator.default, Evaluator.ofPolicy, declaredDefault, Stage.union_eq_eraseDups]

end Policy

namespace Evaluator

/-- The decision that a found rule, or none, leads to. -/
def decisionOf (e : Evaluator) : Option (Rule × ℕ) → Decision
  | some (r, place) => ⟨some place, e.verdictOf r⟩
  | none => ⟨none, e.default⟩

theorem judge_eq (e : Evaluator) (a : α) : e.judge a = e.decisionOf (e.first? a) := by
  unfold judge
  cases e.first? a <;> rfl

/-- The place in a decision is the least place of a rule that selects the request. -/
theorem rule?_judge (e : Evaluator) (a : α) :
    (e.judge a).rule? = e.rules.findIdx? fun r => r.selects a := by
  rw [judge_eq, List.findIdx?_eq_fst_find?_zipIdx, first?]
  cases e.rules.zipIdx.find? fun r => r.1.selects a <;> rfl

theorem verdict_judge (e : Evaluator) (a : α) :
    (e.judge a).verdict =
      ((e.rules.find? fun r => r.selects a).map e.verdictOf).getD e.default := by
  have hrule : e.rules.find? (fun r => r.selects a) = (e.first? a).map Prod.fst := by
    conv_lhs => rw [← List.zipIdx_map_fst 0 e.rules, List.find?_map]
    rfl
  rw [judge_eq, hrule]
  cases e.first? a <;> rfl

end Evaluator

namespace Policy

/-- The least place of a declared rule that applies is that of the rule that decides. -/
theorem rule?_judge_ofPolicy (p : Policy) (a : α) :
    ((Evaluator.ofPolicy p).judge a).rule? = p.rules.findIdx? fun r => r.selects a := by
  rw [Evaluator.rule?_judge]
  exact List.findIdx?_map

theorem verdict_judge_ofPolicy (p : Policy) (a : α) :
    ((Evaluator.ofPolicy p).judge a).verdict =
      ((p.rules.find? fun r => r.selects a).map p.declaredVerdict).getD p.declaredDefault := by
  have hverdict : (Evaluator.ofPolicy p).verdictOf ∘ p.merged = p.declaredVerdict :=
    funext p.verdictOf_merged
  rw [Evaluator.verdict_judge, p.default_ofPolicy, ← hverdict, ← Option.map_map]
  exact congrArg (fun r? => (Option.map _ r?).getD _) List.find?_map

end Policy

namespace Evaluator

/-- The scan of the normal rules from any place on is the scan of the declared ones. -/
theorem decisionOf_find? (p : Policy) (a : α) (rs : List Rule) (place : ℕ) :
    (ofPolicy p).decisionOf (((rs.map p.merged).zipIdx place).find? fun r => r.1.selects a) =
      p.declaredFrom a place rs := by
  induction rs generalizing place with
  | nil => simp [decisionOf, Policy.declaredFrom, Policy.default_ofPolicy]
  | cons r rs ih =>
      have hsel : (p.merged r).selects a = r.selects a := r.selects_with_omitStages _ a
      rw [List.map_cons, List.zipIdx_cons, Policy.declaredFrom]
      by_cases happ : r.Applies a
      · rw [if_pos happ, List.find?_cons_of_pos (by simpa [hsel] using (r.selects_iff a).mpr happ)]
        simp [decisionOf, Policy.verdictOf_merged]
      · have hnot : ¬(p.merged r).selects a = true := by
          rw [hsel, r.selects_iff a]
          exact happ
        rw [if_neg happ, List.find?_cons_of_neg (by simpa using hnot)]
        exact ih (place + 1)

/-- The evaluator decides every request as the declared policy does. -/
theorem judge_ofPolicy (p : Policy) (a : α) : (ofPolicy p).judge a = p.declaredDecision a := by
  rw [judge_eq]
  exact decisionOf_find? p a p.rules 0

end Evaluator

end RequestAudit
