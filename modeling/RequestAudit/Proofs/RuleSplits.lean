import Mathlib.Data.List.Basic
import RequestAudit.Proofs.Reference
import RequestAudit.Proofs.RuleEdits

/-!
# Splitting a rule

A list of a rule is met if one of its elements is, so that a rule selects what two copies of it
select between which the list has been divided. The copies stand in for the rule: every request
gets the same verdict, and the rules behind them move on by one place.
-/

namespace RequestAudit

open Attributes

/-- The list is divided into two parts, neither of them empty. -/
structure Divided {β : Type} (zs xs ys : List β) : Prop where
  eq : zs = xs ++ ys
  left : xs ≠ []
  right : ys ≠ []

theorem Divided.meets_iff {β : Type} {zs xs ys : List β} (h : Divided zs xs ys) (p : β → Prop) :
    Meets zs p ↔ Meets xs p ∨ Meets ys p := by
  obtain ⟨rfl, hxs, hys⟩ := h
  simp only [Meets, List.append_eq_nil_iff, hxs, hys, List.mem_append, or_and_right, exists_or,
    and_self, false_or]

theorem Divided.ne_nil {β : Type} {zs xs ys : List β} (h : Divided zs xs ys) : zs ≠ [] := by
  rw [h.eq]
  exact List.append_ne_nil_of_left_ne_nil h.left ys

namespace Rule

/-- The rule is divided into two, which differ from it and from each other in one list only. -/
inductive Split (r : Rule) : Rule → Rule → Prop
  | users {xs ys : List String} (h : Divided r.users xs ys) :
      Split r { r with users := xs } { r with users := ys }
  | userGroups {xs ys : List String} (h : Divided r.userGroups xs ys) :
      Split r { r with userGroups := xs } { r with userGroups := ys }
  | verbs {xs ys : List String} (h : Divided r.verbs xs ys) :
      Split r { r with verbs := xs } { r with verbs := ys }
  | namespaces {xs ys : List String} (h : Divided r.namespaces xs ys) :
      Split r { r with namespaces := xs } { r with namespaces := ys }
  | resources {ss ts : List ResourceSelector} (h : Divided r.resources ss ts) :
      Split r { r with resources := ss } { r with resources := ts }
  | paths {xs ys : List String} (h : Divided r.paths xs ys) :
      Split r { r with paths := xs } { r with paths := ys }

variable {α : Type} [Attributes α] {r r₁ r₂ : Rule} {a : α}

attribute [mk_iff] Conditions

/-- The paths of a rule with namespaces or resources are looked at neither in the rule nor in its
parts, whose lists are not empty either. -/
theorem Split.conditions_iff (h : r.Split r₁ r₂) :
    r.Conditions a ↔ r₁.Conditions a ∨ r₂.Conditions a := by
  simp only [Rule.conditions_iff]
  cases h with
  | users h => rw [h.meets_iff, or_and_right]
  | userGroups h => simp only [h.meets_iff, or_and_right, and_or_left]
  | verbs h => simp only [h.meets_iff, or_and_right, and_or_left]
  | namespaces h =>
      simp only [h.meets_iff, h.ne_nil, h.left, h.right, IsEmpty.forall_iff, and_true,
        or_and_right, and_or_left]
  | resources h =>
      simp only [h.meets_iff, h.ne_nil, h.left, h.right, IsEmpty.forall_iff, imp_true_iff, and_true,
        and_or_left]
  | paths h => simp only [h.meets_iff, imp_or, and_or_left]

theorem Split.selects_eq (h : r.Split r₁ r₂) (a : α) :
    r.selects a = (r₁.selects a || r₂.selects a) := by
  rw [Bool.eq_iff_iff, Bool.or_eq_true]
  simp only [selects_iff_conditions]
  exact h.conditions_iff

/-- What is recorded of a request does not hang on the lists by which it is selected. -/
theorem Split.declaredVerdict_eq (h : r.Split r₁ r₂) (p : Policy) :
    p.declaredVerdict r₁ = p.declaredVerdict r ∧ p.declaredVerdict r₂ = p.declaredVerdict r := by
  cases h <;> exact ⟨rfl, rfl⟩

end Rule

/-! ## The scan -/

/-- Where a rule stands once the rule at `k` has become two, of which the first decides or not. -/
def placeInSplit (k : ℕ) (first : Bool) (i : ℕ) : ℕ :=
  if i < k then i else if i = k then (if first then k else k + 1) else i + 1

theorem placeInSplit_of_lt {k i : ℕ} (first : Bool) (h : i < k) : placeInSplit k first i = i :=
  if_pos h

@[simp] theorem placeInSplit_self (k : ℕ) (first : Bool) :
    placeInSplit k first k = if first then k else k + 1 := by
  simp [placeInSplit]

theorem placeInSplit_of_gt {k i : ℕ} (first : Bool) (h : k < i) :
    placeInSplit k first i = i + 1 := by
  rw [placeInSplit, if_neg h.not_gt, if_neg h.ne']

section Scan

variable {β γ : Type} {p : β → Bool} {x x₁ x₂ : β} (hx : p x = (p x₁ || p x₂))
include hx

theorem findIdx?_split (xs ys : List β) :
    (xs ++ x₁ :: x₂ :: ys).findIdx? p =
      ((xs ++ x :: ys).findIdx? p).map (placeInSplit xs.length (p x₁)) := by
  simp only [List.findIdx?_append, List.findIdx?_cons, hx]
  -- The scan ends before the rule, at one of its parts, or behind them.
  cases hxs : xs.findIdx? p with
  | some i =>
      obtain ⟨hi, -⟩ := List.findIdx?_eq_some_iff_getElem.mp hxs
      simp [placeInSplit_of_lt _ hi]
  | none =>
      cases hx₁ : p x₁ with
      | true => simp
      | false => cases hx₂ : p x₂ with
        | true => simp [Nat.add_comm]
        | false =>
            have hlater : ∀ i, placeInSplit xs.length false (i + 1 + xs.length) =
                i + 1 + 1 + xs.length := by
              intro i
              rw [placeInSplit_of_gt _ (by omega)]
              omega
            cases ys.findIdx? p <;> simp [hlater]

theorem map_find?_split {f : β → γ} (hf₁ : f x₁ = f x) (hf₂ : f x₂ = f x) (xs ys : List β) :
    ((xs ++ x₁ :: x₂ :: ys).find? p).map f = ((xs ++ x :: ys).find? p).map f := by
  simp only [List.find?_append, List.find?_cons, hx]
  cases xs.find? p with
  | some y => rfl
  | none => cases p x₁ <;> cases p x₂ <;> simp [hf₁, hf₂]

end Scan

namespace Policy

/-- The policy with two rules in place of the one at `k`. -/
def splitRule (p : Policy) (k : ℕ) (r₁ r₂ : Rule) : Policy :=
  { p with rules := p.rules.take k ++ r₁ :: r₂ :: p.rules.drop (k + 1) }

end Policy

namespace Evaluator

/-- Dividing a list of one rule between two copies of it changes no verdict. Where the rule has
decided one of the copies does, and the places of later rules move on by one. -/
theorem judge_splitRule {p : Policy} {k : ℕ} {r r₁ r₂ : Rule} (hr : p.rules[k]? = some r)
    (hsplit : r.Split r₁ r₂) {α : Type} [Attributes α] (a : α) :
    ((ofPolicy (p.splitRule k r₁ r₂)).judge a).verdict = ((ofPolicy p).judge a).verdict ∧
    ((ofPolicy (p.splitRule k r₁ r₂)).judge a).rule? =
      ((ofPolicy p).judge a).rule?.map (placeInSplit k (r₁.selects a)) := by
  obtain ⟨hk, rfl⟩ := List.getElem?_eq_some_iff.mp hr
  have hrules : p.rules.take k ++ p.rules[k] :: p.rules.drop (k + 1) = p.rules := by
    rw [List.getElem_cons_drop, List.take_append_drop]
  have hlength : (p.rules.take k).length = k := List.length_take_of_le hk.le
  obtain ⟨hverdict₁, hverdict₂⟩ := hsplit.declaredVerdict_eq p
  have hfind := map_find?_split (p := fun s => s.selects a) (hsplit.selects_eq a) hverdict₁
    hverdict₂ (p.rules.take k) (p.rules.drop (k + 1))
  have hplace := findIdx?_split (p := fun s => s.selects a) (hsplit.selects_eq a)
    (p.rules.take k) (p.rules.drop (k + 1))
  rw [hrules] at hfind hplace
  rw [hlength] at hplace
  constructor
  · rw [Policy.verdict_judge_ofPolicy, Policy.verdict_judge_ofPolicy, ← hfind]
    rfl
  · rw [Policy.rule?_judge_ofPolicy, Policy.rule?_judge_ofPolicy, ← hplace]
    rfl

/-- A rule for two groups, between two others, and a request by a member of the second group. -/
theorem judge_splitRule_grouped :
    let r : Rule := { level := .metadata, userGroups := ["dev", "ops"], omitStages := [.panic] }
    let p : Policy := { rules := [{ verbs := ["watch"] }, r, { level := .request }] }
    let p' : Policy := p.splitRule 1 { r with userGroups := ["dev"] } { r with userGroups := ["ops"] }
    let q : Request := { user? := some ⟨"ann", ["ops"]⟩, verb := "get", path := "/healthz" }
    p.rules[1]? = some r ∧ ((ofPolicy p).judge q).rule? = some 1 ∧
      ((ofPolicy p').judge q).rule? = some 2 ∧
      ((ofPolicy p').judge q).verdict = ((ofPolicy p).judge q).verdict := by
  intro r p p' q
  have hr : p.rules[1]? = some r := rfl
  have hsplit : r.Split { r with userGroups := ["dev"] } { r with userGroups := ["ops"] } :=
    .userGroups ⟨rfl, by decide, by decide⟩
  have hplace : ((ofPolicy p).judge q).rule? = some 1 := by decide
  obtain ⟨hverdict, hrule⟩ := judge_splitRule hr hsplit q
  refine ⟨hr, hplace, ?_, hverdict⟩
  rw [hrule, hplace]
  decide

end Evaluator

end RequestAudit
