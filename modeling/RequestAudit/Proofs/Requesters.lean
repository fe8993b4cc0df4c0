import Mathlib.Data.List.Basic
import RequestAudit.Proofs.Dependence
import RequestAudit.Proofs.RuleEdits

/-!
# Requesters

A rule that names requesters or groups selects no request by an unknown requester, and it asks for
a name or a group to be there, never for one to be absent. So the rules that select a request still
do when its requester becomes known or joins groups, and if another rule decides then, it is an
earlier one.
-/

namespace RequestAudit

open Attributes

/-- A requester who was unknown becomes known, or one who was known joins groups. -/
inductive BetterKnown : Option User → Option User → Prop
  | attached (u : User) : BetterKnown none (some u)
  | joined {u : User} {groups : List String} (h : u.groups ⊆ groups) :
      BetterKnown (some u) (some { u with groups })

theorem BetterKnown.of_some {u? v? : Option User} (h : BetterKnown u? v?) {u : User}
    (hu : u? = some u) : ∃ v, v? = some v ∧ v.name = u.name ∧ u.groups ⊆ v.groups := by
  cases h with
  | attached v => cases hu
  | joined hgroups =>
      cases hu
      exact ⟨_, rfl, rfl, hgroups⟩

variable {α β : Type} [Attributes α] [Attributes β] {a : α} {b : β}

/-- The second request is the first with a requester who is better known. -/
structure Identified (a : α) (b : β) : Prop where
  user : BetterKnown (user? a) (user? b)
  rest : AnswerAlike { Answers.ofAttributes a with user? := user? b } b

theorem Request.identified {q : Request} {u? : Option User} (h : BetterKnown q.user? u?) :
    Identified q { q with user? := u? } where
  user := h
  rest := ⟨alike_users _, rfl, rfl, fun _ => ⟨rfl, rfl, rfl, rfl, rfl⟩, fun _ => rfl⟩

namespace Rule

variable {r : Rule}

theorem Conditions.betterKnown {x : Answers} {u? : Option User} (h : BetterKnown x.user? u?)
    (hc : r.Conditions x) : r.Conditions { x with user? := u? } := by
  obtain ⟨huser, hgroup, hverb, hns, hresource, hpath⟩ := hc
  refine ⟨huser.imp_right ?_, hgroup.imp_right ?_, hverb, hns, hresource, hpath⟩
  · rintro ⟨n, hn, u, hu, hname⟩
    obtain ⟨v, hv, hsame, -⟩ := h.of_some hu
    exact ⟨n, hn, v, hv, hsame.trans hname⟩
  · rintro ⟨g, hg, u, hu, hmem⟩
    obtain ⟨v, hv, -, hgroups⟩ := h.of_some hu
    exact ⟨g, hg, v, hv, hgroups hmem⟩

theorem selects_of_identified (r : Rule) (h : Identified a b) (hselects : r.selects a = true) :
    r.selects b = true := by
  rw [r.selects_congr (answerAlike_ofAttributes a), selects_iff_conditions] at hselects
  rw [← r.selects_congr h.rest, selects_iff_conditions]
  exact hselects.betterKnown h.user

theorem selects_of_anonymous (r : Rule) (ha : user? a = none)
    (hr : r.users ≠ [] ∨ r.userGroups ≠ []) : r.selects a = false := by
  have hnobody : ∀ p : User → Prop, ¬∃ u, user? a = some u ∧ p u := by
    rintro p ⟨u, hu, -⟩
    rw [ha] at hu
    cases hu
  rw [← Bool.not_eq_true, selects_iff_conditions]
  intro hc
  have husers : r.users = [] := hc.user.resolve_right fun ⟨_, _, hu⟩ => hnobody _ hu
  have hgroups : r.userGroups = [] := hc.group.resolve_right fun ⟨_, _, hg⟩ => hnobody _ hg
  exact hr.elim (· husers) (· hgroups)

end Rule

namespace Evaluator

/-- If every rule goes on selecting, the rule that decides does not come later. -/
theorem rule?_mono (e : Evaluator)
    (h : ∀ r ∈ e.rules, r.selects a = true → r.selects b = true) {i : ℕ}
    (hi : (e.judge a).rule? = some i) : ∃ j ≤ i, (e.judge b).rule? = some j := by
  rw [rule?_judge] at hi
  rw [rule?_judge]
  exact List.findIdx?_eq_some_le_of_findIdx?_eq_some h hi

/-- No rule that names requesters or groups selects an anonymous request. A rule that selects a
request still does when its requester is better known, whatever answers for the two requests, and
so the rule that decides does not come later and does not get lost. -/
theorem judge_identified :
    (∀ {α : Type} [Attributes α] (r : Rule) (a : α), user? a = none →
      r.users ≠ [] ∨ r.userGroups ≠ [] → r.selects a = false) ∧
    ∀ {α β : Type} [Attributes α] [Attributes β] (a : α) (b : β), Identified a b →
      (∀ r : Rule, r.selects a = true → r.selects b = true) ∧
      ∀ (e : Evaluator) (i : ℕ), (e.judge a).rule? = some i →
        ∃ j ≤ i, (e.judge b).rule? = some j := by
  refine ⟨fun r _ ha hr => r.selects_of_anonymous ha hr, fun a b h => ⟨fun r hselects =>
    r.selects_of_identified h hselects, fun e i hi => ?_⟩⟩
  exact e.rule?_mono (fun r _ hselects => r.selects_of_identified h hselects) hi

/-- A request that is decided by the last rule while it is anonymous, by the second one once its
requester is known, and by the first one after that requester has joined a group. -/
theorem judge_identified_member :
    let ops : Rule := { level := .request, users := ["ann"], userGroups := ["ops"] }
    let ann : Rule := { level := .metadata, users := ["ann"] }
    let e := ofPolicy { rules := [ops, ann, { verbs := ["get"] }] }
    let q := Request.forPath "get" "/healthz"
    let known : Request := { q with user? := some { name := "ann", groups := ["dev"] } }
    let joined : Request := { q with user? := some { name := "ann", groups := ["ops", "dev"] } }
    ann.selects q = false ∧ (e.judge q).rule? = some 2 ∧
      (∃ j ≤ 2, (e.judge known).rule? = some j) ∧
      (∃ j ≤ 1, (e.judge joined).rule? = some j) ∧ (e.judge joined).rule? = some 0 := by
  intro ops ann e q known joined
  obtain ⟨hanonymous, hidentified⟩ := judge_identified
  have hknown : Identified q known := Request.identified (.attached _)
  have hjoined : Identified known joined := Request.identified (.joined (by decide))
  exact ⟨hanonymous ann q rfl (by decide), by decide,
    (hidentified q known hknown).2 e 2 (by decide),
    (hidentified known joined hjoined).2 e 1 (by decide), by decide⟩

end Evaluator

end RequestAudit
