import Mathlib.Data.List.Forall2
import RequestAudit.Policy.Offence
import RequestAudit.Proofs.Reference

/-!
# Normal policies

To make a policy normal changes nothing but the stages that its rules omit, and nothing more the
second time. The normal policy is refused for the same offence and has the same evaluator. So has
the policy that an evaluator itself amounts to; if the stages that are omitted everywhere are
struck off there, they still stand in the rules, and only requests that no rule selects notice.
-/

namespace RequestAudit

/-- The policy of an evaluator's own rules and defaults. -/
def Evaluator.toPolicy (e : Evaluator) : Policy where
  rules := e.rules
  omitStages := e.omitStages
  omitManagedFields := e.omitManagedFields

namespace Policy

variable {p q : Policy}

theorem rules_normal (p : Policy) : p.normal.rules = p.rules.map p.merged := rfl

/-- What `p` omits with a rule is not changed by merging in the stages of `q`. -/
def Absorbs (p q : Policy) : Prop :=
  ∀ ss, Stage.union [q.omitStages, Stage.union [p.omitStages, ss]] =
    Stage.union [p.omitStages, ss]

theorem Absorbs.of_omitStages (h : q.omitStages = p.omitStages) : p.Absorbs q := by
  intro ss
  rw [h]
  exact (Stage.union_append_union [p.omitStages] [p.omitStages, ss]).trans
    (Stage.union_cons_cons_self _ _)

theorem Absorbs.of_union (h : q.omitStages = Stage.union [p.omitStages]) : p.Absorbs q := by
  intro ss
  rw [h, Stage.union_union_cons]
  exact Absorbs.of_omitStages rfl ss

theorem Absorbs.of_nil (h : q.omitStages = []) : p.Absorbs q := by
  intro ss
  rw [h]
  exact Stage.union_append_union [[]] [p.omitStages, ss]

theorem Absorbs.rules_normal (h : p.Absorbs q) (hrules : q.rules = p.normal.rules) :
    q.normal.rules = p.normal.rules := by
  have hmerged : ∀ r, q.merged (p.merged r) = p.merged r := by
    intro r
    rw [merged, merged, h r.omitStages]
  rw [Policy.rules_normal, hrules, Policy.rules_normal, List.map_map]
  exact List.map_congr_left fun r _ => hmerged r

theorem normal_normal (p : Policy) : p.normal.normal = p.normal := by
  have hrules : p.normal.normal.rules = p.normal.rules :=
    (Absorbs.of_omitStages p.normal_omitStages).rules_normal rfl
  have hnormal : p.normal.normal = { p.normal with rules := p.normal.normal.rules } := rfl
  rw [hnormal, hrules]

theorem forall₂_rules_normal (p : Policy) :
    List.Forall₂ (fun r r' : Rule => r' = { r with omitStages := r'.omitStages })
      p.rules p.normal.rules := by
  rw [rules_normal, List.forall₂_map_right_iff, List.forall₂_same]
  exact fun r _ => rfl

/-! ## Offences -/

/-- What a rule omits is not examined. -/
theorem firstOffence?_map_merged (p : Policy) (place : ℕ) (rs : List Rule) :
    Rule.firstOffence? place (rs.map p.merged) = Rule.firstOffence? place rs := by
  induction rs generalizing place with
  | nil => rfl
  | cons r rs ih =>
      have hoffence : (p.merged r).offence? = r.offence? := rfl
      rw [List.map_cons, Rule.firstOffence?, Rule.firstOffence?, hoffence, ih]

theorem offence?_normal (p : Policy) : p.normal.offence? = p.offence? := by
  have hrules : Rule.firstOffence? 0 p.normal.rules = Rule.firstOffence? 0 p.rules :=
    p.firstOffence?_map_merged 0 p.rules
  rw [offence?, offence?, hrules]
  rfl

/-! ## Evaluators -/

theorem ofPolicy_normal (p : Policy) : Evaluator.ofPolicy p.normal = .ofPolicy p := by
  rw [Evaluator.ofPolicy, Evaluator.ofPolicy, normal_normal]
  rfl

theorem ofPolicy_toPolicy (p : Policy) :
    Evaluator.ofPolicy (Evaluator.ofPolicy p).toPolicy = .ofPolicy p := by
  have hrules : (Evaluator.ofPolicy p).toPolicy.normal.rules = p.normal.rules :=
    (Absorbs.of_union rfl).rules_normal rfl
  have hstages : Stage.union [Stage.union [p.omitStages]] = Stage.union [p.omitStages] :=
    Stage.union_union_cons [p.omitStages] []
  rw [Evaluator.ofPolicy, hrules]
  simp only [Evaluator.toPolicy, Evaluator.ofPolicy, hstages]

/-- The policy that an evaluator amounts to, without the stages that it omits everywhere. -/
def bare (p : Policy) : Policy := { (Evaluator.ofPolicy p).toPolicy with omitStages := [] }

theorem ofPolicy_bare (p : Policy) :
    Evaluator.ofPolicy p.bare = { Evaluator.ofPolicy p with omitStages := [] } := by
  have hrules : p.bare.normal.rules = p.normal.rules := (Absorbs.of_nil rfl).rules_normal rfl
  rw [Evaluator.ofPolicy, hrules]
  rfl

end Policy

namespace Evaluator

variable {α : Type} [Attributes α]

theorem first?_eq_none_iff (e : Evaluator) (a : α) :
    e.first? a = none ↔ ∀ r ∈ e.rules, r.selects a = false := by
  simp only [first?, List.find?_eq_none, Bool.not_eq_true]
  constructor
  · intro h r hr
    obtain ⟨i, hi, rfl⟩ := List.mem_iff_getElem.mp hr
    exact h (e.rules[i], i) (List.mk_mem_zipIdx_iff_getElem?.mpr (List.getElem?_eq_getElem hi))
  · intro h r hr
    exact h r.1 (List.fst_mem_of_mem_zipIdx hr)

theorem first?_ofPolicy_eq_none_iff (p : Policy) (a : α) :
    (ofPolicy p).first? a = none ↔ ∀ r ∈ p.rules, r.selects a = false := by
  have hselects : ∀ r, (p.merged r).selects a = r.selects a :=
    fun r => r.selects_with_omitStages _ a
  rw [first?_eq_none_iff]
  simp only [ofPolicy, p.rules_normal, List.forall_mem_map, hselects]

/-- The stages of an evaluator matter only where no rule decides. -/
theorem judge_with_omitStages (e : Evaluator) (ss : List Stage) (a : α) :
    ({ e with omitStages := ss } : Evaluator).judge a =
      if (e.first? a).isNone then ⟨none, { e.default with omitStages := ss }⟩ else e.judge a := by
  have hfirst : ({ e with omitStages := ss } : Evaluator).first? a = e.first? a := rfl
  rw [judge, judge, hfirst]
  cases e.first? a <;> rfl

end Evaluator

namespace Policy

/-- A policy, its normal form and the policy of its evaluator are one and the same for the rules
of policies and for every request. -/
theorem normal_interchangeable (p : Policy) :
    p.normal.normal = p.normal ∧
    p.normal = { p with rules := p.normal.rules } ∧
    List.Forall₂ (fun r r' : Rule => r' = { r with omitStages := r'.omitStages })
      p.rules p.normal.rules ∧
    p.normal.offence? = p.offence? ∧
    Evaluator.ofPolicy p.normal = .ofPolicy p ∧
    Evaluator.ofPolicy (Evaluator.ofPolicy p).toPolicy = .ofPolicy p ∧
    ∀ {α : Type} [Attributes α] (a : α),
      (Evaluator.ofPolicy p.normal).judge a = (Evaluator.ofPolicy p).judge a ∧
      (Evaluator.ofPolicy (Evaluator.ofPolicy p).toPolicy).judge a =
        (Evaluator.ofPolicy p).judge a ∧
      ((∃ r ∈ p.rules, r.selects a = true) →
        (Evaluator.ofPolicy p.bare).judge a = (Evaluator.ofPolicy p).judge a) ∧
      ((∀ r ∈ p.rules, r.selects a = false) →
        ((Evaluator.ofPolicy p).judge a).rule? = none ∧
        (Evaluator.ofPolicy p.bare).judge a =
          ⟨none, { ((Evaluator.ofPolicy p).judge a).verdict with omitStages := [] }⟩) := by
  refine ⟨p.normal_normal, rfl, p.forall₂_rules_normal, p.offence?_normal, p.ofPolicy_normal,
    p.ofPolicy_toPolicy, fun a => ⟨?_, ?_, fun h => ?_, fun h => ?_⟩⟩
  · rw [p.ofPolicy_normal]
  · rw [p.ofPolicy_toPolicy]
  · have hfirst : ¬((Evaluator.ofPolicy p).first? a).isNone = true := by
      rw [Option.isNone_iff_eq_none, Evaluator.first?_ofPolicy_eq_none_iff]
      obtain ⟨r, hr, hselects⟩ := h
      intro hnone
      rw [hnone r hr] at hselects
      cases hselects
    rw [p.ofPolicy_bare, Evaluator.judge_with_omitStages, if_neg hfirst]
  · have hfirst := (Evaluator.first?_ofPolicy_eq_none_iff p a).mpr h
    have hjudge : (Evaluator.ofPolicy p).judge a = ⟨none, (Evaluator.ofPolicy p).default⟩ := by
      rw [Evaluator.judge, hfirst]
    refine ⟨by rw [hjudge], ?_⟩
    rw [hjudge, p.ofPolicy_bare, Evaluator.judge_with_omitStages, if_pos (by rw [hfirst]; rfl)]

/-- A rule that repeats a stage of its policy, and a request that it does not select. -/
theorem normal_interchangeable_repeated :
    let p : Policy :=
      { omitStages := [.panic, .other "Audit", .panic]
        omitManagedFields := true
        rules := [{ verbs := ["get"], omitStages := [.other "Audit", .requestReceived] }] }
    let got := Request.forPath "get" "/"
    let listed := Request.forPath "list" "/"
    (∃ r ∈ p.rules, r.selects got = true) ∧
      (Evaluator.ofPolicy p.bare).judge got = (Evaluator.ofPolicy p).judge got ∧
      (∀ r ∈ p.rules, r.selects listed = false) ∧
      (Evaluator.ofPolicy p.bare).judge listed = ⟨none, ⟨.none, [], true⟩⟩ := by
  intro p got listed
  obtain ⟨-, -, -, -, -, -, hjudge⟩ := normal_interchangeable p
  have hgot : ∃ r ∈ p.rules, r.selects got = true := by decide
  have hlisted : ∀ r ∈ p.rules, r.selects listed = false := by decide
  exact ⟨hgot, (hjudge got).2.2.1 hgot, hlisted, ((hjudge listed).2.2.2 hlisted).2⟩

end Policy

end RequestAudit
