import Mathlib.Data.List.Basic
import Mathlib.Data.Option.Basic
import RequestAudit.Evaluator

/-!
# What a decision depends on

An evaluator sees a request only through its answers, and it does not ask for all of them: of a
request for a resource it never learns the path, of any other request it learns nothing about a
resource, and of groups it only asks whether one of them is wanted. Requests that answer alike
what is asked are decided alike, whatever answers for them.
-/

namespace RequestAudit

open Attributes

/-- The name is the same, and the same groups are listed, in whatever order and however often. -/
structure User.Alike (u v : User) : Prop where
  name : u.name = v.name
  groups : ∀ g, g ∈ u.groups ↔ g ∈ v.groups

variable {α β : Type} [Attributes α] [Attributes β]

/-- The requests answer alike what can be asked about the resource, but for its version. -/
structure SameObject (a : α) (b : β) : Prop where
  ns : ns a = ns b
  apiGroup : apiGroup a = apiGroup b
  type : type a = type b
  subresource : subresource a = subresource b
  name : name a = name b

/-- The requests answer alike what an evaluator may ask of them. -/
structure AnswerAlike (a : α) (b : β) : Prop where
  user : Option.Rel User.Alike (user? a) (user? b)
  verb : verb a = verb b
  kind : isForResource a = isForResource b
  object : isForResource a = true → SameObject a b
  path : isForResource a = false → path a = path b

theorem User.Alike.any_groups {u v : User} (h : u.Alike v) (p : String → Bool) :
    u.groups.any p = v.groups.any p := by
  rw [Bool.eq_iff_iff, List.any_eq_true, List.any_eq_true]
  constructor
  · rintro ⟨g, hg, hp⟩
    exact ⟨g, (h.groups g).mp hg, hp⟩
  · rintro ⟨g, hg, hp⟩
    exact ⟨g, (h.groups g).mpr hg, hp⟩

/-- A question about the requester that alike users answer alike. -/
theorem any_congr {u? v? : Option User} (h : Option.Rel User.Alike u? v?) {p : User → Bool}
    (hp : ∀ u v, User.Alike u v → p u = p v) : u?.any p = v?.any p := by
  cases h with
  | some huv => exact hp _ _ huv
  | none => rfl

namespace Rule

variable {a : α} {b : β}

theorem acceptsUser_congr (r : Rule) (h : AnswerAlike a b) : r.acceptsUser a = r.acceptsUser b := by
  unfold acceptsUser
  rw [any_congr h.user]
  intro u v huv
  rw [huv.name]

theorem acceptsGroups_congr (r : Rule) (h : AnswerAlike a b) :
    r.acceptsGroups a = r.acceptsGroups b := by
  unfold acceptsGroups
  rw [any_congr h.user]
  intro u v huv
  exact huv.any_groups _

theorem acceptsVerb_congr (r : Rule) (h : AnswerAlike a b) : r.acceptsVerb a = r.acceptsVerb b := by
  rw [acceptsVerb, acceptsVerb, h.verb]

/-- Nothing about the resource is read unless the request is for one. -/
theorem acceptsResource_congr (r : Rule) (h : AnswerAlike a b) :
    r.acceptsResource a = r.acceptsResource b := by
  cases hfor : isForResource a with
  | false => simp only [acceptsResource, ← h.kind, hfor, Bool.false_and]
  | true =>
      have hobject := h.object hfor
      simp only [acceptsResource, ← h.kind, hobject.ns, hobject.apiGroup, hobject.type,
        hobject.subresource, hobject.name]

/-- The path is not read if the request is for a resource. -/
theorem acceptsPath_congr (r : Rule) (h : AnswerAlike a b) : r.acceptsPath a = r.acceptsPath b := by
  cases hfor : isForResource a with
  | true => simp only [acceptsPath, ← h.kind, hfor, Bool.not_true, Bool.false_and]
  | false => simp only [acceptsPath, ← h.kind, h.path hfor]

theorem selects_congr (r : Rule) (h : AnswerAlike a b) : r.selects a = r.selects b := by
  have htarget : r.acceptsTarget a = r.acceptsTarget b := by
    unfold acceptsTarget
    rw [acceptsResource_congr r h, acceptsPath_congr r h]
  unfold selects
  rw [acceptsUser_congr r h, acceptsGroups_congr r h, acceptsVerb_congr r h, htarget]

end Rule

/-- The answers of a request, which may be at odds with each other. -/
structure Answers where
  user? : Option User := none
  verb : String := ""
  isForResource : Bool := false
  ns : String := ""
  apiGroup : String := ""
  apiVersion : String := ""
  type : String := ""
  subresource : String := ""
  name : String := ""
  path : String := ""

namespace Answers

instance : Attributes Answers where
  user? := user?
  verb := verb
  isForResource := isForResource
  ns := ns
  apiGroup := apiGroup
  apiVersion := apiVersion
  type := type
  subresource := subresource
  name := name
  path := path

def ofAttributes (a : α) : Answers where
  user? := Attributes.user? a
  verb := Attributes.verb a
  isForResource := Attributes.isForResource a
  ns := Attributes.ns a
  apiGroup := Attributes.apiGroup a
  apiVersion := Attributes.apiVersion a
  type := Attributes.type a
  subresource := Attributes.subresource a
  name := Attributes.name a
  path := Attributes.path a

end Answers

theorem alike_users (u? : Option User) : Option.Rel User.Alike u? u? := by
  cases u? with
  | none => exact .none
  | some u => exact .some ⟨rfl, fun _ => Iff.rfl⟩

/-- The plain answers of a request stand for it. -/
theorem answerAlike_ofAttributes (a : α) : AnswerAlike a (Answers.ofAttributes a) where
  user := alike_users _
  verb := rfl
  kind := rfl
  object _ := ⟨rfl, rfl, rfl, rfl, rfl⟩
  path _ := rfl

namespace Evaluator

variable {a : α} {b : β}

theorem first?_congr (e : Evaluator) (h : AnswerAlike a b) : e.first? a = e.first? b := by
  have hselects : (fun r : Rule × ℕ => r.1.selects a) = fun r => r.1.selects b :=
    funext fun r => r.1.selects_congr h
  unfold first?
  rw [hselects]

theorem judge_congr (e : Evaluator) (h : AnswerAlike a b) : e.judge a = e.judge b := by
  unfold judge
  rw [first?_congr e h]

end Evaluator

namespace Answers

variable (x : Answers)

theorem alike_of_apiVersion (v : String) : AnswerAlike { x with apiVersion := v } x :=
  ⟨alike_users _, rfl, rfl, fun _ => ⟨rfl, rfl, rfl, rfl, rfl⟩, fun _ => rfl⟩

theorem alike_of_path (h : x.isForResource = true) (p : String) :
    AnswerAlike { x with path := p } x := by
  refine ⟨alike_users _, rfl, rfl, fun _ => ⟨rfl, rfl, rfl, rfl, rfl⟩, fun hpath => ?_⟩
  exact absurd (h.symm.trans hpath) (by decide)

theorem alike_of_object (h : x.isForResource = false)
    (ns apiGroup apiVersion type subresource name : String) :
    AnswerAlike { x with ns, apiGroup, apiVersion, type, subresource, name } x := by
  refine ⟨alike_users _, rfl, rfl, fun hobject => ?_, fun _ => rfl⟩
  exact absurd (h.symm.trans hobject) (by decide)

end Answers

namespace Evaluator

/-- Requests of any two kinds that answer alike are decided alike. So no decision depends on the
version of a type's description, none about a resource on the path, and no other one on anything
that is said of a resource; and this is so for whatever answers for a request, since it is decided
as its plain answers are. -/
theorem judge_of_answerAlike (e : Evaluator) :
    (∀ {α β : Type} [Attributes α] [Attributes β] (a : α) (b : β), AnswerAlike a b →
      e.judge a = e.judge b) ∧
    (∀ {α : Type} [Attributes α] (a : α), e.judge a = e.judge (Answers.ofAttributes a)) ∧
    ∀ x : Answers,
      (∀ apiVersion, e.judge { x with apiVersion } = e.judge x) ∧
      (x.isForResource = true → ∀ path, e.judge { x with path } = e.judge x) ∧
      (x.isForResource = false → ∀ ns apiGroup apiVersion type subresource name,
        e.judge { x with ns, apiGroup, apiVersion, type, subresource, name } = e.judge x) := by
  refine ⟨fun a b h => judge_congr e h, fun a => judge_congr e (answerAlike_ofAttributes a), ?_⟩
  intro x
  refine ⟨fun v => judge_congr e (x.alike_of_apiVersion v),
    fun h p => judge_congr e (x.alike_of_path h p), ?_⟩
  intro h ns apiGroup apiVersion type subresource name
  exact judge_congr e (x.alike_of_object h ns apiGroup apiVersion type subresource name)

/-- A recorded request with a path beside its resource, and an answer without one whose groups
stand in another order. -/
theorem judge_of_answerAlike_regrouped :
    let r : Rule := { userGroups := ["ops"], resources := [{ types := ["pods/*"] }] }
    let e := ofPolicy { rules := [r] }
    let q : Request := ⟨some ⟨"ann", ["dev", "ops", "dev"]⟩, "get",
      some { apiVersion := "v1", type := "pods", subresource := "log" }, "/healthz"⟩
    let x : Answers :=
      { user? := some ⟨"ann", ["ops", "dev"]⟩
        verb := "get"
        isForResource := true
        type := "pods"
        subresource := "log" }
    AnswerAlike q x ∧ (e.judge q).rule? = some 0 ∧ e.judge q = e.judge x := by
  intro r e q x
  have hgroups : ∀ g, g ∈ ["dev", "ops", "dev"] ↔ g ∈ ["ops", "dev"] := by
    intro g
    simp only [List.mem_cons, List.not_mem_nil, or_false]
    tauto
  have halike : AnswerAlike q x := by
    refine ⟨.some ⟨rfl, hgroups⟩, rfl, rfl, fun _ => ⟨rfl, rfl, rfl, rfl, rfl⟩, fun h => ?_⟩
    cases h
  exact ⟨halike, by decide, (judge_of_answerAlike e).1 q x halike⟩

end Evaluator

end RequestAudit
