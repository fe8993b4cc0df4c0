import Mathlib.Data.List.Basic
import Mathlib.Logic.Relation
import RequestAudit.Proofs.Acceptance
import RequestAudit.Proofs.Reference

/-!
# Edits of a rule's lists

Every list of a rule is a condition of its own, which is met by everything if the list is empty.
Only the paths are not looked at where namespaces or resources are given. An accepted rule has no
paths there, so that to widen one of its lists, or to empty it, never costs it a request. And of no
list of any rule does more matter than which elements it has.
-/

namespace RequestAudit

open Attributes

/-- A list as a condition. -/
def Meets {β : Type} (xs : List β) (p : β → Prop) : Prop := xs = [] ∨ ∃ x ∈ xs, p x

/-- The list is emptied, or it is not empty and elements are added to it. -/
def Widened {β : Type} (xs ys : List β) : Prop := ys = [] ∨ (xs ≠ [] ∧ xs.Sublist ys)

/-- The elements are the same, in whatever order and however often. -/
def SameElements {β : Type} (xs ys : List β) : Prop := ∀ x, x ∈ xs ↔ x ∈ ys

section Lists

variable {β : Type} {xs ys : List β} {p : β → Prop}

theorem Widened.eq_nil (h : Widened xs ys) (hxs : xs = []) : ys = [] := by
  rcases h with hys | ⟨hne, -⟩
  · exact hys
  · exact absurd hxs hne

theorem Widened.meets (h : Widened xs ys) (hp : Meets xs p) : Meets ys p := by
  rcases h with hys | ⟨hne, hsub⟩
  · exact .inl hys
  · obtain ⟨x, hx, hpx⟩ := hp.resolve_left hne
    exact .inr ⟨x, hsub.subset hx, hpx⟩

theorem SameElements.symm (h : SameElements xs ys) : SameElements ys xs := fun x => (h x).symm

theorem SameElements.eq_nil (h : SameElements xs ys) (hxs : xs = []) : ys = [] := by
  subst hxs
  exact List.eq_nil_iff_forall_not_mem.mpr fun y hy => List.not_mem_nil ((h y).mpr hy)

theorem SameElements.meets (h : SameElements xs ys) (hp : Meets xs p) : Meets ys p := by
  rcases hp with hxs | ⟨x, hx, hpx⟩
  · exact .inl (h.eq_nil hxs)
  · exact .inr ⟨x, (h x).mp hx, hpx⟩

theorem meets_and_iff {q : Prop} : (Meets xs fun x => q ∧ p x) ↔ xs = [] ∨ (q ∧ ∃ x ∈ xs, p x) := by
  refine or_congr_right ⟨?_, ?_⟩
  · rintro ⟨x, hx, hq, hp⟩
    exact ⟨hq, x, hx, hp⟩
  · rintro ⟨hq, x, hx, hp⟩
    exact ⟨x, hx, hq, hp⟩

theorem eq_nil_of_meets (h : Meets xs fun _ => False) : xs = [] :=
  h.resolve_right fun ⟨_, _, hfalse⟩ => hfalse

/-- One element is replaced by another that stands for as much. -/
theorem Meets.replace {x y : β} {earlier later : List β} (hxy : p x → p y)
    (hp : Meets (earlier ++ x :: later) p) : Meets (earlier ++ y :: later) p := by
  obtain ⟨z, hz, hpz⟩ := hp.resolve_left (by simp)
  right
  rcases List.mem_append.mp hz with hearlier | hrest
  · exact ⟨z, List.mem_append_left _ hearlier, hpz⟩
  · rcases List.mem_cons.mp hrest with rfl | hlater
    · exact ⟨y, List.mem_append_right _ List.mem_cons_self, hxy hpz⟩
    · exact ⟨z, List.mem_append_right _ (List.mem_cons_of_mem _ hlater), hpz⟩

end Lists

namespace ResourceSelector

variable {α : Type} [Attributes α]

/-- The selector is of the requested group, and its lists are met; without types, the names are
not looked at. -/
theorem applies_iff_meets (s : ResourceSelector) (a : α) :
    s.Applies a ↔ s.group = apiGroup a ∧
      (s.types ≠ [] → Meets s.names (name a = ·)) ∧
      Meets s.types fun spec => Spec.NamesResource spec (type a) (subresource a) := by
  unfold Applies Meets
  by_cases htypes : s.types = []
  · simp [htypes]
  · simp [htypes]

end ResourceSelector

namespace Rule

/-- One of the lists of a rule, or of one of its selectors, is replaced by a list that is related
to it. -/
inductive Edit (R : ∀ {β : Type}, List β → List β → Prop) (r : Rule) : Rule → Prop
  | users {xs : List String} (h : R r.users xs) : Edit R r { r with users := xs }
  | userGroups {xs : List String} (h : R r.userGroups xs) : Edit R r { r with userGroups := xs }
  | verbs {xs : List String} (h : R r.verbs xs) : Edit R r { r with verbs := xs }
  | namespaces {xs : List String} (h : R r.namespaces xs) : Edit R r { r with namespaces := xs }
  | resources {ss : List ResourceSelector} (h : R r.resources ss) :
      Edit R r { r with resources := ss }
  | paths {xs : List String} (h : R r.paths xs) : Edit R r { r with paths := xs }
  | types {earlier later : List ResourceSelector} {s : ResourceSelector} {xs : List String}
      (hs : r.resources = earlier ++ s :: later) (h : R s.types xs) :
      Edit R r { r with resources := earlier ++ { s with types := xs } :: later }
  | names {earlier later : List ResourceSelector} {s : ResourceSelector} {xs : List String}
      (hs : r.resources = earlier ++ s :: later) (h : R s.names xs) :
      Edit R r { r with resources := earlier ++ { s with names := xs } :: later }

/-- What the lists of a rule require of a request. -/
structure Conditions {α : Type} [Attributes α] (r : Rule) (a : α) : Prop where
  user : Meets r.users fun n => ∃ u, user? a = some u ∧ u.name = n
  group : Meets r.userGroups fun g => ∃ u, user? a = some u ∧ g ∈ u.groups
  verb : Meets r.verbs (verb a = ·)
  ns : Meets r.namespaces fun n => isForResource a = true ∧ ns a = n
  resource : Meets r.resources fun s => isForResource a = true ∧ s.Applies a
  path : r.namespaces = [] → r.resources = [] →
    Meets r.paths fun spec => isForResource a = false ∧ Spec.NamesPath spec (path a)

variable {α : Type} [Attributes α] {r r' : Rule} {a : α}
variable {R : ∀ {β : Type}, List β → List β → Prop}

theorem targetApplies_iff (r : Rule) (a : α) :
    r.TargetApplies a ↔
      (Meets r.namespaces fun n => isForResource a = true ∧ ns a = n) ∧
      (Meets r.resources fun s => isForResource a = true ∧ s.Applies a) ∧
      (r.namespaces = [] → r.resources = [] →
        Meets r.paths fun spec => isForResource a = false ∧ Spec.NamesPath spec (path a)) := by
  simp only [TargetApplies, meets_and_iff, exists_eq_right']
  by_cases hns : r.namespaces = []
  · by_cases hres : r.resources = []
    · by_cases hpaths : r.paths = [] <;> simp [hns, hres, hpaths]
    · simp [hns, hres]
  · by_cases hres : r.resources = []
    · simp [hns, hres]
    · simp only [hns, hres, ne_eq, not_false_eq_true, or_self, if_true, false_or,
        IsEmpty.forall_iff, and_true]
      exact and_and_left

theorem selects_iff_conditions (r : Rule) (a : α) : r.selects a = true ↔ r.Conditions a := by
  have huser : (∃ u, user? a = some u ∧ u.name ∈ r.users) ↔
      ∃ n ∈ r.users, ∃ u, user? a = some u ∧ u.name = n :=
    ⟨fun ⟨u, hu, hn⟩ => ⟨u.name, hn, u, hu, rfl⟩, fun ⟨_, hn, u, hu, hname⟩ => ⟨u, hu, hname ▸ hn⟩⟩
  have hgroup : (∃ u, user? a = some u ∧ ∃ g ∈ u.groups, g ∈ r.userGroups) ↔
      ∃ g ∈ r.userGroups, ∃ u, user? a = some u ∧ g ∈ u.groups :=
    ⟨fun ⟨u, hu, g, hg, hmem⟩ => ⟨g, hmem, u, hu, hg⟩,
      fun ⟨g, hmem, u, hu, hg⟩ => ⟨u, hu, g, hg, hmem⟩⟩
  have hverb : verb a ∈ r.verbs ↔ ∃ v ∈ r.verbs, verb a = v := exists_eq_right'.symm
  rw [selects_iff]
  constructor
  · rintro ⟨hu, hg, hv, ht⟩
    obtain ⟨hns, hres, hpath⟩ := (r.targetApplies_iff a).mp ht
    exact ⟨hu.imp_right huser.mp, hg.imp_right hgroup.mp, hv.imp_right hverb.mp, hns, hres, hpath⟩
  · rintro ⟨hu, hg, hv, hns, hres, hpath⟩
    exact ⟨hu.imp_right huser.mpr, hg.imp_right hgroup.mpr, hv.imp_right hverb.mpr,
      (r.targetApplies_iff a).mpr ⟨hns, hres, hpath⟩⟩

/-! ## Edits -/

theorem Edit.symm (h : r.Edit R r') : r'.Edit (fun xs ys => R ys xs) r := by
  obtain ⟨level, users, userGroups, verbs, resources, namespaces, paths, omitStages, managed⟩ := r
  cases h with
  | users h => exact .users h
  | userGroups h => exact .userGroups h
  | verbs h => exact .verbs h
  | namespaces h => exact .namespaces h
  | resources h => exact .resources h
  | paths h => exact .paths h
  | @types earlier later s xs hs h =>
      change resources = _ at hs
      subst hs
      exact .types (s := { s with types := xs }) rfl h
  | @names earlier later s xs hs h =>
      change resources = _ at hs
      subst hs
      exact .names (s := { s with names := xs }) rfl h

/-- An edit leaves the lists empty on which it depends where the request is looked at. -/
theorem Edit.eq_nil (hR : ∀ {β : Type} {xs ys : List β}, R xs ys → xs = [] → ys = [])
    (h : r.Edit R r') :
    (r.namespaces = [] → r'.namespaces = []) ∧ (r.resources = [] → r'.resources = []) ∧
      (r.paths = [] → r'.paths = []) := by
  cases h with
  | namespaces h => exact ⟨hR h, id, id⟩
  | resources h => exact ⟨id, hR h, id⟩
  | paths h => exact ⟨id, id, hR h⟩
  | types hs _ => exact ⟨id, fun hnil => absurd (hs.symm.trans hnil) (by simp), id⟩
  | names hs _ => exact ⟨id, fun hnil => absurd (hs.symm.trans hnil) (by simp), id⟩
  | _ => exact ⟨id, id, id⟩

/-- The conditions stay met if no list becomes harder to meet and paths that were not looked at are
still not. -/
theorem Conditions.edit
    (hR : ∀ {β : Type} {xs ys : List β} {p : β → Prop}, R xs ys → Meets xs p → Meets ys p)
    (h : r.Edit R r')
    (hpath : r'.namespaces = [] → r'.resources = [] →
      r'.paths = [] ∨ (r.namespaces = [] ∧ r.resources = []))
    (hc : r.Conditions a) : r'.Conditions a := by
  obtain ⟨huser, hgroup, hverb, hns, hres, hold⟩ := hc
  cases h with
  | users h => exact ⟨hR h huser, hgroup, hverb, hns, hres, hold⟩
  | userGroups h => exact ⟨huser, hR h hgroup, hverb, hns, hres, hold⟩
  | verbs h => exact ⟨huser, hgroup, hR h hverb, hns, hres, hold⟩
  | namespaces h =>
      refine ⟨huser, hgroup, hverb, hR h hns, hres, fun hnil hnil' => ?_⟩
      exact (hpath hnil hnil').elim Or.inl fun hboth => hold hboth.1 hboth.2
  | resources h =>
      refine ⟨huser, hgroup, hverb, hns, hR h hres, fun hnil hnil' => ?_⟩
      exact (hpath hnil hnil').elim Or.inl fun hboth => hold hboth.1 hboth.2
  | paths h =>
      exact ⟨huser, hgroup, hverb, hns, hres, fun hnil hnil' => hR h (hold hnil hnil')⟩
  | @types earlier later s xs hs h =>
      have happlies : s.Applies a → { s with types := xs }.Applies a := by
        rw [ResourceSelector.applies_iff_meets, ResourceSelector.applies_iff_meets]
        rintro ⟨hgroup, hnames, htypes⟩
        refine ⟨hgroup, fun hxs => hnames fun hnil => hxs ?_, hR h htypes⟩
        exact eq_nil_of_meets (hR h (.inl hnil))
      rw [hs] at hres
      exact ⟨huser, hgroup, hverb, hns, hres.replace (And.imp_right happlies),
        fun _ hnil => absurd hnil (by simp)⟩
  | @names earlier later s xs hs h =>
      have happlies : s.Applies a → { s with names := xs }.Applies a := by
        rw [ResourceSelector.applies_iff_meets, ResourceSelector.applies_iff_meets]
        rintro ⟨hgroup, hnames, htypes⟩
        exact ⟨hgroup, fun hne => hR h (hnames hne), htypes⟩
      rw [hs] at hres
      exact ⟨huser, hgroup, hverb, hns, hres.replace (And.imp_right happlies),
        fun _ hnil => absurd hnil (by simp)⟩

/-- The rule does not select both resources and paths. -/
def IsUnmixed (r : Rule) : Prop := r.paths = [] ∨ (r.resources = [] ∧ r.namespaces = [])

theorem IsUnmixed.edit (hu : r.IsUnmixed) (h : r.Edit Widened r') : r'.IsUnmixed := by
  obtain ⟨hns, hres, hpaths⟩ := h.eq_nil Widened.eq_nil
  exact hu.imp hpaths fun hboth => ⟨hres hboth.1, hns hboth.2⟩

theorem selects_of_widened (hu : r.IsUnmixed) (h : r.Edit Widened r')
    (hselects : r.selects a = true) : r'.selects a = true := by
  rw [selects_iff_conditions] at hselects ⊢
  refine hselects.edit Widened.meets h fun _ _ => ?_
  obtain ⟨-, -, hpaths⟩ := h.eq_nil Widened.eq_nil
  exact hu.imp hpaths fun hboth => ⟨hboth.2, hboth.1⟩

theorem selects_of_edit
    (hR : ∀ {β : Type} {xs ys : List β} {p : β → Prop}, R xs ys → Meets xs p → Meets ys p)
    (hnil : ∀ {β : Type} {xs ys : List β}, R xs ys → ys = [] → xs = [])
    (h : r.Edit R r') (hselects : r.selects a = true) : r'.selects a = true := by
  rw [selects_iff_conditions] at hselects ⊢
  obtain ⟨hns, hres, -⟩ := h.symm.eq_nil hnil
  exact hselects.edit hR h fun hnone hnone' => .inr ⟨hns hnone, hres hnone'⟩

theorem selects_eq_of_sameElements (h : r.Edit SameElements r') : r'.selects a = r.selects a := by
  rw [Bool.eq_iff_iff]
  constructor
  · exact selects_of_edit (fun hxs => hxs.symm.meets) SameElements.eq_nil h.symm
  · exact selects_of_edit SameElements.meets (fun hxs => hxs.symm.eq_nil) h

/-- Of a rule that is accepted lists may be emptied, and lists that are not empty may be extended,
one after another: the rule keeps all requests. Of every rule lists may be replaced by lists with
the same elements: the rule selects the same requests. -/
theorem selects_edited (r : Rule) (a : α) :
    (r.offence? = none → r.selects a = true →
      ∀ r', Relation.ReflTransGen (Edit Widened) r r' → r'.selects a = true) ∧
    ∀ r', Relation.ReflTransGen (Edit SameElements) r r' → r'.selects a = r.selects a := by
  refine ⟨fun haccepted hselects r' hedits => ?_, fun r' hedits => ?_⟩
  · have hkeeps : r'.IsUnmixed ∧ r'.selects a = true := by
      induction hedits with
      | refl => exact ⟨(r.offence?_eq_none_iff.mp haccepted).1, hselects⟩
      | tail _ hedit ih => exact ⟨ih.1.edit hedit, selects_of_widened ih.1 hedit ih.2⟩
    exact hkeeps.2
  · induction hedits with
    | refl => rfl
    | tail _ hedit ih => exact (selects_eq_of_sameElements hedit).trans ih

/-- A rule that loses the names of a selector and is given a namespace, and that of its selectors
in the other order. -/
theorem selects_edited_pods :
    let pods : ResourceSelector := { types := ["pods"], names := ["web"] }
    let nodes : ResourceSelector := { types := ["nodes"] }
    let r : Rule := { namespaces := ["dev"], resources := [pods, nodes] }
    let q := Request.forResource "get" { type := "pods", name := "web", ns := "dev" }
    r.offence? = none ∧ r.selects q = true ∧
      ({ namespaces := ["ops", "dev"], resources := [{ types := ["pods"] }, nodes] } : Rule).selects
        q = true ∧
      ({ r with resources := [nodes, pods, nodes] } : Rule).selects q = true := by
  intro pods nodes r q
  obtain ⟨hwidened, hsame⟩ := selects_edited r q
  have haccepted : r.offence? = none := by decide
  have hselects : r.selects q = true := by decide
  have hfirst : r.resources = [] ++ pods :: [nodes] := rfl
  have hnamed : r.Edit Widened { r with resources := [{ types := ["pods"] }, nodes] } :=
    .names hfirst (.inl rfl)
  have hspaced : Edit Widened { r with resources := [{ types := ["pods"] }, nodes] }
      { namespaces := ["ops", "dev"], resources := [{ types := ["pods"] }, nodes] } :=
    .namespaces (.inr ⟨by decide, by decide⟩)
  have hturned : r.Edit SameElements { r with resources := [nodes, pods, nodes] } := by
    refine .resources fun s => ?_
    simp only [r, List.mem_cons, List.not_mem_nil, or_false]
    tauto
  have hedits := (Relation.ReflTransGen.single hnamed).tail hspaced
  exact ⟨haccepted, hselects, hwidened haccepted hselects _ hedits,
    (hsame _ (.single hturned)).trans hselects⟩

/-- A rule with both paths and namespaces, which is not accepted, loses a request with its
namespaces. -/
example :
    let r : Rule := { namespaces := ["dev"], paths := ["/healthz"] }
    let q := Request.forResource "get" { type := "pods", ns := "dev" }
    r.selects q = true ∧ ({ r with namespaces := [] } : Rule).selects q = false := by decide

end Rule

end RequestAudit
