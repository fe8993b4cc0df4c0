import Mathlib
import RequestAudit.Policy.Loading
import RequestAudit.Proofs.Stars

/-!
# Which policies are accepted

A policy is accepted exactly if it obeys the documented rules, but for one of them: a path spec
may contain the star only as its last character, and what is tested is that no star is left
before the run of stars at the end. So `/a*` and `/a**` are both accepted.
-/

namespace RequestAudit

open Text

/-- The documented form of a path spec: the star, or a text that begins with a slash and has at
most one star, at its end. -/
def IsPathSpec (path : String) : Prop :=
  path = "*" ∨ (path.toList.head? = some '/' ∧ path.toList.count '*' ≤ 1 ∧
    ('*' ∈ path.toList → path.toList.getLast? = some '*'))

/-- The accepted form of a path spec: the star, or a text that begins with a slash, with any
number of stars behind it. -/
def IsStarredPathSpec (path : String) : Prop :=
  path = "*" ∨ ∃ stem n, path.toList = '/' :: stem ++ List.replicate n '*' ∧ '*' ∉ stem

/-- The rules for policies, of which the form of path specs is left open. -/
structure Policy.Lawful (Spec : String → Prop) (p : Policy) : Prop where
  version : p.apiVersion ∈
    ["audit.k8s.io/v1", "audit.k8s.io/v1beta1", "audit.k8s.io/v1alpha1"]
  kind : p.kind = "Policy"
  unmixed : ∀ r ∈ p.rules, r.paths = [] ∨ (r.resources = [] ∧ r.namespaces = [])
  paths : ∀ r ∈ p.rules, ∀ path ∈ r.paths, Spec path
  types : ∀ r ∈ p.rules, ∀ s ∈ r.resources, "" ∉ s.types

/-- What is tested of a path spec: its first character, and its stem for stars. -/
theorem isStarredPathSpec_iff (path : String) :
    IsStarredPathSpec path ↔ path = "*" ∨ (path.toList.head? = some '/' ∧
      '*' ∉ dropEndWhile (· == '*') path.toList) := by
  refine or_congr_right ?_
  obtain ⟨n, hn⟩ := eq_dropEndWhile_append_replicate '*' path.toList
  constructor
  · rintro ⟨stem, m, hpath, hstem⟩
    have hinner : '*' ∉ '/' :: stem := by simp [hstem]
    have hlast : ('/' :: stem).getLast? ≠ some '*' :=
      fun h => hinner (List.mem_of_getLast? h)
    refine ⟨by simp [hpath], ?_⟩
    rw [hpath, dropEndWhile_append_replicate hlast]
    exact hinner
  · rintro ⟨hhead, hinner⟩
    cases hstem : dropEndWhile (· == '*') path.toList with
    | nil =>
        rw [hstem] at hn
        cases n <;> simp [hn, List.replicate_succ] at hhead
    | cons c stem =>
        rw [hstem] at hn hinner
        have hc : c = '/' := by simpa [hn] using hhead
        exact ⟨stem, n, hc ▸ hn, fun hmem => hinner (List.mem_cons_of_mem c hmem)⟩

/-- The documented form excludes two stars at the end, which the accepted form allows. -/
theorem isPathSpec_iff (path : String) :
    IsPathSpec path ↔ IsStarredPathSpec path ∧ ¬['*', '*'] <:+ path.toList := by
  rw [isStarredPathSpec_iff, IsPathSpec, count_le_one_and_last_iff]
  constructor
  · rintro (rfl | ⟨hhead, hinner, hsuffix⟩)
    · exact ⟨Or.inl rfl, by decide⟩
    · exact ⟨Or.inr ⟨hhead, hinner⟩, hsuffix⟩
  · rintro ⟨hstar | ⟨hhead, hinner⟩, hsuffix⟩
    · exact Or.inl hstar
    · exact Or.inr ⟨hhead, hinner, hsuffix⟩

theorem pathOffence?_eq_none_iff (path : String) :
    pathOffence? path = none ↔ IsStarredPathSpec path := by
  rw [isStarredPathSpec_iff]
  unfold pathOffence?
  split_ifs with hstar hhead hinner <;> simp_all

theorem ResourceSelector.offence?_eq_none_iff (s : ResourceSelector) :
    s.offence? = none ↔ "" ∉ s.types := by
  simp [offence?]

theorem Rule.offence?_eq_none_iff (r : Rule) :
    r.offence? = none ↔
      (r.paths = [] ∨ (r.resources = [] ∧ r.namespaces = [])) ∧
        (∀ path ∈ r.paths, IsStarredPathSpec path) ∧ ∀ s ∈ r.resources, "" ∉ s.types := by
  have hmixed : (r.selectsResources && !r.paths.isEmpty) = true ↔
      ¬(r.paths = [] ∨ (r.resources = [] ∧ r.namespaces = [])) := by
    simp [selectsResources]
    tauto
  unfold offence?
  by_cases hm : (r.selectsResources && !r.paths.isEmpty) = true
  · rw [if_pos hm]
    simp [hmixed.mp hm]
  · rw [if_neg hm, Option.or_eq_none_iff, List.findSome?_eq_none_iff, List.findSome?_eq_none_iff]
    simp only [pathOffence?_eq_none_iff, ResourceSelector.offence?_eq_none_iff,
      not_not.mp (mt hmixed.mpr hm), true_and]

theorem Rule.firstOffence?_eq_none_iff (rs : List Rule) (place : ℕ) :
    firstOffence? place rs = none ↔ ∀ r ∈ rs, r.offence? = none := by
  induction rs generalizing place with
  | nil => simp [firstOffence?]
  | cons r rs ih =>
      rw [firstOffence?, List.forall_mem_cons]
      cases hr : r.offence? with
      | none => simp [ih]
      | some o => simp

namespace Policy

theorem offence?_eq_none_iff (p : Policy) : p.offence? = none ↔ p.Lawful IsStarredPathSpec := by
  unfold offence?
  constructor
  · intro h
    split_ifs at h with hversion hkind
    rw [Rule.firstOffence?_eq_none_iff] at h
    have hrules := fun r hr => (Rule.offence?_eq_none_iff r).mp (h r hr)
    have hcontains : supportedVersions.contains p.apiVersion = true := by simpa using hversion
    exact ⟨List.contains_iff_mem.mp hcontains, not_not.mp hkind,
      fun r hr => (hrules r hr).1, fun r hr => (hrules r hr).2.1, fun r hr => (hrules r hr).2.2⟩
  · intro h
    have hversion : supportedVersions.contains p.apiVersion = true :=
      List.contains_iff_mem.mpr h.version
    rw [if_neg (by simpa using hversion), if_neg (not_not.mpr h.kind),
      Rule.firstOffence?_eq_none_iff]
    intro r hr
    exact (r.offence?_eq_none_iff).mpr ⟨h.unmixed r hr, h.paths r hr, h.types r hr⟩

theorem lawful_isPathSpec_iff (p : Policy) :
    p.Lawful IsPathSpec ↔ p.Lawful IsStarredPathSpec ∧
      ∀ r ∈ p.rules, ∀ path ∈ r.paths, ¬['*', '*'] <:+ path.toList := by
  constructor
  · intro h
    have hpaths := fun r hr path hpath => (isPathSpec_iff path).mp (h.paths r hr path hpath)
    exact ⟨⟨h.version, h.kind, h.unmixed, fun r hr path hpath => (hpaths r hr path hpath).1,
      h.types⟩, fun r hr path hpath => (hpaths r hr path hpath).2⟩
  · rintro ⟨h, hsingle⟩
    exact ⟨h.version, h.kind, h.unmixed, fun r hr path hpath =>
      (isPathSpec_iff path).mpr ⟨h.paths r hr path hpath, hsingle r hr path hpath⟩, h.types⟩

theorem ofYaml_eq_ok_iff (s : String) (p : Policy) :
    ofYaml s = .ok p ↔ Yaml.decodeText Policy.read s = .ok p ∧ p.Lawful IsStarredPathSpec := by
  cases hread : Yaml.decodeText Policy.read s with
  | error problem => simp [ofYaml, hread]
  | ok q =>
      cases hoffence : q.offence? with
      | none =>
          have hlawful := q.offence?_eq_none_iff.mp hoffence
          simp only [ofYaml, hread, hoffence, Except.ok.injEq]
          exact ⟨fun h => ⟨h, h ▸ hlawful⟩, And.left⟩
      | some o =>
          simp only [ofYaml, hread, hoffence, reduceCtorEq, Except.ok.injEq, false_iff, not_and]
          rintro rfl hlawful
          rw [q.offence?_eq_none_iff.mpr hlawful] at hoffence
          cases hoffence

/-- A text is accepted exactly if it decodes to a policy that obeys the rules, stars at the end
of path specs being free, and it gives that very policy. Any other text is refused. Acceptance
follows the documented rules but for the policies that break them only by a second star. -/
theorem ofYaml_accepts (s : String) :
    (∀ p, ofYaml s = .ok p ↔
      Yaml.decodeText Policy.read s = .ok p ∧ p.Lawful IsStarredPathSpec) ∧
    ((∃ refusal, ofYaml s = .error refusal) ↔
      ¬∃ p, Yaml.decodeText Policy.read s = .ok p ∧ p.Lawful IsStarredPathSpec) ∧
    ∀ p, ((ofYaml s = .ok p ↔
        Yaml.decodeText Policy.read s = .ok p ∧ p.Lawful IsPathSpec) ↔
      ¬(Yaml.decodeText Policy.read s = .ok p ∧ p.Lawful IsStarredPathSpec ∧
        ∃ r ∈ p.rules, ∃ path ∈ r.paths, ['*', '*'] <:+ path.toList)) := by
  refine ⟨ofYaml_eq_ok_iff s, ?_, fun p => ?_⟩
  · cases hload : ofYaml s with
    | error refusal =>
        simp only [Except.error.injEq, exists_eq', true_iff]
        rintro ⟨p, hp⟩
        rw [← ofYaml_eq_ok_iff, hload] at hp
        cases hp
    | ok p =>
        simp only [reduceCtorEq, exists_false, false_iff, not_not]
        exact ⟨p, (ofYaml_eq_ok_iff s p).mp hload⟩
  · have hdouble : (∃ r ∈ p.rules, ∃ path ∈ r.paths, ['*', '*'] <:+ path.toList) ↔
        ¬∀ r ∈ p.rules, ∀ path ∈ r.paths, ¬['*', '*'] <:+ path.toList := by
      push Not
      rfl
    rw [ofYaml_eq_ok_iff, lawful_isPathSpec_iff, hdouble]
    tauto

/-- A path spec that ends in two stars is accepted against the documented rules. -/
theorem not_documented_rules_decide :
    ¬∀ s p, Yaml.decodeText Policy.read s = .ok p →
      (ofYaml s = .ok p ↔ p.Lawful IsPathSpec) := by
  intro h
  have hread : Yaml.decodeText Policy.read
      "rules:\n- level: Metadata\n  nonResourceURLs: ['/a**']\n" =
        .ok { rules := [{ level := .metadata, paths := ["/a**"] }] } := by cbv
  have hload : ofYaml "rules:\n- level: Metadata\n  nonResourceURLs: ['/a**']\n" =
      .ok { rules := [{ level := .metadata, paths := ["/a**"] }] } := by
    rw [ofYaml, hread]
    rfl
  have hlawful := (h _ _ hread).mp hload
  have hspec := hlawful.paths _ (List.mem_singleton.mpr rfl) "/a**" (List.mem_singleton.mpr rfl)
  rcases hspec with hstar | ⟨-, hcount, -⟩
  · exact absurd hstar (by decide)
  · exact absurd hcount (by decide)

end Policy

end RequestAudit
