import RequestAudit.Proofs.Acceptance
import RequestAudit.Proofs.PolicyData
import RequestAudit.Proofs.YamlData

/-!
# Policies read back from their text

The YAML text of a policy that was read reads as the same policy, and so does that of its normal
form and that of the rules that are tried.
-/

namespace RequestAudit

open Document
open Document.Datum (forall_always forall_ifSome forall_unlessEmpty)
open Yaml (Fits IsKey)

/-! ## Data -/

theorem fits_list {α : Type} {f : α → Datum} {xs : List α} (h : ∀ x ∈ xs, Fits (f x))
    (hne : ∀ x ∈ xs, f x ≠ .list []) : Fits (.list (xs.map f)) := by
  refine .list (List.forall_mem_map.mpr h) fun hmem => ?_
  obtain ⟨x, hx, hnil⟩ := List.mem_map.mp hmem
  exact hne x hx hnil

theorem fits_texts (ss : List String) : Fits (.texts ss) :=
  fits_list (fun s _ => .text s) (by simp)

theorem Stage.fits_data (ss : List Stage) : Fits (data ss) :=
  fits_list (fun s _ => .text s.name) (by simp [Stage.datum])

/-- A field that a record of YAML text can have. -/
def FitsField (f : String × Datum) : Prop := IsKey f.1 ∧ Fits f.2

theorem fits_record {fs : List (String × Datum)} (hne : fs ≠ []) (h : ∀ f ∈ fs, FitsField f) :
    Fits (.record fs) :=
  .record hne (fun f hf => (h f hf).1) fun f hf => (h f hf).2

theorem fits_always {name : String} {d : Datum} (hname : IsKey name) (h : Fits d) :
    ∀ f ∈ Datum.always name d, FitsField f :=
  forall_always ⟨hname, h⟩

theorem fits_unlessEmpty {α : Type} {name : String} {xs : List α} {g : List α → Datum}
    (hname : IsKey name) (h : Fits (g xs)) : ∀ f ∈ Datum.unlessEmpty name xs g, FitsField f :=
  forall_unlessEmpty ⟨hname, h⟩

theorem fits_ifSome {α : Type} {name : String} {x : Option α} {g : α → Datum} (hname : IsKey name)
    (h : ∀ a, Fits (g a)) : ∀ f ∈ Datum.ifSome name x g, FitsField f :=
  forall_ifSome fun a _ => ⟨hname, h a⟩

theorem ResourceSelector.fits_datum (s : ResourceSelector) : Fits s.datum := by
  refine fits_record (by simp [Datum.always]) ?_
  simp only [List.forall_mem_append]
  exact ⟨⟨fits_always (by decide +kernel) (.text _), fits_unlessEmpty (by decide +kernel) (fits_texts _)⟩,
    fits_unlessEmpty (by decide +kernel) (fits_texts _)⟩

theorem Rule.fits_datum (r : Rule) : Fits r.datum := by
  have hresources : Fits (.list (r.resources.map ResourceSelector.datum)) :=
    fits_list (fun s _ => s.fits_datum) (by simp [ResourceSelector.datum])
  refine fits_record (by simp [Datum.always]) ?_
  simp only [List.forall_mem_append]
  exact ⟨⟨⟨⟨⟨⟨⟨⟨fits_always (by decide +kernel) (.text _), fits_unlessEmpty (by decide +kernel) (fits_texts _)⟩,
    fits_unlessEmpty (by decide +kernel) (fits_texts _)⟩, fits_unlessEmpty (by decide +kernel) (fits_texts _)⟩,
    fits_unlessEmpty (by decide +kernel) (hresources)⟩, fits_unlessEmpty (by decide +kernel) (fits_texts _)⟩,
    fits_unlessEmpty (by decide +kernel) (fits_texts _)⟩,
    fits_unlessEmpty (by decide +kernel) (Stage.fits_data _)⟩,
    fits_ifSome (by decide +kernel) .flag⟩

theorem Rule.fits_data (rs : List Rule) : Fits (data rs) :=
  fits_list (fun r _ => r.fits_datum) (by simp [Rule.datum])

namespace Policy

theorem fits_datum (p : Policy) : Fits p.datum := by
  refine fits_record (by simp [Datum.always]) ?_
  simp only [List.forall_mem_append]
  exact ⟨⟨⟨⟨fits_always (by decide +kernel) (.text _), fits_always (by decide +kernel) (.text _)⟩,
    fits_always (by decide +kernel) (Rule.fits_data _)⟩,
    fits_unlessEmpty (by decide +kernel) (Stage.fits_data _)⟩, fits_always (by decide +kernel) (.flag _)⟩

/-! ## Texts -/

/-- Any policy at all is read back, with the stages of its stages' names. -/
theorem decodeText_toYaml (p : Policy) : Yaml.decodeText read p.toYaml = .ok p.byName :=
  Yaml.decodeText_render p.reads_datum p.fits_datum (.inr ⟨_, rfl⟩)

theorem decodeText_rulesToYaml (rs : List Rule) :
    Yaml.decodeText (readList Rule.read) (rulesToYaml rs) = .ok (rs.map Rule.byName) :=
  Yaml.decodeText_render (Rule.reads_data rs) (Rule.fits_data rs) (.inl ⟨_, rfl⟩)

/-! ## Normal forms -/

theorem forall_mem_normal_rules {p : Policy} {P : Rule → Prop} :
    (∀ r ∈ p.normal.rules, P r) ↔
      ∀ r ∈ p.rules, P { r with omitStages := Stage.union [p.omitStages, r.omitStages] } :=
  List.forall_mem_map

theorem HasNamedStages.normal {p : Policy} (h : p.HasNamedStages) : p.normal.HasNamedStages := by
  refine ⟨h.general, forall_mem_normal_rules.mpr fun r hr s hs => ?_⟩
  have hmem : s ∈ p.omitStages ∨ s ∈ r.omitStages := by
    simpa [Stage.union_eq_eraseDups] using hs
  rcases hmem with hs | hs
  · exact h.general s hs
  · exact h.ofRules r hr s hs

theorem Lawful.normal {Spec : String → Prop} {p : Policy} (h : p.Lawful Spec) :
    p.normal.Lawful Spec where
  version := h.version
  kind := h.kind
  unmixed := forall_mem_normal_rules.mpr h.unmixed
  paths := forall_mem_normal_rules.mpr h.paths
  types := forall_mem_normal_rules.mpr h.types

theorem ofYaml_toYaml {p : Policy} (hstages : p.HasNamedStages) (hlawful : p.Lawful IsStarredPathSpec) :
    ofYaml p.toYaml = .ok p := by
  refine (ofYaml_eq_ok_iff _ _).mpr ⟨?_, hlawful⟩
  rw [decodeText_toYaml, hstages.byName_eq]

/-- Whatever texts a policy has, the rules that are tried read back from the text that shows them,
and the normal policy loads from its own text. -/
theorem rendered_reads_back {s : String} {p : Policy} (h : ofYaml s = .ok p) :
    Yaml.decodeText (readList Rule.read) (rulesToYaml (Evaluator.ofPolicy p).rules) =
        .ok (Evaluator.ofPolicy p).rules ∧
      ofYaml p.normal.toYaml = .ok p.normal := by
  obtain ⟨hread, hlawful⟩ := (ofYaml_eq_ok_iff s p).mp h
  have hstages := (Decoded.hasNamedStages (.yamlText s hread)).normal
  constructor
  · have hrules : (Evaluator.ofPolicy p).rules = p.normal.rules := rfl
    rw [hrules, decodeText_rulesToYaml, hstages.rules_byName]
  · exact ofYaml_toYaml hstages hlawful.normal

set_option maxRecDepth 2000 in
/-- Texts that are written in all the styles that there are. -/
theorem rendered_reads_back_odd :
    let users := ["", " a ", "null", "- 1", " b\n\n", "c: \x1b\né"]
    let p : Policy := { omitStages := [.panic], rules :=
      [{ level := .metadata, users, omitStages := [.other "~", .panic] }] }
    Yaml.decodeText (readList Rule.read) (rulesToYaml (Evaluator.ofPolicy p).rules) =
        .ok (Evaluator.ofPolicy p).rules ∧
      ofYaml p.normal.toYaml = .ok p.normal := by
  intro users p
  have hload : ofYaml ("omitStages: [Panic]\nrules:\n- level: Metadata\n  users: ['', ' a ', "
      ++ "'null', '- 1', \" b\\n\\n\", \"c: \\e\\né\"]\n"
      ++ "  omitStages: ['~', Panic]\n") = .ok p := by cbv
  exact rendered_reads_back hload

end Policy

end RequestAudit
