import Mathlib
import RequestAudit.Evaluator
import RequestAudit.Proofs.Reading
import RequestAudit.Proofs.Reference
import RequestAudit.Proofs.StageUnion

/-!
# Omitted stages by name

Users write names of stages, and the evaluator compares stages. A policy that was read holds no
stage under the name of another one, so that both agree: a stage is omitted exactly if its name
stands in the policy or in the first rule that applies, and the verdict lists every name once,
those of the policy first.
-/

namespace RequestAudit

open Document

theorem nodup_eraseDups {α : Type} [BEq α] [LawfulBEq α] (xs : List α) : xs.eraseDups.Nodup := by
  match xs with
  | [] => exact List.nodup_nil
  | x :: xs =>
      rw [List.eraseDups_cons, List.nodup_cons, List.mem_eraseDups]
      exact ⟨by simp, nodup_eraseDups _⟩
termination_by xs.length
decreasing_by exact Nat.lt_succ_of_le (List.length_filter_le _ _)

namespace Stage

/-- The stage is the one of its name. -/
def IsNamed (s : Stage) : Prop := ofName s.name = s

theorem isNamed_ofName (n : String) : (ofName n).IsNamed := by
  rw [IsNamed, name_ofName]

theorem IsNamed.ext {s t : Stage} (hs : s.IsNamed) (ht : t.IsNamed) (h : s.name = t.name) :
    s = t := by
  rw [← hs, h, ht]

theorem ofName_mem_iff {ss : List Stage} (h : ∀ s ∈ ss, s.IsNamed) (n : String) :
    ofName n ∈ ss ↔ n ∈ ss.map name := by
  rw [List.mem_map]
  constructor
  · intro hn
    exact ⟨ofName n, hn, name_ofName n⟩
  · rintro ⟨s, hs, rfl⟩
    rwa [h s hs]

/-- Stages that are told apart by their names are merged as their names are. -/
theorem map_name_eraseDups {ss : List Stage} (h : ∀ s ∈ ss, s.IsNamed) :
    ss.eraseDups.map name = (ss.map name).eraseDups := by
  match ss with
  | [] => rfl
  | s :: ss =>
      obtain ⟨hs, hss⟩ := List.forall_mem_cons.mp h
      have hrest : ∀ t ∈ ss.filter fun t => !t == s, t.IsNamed :=
        fun t ht => hss t (List.mem_of_mem_filter ht)
      -- The names are told apart where the stages are, so that the same ones are left out.
      have hnames : (ss.map name).filter (fun n => !n == s.name) =
          (ss.filter fun t => !t == s).map name := by
        rw [List.filter_map]
        congr 1
        apply List.filter_congr
        intro t ht
        by_cases hts : t = s
        · simp [hts]
        · have hname : t.name ≠ s.name := fun heq => hts ((hss t ht).ext hs heq)
          simp [hts, hname]
      rw [List.eraseDups_cons, List.map_cons, List.map_cons, List.eraseDups_cons, hnames,
        map_name_eraseDups hrest]
termination_by ss.length
decreasing_by exact Nat.lt_succ_of_le (List.length_filter_le _ _)

variable {V : Type} {m : Type → Type} [Monad m] [Source V m] [Outcomes m]

theorem ensures_read (place : V) : Ensures IsNamed (read place : m Stage) :=
  (ensures_true _).map fun n _ => isNamed_ofName n

end Stage

/-! ## Policies that were read -/

/-- All stages of the policy and of its rules are those of their names. -/
structure Policy.HasNamedStages (p : Policy) : Prop where
  general : ∀ s ∈ p.omitStages, s.IsNamed
  ofRules : ∀ r ∈ p.rules, ∀ s ∈ r.omitStages, s.IsNamed

/-- The policy was read, from a text in one of the notations or from a value at hand. -/
inductive Policy.Decoded (p : Policy) : Prop where
  | yamlText (s : String) (h : Yaml.decodeText read s = .ok p)
  | jsonText (s : String) (h : Json.decodeText read s = .ok p)
  | jsonValue (v : Json) (h : Json.decodeValue read v = .ok p)

section Reading

variable {V : Type} {m : Type → Type} [Monad m] [LawfulMonad m] [Source V m] [Outcomes m]

theorem ensures_readStages (place : V) :
    Ensures (fun ss : List Stage => ∀ s ∈ ss, s.IsNamed) (readList Stage.read place) :=
  ensures_readList Stage.ensures_read place

variable [FirmSource V m]

theorem Rule.ensures_read (place : V) :
    Ensures (fun r : Rule => ∀ s ∈ r.omitStages, s.IsNamed) (read place) := by
  refine ensures_readRecord ?_ (by simp) place
  simp only [fields, List.forall_mem_cons, List.not_mem_nil, IsEmpty.forall_iff, implies_true,
    and_true]
  refine ⟨?_, ?_, ?_, ?_, ?_, ?_, ?_, ?stages, ?_⟩
  case stages => exact keeps_field ensures_readStages fun ss hss _ _ => hss
  all_goals exact keeps_field_of_set fun _ _ h => h

theorem Policy.ensures_read (place : V) : Ensures HasNamedStages (read place : m Policy) := by
  refine ensures_readRecord ?_ ⟨by simp, by simp⟩ place
  simp only [fields, List.forall_mem_cons, List.not_mem_nil, IsEmpty.forall_iff, implies_true,
    and_true]
  refine ⟨?_, ?_, ?rules, ?stages, ?_⟩
  case rules =>
    exact keeps_field (ensures_readList Rule.ensures_read) fun rs hrs _ hp => ⟨hp.general, hrs⟩
  case stages => exact keeps_field ensures_readStages fun ss hss _ hp => ⟨hss, hp.ofRules⟩
  all_goals exact keeps_field_of_set fun _ _ hp => ⟨hp.general, hp.ofRules⟩

end Reading

namespace Policy

theorem Decoded.hasNamedStages {p : Policy} (h : p.Decoded) : p.HasNamedStages := by
  cases h with
  | yamlText s h => exact Yaml.of_decodeText Policy.ensures_read h
  | jsonText s h => exact Json.of_decodeText Policy.ensures_read h
  | jsonValue v h => exact Policy.ensures_read (⟨.value, v.settled⟩ : Json.Place) p h

/-! ## Verdicts -/

/-- The stages that the rule at a place declares to omit. -/
def stagesAt (p : Policy) (place? : Option ℕ) : List Stage :=
  ((place?.bind fun i => p.rules[i]?).map (·.omitStages)).getD []

/-- The names that the policy declares to omit whatever the rule. -/
def generalNames (p : Policy) : List String := p.omitStages.map Stage.name

/-- The names that the rule at a place declares to omit. -/
def namesAt (p : Policy) (place? : Option ℕ) : List String := (p.stagesAt place?).map Stage.name

variable {α : Type} [Attributes α]

/-- A decision on a request is made by the first rule that applies, and omits what the policy and
this rule name. -/
structure OmitsByName (p : Policy) (a : α) (d : Decision) : Prop where
  decides : d.rule? = p.rules.findIdx? fun r => r.Applies a
  literal : ∀ n, d.verdict.omits (.ofName n) = true ↔ n ∈ p.generalNames ∨ n ∈ p.namesAt d.rule?
  distinct : (d.verdict.omitStages.map Stage.name).Nodup
  general : (Evaluator.ofPolicy p).omitStages.map Stage.name = p.generalNames.eraseDups
  segment : (Evaluator.ofPolicy p).omitStages <+: d.verdict.omitStages
  names : d.verdict.omitStages.map Stage.name = p.generalNames.eraseDups ++
    ((p.namesAt d.rule?).filter fun n => n ∉ p.generalNames).eraseDups
  undecided : d.rule? = none → d.verdict.omitStages = (Evaluator.ofPolicy p).omitStages

theorem rule?_eq_findIdx?_applies (p : Policy) (a : α) :
    ((Evaluator.ofPolicy p).judge a).rule? = p.rules.findIdx? fun r => r.Applies a := by
  have happlies : (fun r : Rule => r.selects a) = fun r => decide (r.Applies a) := by
    funext r
    rw [Bool.eq_iff_iff, decide_eq_true_iff]
    exact r.selects_iff a
  rw [rule?_judge_ofPolicy, happlies]

theorem general_ofPolicy (p : Policy) :
    (Evaluator.ofPolicy p).omitStages = p.omitStages.eraseDups := by
  simp [Evaluator.ofPolicy, Stage.union_eq_eraseDups]

/-- Every verdict omits the stages of the policy and then those of its rule, each once. -/
theorem omitStages_of_judge (p : Policy) (a : α) :
    ((Evaluator.ofPolicy p).judge a).verdict.omitStages =
      (p.omitStages ++ p.stagesAt ((Evaluator.ofPolicy p).judge a).rule?).eraseDups := by
  have hrule : p.rules.find? (fun r => r.selects a) =
      ((Evaluator.ofPolicy p).judge a).rule?.bind fun i => p.rules[i]? := by
    rw [rule?_judge_ofPolicy]
    exact List.find?_eq_bind_findIdx?_getElem?
  rw [verdict_judge_ofPolicy, hrule, stagesAt]
  cases ((Evaluator.ofPolicy p).judge a).rule?.bind fun i => p.rules[i]? with
  | none => exact congrArg List.eraseDups (List.append_nil _).symm
  | some r => rfl

theorem HasNamedStages.stagesAt {p : Policy} (h : p.HasNamedStages) (place? : Option ℕ) :
    ∀ s ∈ p.stagesAt place?, s.IsNamed := by
  intro s hs
  cases hrule : place?.bind fun i => p.rules[i]? with
  | none => simp [Policy.stagesAt, hrule] at hs
  | some r =>
      obtain ⟨i, -, hi⟩ := Option.bind_eq_some_iff.mp hrule
      exact h.ofRules r (List.mem_of_getElem? hi) s (by simpa [Policy.stagesAt, hrule] using hs)

/-- Whatever is asked, a policy that was read omits the stages that it names: its own names and
those of the first rule that applies as they are written, each once and in this order. -/
theorem omitsByName_of_decoded {p : Policy} (hp : p.Decoded) (a : α) :
    p.OmitsByName a ((Evaluator.ofPolicy p).judge a) := by
  have hnamed := hp.hasNamedStages
  have hdecides := rule?_eq_findIdx?_applies p a
  have hstages := omitStages_of_judge p a
  generalize (Evaluator.ofPolicy p).judge a = d at hdecides hstages ⊢
  have hall : ∀ s ∈ p.omitStages ++ p.stagesAt d.rule?, s.IsNamed := by
    intro s hs
    rcases List.mem_append.mp hs with hs | hs
    · exact hnamed.general s hs
    · exact hnamed.stagesAt d.rule? s hs
  have hnames : d.verdict.omitStages.map Stage.name =
      (p.generalNames ++ p.namesAt d.rule?).eraseDups := by
    rw [hstages, Stage.map_name_eraseDups hall, List.map_append]
    rfl
  have hgeneral : (Evaluator.ofPolicy p).omitStages.map Stage.name = p.generalNames.eraseDups := by
    rw [general_ofPolicy, Stage.map_name_eraseDups hnamed.general]
    rfl
  refine ⟨hdecides, ?_, ?_, hgeneral, ?_, ?_, ?_⟩
  · intro n
    rw [Verdict.omits, List.contains_iff_mem, hstages, List.mem_eraseDups, Stage.ofName_mem_iff hall,
      List.map_append, List.mem_append]
    rfl
  · rw [hnames]
    exact nodup_eraseDups _
  · rw [hstages, general_ofPolicy, List.eraseDups_append]
    exact List.prefix_append _ _
  · rw [hnames, List.eraseDups_append, List.removeAll]
    simp only [List.elem_eq_contains, ← decide_not, List.contains_eq_mem]
  · intro hnone
    rw [hstages, hnone, general_ofPolicy]
    exact congrArg List.eraseDups (List.append_nil _)

set_option maxRecDepth 4000 in
/-- A text that repeats a stage of the policy in a rule and has an unknown one. Its second rule
applies to the same requests as the first one and has no say. -/
theorem omitsByName_of_decoded_unknown :
    let p : Policy := { omitStages := [.panic, .other "panic", .panic], rules :=
      [{ level := .metadata, verbs := ["get"], omitStages := [.other "Audit", .panic] },
        { level := .none, verbs := ["get"], omitStages := [.responseStarted] }] }
    let judged := (Evaluator.ofPolicy p).judge (Request.forPath "get" "/")
    let unmatched := (Evaluator.ofPolicy p).judge (Request.forPath "list" "/")
    p.Decoded ∧ judged.rule? = some 0 ∧
    judged.verdict.omitStages.map Stage.name = ["Panic", "panic", "Audit"] ∧
    (∀ n, judged.verdict.omits (.ofName n) = true ↔ n ∈ ["Panic", "panic", "Audit"]) ∧
    unmatched.rule? = none ∧ unmatched.verdict.omitStages = [.panic, .other "panic"] := by
  intro p judged unmatched
  have hread : Yaml.decodeText Policy.read ("omitStages: [Panic, panic, Panic]\nrules:\n"
      ++ "- level: Metadata\n  verbs: [get]\n  omitStages: [Audit, Panic]\n"
      ++ "- level: None\n  verbs: [get]\n  omitStages: [ResponseStarted]\n") = .ok p := by cbv
  have hp : p.Decoded := .yamlText _ hread
  have hjudged : p.OmitsByName _ judged := omitsByName_of_decoded hp _
  have hunmatched : p.OmitsByName _ unmatched := omitsByName_of_decoded hp _
  have hrule : judged.rule? = some 0 := hjudged.decides
  have hnone : unmatched.rule? = none := hunmatched.decides
  refine ⟨hp, hrule, ?_, fun n => ?_, hnone, hunmatched.undecided hnone⟩
  · rw [hjudged.names, hrule]
    rfl
  · rw [hjudged.literal, hrule]
    simp [generalNames, namesAt, stagesAt, p, Stage.name, or_comm, or_left_comm]

end Policy

end RequestAudit
