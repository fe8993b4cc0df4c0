import Mathlib.Data.List.Nodup
import RequestAudit.Evaluator
import RequestAudit.Proofs.PolicyData
import RequestAudit.Proofs.SettledValues

/-!
# Policies as JSON

What is left out of a written policy is what a blank one has, and no record has a name twice. So
a policy reads back from its JSON, as a text or as a value with the keys in order, up to stages
that bear the name of another one.
-/

namespace RequestAudit

open Document
open Document.Datum (forall_always forall_ifSome forall_unlessEmpty names_always names_ifSome
  names_unlessEmpty)
open Json (Regular Respects commutes_field regular_map respects_flag respects_record
  respects_text)

/-! ## Selectors -/

namespace ResourceSelector

theorem regular_datum (s : ResourceSelector) : Regular s.datum := by
  apply Regular.record
  · have hnames : ["group", "resources", "resourceNames"].Nodup := by decide
    simp only [List.map_append]
    exact .sublist (((names_always _ _).append (names_unlessEmpty _ _ _)).append
      (names_unlessEmpty _ _ _)) hnames
  · simp only [List.forall_mem_append]
    exact ⟨⟨forall_always (.text _), forall_unlessEmpty (regular_map _ .text)⟩,
      forall_unlessEmpty (regular_map _ .text)⟩

theorem respects_read : Respects (read : Json.Place → Except Fault ResourceSelector) := by
  apply respects_record
  · simp only [fields, List.forall_mem_cons, List.not_mem_nil, IsEmpty.forall_iff, implies_true,
      and_true]
    exact ⟨(respects_text _).map _, (respects_text _).list.map _, (respects_text _).list.map _⟩
  · simp only [fields, List.pairwise_cons, List.forall_mem_cons, List.not_mem_nil,
      IsEmpty.forall_iff, implies_true, and_true, List.Pairwise.nil]
    and_intros <;> exact commutes_field fun _ _ _ => rfl

end ResourceSelector

/-! ## Rules -/

theorem Level.respects_read : Respects (read : Json.Place → Except Fault Level) := by
  intro d hd l hl
  obtain ⟨s, hs, hlevel⟩ := bind_eq_ok.mp hl
  refine bind_eq_ok.mpr ⟨s, Json.respects_choice names d hd s hs, ?_⟩
  cases hname : ofName? s with
  | none =>
      rw [hname] at hlevel
      cases hlevel
  | some l' =>
      rw [hname] at hlevel
      exact hlevel

theorem Stage.respects_read : Respects (read : Json.Place → Except Fault Stage) :=
  (respects_text _).map ofName

namespace Rule

theorem regular_datum (r : Rule) : Regular r.datum := by
  apply Regular.record
  · have hnames : ["level", "users", "userGroups", "verbs", "resources", "namespaces",
        "nonResourceURLs", "omitStages", "omitManagedFields"].Nodup := by decide
    simp only [List.map_append]
    exact .sublist (((((((((names_always _ _).append (names_unlessEmpty _ _ _)).append
      (names_unlessEmpty _ _ _)).append (names_unlessEmpty _ _ _)).append
      (names_unlessEmpty _ _ _)).append (names_unlessEmpty _ _ _)).append
      (names_unlessEmpty _ _ _)).append (names_unlessEmpty _ _ _)).append
      (names_ifSome _ _ _)) hnames
  · simp only [List.forall_mem_append]
    exact ⟨⟨⟨⟨⟨⟨⟨⟨forall_always (.text _), forall_unlessEmpty (regular_map _ .text)⟩,
      forall_unlessEmpty (regular_map _ .text)⟩, forall_unlessEmpty (regular_map _ .text)⟩,
      forall_unlessEmpty (regular_map _ ResourceSelector.regular_datum)⟩,
      forall_unlessEmpty (regular_map _ .text)⟩, forall_unlessEmpty (regular_map _ .text)⟩,
      forall_unlessEmpty (regular_map _ fun s => .text s.name)⟩,
      forall_ifSome fun b _ => .flag b⟩

theorem respects_read : Respects (read : Json.Place → Except Fault Rule) := by
  have htexts : Respects (readList readText) := (respects_text _).list
  apply respects_record
  · simp only [fields, List.forall_mem_cons, List.not_mem_nil, IsEmpty.forall_iff, implies_true,
      and_true]
    exact ⟨Level.respects_read.map _, htexts.map _, htexts.map _, htexts.map _,
      ResourceSelector.respects_read.list.map _, htexts.map _, htexts.map _,
      Stage.respects_read.list.map _, respects_flag.option.map _⟩
  · simp only [fields, List.pairwise_cons, List.forall_mem_cons, List.not_mem_nil,
      IsEmpty.forall_iff, implies_true, and_true, List.Pairwise.nil]
    and_intros <;> exact commutes_field fun _ _ _ => rfl

end Rule

/-! ## Policies -/

namespace Policy

theorem regular_datum (p : Policy) : Regular p.datum := by
  apply Regular.record
  · have hnames : ["apiVersion", "kind", "rules", "omitStages", "omitManagedFields"].Nodup := by
      decide
    simp only [List.map_append]
    exact .sublist (((((names_always _ _).append (names_always _ _)).append
      (names_always _ _)).append (names_unlessEmpty _ _ _)).append (names_always _ _)) hnames
  · simp only [List.forall_mem_append]
    exact ⟨⟨⟨⟨forall_always (.text _), forall_always (.text _)⟩,
      forall_always (regular_map _ Rule.regular_datum)⟩,
      forall_unlessEmpty (regular_map _ fun s => .text s.name)⟩, forall_always (.flag _)⟩

theorem respects_read : Respects (read : Json.Place → Except Fault Policy) := by
  apply respects_record
  · simp only [fields, List.forall_mem_cons, List.not_mem_nil, IsEmpty.forall_iff, implies_true,
      and_true]
    exact ⟨(respects_text _).map _, (respects_text _).map _, Rule.respects_read.list.map _,
      Stage.respects_read.list.map _, respects_flag.map _⟩
  · simp only [fields, List.pairwise_cons, List.forall_mem_cons, List.not_mem_nil,
      IsEmpty.forall_iff, implies_true, and_true, List.Pairwise.nil]
    and_intros <;> exact commutes_field fun _ _ _ => rfl

/-- The JSON of the policy, as a text and as a value, reads as `q`. -/
structure JsonReadsAs (p q : Policy) : Prop where
  text : Json.decodeText read (Json.render p.datum) = .ok q
  value : Json.decodeValue read (Json.ofDatum p.datum) = .ok q

theorem jsonReadsAs_byName (p : Policy) : p.JsonReadsAs p.byName :=
  ⟨Json.decodeText_render p.reads_datum p.regular_datum.fits,
    Json.decodeValue_ofDatum p.reads_datum respects_read p.regular_datum⟩

theorem Decoded.jsonReadsAs {p : Policy} (h : p.Decoded) : p.JsonReadsAs p := by
  have hread := p.jsonReadsAs_byName
  rwa [h.hasNamedStages.byName_eq] at hread

/-- The JSON of a policy loses nothing but under which of two stages a name stands, and a policy
that was read loses nothing at all. So what any value says of a policy is said again by the JSON
of the policy, and every request is judged alike. -/
theorem json_reads_back :
    (∀ p : Policy, p.JsonReadsAs p.byName) ∧
    (∀ p : Policy, p.Decoded → p.JsonReadsAs p) ∧
    (∀ (v : Json) (q : Policy), Json.decodeValue read v = .ok q → q.JsonReadsAs q ∧
      ∀ q', Json.decodeText read (Json.render q.datum) = .ok q' ∨
          Json.decodeValue read (Json.ofDatum q.datum) = .ok q' →
        ∀ (α : Type) [Attributes α] (a : α),
          (Evaluator.ofPolicy q').judge a = (Evaluator.ofPolicy q).judge a) := by
  refine ⟨jsonReadsAs_byName, fun p hp => hp.jsonReadsAs, fun v q hv => ?_⟩
  have hq : q.JsonReadsAs q := (Decoded.jsonValue v hv).jsonReadsAs
  refine ⟨hq, ?_⟩
  rintro q' (hq' | hq') α _ a
  · rw [Except.ok.inj (hq'.symm.trans hq.text)]
  · rw [Except.ok.inj (hq'.symm.trans hq.value)]

set_option maxRecDepth 4000 in
/-- A policy with a stage that bears the name of another one, and a value whose keys stand in no
order. -/
theorem json_reads_back_renamed :
    let p : Policy := { apiVersion := "", omitStages := [.other "Panic"], rules :=
      [{ level := .request, resources := [{ names := ["\n"] }], omitManagedFields? := some false }] }
    let v : Json := .object [(.string "rules", .array [.object [(.string "omitStages",
      .array [.string "Audit"]), (.string "level", .string "None")]]), (.string "kind", .string "")]
    let q : Policy := { kind := "", rules := [{ level := .none, omitStages := [.other "Audit"] }] }
    p.byName.omitStages = [.panic] ∧ p.JsonReadsAs p.byName ∧
      Json.decodeValue read v = .ok q ∧ q.Decoded ∧ q.JsonReadsAs q ∧
      ∀ q', Json.decodeText read (Json.render q.datum) = .ok q' →
        (Evaluator.ofPolicy q').judge (Request.forPath "get" "/") =
          (Evaluator.ofPolicy q).judge (Request.forPath "get" "/") := by
  intro p v q
  have hv : Json.decodeValue read v = .ok q := by cbv
  have hq : q.Decoded := .jsonValue v hv
  refine ⟨rfl, json_reads_back.1 p, hv, hq, json_reads_back.2.1 q hq, fun q' hq' => ?_⟩
  exact (json_reads_back.2.2 v q hv).2 q' (.inl hq') Request _

end Policy

end RequestAudit
