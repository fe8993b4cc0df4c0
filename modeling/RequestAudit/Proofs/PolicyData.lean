import RequestAudit.Proofs.OmittedNames
import RequestAudit.Proofs.ShownData

/-!
# Policies read back from data

In every notation that shows data, a policy reads back as itself, up to stages that bear the name
of another one: these are read as the stages of their names. A policy that was itself read has no
such stages.
-/

namespace RequestAudit

open Document

namespace Stage

/-- The stage that is read for the name of the stage. -/
def byName (s : Stage) : Stage := ofName s.name

theorem map_byName {ss : List Stage} (h : ∀ s ∈ ss, s.IsNamed) : ss.map byName = ss :=
  (List.map_congr_left h).trans (List.map_id ss)

/-- The names of the known stages. -/
def knownNames : List String := ["RequestReceived", "ResponseStarted", "ResponseComplete", "Panic"]

theorem isNamed_iff (s : Stage) : s.IsNamed ↔ ∀ n ∈ knownNames, s ≠ other n := by
  cases s with
  | other name =>
      grind [IsNamed, ofName, Stage.name, knownNames]
  | _ => simp [IsNamed, ofName, Stage.name]

end Stage

/-- The rule as it is read back. -/
def Rule.byName (r : Rule) : Rule := { r with omitStages := r.omitStages.map Stage.byName }

/-- The policy as it is read back. -/
def Policy.byName (p : Policy) : Policy :=
  { p with rules := p.rules.map Rule.byName, omitStages := p.omitStages.map Stage.byName }

theorem Policy.HasNamedStages.rules_byName {p : Policy} (h : p.HasNamedStages) :
    p.rules.map Rule.byName = p.rules := by
  refine (List.map_congr_left fun r hr => ?_).trans (List.map_id' p.rules)
  rw [Rule.byName, Stage.map_byName (h.ofRules r hr)]

theorem Policy.HasNamedStages.byName_eq {p : Policy} (h : p.HasNamedStages) : p.byName = p := by
  rw [Policy.byName, h.rules_byName, Stage.map_byName h.general]

variable {V : Type} {m : Type → Type} [Monad m] [LawfulMonad m] [Source V m] [ShowingSource V m]

theorem Level.reads_datum (l : Level) : Reads (read : V → m Level) l.datum l := by
  intro x hx
  have hmem : l.name ∈ names := List.mem_map_of_mem (mem_all l)
  have hname : ofName? l.name = some l := by cases l <;> decide
  rw [read, ShowingSource.choice hx hmem, pure_bind, hname]

theorem Stage.reads_datum (s : Stage) : Reads (read : V → m Stage) s.datum s.byName :=
  reads_map (reads_text s.name) ofName

theorem Stage.reads_data (ss : List Stage) :
    Reads (readList read : V → m (List Stage)) (data ss) (ss.map byName) :=
  reads_list fun s _ => reads_datum s

theorem ResourceSelector.reads_datum (s : ResourceSelector) :
    Reads (read : V → m ResourceSelector) s.datum s := by
  have hparts : s.datum = .record (List.flatten [Datum.always "group" (.text s.group),
      Datum.unlessEmpty "resources" s.types .texts,
      Datum.unlessEmpty "resourceNames" s.names .texts]) := by
    simp [datum]
  rw [hparts]
  refine reads_record "struct GroupResources" ?_ (by simp only [fields, field, List.map]; decide)
  exact .always (reads_text _) <| .unlessEmpty id (by decide) (reads_texts _) rfl <|
    .unlessEmpty id (by decide) (reads_texts _) rfl <| .nil _

theorem Rule.reads_datum (r : Rule) : Reads (read : V → m Rule) r.datum r.byName := by
  have hparts : r.datum = .record (List.flatten [Datum.always "level" r.level.datum,
      Datum.unlessEmpty "users" r.users .texts, Datum.unlessEmpty "userGroups" r.userGroups .texts,
      Datum.unlessEmpty "verbs" r.verbs .texts,
      Datum.unlessEmpty "resources" r.resources (fun xs => .list (xs.map ResourceSelector.datum)),
      Datum.unlessEmpty "namespaces" r.namespaces .texts,
      Datum.unlessEmpty "nonResourceURLs" r.paths .texts,
      Datum.unlessEmpty "omitStages" r.omitStages Stage.data,
      Datum.ifSome "omitManagedFields" r.omitManagedFields? .flag]) := by
    simp [datum]
  have hresources : Reads (V := V) (m := m) (readList ResourceSelector.read)
      (.list (r.resources.map ResourceSelector.datum)) r.resources := by
    simpa using reads_list (g := id) fun s (_ : s ∈ r.resources) => s.reads_datum
  rw [hparts]
  refine reads_record "struct PolicyRule" ?_ (by simp only [fields, field, List.map]; decide)
  exact .always r.level.reads_datum <|
    .unlessEmpty id (by decide) (reads_texts _) rfl <|
    .unlessEmpty id (by decide) (reads_texts _) rfl <|
    .unlessEmpty id (by decide) (reads_texts _) rfl <|
    .unlessEmpty id (by decide) hresources rfl <|
    .unlessEmpty id (by decide) (reads_texts _) rfl <|
    .unlessEmpty id (by decide) (reads_texts _) rfl <|
    .unlessEmpty (·.map Stage.byName) (by decide) (Stage.reads_data _) rfl <|
    .ifSome (by decide) (fun b _ => reads_flag b) rfl <| .nil _

theorem Rule.reads_data (rs : List Rule) :
    Reads (readList read : V → m (List Rule)) (data rs) (rs.map byName) :=
  reads_list fun r _ => r.reads_datum

theorem Policy.reads_datum (p : Policy) : Reads (read : V → m Policy) p.datum p.byName := by
  have hparts : p.datum = .record (List.flatten [Datum.always "apiVersion" (.text p.apiVersion),
      Datum.always "kind" (.text p.kind), Datum.always "rules" (Rule.data p.rules),
      Datum.unlessEmpty "omitStages" p.omitStages Stage.data,
      Datum.always "omitManagedFields" (.flag p.omitManagedFields)]) := by
    simp [datum]
  rw [hparts]
  refine reads_record "struct Policy" ?_ (by simp only [fields, field, List.map]; decide)
  exact .always (reads_text _) <| .always (reads_text _) <| .always (Rule.reads_data _) <|
    .unlessEmpty (·.map Stage.byName) (by decide) (Stage.reads_data _) rfl <|
    .always (reads_flag _) <| .nil _

end RequestAudit
