import Mathlib.Data.List.Forall2
import RequestAudit.Settings

/-!
# Declared settings

A settings file may leave out any of its fields. What it declares is read here without defaults.
The settings are what is declared, with a default for each field that is left out by itself, so a
file that declares a part of them, or none at all, settles just that part.
-/

namespace RequestAudit

open Document
open Yaml (Place Reading)

namespace Document

/-! ## Records and pictures of them -/

variable {R R' α α' : Type} {φ : R → R'}

/-- The second field reads what the first one reads, and changes the picture of a record as the
first one changes the record. -/
structure Field.Mirrors (φ : R → R') (f : Field Place Reading R) (f' : Field Place Reading R') :
    Prop where
  name : f.name = f'.name
  presence : f.presence = f'.presence
  read : ∀ place, ∃ (α : Type) (x : Reading α) (set : α → R → R) (set' : α → R' → R'),
    f.read place = set <$> x ∧ f'.read place = set' <$> x ∧ ∀ a r, φ (set a r) = set' a (φ r)

theorem mirrors_field {name : String} {presence : Presence} {read : Place → Reading α}
    {read' : Place → Reading α'} {set : α → R → R} {set' : α' → R' → R'} {ψ : α → α'}
    (hread : ∀ place, read' place = ψ <$> read place)
    (hset : ∀ a r, φ (set a r) = set' (ψ a) (φ r)) :
    (field name presence read set).Mirrors φ (field name presence read' set') where
  name := rfl
  presence := rfl
  read := fun place => ⟨α, read place, set, fun a => set' (ψ a), rfl, by
    simp only [field, hread, Functor.map_map], hset⟩

theorem map_refuse (f : α → α') (place : Place) (fault : Fault) :
    f <$> (Source.refuse place fault : Reading α) = Source.refuse place fault := rfl

variable {fields : List (Field Place Reading R)} {fields' : List (Field Place Reading R')}

theorem find?_mirrors (h : List.Forall₂ (Field.Mirrors φ) fields fields') (name : String) :
    fields.find? (·.name == name) = none ∧ fields'.find? (·.name == name) = none ∨
      ∃ f f', fields.find? (·.name == name) = some f ∧
        fields'.find? (·.name == name) = some f' ∧ f.Mirrors φ f' := by
  induction h with
  | nil => exact .inl ⟨rfl, rfl⟩
  | cons hf _ ih =>
      rename_i f f' fields fields' _
      rw [List.find?_cons, List.find?_cons, ← hf.name]
      cases f.name == name with
      | true => exact .inr ⟨f, f', rfl, rfl, hf⟩
      | false => exact ih

theorem absent?_mirrors (h : List.Forall₂ (Field.Mirrors φ) fields fields')
    (given : List String) : absent? fields' given = absent? fields given := by
  induction h with
  | nil => rfl
  | cons hf _ ih =>
      unfold absent? at ih ⊢
      rw [List.find?_cons, List.find?_cons, ← hf.name, ← hf.presence]
      split
      · exact congrArg some hf.name.symm
      · exact ih

theorem bind_mirrors {f : Field Place Reading R} {f' : Field Place Reading R'}
    (hf : f.Mirrors φ f') (place : Place) (r : R) {β β' : Type} {g : R → Reading β}
    {g' : R' → Reading β'} {ψ : β → β'} (hg : ∀ r, g' (φ r) = ψ <$> g r) :
    (f'.read place >>= fun change => g' (change (φ r))) =
      ψ <$> (f.read place >>= fun change => g (change r)) := by
  obtain ⟨_, x, set, set', hread, hread', hset⟩ := hf.read place
  rw [hread, hread', map_bind, bind_map_left, bind_map_left]
  refine bind_congr fun a => ?_
  rw [← hset, hg]

theorem readEntries_mirrors (h : List.Forall₂ (Field.Mirrors φ) fields fields') (record : Place)
    (entries : List (Place × Place)) (given : List String) (r : R) :
    readEntries record fields' entries given (φ r) =
      (fun q => (φ q.1, q.2)) <$> readEntries record fields entries given r := by
  induction entries generalizing given r with
  | nil => simp only [readEntries, map_pure]
  | cons e entries ih =>
      obtain ⟨k, x⟩ := e
      simp only [readEntries, map_bind]
      refine bind_congr fun name => ?_
      rcases find?_mirrors h name with ⟨hnone, hnone'⟩ | ⟨f, f', hsome, hsome', hf⟩
      · simp only [hnone, hnone', map_bind, ih]
      · simp only [hsome, hsome']
        split
        · exact (map_refuse _ _ _).symm
        · exact bind_mirrors hf x r fun r => ih (name :: given) r

theorem readItems_mirrors (h : List.Forall₂ (Field.Mirrors φ) fields fields') (record : Place)
    (expected : String) (place count : ℕ) (items : List Place) (r : R) :
    readItems record expected place count fields' items (φ r) =
      φ <$> readItems record expected place count fields items r := by
  induction h generalizing place count items r with
  | nil => simp only [readItems, map_bind, map_pure]
  | cons hf _ ih =>
      cases items with
      | nil =>
          simp only [readItems, ← hf.presence]
          split
          · exact ih _ _ _ r
          · exact (map_refuse _ _ _).symm
      | cons x items =>
          simp only [readItems]
          exact bind_mirrors hf x r fun r => ih _ _ _ r

/-- A record is read as the picture of what fields that it mirrors read. -/
theorem readRecord_mirrors (h : List.Forall₂ (Field.Mirrors φ) fields fields') (name : String)
    (blank : R) (place : Place) :
    readRecord name (φ blank) fields' place = φ <$> readRecord name blank fields place := by
  simp only [readRecord, map_bind]
  refine bind_congr fun record => bind_congr fun layout => ?_
  cases layout with
  | named entries =>
      simp only [readLayout, readEntries_mirrors h, map_bind, bind_map_left, absent?_mirrors h]
      refine bind_congr fun q => ?_
      split
      · exact (map_pure _ _).symm
      · exact (map_refuse _ _ _).symm
  | positional items =>
      simp only [readLayout, readItems_mirrors h, h.length_eq]

end Document

theorem Yaml.decodeText_map {α β : Type} (f : α → β) (read : Place → Reading α) (s : String) :
    decodeText (fun place => f <$> read place) s = f <$> decodeText read s := by
  simp only [decodeText, ReaderT.run_map, StateT.run_map, bind_map_left, map_bind]
  refine bind_congr fun p => ?_
  split
  · exact (map_pure _ _).symm
  · rfl

namespace Settings

/-! ## What a file declares -/

/-- The settings for reports and logs that are declared. -/
structure Declared.Logging where
  level? : Option String := none
  decisions? : Option String := none
  deriving DecidableEq, Repr

/-- The settings that are declared. -/
structure Declared where
  policy? : Option String := none
  logging : Declared.Logging := {}
  deriving DecidableEq, Repr

namespace Declared

def Logging.fields : List (Field Place Reading Logging) :=
  [field "level" .defaulted readText fun x d => { d with level? := some x },
    field "decision_log_path" .defaulted readPath fun x d => { d with decisions? := some x }]

def fields : List (Field Place Reading Declared) :=
  [field "policy_file" .defaulted readPath fun x d => { d with policy? := some x },
    field "logging" .defaulted (readRecord "struct LoggingConfig" {} Logging.fields) fun x d =>
      { d with logging := x }]

def read : Place → Reading Declared := readRecord "struct Config" {} fields

/-- What the file at a path declares. A file that is missing declares nothing. -/
def load (fs : Files) (path : String) : Except Refusal (Declared × List Notice) :=
  if fs.has path then
    match fs.readText path with
    | .error f => .error (.unread path f)
    | .ok s => match Yaml.decodeText read s with
      | .error p => .error (.unreadable path p)
      | .ok declared => .ok (declared, [])
  else .ok ({}, [missingNotice path])

/-- What is declared, with defaults for the rest. -/
def Logging.settings (d : Logging) : Settings.Logging where
  level := d.level?.getD "info"
  decisions := d.decisions?.getD "decisions.jsonl"

def settings (d : Declared) : Settings where
  policy := d.policy?.getD "policy.yaml"
  logging := d.logging.settings

theorem Logging.mirrors_fields :
    List.Forall₂ (Field.Mirrors Logging.settings) Logging.fields Settings.Logging.fields := by
  refine .cons ?_ (.cons ?_ .nil)
  · exact mirrors_field (fun _ => (id_map _).symm) fun _ _ => rfl
  · exact mirrors_field (fun _ => (id_map _).symm) fun _ _ => rfl

theorem mirrors_fields : List.Forall₂ (Field.Mirrors settings) fields Settings.fields := by
  refine .cons ?_ (.cons ?_ .nil)
  · exact mirrors_field (fun _ => (id_map _).symm) fun _ _ => rfl
  · exact mirrors_field (readRecord_mirrors Logging.mirrors_fields _ {}) fun _ _ => rfl

theorem read_settings (place : Place) : Settings.read place = settings <$> read place :=
  readRecord_mirrors mirrors_fields _ {} place

/-- The settings of a file are what it declares, with the defaults for the rest. -/
theorem load_settings (fs : Files) (path : String) :
    Settings.load fs path = (fun d => (d.1.settings, d.2)) <$> load fs path := by
  have hread : (Settings.read : Place → Reading Settings) = fun place => settings <$> read place :=
    funext read_settings
  unfold Settings.load load
  split
  · cases fs.readText path with
    | error f => rfl
    | ok s =>
        simp only [hread, Yaml.decodeText_map]
        cases Yaml.decodeText read s with
        | error p => rfl
        | ok d => rfl
  · rfl

end Declared

end Settings

end RequestAudit
