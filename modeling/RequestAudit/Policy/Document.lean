import RequestAudit.Document.Datum
import RequestAudit.Document.Source
import RequestAudit.Policy

/-!
# Policies as documents

How policies, rules and selectors are written as records and read from records of any notation.
Lists without elements and settings that are not made are left out where they are written, and
what is left out reads as the default.
-/

namespace RequestAudit

open Document

/-- The names under which levels are written. -/
def Level.names : List String := all.map name

namespace Level

variable {V : Type} {m : Type → Type} [Monad m] [Source V m]

/-- A level, by its name. -/
def read (place : V) : m Level := do
  let s ← Source.choice names place
  match ofName? s with
  | some l => pure l
  | .none => Source.refuse place (.unknownVariant s names)

/-- A level as data. -/
def datum (l : Level) : Datum := .text l.name

end Level

namespace Stage

variable {V : Type} {m : Type → Type} [Monad m] [Source V m]

/-- A stage, by its name. -/
def read (place : V) : m Stage := ofName <$> readText place

/-- A stage as data. -/
def datum (s : Stage) : Datum := .text s.name

/-- Stages as data. -/
def data (ss : List Stage) : Datum := .list (ss.map datum)

end Stage

namespace ResourceSelector

variable {V : Type} {m : Type → Type} [Monad m] [Source V m]

/-- The fields of a selector. -/
def fields : List (Field V m ResourceSelector) :=
  [field "group" .defaulted readText fun x r => { r with group := x },
    field "resources" .defaulted (readList readText) fun x r => { r with types := x },
    field "resourceNames" .defaulted (readList readText) fun x r => { r with names := x }]

/-- A selector. -/
def read : V → m ResourceSelector := readRecord "struct GroupResources" {} fields

/-- A selector as data. -/
def datum (s : ResourceSelector) : Datum :=
  .record (Datum.always "group" (.text s.group) ++ Datum.unlessEmpty "resources" s.types .texts
    ++ Datum.unlessEmpty "resourceNames" s.names .texts)

end ResourceSelector

namespace Rule

variable {V : Type} {m : Type → Type} [Monad m] [Source V m]

/-- The fields of a rule. -/
def fields : List (Field V m Rule) :=
  [field "level" .required Level.read fun x r => { r with level := x },
    field "users" .defaulted (readList readText) fun x r => { r with users := x },
    field "userGroups" .defaulted (readList readText) fun x r => { r with userGroups := x },
    field "verbs" .defaulted (readList readText) fun x r => { r with verbs := x },
    field "resources" .defaulted (readList ResourceSelector.read) fun x r =>
      { r with resources := x },
    field "namespaces" .defaulted (readList readText) fun x r => { r with namespaces := x },
    field "nonResourceURLs" .defaulted (readList readText) fun x r => { r with paths := x },
    field "omitStages" .defaulted (readList Stage.read) fun x r => { r with omitStages := x },
    field "omitManagedFields" .defaulted (readOption Source.flag) fun x r =>
      { r with omitManagedFields? := x }]

/-- A rule. -/
def read : V → m Rule := readRecord "struct PolicyRule" {} fields

/-- A rule as data. -/
def datum (r : Rule) : Datum :=
  .record (Datum.always "level" r.level.datum ++ Datum.unlessEmpty "users" r.users .texts
    ++ Datum.unlessEmpty "userGroups" r.userGroups .texts ++ Datum.unlessEmpty "verbs" r.verbs .texts
    ++ Datum.unlessEmpty "resources" r.resources (fun xs => .list (xs.map ResourceSelector.datum))
    ++ Datum.unlessEmpty "namespaces" r.namespaces .texts
    ++ Datum.unlessEmpty "nonResourceURLs" r.paths .texts
    ++ Datum.unlessEmpty "omitStages" r.omitStages Stage.data
    ++ Datum.ifSome "omitManagedFields" r.omitManagedFields? .flag)

/-- Rules as data. -/
def data (rs : List Rule) : Datum := .list (rs.map datum)

end Rule

namespace Policy

variable {V : Type} {m : Type → Type} [Monad m] [Source V m]

/-- The fields of a policy. -/
def fields : List (Field V m Policy) :=
  [field "apiVersion" .defaulted readText fun x p => { p with apiVersion := x },
    field "kind" .defaulted readText fun x p => { p with kind := x },
    field "rules" .defaulted (readList Rule.read) fun x p => { p with rules := x },
    field "omitStages" .defaulted (readList Stage.read) fun x p => { p with omitStages := x },
    field "omitManagedFields" .defaulted Source.flag fun x p => { p with omitManagedFields := x }]

/-- A policy. -/
def read : V → m Policy := readRecord "struct Policy" {} fields

/-- A policy as data. -/
def datum (p : Policy) : Datum :=
  .record (Datum.always "apiVersion" (.text p.apiVersion) ++ Datum.always "kind" (.text p.kind)
    ++ Datum.always "rules" (Rule.data p.rules) ++ Datum.unlessEmpty "omitStages" p.omitStages Stage.data
    ++ Datum.always "omitManagedFields" (.flag p.omitManagedFields))

end Policy

end RequestAudit
