import RequestAudit.Decision.Entry
import RequestAudit.Json.Places
import RequestAudit.Json.Writer
import RequestAudit.Policy.Document
import RequestAudit.Request.Document

/-!
# Entries as JSON

How entries of the decision log are written as lines of JSON and read back.
-/

namespace RequestAudit

open Document
open Json (Place)

namespace Target

/-- The names of the two kinds of targets. -/
def kinds : List String := ["resource", "non_resource"]

/-- A target as data. -/
def datum : Target → Datum
  | resource r => .record (Datum.always "kind" (.text "resource")
      ++ Datum.always "api_group" (.text r.apiGroup)
      ++ Datum.unlessBlank "api_version" r.apiVersion
      ++ Datum.always "resource" (.text r.type)
      ++ Datum.unlessBlank "subresource" r.subresource ++ Datum.unlessBlank "name" r.name
      ++ Datum.unlessBlank "namespace" r.ns)
  | path p => .record (Datum.always "kind" (.text "non_resource")
      ++ Datum.always "path" (.text p))

/-- The fields of a resource in an entry. -/
def resourceFields : List (Field Place (Except Fault) Resource) :=
  [field "api_group" .required readText fun x r => { r with apiGroup := x },
    field "api_version" .defaulted readText fun x r => { r with apiVersion := x },
    field "resource" .required readText fun x r => { r with type := x },
    field "subresource" .defaulted readText fun x r => { r with subresource := x },
    field "name" .defaulted readText fun x r => { r with name := x },
    field "namespace" .defaulted readText fun x r => { r with ns := x }]

/-- The field of a path in an entry. -/
def pathFields : List (Field Place (Except Fault) String) :=
  [field "path" .required readText fun x _ => x]

/-- Reads the parts of a target whose kind is known. -/
def readKind (kind : String) (layout : Layout Place) : Except Fault Target :=
  let record : Place := ⟨.kept, .object []⟩
  if kind = "resource" then
    resource <$> readLayout "struct variant RequestTarget::Resource" {} resourceFields record layout
  else
    path <$> readLayout "struct variant RequestTarget::NonResource" "" pathFields record layout

/-- How deeply the parts of a target may be nested. -/
def depthLimit : Nat := 125

/-- The check that a part can be kept until the kind is known. -/
def keep (v : Json) : Except Fault Unit :=
  if v.isSound && v.depth < depthLimit then pure () else throw .unreadable

/-- The kind among the entries of an object, and the other entries. -/
def splitKind : Option String → List (Json × Json) →
    Except Fault (Option String × List (Place × Place))
  | kind?, [] => pure (kind?, [])
  | kind?, (.string k, v) :: es =>
    if k = "kind" then
      if kind?.isSome then throw (.duplicate "kind")
      else do
        let kind ← Json.nameOf kinds "variant identifier" v
        splitKind (some kind) es
    else do
      keep v
      let (kind?, rest) ← splitKind kind? es
      pure (kind?, (⟨.kept, .string k⟩, ⟨.kept, v⟩) :: rest)
  | _, _ :: _ => throw .unreadable

/-- A target: an object in which the kind may stand anywhere, or an array that begins with it. -/
def read (place : Place) : Except Fault Target :=
  match place.value with
  | .object es => do
    let (kind?, rest) ← splitKind none es
    match kind? with
    | none => throw (.missing "kind")
    | some kind => readKind kind (.named rest)
  | .array [] => throw (.missing "kind")
  | .array (k :: vs) => do
    let kind ← Json.nameOf kinds "variant identifier" k
    vs.forM keep
    readKind kind (.positional (vs.map (⟨.kept, ·⟩)))
  | v => throw (Json.mismatch v "internally tagged enum RequestTarget")

end Target

namespace Outline

/-- The fields of an outline. -/
def fields : List (Field Place (Except Fault) Outline) :=
  [field "user" .optional (readOption readText) fun x o => { o with user? := x },
    field "verb" .required readText fun x o => { o with verb := x },
    field "target" .required Target.read fun x o => { o with target := x }]

/-- An outline. -/
def read : Place → Except Fault Outline :=
  readRecord "struct RequestSummary" ⟨none, "", .path ""⟩ fields

/-- An outline as data. -/
def datum (o : Outline) : Datum :=
  .record (Datum.ifSome "user" o.user? .text ++ Datum.always "verb" (.text o.verb)
    ++ Datum.always "target" o.target.datum)

end Outline

/-- An identifier, from any of its written forms. -/
def Id.read (place : Place) : Except Fault Id := do
  match ofText? (← Source.text "a formatted UUID string" place) with
  | some id => pure id
  | none => throw .unreadable

/-- A timestamp. -/
def Timestamp.read (place : Place) : Except Fault Timestamp := do
  match ofText? (← Source.text "an RFC 3339 formatted date and time string" place) with
  | some t => pure t
  | none => throw .unreadable

namespace Entry

/-- Changes the stamp of an entry. -/
def mapStamp (f : Stamp → Stamp) (e : Entry) : Entry := { e with stamp := f e.stamp }

/-- Changes the verdict of an entry. -/
def mapVerdict (f : Verdict → Verdict) (e : Entry) : Entry := { e with verdict := f e.verdict }

/-- An entry before anything of it is read. -/
def blank : Entry := ⟨.zero, ⟨none, "", .path ""⟩, ⟨.none, [], false⟩, none⟩

/-- The fields of an entry. -/
def fields : List (Field Place (Except Fault) Entry) :=
  [field "id" .required Id.read fun x => mapStamp ({ · with id := x }),
    field "timestamp" .required Timestamp.read fun x => mapStamp ({ · with time := x }),
    field "request" .required Outline.read fun x e => { e with request := x },
    field "level" .required Level.read fun x => mapVerdict ({ · with level := x }),
    field "omit_stages" .defaulted (readList Stage.read) fun x =>
      mapVerdict ({ · with omitStages := x }),
    field "omit_managed_fields" .required Source.flag fun x =>
      mapVerdict ({ · with omitManagedFields := x }),
    field "matched_rule" .optional (readOption Source.index) fun x e => { e with rule? := x }]

/-- An entry. -/
def read : Place → Except Fault Entry := readRecord "struct DecisionEntry" blank fields

/-- An entry as data. -/
def datum (e : Entry) : Datum :=
  .record (Datum.always "id" (.text e.stamp.id.text)
    ++ Datum.always "timestamp" (.text e.stamp.time.text)
    ++ Datum.always "request" e.request.datum ++ Datum.always "level" e.verdict.level.datum
    ++ Datum.unlessEmpty "omit_stages" e.verdict.omitStages Stage.data
    ++ Datum.always "omit_managed_fields" (.flag e.verdict.omitManagedFields)
    ++ Datum.ifSome "matched_rule" e.rule? .number)

/-- The line of the log that holds the entry, without its end. -/
def line (e : Entry) : String := Json.render e.datum

/-- The entry on a line of the log. -/
def ofLine (s : String) : Except Fault Entry := Json.decodeText read s

end Entry

end RequestAudit
