import RequestAudit.Document.Datum
import RequestAudit.Document.Source
import RequestAudit.Json.Places
import RequestAudit.Json.Writer
import RequestAudit.Request
import RequestAudit.Text.Blank

/-!
# Recorded requests as documents

How requests are written as records and read from records. A recording holds one request per
line, in JSON; blank lines and lines that begin with `#` are comments.
-/

namespace RequestAudit

open Document

namespace User

variable {V : Type} {m : Type → Type} [Monad m] [Source V m]

/-- The fields of a requester. -/
def fields : List (Field V m User) :=
  [field "name" .required readText fun x u => { u with name := x },
    field "groups" .defaulted (readList readText) fun x u => { u with groups := x }]

/-- A requester. -/
def read : V → m User := readRecord "struct User" {} fields

/-- A requester as data. -/
def datum (u : User) : Datum :=
  .record (Datum.always "name" (.text u.name) ++ Datum.always "groups" (.texts u.groups))

end User

namespace Resource

variable {V : Type} {m : Type → Type} [Monad m] [Source V m]

/-- The fields of a resource. -/
def fields : List (Field V m Resource) :=
  [field "apiGroup" .defaulted readText fun x r => { r with apiGroup := x },
    field "apiVersion" .defaulted readText fun x r => { r with apiVersion := x },
    field "resource" .required readText fun x r => { r with type := x },
    field "subresource" .defaulted readText fun x r => { r with subresource := x },
    field "name" .defaulted readText fun x r => { r with name := x },
    field "namespace" .defaulted readText fun x r => { r with ns := x }]

/-- A resource. -/
def read : V → m Resource := readRecord "struct ResourceTarget" {} fields

/-- A resource as data. -/
def datum (r : Resource) : Datum :=
  .record (Datum.always "apiGroup" (.text r.apiGroup)
    ++ Datum.always "apiVersion" (.text r.apiVersion) ++ Datum.always "resource" (.text r.type)
    ++ Datum.always "subresource" (.text r.subresource) ++ Datum.always "name" (.text r.name)
    ++ Datum.always "namespace" (.text r.ns))

end Resource

namespace Request

variable {V : Type} {m : Type → Type} [Monad m] [Source V m]

/-- The fields of a request. -/
def fields : List (Field V m Request) :=
  [field "user" .defaulted (readOption User.read) fun x r => { r with user? := x },
    field "verb" .required readText fun x r => { r with verb := x },
    field "resource" .defaulted (readOption Resource.read) fun x r => { r with resource? := x },
    field "path" .defaulted readText fun x r => { r with path := x }]

/-- A request. -/
def read : V → m Request := readRecord "struct AttributesRecord" {} fields

/-- A request as data. -/
def datum (r : Request) : Datum :=
  .record (Datum.ifSome "user" r.user? User.datum ++ Datum.always "verb" (.text r.verb)
    ++ Datum.ifSome "resource" r.resource? Resource.datum ++ Datum.unlessBlank "path" r.path)

/-- The line of a recording that holds the request. -/
def line (r : Request) : String := Json.render r.datum

/-- The request on a line of a recording: none on a comment, and a fault if it is unreadable. -/
def ofLine (s : String) : Except Fault (Option Request) :=
  match Text.trim s.toList with
  | [] => .ok none
  | '#' :: _ => .ok none
  | cs => some <$> Json.decodeText read (String.ofList cs)

end Request

end RequestAudit
