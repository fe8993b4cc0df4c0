import RequestAudit.Text.Term

/-!
# Requests

Who asks, with which verb, and for what: a typed resource or a bare path. The evaluator sees a
request only through `Attributes`, so that anything that can answer these questions can be
judged; `Request` is the plain record that does.
-/

namespace RequestAudit

/-- A requester. -/
structure User where
  /-- The unique name. -/
  name : String := ""
  /-- The groups to which the requester belongs. -/
  groups : List String := []
  deriving DecidableEq, Repr, Inhabited

/-- The typed resource that a request is about. -/
structure Resource where
  /-- The group of the resource's type; the core group has the empty name. -/
  apiGroup : String := ""
  /-- The version of the type's description. -/
  apiVersion : String := ""
  /-- The type, such as `pods`. -/
  type : String := ""
  /-- The part of the object, such as `log`; empty for the object itself. -/
  subresource : String := ""
  /-- The name of the object; empty for a whole collection. -/
  name : String := ""
  /-- The namespace of the object; empty outside namespaces. -/
  ns : String := ""
  deriving DecidableEq, Repr, Inhabited

/-- What may be asked of a request. The questions about the resource are only put to requests
for a resource, and the one about the path only to the others. -/
class Attributes (α : Type) where
  /-- The requester, unless the request is anonymous. -/
  user? : α → Option User
  /-- What is to be done. -/
  verb : α → String
  /-- Whether the request is for a typed resource. -/
  isForResource : α → Bool
  /-- The namespace of the object. -/
  ns : α → String
  /-- The group of the resource's type. -/
  apiGroup : α → String
  /-- The version of the type's description. -/
  apiVersion : α → String
  /-- The type of the resource. -/
  type : α → String
  /-- The part of the object. -/
  subresource : α → String
  /-- The name of the object. -/
  name : α → String
  /-- The path of a request that is for no resource. -/
  path : α → String

/-- The verbs that change nothing. -/
def readingVerbs : List String := ["get", "list", "watch"]

/-- Whether the request changes nothing. -/
def Attributes.isReading {α : Type} [Attributes α] (a : α) : Bool :=
  readingVerbs.contains (Attributes.verb a)

/-- A recorded request. It is for a resource exactly when it has one. -/
structure Request where
  /-- The requester, unless the request is anonymous. -/
  user? : Option User := none
  /-- What is to be done. -/
  verb : String := ""
  /-- The resource, if the request is for one. -/
  resource? : Option Resource := none
  /-- The path, if the request is for no resource. -/
  path : String := ""
  deriving DecidableEq, Repr, Inhabited

namespace Request

/-- A request for a resource by nobody in particular. -/
def forResource (verb : String) (resource : Resource) : Request :=
  { verb, resource? := some resource }

/-- A request for a path by nobody in particular. -/
def forPath (verb path : String) : Request :=
  { verb, path }

/-- One attribute of the resource, empty if there is none. -/
def ofResource (r : Request) (f : Resource → String) : String :=
  (r.resource?.map f).getD ""

instance : Attributes Request where
  user? := user?
  verb := verb
  isForResource r := r.resource?.isSome
  ns r := r.ofResource (·.ns)
  apiGroup r := r.ofResource (·.apiGroup)
  apiVersion r := r.ofResource (·.apiVersion)
  type r := r.ofResource (·.type)
  subresource r := r.ofResource (·.subresource)
  name r := r.ofResource (·.name)
  path := path

end Request

open Text in
instance : ToTerm User where
  term u := .record "User" [("name", term u.name), ("groups", term u.groups)]

open Text in
instance : ToTerm Resource where
  term r := .record "ResourceTarget" [("api_group", term r.apiGroup),
    ("api_version", term r.apiVersion), ("resource", term r.type),
    ("subresource", term r.subresource), ("name", term r.name), ("namespace", term r.ns)]

open Text in
instance : ToTerm Request where
  term r := .record "AttributesRecord" [("user", term r.user?), ("verb", term r.verb),
    ("resource", term r.resource?), ("path", term r.path)]

end RequestAudit
