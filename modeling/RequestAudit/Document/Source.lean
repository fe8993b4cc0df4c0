import RequestAudit.Document.Fault

/-!
# Reading records from documents

How typed values are read from a document of any notation. A notation provides the elementary
questions of `Source` about its places; the reading of records is built from them once. Reading
goes through a document in the order of its text, so of several faults the first is reported,
and a missing field is noticed at the end of its record.
-/

namespace RequestAudit.Document

/-- The parts of a record as a notation has them: fields by name or by position. -/
inductive Layout (V : Type) where
  | named (entries : List (V × V))
  | positional (items : List V)

/-- A notation whose places have type `V`, read within the monad `m`. -/
class Source (V : Type) (m : outParam (Type → Type)) where
  /-- The report of a fault at a place. -/
  refuse {α : Type} (place : V) (fault : Fault) : m α
  /-- The place that is meant, where a place may stand for another. -/
  follow (place : V) : m V
  /-- A text; the first argument says what is expected. -/
  text (expected : String) (place : V) : m String
  /-- A truth value. -/
  flag (place : V) : m Bool
  /-- A count of the machine's word size. -/
  index (place : V) : m Nat
  /-- The value at the place, if there is one. -/
  optional (place : V) : m (Option V)
  /-- The elements of a list. -/
  items (place : V) : m (List V)
  /-- One of the given names. -/
  choice (names : List String) (place : V) : m String
  /-- The parts of a record. -/
  layout (expected : String) (place : V) : m (Layout V)
  /-- The name that a place within a record gives to the field after it. -/
  key (record place : V) : m String
  /-- A value that does not matter but must be there. -/
  skip (place : V) : m Unit
  /-- The end of a record by position, of which `count` elements are read. -/
  close (record : V) (count : Nat) (rest : List V) : m Unit

variable {V : Type} {m : Type → Type} [Monad m] [Source V m]

/-- A list whose elements are read by `read`. -/
def readList {α : Type} (read : V → m α) (place : V) : m (List α) := do
  (← Source.items place).mapM read

/-- A value that may be absent. -/
def readOption {α : Type} (read : V → m α) (place : V) : m (Option α) := do
  match ← Source.optional place with
  | none => pure none
  | some inner => some <$> read inner

/-- A text. -/
def readText (place : V) : m String := Source.text "a string" place

/-- Whether a field has to be given. -/
inductive Presence where
  /-- It always has to. -/
  | required
  /-- It may be left out where fields have names. -/
  | optional
  /-- It may be left out. -/
  | defaulted
  deriving DecidableEq, Repr

/-- A field of records of type `R`, read as a change of the record. -/
structure Field (V : Type) (m : Type → Type) (R : Type) where
  /-- The name of the field. -/
  name : String
  /-- Whether it has to be given. -/
  presence : Presence
  /-- The change that the value at a place makes. -/
  read : V → m (R → R)

/-- A field that sets a part of the record. -/
def field {R α : Type} (name : String) (presence : Presence) (read : V → m α) (set : α → R → R) :
    Field V m R :=
  ⟨name, presence, fun place => set <$> read place⟩

variable {R : Type}

/-- Reads fields by name; fields without a reader are skipped and none may come twice. The
result comes with the names that were given. -/
def readEntries (record : V) (fields : List (Field V m R)) :
    List (V × V) → List String → R → m (R × List String)
  | [], given, r => pure (r, given)
  | (k, x) :: entries, given, r => do
    let name ← Source.key record k
    match fields.find? (·.name == name) with
    | none => do
      Source.skip x
      readEntries record fields entries given r
    | some f =>
      if given.contains name then Source.refuse record (.duplicate name)
      else do
        let change ← f.read x
        readEntries record fields entries (name :: given) (change r)

/-- Reads fields by position, `place` of which are already read. -/
def readItems (record : V) (expected : String) :
    Nat → Nat → List (Field V m R) → List V → R → m R
  | _, count, [], rest, r => do
    Source.close record count rest
    pure r
  | place, count, f :: fields, [], r =>
    if f.presence = .defaulted then readItems record expected (place + 1) count fields [] r
    else Source.refuse record (.wrongLength place expected)
  | place, count, f :: fields, x :: rest, r => do
    let change ← f.read x
    readItems record expected (place + 1) (count + 1) fields rest (change r)

/-- The words for a record of a given number of elements. -/
def withElements (name : String) (count : Nat) : String :=
  name ++ " with " ++ toString count ++ if count = 1 then " element" else " elements"

/-- The field that has to be given and is not, if there is one. -/
def absent? (fields : List (Field V m R)) (given : List String) : Option String :=
  (fields.find? fun f => f.presence == .required && !given.contains f.name).map (·.name)

/-- Reads the parts of a record, starting from `blank`. -/
def readLayout (name : String) (blank : R) (fields : List (Field V m R)) (record : V) :
    Layout V → m R
  | .named entries => do
    let (r, given) ← readEntries record fields entries [] blank
    match absent? fields given with
    | none => pure r
    | some f => Source.refuse record (.missing f)
  | .positional items =>
    readItems record (withElements name fields.length) 0 0 fields items blank

/-- Reads a record that is known as `name`. -/
def readRecord (name : String) (blank : R) (fields : List (Field V m R)) (place : V) : m R := do
  let record ← Source.follow place
  readLayout name blank fields record (← Source.layout name record)

end RequestAudit.Document
