import RequestAudit.Document.Source
import RequestAudit.Json.Basic
import RequestAudit.Json.Reader

/-!
# JSON as a source of typed values

The elementary questions about places of a JSON document. A document that is read as a text
differs in a few answers from one that is at hand as a value, and from parts of a text that are
kept until the record they belong to is known.
-/

namespace RequestAudit.Json

open Document

/-- How a document is at hand. -/
inductive Origin where
  /-- As a text, read from left to right. -/
  | text
  /-- As a value. -/
  | value
  /-- As a part of a text that was read before its type was known. -/
  | kept
  deriving DecidableEq, Repr

/-- A place of a JSON document. -/
structure Place where
  origin : Origin
  value : Json

/-- What stands at a place; none if it cannot be read. Arrays and objects are recognised by
their first character. -/
def found? : Json → Option Found
  | null => some .null
  | bool b => some (.flag b)
  | number (.natural n) => some (.integer n)
  | number (.negative n) => some (.integer (-n))
  | number (.real minus s p) => (Numeral.realText? minus s p).map .real
  | string s => some (.text s)
  | array _ => some .list
  | object _ => some .record
  | halfString => none
  | broken => none

/-- The fault that something else was expected. -/
def mismatch (v : Json) (expected : String) : Fault :=
  match found? v with
  | some found => .wrongType found expected
  | none => .unreadable

/-- One of the names, read from a string at the place. -/
def nameOf (names : List String) (expected : String) : Json → Except Fault String
  | string s => if names.contains s then .ok s else .error (.unknownVariant s names)
  | v => .error (mismatch v expected)

/-- One of the names, alone or as the only key of an object whose value is null. -/
def choiceOf (origin : Origin) (names : List String) : Json → Except Fault String
  | string s => nameOf names "variant identifier" (string s)
  | object ((k, v) :: rest) => do
    if origin = .value && !rest.isEmpty then
      throw (.wrongValue .record "map with a single key")
    let name ← nameOf names "variant identifier" k
    match v with
    | null => if rest.isEmpty then pure name else throw .unreadable
    | v => throw (mismatch v "unit")
  | v =>
    if origin = .value then
      match v with
      | object _ => .error (.wrongValue .record "map with a single key")
      | v => .error (mismatch v "string or map")
    else .error .unreadable

/-- The fault of elements that are left over after a record by position. -/
def leftOver (origin : Origin) (count : Nat) (rest : List Json) : Fault :=
  match origin with
  | .text => .unreadable
  | .value => .wrongLength (count + rest.length) "fewer elements in array"
  | .kept => .wrongLength (count + rest.length)
      (toString count ++ (if count = 1 then " element" else " elements") ++ " in sequence")

instance : Source Place (Except Fault) where
  refuse _ fault := .error fault
  follow place := .ok place
  text expected place := match place.value with
    | string s => .ok s
    | v => .error (mismatch v expected)
  flag place := match place.value with
    | bool b => .ok b
    | v => .error (mismatch v "a boolean")
  index place := match place.value with
    | number (.natural n) => .ok n
    | number (.negative n) => .error (.wrongValue (.integer (-n)) "usize")
    | v => .error (mismatch v "usize")
  optional place := match place.value with
    | null => .ok none
    | _ => .ok (some place)
  items place := match place.value with
    | array vs => .ok (vs.map (⟨place.origin, ·⟩))
    | v => .error (mismatch v "a sequence")
  choice names place := choiceOf place.origin names place.value
  layout expected place := match place.value with
    | array vs => .ok (.positional (vs.map (⟨place.origin, ·⟩)))
    | object es => .ok (.named (es.map fun e => (⟨place.origin, e.1⟩, ⟨place.origin, e.2⟩)))
    | v => .error (mismatch v expected)
  key _ place := match place.value with
    | string s => .ok s
    | _ => .error .unreadable
  skip place := if place.value.isWhole then .ok () else .error .unreadable
  close record count rest :=
    if rest.isEmpty then .ok ()
    else .error (leftOver record.origin count (rest.map (·.value)))

/-- Reads a typed value from a text that holds nothing else. -/
def decodeText {α : Type} (read : Place → Except Fault α) (s : String) : Except Fault α := do
  let reading := ofText s
  let a ← read ⟨.text, reading.value⟩
  if reading.isEnd then pure a else throw .unreadable

/-- Reads a typed value from a value. -/
def decodeValue {α : Type} (read : Place → Except Fault α) (v : Json) : Except Fault α :=
  read ⟨.value, v.settled⟩

end RequestAudit.Json
