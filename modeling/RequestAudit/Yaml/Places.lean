import RequestAudit.Document.Source
import RequestAudit.Yaml.Node
import RequestAudit.Yaml.Scalar.Meaning

/-!
# YAML as a source of typed values

The elementary questions about places of a YAML document. A place knows the path on which it was
reached, and a fault is reported with the path of the innermost place that it concerns. Reading
follows aliases, though not without bound.
-/

namespace RequestAudit.Yaml

open Document (Fault Found Layout Source)

/-- A node with the path to it; the root has none. -/
structure Place where
  node : Node
  path? : Option String := none
  /-- The path to the collection around it, or to the alias that stands for it. -/
  around? : Option String := none

namespace Place

/-- The path as the beginning of a longer one. -/
def stem (p : Place) : String :=
  match p.path? with
  | none => ""
  | some path => path ++ "."

/-- The element of a list. -/
def item (p : Place) (n : Node) (index : Nat) : Place :=
  ⟨n, some (p.stem ++ "\\[" ++ toString index ++ "\\]"), p.path?⟩

/-- The value of an entry. Only a scalar key gives its name to the path. -/
def value (p : Place) (k v : Node) : Place :=
  match k with
  | .scalar _ _ _ name => ⟨v, some (p.stem ++ name), p.path?⟩
  | _ => ⟨v, some (p.stem ++ "?"), p.path?⟩

/-- The elements of a list from an index on. -/
def itemsFrom (p : Place) : Nat → List Node → List Place
  | _, [] => []
  | index, n :: ns => p.item n index :: p.itemsFrom (index + 1) ns

end Place

/-- A fault with the path of its place. -/
structure Problem where
  path? : Option String
  fault : Fault

/-- How the problem is worded, if the fault has a wording. -/
def Problem.message? (p : Problem) : Option String :=
  p.fault.message?.map fun m => match p.path? with
    | none => m
    | some path => path ++ ": " ++ m

/-- Reading from a document, with the number of aliases followed so far. -/
abbrev Reading := ReaderT Tree (StateT Nat (Except Problem))

/-- The report of a fault at a place. -/
def Place.refuse {α : Type} (p : Place) (fault : Fault) : Reading α :=
  throw ⟨p.path?, fault⟩

/-- The place that is meant. -/
def Place.follow (p : Place) : Reading Place :=
  match p.node with
  | .reference number => do
    let followed ← getModify (· + 1)
    let d ← read
    if d.patience < followed + 1 then p.refuse .unreadable
    else match d.anchored? number with
      | some n => pure ⟨n, some p.stem, p.path?⟩
      | none => p.refuse .unreadable
  | _ => pure p

/-- The name of a standard tag. -/
def standardTag (name : String) : String := "tag:yaml.org,2002:" ++ name

/-- The fault that something other than the scalar was expected. A standard tag says how the
scalar is to be taken, and may itself not fit. -/
def scalarMismatch (tag? : Option String) (style : Style) (s expected : String) : Fault :=
  let wrong (found : Found) : Fault := .wrongType found expected
  let unfit (kind : String) : Fault := .wrongValue (.text s) kind
  let plain : Fault := if style = .plain then wrong (meaning s) else wrong (.text s)
  match tag? with
  | none => plain
  | some tag =>
    if tag = standardTag "bool" then
      match flag? s with
      | some b => wrong (.flag b)
      | none => unfit "a boolean"
    else if tag = standardTag "int" then
      match (Number.integer? s.toList).bind Number.found? with
      | some found => wrong found
      | none => unfit "an integer"
    else if tag = standardTag "float" then
      match Number.real? s.toList with
      | some digits => wrong (.real digits)
      | none => unfit "a float"
    else if tag = standardTag "null" then
      if isNull s then wrong .nothing else unfit "null"
    else if tag.toList.head? = some '!' then plain
    else wrong (.text s)

/-- The fault that something else was expected. -/
def mismatch (n : Node) (expected : String) : Fault :=
  match n with
  | .scalar _ tag style s => scalarMismatch tag style s expected
  | .sequence .. => .wrongType .list expected
  | .mapping .. => .wrongType .record expected
  | .reference _ => .unreadable
  | .cut => .unreadable

/-- The text of a scalar, whatever its style and its tag. -/
def textOf (expected : String) (place : Place) : Reading String := do
  let p ← place.follow
  match p.node with
  | .scalar _ _ _ s => pure s
  | n => p.refuse (mismatch n expected)

/-- Whether a node stands for a list or a record without parts. -/
def isVoid : Node → Bool
  | .scalar _ _ .plain s => s.isEmpty
  | _ => false

/-- The name that a tag gives to a node. -/
def tagName? (tag? : Option String) : Option String :=
  match tag?.map String.toList with
  | some ('!' :: name) => some (String.ofList name)
  | _ => none

/-- The check that a tagged node has no content. -/
def checkBare (place : Place) : Reading Unit :=
  match place.node with
  | .scalar _ _ style s =>
    if style = .plain && (s.isEmpty || isNull s) then pure ()
    else place.refuse (.wrongValue (.text s) "null")
  | n => place.refuse (mismatch n "unit")

/-- One of the names: the text of a scalar, or the tag of a node without content. The tag is a
matter of the place around it. -/
def choiceOf (names : List String) (place : Place) : Reading String := do
  let p ← place.follow
  let byTag (tag : Option String) (otherwise : Reading String) : Reading String :=
    match tagName? tag with
    | some name => do
      if names.contains name then checkBare p; pure name
      else throw ⟨p.around?, .unknownVariant name names⟩
    | none => otherwise
  let needsTag (found : Found) : Reading String :=
    p.refuse (.wrongType found "a YAML tag starting with '!'")
  match p.node with
  | .scalar _ tag _ s => byTag tag (
      if names.contains s then pure s else p.refuse (.unknownVariant s names))
  | .sequence _ tag _ => byTag tag (needsTag .list)
  | .mapping _ tag _ => byTag tag (needsTag .record)
  | n => p.refuse (mismatch n "")

/-- The truth value of a plain scalar, or of lines that are tagged as one. -/
def flagOf (place : Place) : Reading Bool := do
  let p ← place.follow
  match p.node with
  | .scalar _ tag style s =>
    if style = .plain || (style = .literal && tag = some (standardTag "bool")) then
      match flag? s with
      | some b => pure b
      | none => p.refuse (mismatch p.node "a boolean")
    else p.refuse (mismatch p.node "a boolean")
  | n => p.refuse (mismatch n "a boolean")

/-- The count that a plain scalar is. -/
def indexOf (place : Place) : Reading Nat := do
  let p ← place.follow
  match p.node with
  | .scalar _ _ .plain s => match (Number.integer? s.toList).bind Number.found? with
    | some (.integer (.ofNat n)) => pure n
    | some (.integer n) => p.refuse (.wrongValue (.integer n) "usize")
    | _ => p.refuse (mismatch p.node "usize")
  | n => p.refuse (mismatch n "usize")

/-- The value at a place unless it is empty or the null. -/
def optionalOf (place : Place) : Reading (Option Place) := do
  let p ← place.follow
  match p.node with
  | .scalar _ tag .plain s =>
    match tag with
    | none => pure (if s.isEmpty || isNull s then none else some p)
    | some tag =>
      if tag = standardTag "null" then
        if isNull s then pure none
        else throw ⟨place.around?, .wrongValue (.text s) "null"⟩
      else pure (some p)
  | .cut => p.refuse .unreadable
  | _ => pure (some p)

/-- The elements of a list. -/
def itemsOf (place : Place) : Reading (List Place) := do
  let p ← place.follow
  match p.node with
  | .sequence _ _ ns => pure (p.itemsFrom 0 ns)
  | n => if isVoid n then pure [] else p.refuse (mismatch n "a sequence")

/-- The parts of a record, which always have names. -/
def layoutOf (expected : String) (place : Place) : Reading (Layout Place) :=
  match place.node with
  | .mapping _ _ es =>
    pure (.named (es.map fun e => (⟨e.1, place.path?, place.around?⟩, place.value e.1 e.2)))
  | n => if isVoid n then pure (.named []) else place.refuse (mismatch n expected)

instance : Source Place Reading where
  refuse := Place.refuse
  follow := Place.follow
  text := textOf
  flag := flagOf
  index := indexOf
  optional := optionalOf
  items := itemsOf
  choice := choiceOf
  layout := layoutOf
  key _ place := textOf "field identifier" place
  skip place := if place.node.isWhole then pure () else place.refuse .unreadable
  close _ _ _ := pure ()

/-- Reads a typed value from a text that holds one document and nothing else. -/
def decodeText {α : Type} (read : Place → Reading α) (s : String) : Except Problem α := do
  let d := Tree.ofText s
  let (a, _) ← ((read ⟨d.root, none, none⟩).run d).run 0
  if d.isEnd then pure a else throw ⟨none, .unreadable⟩

end RequestAudit.Yaml
