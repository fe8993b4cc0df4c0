import RequestAudit.Yaml.Token

/-!
# YAML nodes

The tokens of a text as a tree. The tree shows where the text cannot be read by a `cut` leaf,
after which there is nothing. An anchor gets as its number the count of different names that
were in use before it, and an alias carries the number of its anchor.
-/

namespace RequestAudit.Yaml

/-- A node of a document. -/
inductive Node where
  | scalar (anchor? : Option Nat) (tag? : Option String) (style : Style) (text : String)
  | reference (number : Nat)
  | sequence (anchor? : Option Nat) (tag? : Option String) (items : List Node)
  | mapping (anchor? : Option Nat) (tag? : Option String) (entries : List (Node × Node))
  /-- The place from which the text cannot be read. -/
  | cut
  deriving Repr, Inhabited

namespace Node

/-- The node of nothing at all. -/
def blank : Node := scalar none none .plain ""

mutual

/-- How many steps a walk through the node takes that comes to it, and leaves it if it is a
collection. -/
def size : Node → Nat
  | scalar .. => 1
  | reference _ => 1
  | sequence _ _ items => sizeAll items + 2
  | mapping _ _ entries => sizeEntries entries + 2
  | cut => 0

/-- The sizes of nodes, together. -/
def sizeAll : List Node → Nat
  | [] => 0
  | n :: ns => n.size + sizeAll ns

/-- The sizes of entries, together. -/
def sizeEntries : List (Node × Node) → Nat
  | [] => 0
  | (k, v) :: es => k.size + v.size + sizeEntries es

end

mutual

/-- Whether the node is read to its end. -/
def isWhole : Node → Bool
  | cut => false
  | sequence _ _ items => allWhole items
  | mapping _ _ entries => entriesWhole entries
  | _ => true

/-- Whether all nodes are read to their ends. -/
def allWhole : List Node → Bool
  | [] => true
  | n :: ns => n.isWhole && allWhole ns

/-- Whether all entries are read to their ends. -/
def entriesWhole : List (Node × Node) → Bool
  | [] => true
  | (k, v) :: es => k.isWhole && v.isWhole && entriesWhole es

end

mutual

/-- The anchored nodes by their numbers, in the order in which they begin. -/
def anchored : Node → List (Nat × Node)
  | scalar a t s x => (a.map (·, scalar a t s x)).toList
  | reference _ => []
  | sequence a t items => (a.map (·, sequence a t items)).toList ++ anchoredAll items
  | mapping a t entries => (a.map (·, mapping a t entries)).toList ++ anchoredEntries entries
  | cut => []

/-- The anchored nodes in nodes. -/
def anchoredAll : List Node → List (Nat × Node)
  | [] => []
  | n :: ns => n.anchored ++ anchoredAll ns

/-- The anchored nodes in entries. -/
def anchoredEntries : List (Node × Node) → List (Nat × Node)
  | [] => []
  | (k, v) :: es => k.anchored ++ v.anchored ++ anchoredEntries es

end

/-! ## The grammar -/

/-- How far the tokens are read, with what is known by then. -/
structure Progress where
  /-- The tokens that are left. -/
  tokens : List Token
  /-- The meanings of the handles of tags, the latest first. -/
  handles : List (String × String) := []
  /-- The numbers of the anchors by name. -/
  anchors : List (String × Nat) := []

/-- A part of the grammar. -/
abbrev Grammar := StateM Progress

/-- The token at the front. -/
def next? : Grammar (Option Token) := do return (← get).tokens.head?

/-- Passes over the token at the front. -/
def pass : Grammar Unit := modify fun p => { p with tokens := p.tokens.drop 1 }

/-- Gives up reading. -/
def stop : Grammar Node := do
  modify fun p => { p with tokens := [] }
  pure cut

/-- Whether the token at the front is one of the given ones. -/
def isNext (ts : List Token) : Grammar Bool := do
  return match (← next?) with
    | some t => ts.contains t
    | none => false

/-- Numbers the anchor of a name that may have been used before. -/
def declareAnchor (name : String) : Grammar Nat := do
  let p ← get
  let number := p.anchors.length
  set { p with anchors := (name, number) :: p.anchors.filter (·.1 != name) }
  pure number

/-- The properties before the content of a node, in either order. -/
def properties : Grammar (Option String × Option Property.Tag) := do
  match ← next? with
  | some (.anchor a) =>
    pass
    match ← next? with
    | some (.tag t) => pass; pure (some a, some t)
    | _ => pure (some a, none)
  | some (.tag t) =>
    pass
    match ← next? with
    | some (.anchor a) => pass; pure (some a, some t)
    | _ => pure (none, some t)
  | _ => pure (none, none)

/-- The tag that is meant; none if its handle has no meaning. -/
def resolveTag (t : Property.Tag) : Grammar (Option String) := do
  if t.handle.isEmpty then pure (some t.suffix)
  else return ((← get).handles.lookup t.handle).map (· ++ t.suffix)

mutual

/-- A node; the flags tell whether block collections and sequences without indentation of their
own may stand here. -/
def grammar (block indentless : Bool) : Nat → Grammar Node
  | 0 => stop
  | fuel + 1 => do
    match ← next? with
    | some (.reference name) =>
      match (← get).anchors.lookup name with
      | some number => pass; pure (reference number)
      | none => stop
    | _ =>
      let (anchor, tag) ← properties
      match tag with
      | none => content block indentless anchor none fuel
      | some t => match ← resolveTag t with
        | none => stop
        | some t => content block indentless anchor (some t) fuel

/-- The content of a node after its properties. -/
def content (block indentless : Bool) (anchor tag : Option String) : Nat → Grammar Node
  | 0 => stop
  | fuel + 1 => do
    let number : Grammar (Option Nat) := match anchor with
      | none => pure none
      | some a => some <$> declareAnchor a
    match ← next? with
    | some (.scalar style text) =>
      pass
      let a ← number
      pure (scalar a (if tag = some "!" then none else tag) style text)
    | some .flowSequenceStart =>
      pass
      let a ← number
      return sequence a tag (← flowItems true fuel)
    | some .flowMappingStart =>
      pass
      let a ← number
      return mapping a tag (← flowEntries true fuel)
    | t =>
      if indentless && t == some .item then
        let a ← number
        return sequence a tag (← indentlessItems fuel)
      else if block && t == some .sequenceStart then
        pass
        let a ← number
        return sequence a tag (← blockItems fuel)
      else if block && t == some .mappingStart then
        pass
        let a ← number
        return mapping a tag (← blockEntries fuel)
      else if anchor.isSome || tag.isSome then
        let a ← number
        pure (scalar a tag .plain "")
      else stop

/-- A node, or nothing before one of the given tokens. -/
def grammarUnless (ends : List Token) (block indentless : Bool) : Nat → Grammar Node
  | 0 => stop
  | fuel + 1 => do
    if ← isNext ends then pure blank else grammar block indentless fuel

/-- The elements of a block sequence. -/
def blockItems : Nat → Grammar (List Node)
  | 0 => return [← stop]
  | fuel + 1 => do
    match ← next? with
    | some .item =>
      pass
      let n ← grammarUnless [.item, .blockEnd] true false fuel
      return n :: (← blockItems fuel)
    | some .blockEnd => pass; pure []
    | _ => return [← stop]

/-- The elements of a block sequence with the indentation of the mapping around it. -/
def indentlessItems : Nat → Grammar (List Node)
  | 0 => return [← stop]
  | fuel + 1 => do
    match ← next? with
    | some .item =>
      pass
      let n ← grammarUnless [.item, .key, .value, .blockEnd] true false fuel
      return n :: (← indentlessItems fuel)
    | some _ => pure []
    | none => return [← stop]

/-- The entries of a block mapping. -/
def blockEntries : Nat → Grammar (List (Node × Node))
  | 0 => return [(← stop, cut)]
  | fuel + 1 => do
    match ← next? with
    | some .key =>
      pass
      let k ← grammarUnless [.key, .value, .blockEnd] true true fuel
      let v ← blockValue fuel
      return (k, v) :: (← blockEntries fuel)
    | some .blockEnd => pass; pure []
    | _ => return [(← stop, cut)]

/-- The value after a key of a block mapping. -/
def blockValue : Nat → Grammar Node
  | 0 => stop
  | fuel + 1 => do
    match ← next? with
    | some .value => pass; grammarUnless [.key, .value, .blockEnd] true true fuel
    | some _ => pure blank
    | none => stop

/-- The elements of a flow sequence. -/
def flowItems (first : Bool) : Nat → Grammar (List Node)
  | 0 => return [← stop]
  | fuel + 1 => do
    let t ← next?
    if t == some .flowSequenceEnd then pass; pure []
    else
      if !first && t != some .comma then return [← stop]
      if !first then pass
      match ← next? with
      | some .flowSequenceEnd => pass; pure []
      | some .key =>
        pass
        let n ← flowPair fuel
        return n :: (← flowItems false fuel)
      | _ =>
        let n ← grammar false false fuel
        return n :: (← flowItems false fuel)

/-- A mapping with one entry as an element of a flow sequence, after the start of its key. If the
key is left out, the token in its place is passed over. -/
def flowPair : Nat → Grammar Node
  | 0 => stop
  | fuel + 1 => do
    let ends := [Token.value, .comma, .flowSequenceEnd]
    let k ← if ← isNext ends then (do pass; pure blank) else grammar false false fuel
    let v ← match ← next? with
      | some .value => do pass; grammarUnless [.comma, .flowSequenceEnd] false false fuel
      | some _ => pure blank
      | none => stop
    pure (mapping none none [(k, v)])

/-- The entries of a flow mapping. -/
def flowEntries (first : Bool) : Nat → Grammar (List (Node × Node))
  | 0 => return [(← stop, cut)]
  | fuel + 1 => do
    let t ← next?
    if t == some .flowMappingEnd then pass; pure []
    else
      if !first && t != some .comma then return [(← stop, cut)]
      if !first then pass
      match ← next? with
      | some .flowMappingEnd => pass; pure []
      | some .key =>
        pass
        let k ← grammarUnless [.value, .comma, .flowMappingEnd] false false fuel
        let v ← match ← next? with
          | some .value => do pass; grammarUnless [.comma, .flowMappingEnd] false false fuel
          | some _ => pure blank
          | none => stop
        return (k, v) :: (← flowEntries false fuel)
      | _ =>
        let k ← grammar false false fuel
        let v ← match ← next? with
          | some _ => pure blank
          | none => stop
        return (k, v) :: (← flowEntries false fuel)

end

end Node

/-- A document as a tree. -/
structure Tree where
  /-- The content. -/
  root : Node
  /-- Whether nothing but ends of documents follows it. -/
  isEnd : Bool
  deriving Repr

namespace Tree

/-- The meanings that handles have unless a directive says otherwise. -/
def handles : List (String × String) := [("!", "!"), ("!!", "tag:yaml.org,2002:")]

/-- The meanings of handles by the directives at the front, the tokens after them, and whether
there were any; none if the directives are not acceptable. -/
def directives? : Bool → List (String × String) → List Token →
    Option (List (String × String) × List Token)
  | versioned, known, .directive (.version major minor) :: ts =>
    if versioned || major != 1 || !(minor == 1 || minor == 2) then none
    else directives? true known ts
  | versioned, known, .directive (.tag handle start) :: ts =>
    if (known.lookup handle).isSome then none
    else directives? versioned ((handle, start) :: known) ts
  | _, known, ts => some (known ++ handles, ts)

/-- The document whose content begins with the given tokens. -/
def ofContent (handles : List (String × String)) (explicit : Bool) (ts : List Token) : Tree :=
  let stops : Bool := match ts with
    | .directive _ :: _ => true
    | .documentStart :: _ => true
    | .documentEnd :: _ => true
    | .textEnd :: _ => true
    | _ => false
  let (root, p) :=
    if explicit && stops then (Node.blank, { tokens := ts : Node.Progress })
    else (Node.grammar true false (8 * ts.length + 8)).run { tokens := ts, handles }
  ⟨root, p.tokens.dropWhile (· == .documentEnd) == [.textEnd]⟩

/-- The document that tokens stand for. -/
def ofTokens (ts : List Token) : Tree :=
  match ts with
  | [.textEnd] => ⟨Node.blank, true⟩
  | .documentStart :: ts => ofContent handles true ts
  | .directive _ :: _ => match directives? false [] ts with
    | some (handles, .documentStart :: ts) => ofContent handles true ts
    | _ => ⟨.cut, false⟩
  | ts => ofContent handles false ts

/-- Reads a text. -/
def ofText (s : String) : Tree := ofTokens (Token.ofText s.toList)

/-- The node that an alias with the number stands for: the last one that has it. -/
def anchored? (d : Tree) (number : Nat) : Option Node :=
  (d.root.anchored.reverse.find? (·.1 == number)).map (·.2)

/-- How often aliases may be followed in one reading of the document. -/
def patience (d : Tree) : Nat := 100 * d.root.size

end Tree

end RequestAudit.Yaml
