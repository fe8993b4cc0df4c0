import RequestAudit.Yaml.Property
import RequestAudit.Yaml.Scalar.Block
import RequestAudit.Yaml.Scalar.Plain
import RequestAudit.Yaml.Scalar.Quoted

/-!
# YAML tokens

A text as a list of tokens, in which indentation has become the starts and ends of block
collections. A scalar, alias or flow collection that may be the key of a mapping is remembered as
a candidate: when a colon follows on the same line, the start of the key, and of the mapping if it
is the first, are inserted before it. Tokens behind a candidate are therefore held back until it
is settled.
-/

namespace RequestAudit.Yaml

/-- How a scalar is written, as far as that matters for its meaning. -/
inductive Style where
  | plain
  | literal
  | other
  deriving DecidableEq, Repr

/-- The tokens of a text. -/
inductive Token where
  | directive (d : Directive)
  | documentStart
  | documentEnd
  | sequenceStart
  | mappingStart
  | blockEnd
  | flowSequenceStart
  | flowSequenceEnd
  | flowMappingStart
  | flowMappingEnd
  /-- An element of a block sequence. -/
  | item
  /-- A comma. -/
  | comma
  | key
  | value
  | reference (name : String)
  | anchor (name : String)
  | tag (t : Property.Tag)
  | scalar (style : Style) (text : String)
  | textEnd
  deriving DecidableEq, Repr

namespace Token

/-- A token that may turn out to begin a key. -/
structure Candidate where
  /-- Where it stands. -/
  mark : Mark
  /-- How many tokens come before it. -/
  number : Nat
  /-- Whether it must be a key, since nothing else can stand there. -/
  required : Bool
  deriving Repr

/-- The state in which a text is read: what is left of it, the indentation of the open block
collections, and what may still become a key. -/
structure State where
  /-- What is left of the text. -/
  text : Spots
  /-- Where the text ends. -/
  stop : Mark
  /-- The indentation of the innermost block collection; there is none at `-1`. -/
  indent : Int := -1
  /-- The indentations of the collections around it. -/
  outer : List Int := []
  /-- For each open flow collection and the block context below them, the innermost first, what
  may become a key there. -/
  candidates : List (Option Candidate) := [none]
  /-- Whether a key may begin here. -/
  keyAllowed : Bool := true
  /-- How many tokens are given out. -/
  given : Nat := 0
  /-- The tokens that are held back. -/
  held : List Token := []
  /-- Whether the end of the text is among the tokens. -/
  isDone : Bool := false

namespace State

/-- The position of what is left. -/
def mark (s : State) : Mark :=
  match s.text with
  | [] => s.stop
  | spot :: _ => spot.toMark

/-- Whether a flow collection is open. -/
def inFlow (s : State) : Bool := 1 < s.candidates.length

/-- The innermost candidate. -/
def candidate? (s : State) : Option Candidate := s.candidates.head?.join

/-- Adds a token. -/
def push (t : Token) (s : State) : State := { s with held := s.held ++ [t] }

/-- Inserts a token before the one with the given number. -/
def insert (number : Nat) (t : Token) (s : State) : State :=
  let k := number - s.given
  { s with held := s.held.take k ++ t :: s.held.drop k }

/-- Passes over characters. -/
def skip (n : Nat) (s : State) : State := { s with text := s.text.drop n }

/-- Gives up the candidates of earlier lines and those too far back; none if one of them had to
be a key. -/
def expire? (s : State) : Option State := do
  let m := s.mark
  let candidates ← s.candidates.mapM fun c => match c with
    | none => some none
    | some c =>
      if c.mark.line < m.line || c.mark.index + 1024 < m.index then
        if c.required then none else some none
      else some (some c)
  pure { s with candidates }

/-- Gives up the innermost candidate; none if it had to be a key. -/
def forget? (s : State) : Option State :=
  match s.candidates with
  | some c :: cs => if c.required then none else some { s with candidates := none :: cs }
  | _ => some s

/-- Makes the next token a candidate if a key may begin here; none if the candidate before it
had to be a key. -/
def remember? (s : State) : Option State :=
  if s.keyAllowed then do
    let m := s.mark
    let required := !s.inFlow && s.indent == (m.column : Int)
    let s ← s.forget?
    pure { s with candidates := some ⟨m, s.given + s.held.length, required⟩ :: s.candidates.drop 1 }
  else some s

/-- Opens a block collection, if the column is deeper than the innermost one's, by a token before
the one with the given number. -/
def deepen (column number : Nat) (t : Token) (s : State) : State :=
  if !s.inFlow && s.indent < (column : Int) then
    { s.insert number t with indent := column, outer := s.indent :: s.outer }
  else s

/-- Closes the block collections whose indentation exceeds the column, `outer` being those around
the innermost. -/
def closeTo (column indent : Int) : List Int → Int × List Int × List Token
  | [] => (indent, [], [])
  | o :: outer =>
    if column < indent then
      let (i, rest, ends) := closeTo column o outer
      (i, rest, .blockEnd :: ends)
    else (indent, o :: outer, [])

/-- Closes the block collections that are deeper than the column. -/
def close (column : Int) (s : State) : State :=
  if s.inFlow then s
  else
    let (indent, outer, ends) := closeTo column s.indent s.outer
    { s with indent, outer, held := s.held ++ ends }

/-- The text after blanks, comments and empty lines, and whether a line end was among them. A tab
counts as a blank only where it cannot be taken for indentation. -/
def skipGap (inFlow : Bool) : Bool → Bool → Spots → Bool × Spots
  | keyAllowed, _, [] => (keyAllowed, [])
  | keyAllowed, inComment, s :: rest =>
    if isBreak s.char then skipGap inFlow (keyAllowed || !inFlow) false rest
    else if inComment then skipGap inFlow keyAllowed true rest
    else if s.char == ' ' || (s.char == '\t' && (inFlow || !keyAllowed)) then
      skipGap inFlow keyAllowed false rest
    else if s.char == '#' then skipGap inFlow keyAllowed true rest
    else (keyAllowed, s :: rest)

/-- Passes over what separates tokens. -/
def advance (s : State) : State :=
  let text := match s.text with
    | spot :: rest => if spot.index == 0 && spot.char == '\ufeff' then rest else spot :: rest
    | [] => []
  let (keyAllowed, text) := skipGap s.inFlow s.keyAllowed false text
  { s with text, keyAllowed }

/-- Takes a token of one character that is no candidate. -/
def takeMark (t : Token) (s : State) : State := (s.skip 1).push t

/-- The end of the text, which also ends its line. -/
def takeEnd? (s : State) : Option State := do
  let m := s.stop
  let stop := if m.column = 0 then m else ⟨m.index, m.line + 1, 0⟩
  let s ← ({ s with stop }.close (-1)).forget?
  pure { s.push .textEnd with keyAllowed := false, isDone := true }

/-- A directive. -/
def takeDirective? (s : State) : Option State := do
  let s ← (s.close (-1)).forget?
  let (d, text) ← Directive.read? (s.text.drop 1)
  pure { s.push (.directive d) with text, keyAllowed := false }

/-- A line between documents. -/
def takeDivider? (t : Token) (s : State) : Option State := do
  let s ← (s.close (-1)).forget?
  pure { (s.skip 3).push t with keyAllowed := false }

/-- The start of a flow collection. -/
def takeOpening? (t : Token) (s : State) : Option State := do
  let s ← s.remember?
  pure { s.takeMark t with candidates := none :: s.candidates, keyAllowed := true }

/-- The end of a flow collection. -/
def takeClosing? (t : Token) (s : State) : Option State := do
  let s ← s.forget?
  let candidates := if s.inFlow then s.candidates.drop 1 else s.candidates
  pure { s.takeMark t with candidates, keyAllowed := false }

/-- A comma. -/
def takeComma? (s : State) : Option State := do
  let s ← s.forget?
  pure { s.takeMark .comma with keyAllowed := true }

/-- The start of an element of a block sequence. -/
def takeItem? (s : State) : Option State := do
  if !s.inFlow && !s.keyAllowed then none
  else
    let s ← (s.deepen s.mark.column (s.given + s.held.length) .sequenceStart).forget?
    pure { s.takeMark .item with keyAllowed := true }

/-- The start of a key that is announced by a question mark. -/
def takeKey? (s : State) : Option State := do
  if !s.inFlow && !s.keyAllowed then none
  else
    let s ← (s.deepen s.mark.column (s.given + s.held.length) .mappingStart).forget?
    pure { s.takeMark .key with keyAllowed := !s.inFlow }

/-- The start of a value, which makes a key of the candidate if there is one. -/
def takeValue? (s : State) : Option State :=
  match s.candidate? with
  | some c =>
    let s := (s.insert c.number .key).deepen c.mark.column c.number .mappingStart
    some { s.takeMark .value with
      candidates := none :: s.candidates.drop 1, keyAllowed := false }
  | none =>
    if !s.inFlow && !s.keyAllowed then none
    else
      let s := s.deepen s.mark.column (s.given + s.held.length) .mappingStart
      some { s.takeMark .value with keyAllowed := !s.inFlow }

/-- An alias, an anchor or a tag, read by `read` after its indicator. -/
def takeProperty? {α : Type} (read : Spots → Option (α × Spots)) (f : α → Token) (s : State) :
    Option State := do
  let s ← s.remember?
  let (a, text) ← read (s.text.drop 1)
  pure { s.push (f a) with text, keyAllowed := false }

/-- A block scalar. -/
def takeBlock? (literal : Bool) (s : State) : Option State := do
  let s ← s.forget?
  let (cs, text) ← Block.read? literal s.indent (s.text.drop 1)
  let style := if literal then Style.literal else .other
  pure { s.push (.scalar style (String.ofList cs)) with text, keyAllowed := true }

/-- A scalar between quotes, read by `read` after the first of them. -/
def takeQuoted? (read : Spots → Option (List Char × Spots)) (s : State) : Option State := do
  let s ← s.remember?
  let (cs, text) ← read (s.text.drop 1)
  pure { s.push (.scalar .other (String.ofList cs)) with text, keyAllowed := false }

/-- A plain scalar. After one that is followed by a line end a key may begin again. -/
def takePlain? (s : State) : Option State := do
  let s ← s.remember?
  let (cs, spans, text) ← Plain.read? s.inFlow (s.indent + 1) [] s.text
  pure { s.push (.scalar .plain (String.ofList cs)) with text, keyAllowed := spans }

/-- The characters that cannot begin a plain scalar. -/
def indicators : List Char :=
  ['-', '?', ':', ',', '[', ']', '\x7b', '\x7d', '#', '&', '*', '!', '|', '>', '\'', '"', '%',
    '@', '\x60']

/-- Whether a plain scalar begins here. -/
def beginsPlain (inFlow : Bool) (c : Char) (rest : Spots) : Bool :=
  !(isBlank c || isBreak c || indicators.contains c)
    || (c == '-' && !match rest with
      | [] => false
      | s :: _ => isBlank s.char)
    || (!inFlow && (c == '?' || c == ':') && !isGap rest)

/-- The token that begins with the character `c`; none if no token can. -/
def takeFrom? (c : Char) (rest : Spots) (s : State) : Option State :=
  if c == '%' && s.mark.column == 0 then s.takeDirective?
  else if isDivider '-' s.text then s.takeDivider? .documentStart
  else if isDivider '.' s.text then s.takeDivider? .documentEnd
  else if c == '[' then s.takeOpening? .flowSequenceStart
  else if c == '\x7b' then s.takeOpening? .flowMappingStart
  else if c == ']' then s.takeClosing? .flowSequenceEnd
  else if c == '\x7d' then s.takeClosing? .flowMappingEnd
  else if c == ',' then s.takeComma?
  else if c == '-' && isGap rest then s.takeItem?
  else if c == '?' && (s.inFlow || isGap rest) then s.takeKey?
  else if c == ':' && (s.inFlow || isGap rest) then s.takeValue?
  else if c == '*' then s.takeProperty? Property.name? .reference
  else if c == '&' then s.takeProperty? Property.name? .anchor
  else if c == '!' then s.takeProperty? (Property.tag? s.inFlow) .tag
  else if c == '|' && !s.inFlow then s.takeBlock? true
  else if c == '>' && !s.inFlow then s.takeBlock? false
  else if c == '\'' then s.takeQuoted? (SingleQuoted.read? [])
  else if c == '"' then s.takeQuoted? (DoubleQuoted.read? (.gap []))
  else if beginsPlain s.inFlow c rest then s.takePlain?
  else none

/-- Takes the next token into those held back; none if the text violates the notation there. -/
def take? (s : State) : Option State := do
  let s ← s.advance.expire?
  let s := s.close s.mark.column
  match s.text with
  | [] => s.takeEnd?
  | spot :: rest => s.takeFrom? spot.char rest

/-- Gives out the tokens before the first candidate; none if a candidate expires that had to be
a key. -/
def give? (s : State) : Option (List Token × State) := do
  let s ← s.expire?
  let firsts := s.candidates.filterMap fun c => c.map (·.number)
  let k := match firsts.min? with
    | some n => n - s.given
    | none => s.held.length
  pure (s.held.take k, { s with held := s.held.drop k, given := s.given + k })

/-- The tokens of what is left, as far as it can be read. Every step takes a character, but for
the last. -/
def tokens : Nat → State → List Token
  | 0, _ => []
  | fuel + 1, s =>
    match s.take? with
    | none => []
    | some s => match s.give? with
      | none => []
      | some (ts, s) => if s.isDone then ts else ts ++ tokens fuel s

end State

/-- The tokens of a text up to its end or to the first violation of the notation, which is seen
by the lack of an end. A text with a character that may not occur has no tokens at all. -/
def ofText (cs : List Char) : List Token :=
  if !cs.all isAllowed then []
  else
    let cs := joinBreaks (match cs with
      | '\ufeff' :: rest => rest
      | cs => cs)
    State.tokens (cs.length + 1) { text := place {} cs, stop := finish {} cs }

end Token

end RequestAudit.Yaml
