import RequestAudit.Yaml.Spot

/-!
# Block scalars

A block scalar takes whole lines, as they are after `|` and folded after `>`. Its header may
give the indentation of its lines and what happens to the line ends after the last of them.
-/

namespace RequestAudit.Yaml.Block

/-- What happens to the line ends after the last line with text. -/
inductive Chomp where
  /-- None stays. -/
  | strip
  /-- The first stays. -/
  | clip
  /-- All stay. -/
  | keep
  deriving DecidableEq, Repr

/-- What follows the indicator on its line. -/
structure Header where
  chomp : Chomp := .clip
  /-- The indentation against the surrounding collection, if it is given. -/
  increment? : Option Nat := none

/-- The chomping indicator of a character. -/
def chomp? (c : Char) : Option Chomp :=
  if c == '+' then some .keep else if c == '-' then some .strip else none

/-- The header at the front and what follows it; none for an indentation of zero. -/
def header? : Spots → Option (Header × Spots)
  | [] => some ({}, [])
  | s :: rest =>
    match chomp? s.char with
    | some chomp => match rest with
      | t :: rest' =>
        if t.char == '0' then none
        else if t.char.isDigit then some (⟨chomp, some (t.char.toNat - '0'.toNat)⟩, rest')
        else some (⟨chomp, none⟩, t :: rest')
      | [] => some (⟨chomp, none⟩, [])
    | none =>
      if s.char == '0' then none
      else if s.char.isDigit then
        let increment := s.char.toNat - '0'.toNat
        match rest with
        | t :: rest' => match chomp? t.char with
          | some chomp => some (⟨chomp, some increment⟩, rest')
          | none => some (⟨.clip, some increment⟩, t :: rest')
        | [] => some (⟨.clip, some increment⟩, [])
      else some ({}, s :: rest)

/-- What follows the line of the header, which may end in a comment; none if anything else is
left on that line. -/
def afterHeader? (t : Spots) : Option Spots :=
  let t := t.dropWhile fun s => isBlank s.char
  let t := if startsWith '#' t then t.dropWhile fun s => !isBreak s.char else t
  match t with
  | [] => some []
  | s :: rest => if isBreak s.char then some rest else none

/-- The greatest indentation up to the first line with text, or to the end of the text; none if
there is a tab in it. -/
def deepest? : Nat → Spots → Option Nat
  | most, [] => some most
  | most, s :: rest =>
    -- a space counts up to the column behind it, where the text may end
    if s.char == ' ' then deepest? (max most (s.column + 1)) rest
    else if s.char == '\t' then none
    else if isBreak s.char then deepest? (max most s.column) rest
    else some (max most s.column)

/-- What has been read just before the front. -/
inductive State where
  /-- A part of a line; the flag tells whether that line begins with a blank. -/
  | line (blank : Bool)
  /-- The end of such a line, if there was one, and the line ends after it, in reverse. -/
  | between (blank : Bool) (first : List Char) (more : List Char)

/-- The line ends that stay after the last line. -/
def Chomp.ends (chomp : Chomp) (first more : List Char) : List Char :=
  match chomp with
  | strip => []
  | clip => first
  | keep => first ++ more.reverse

/-- The line ends between two lines. A folded line feed reads as a space unless more follow. -/
def joint (literal blankBefore blankAfter : Bool) (first more : List Char) : List Char :=
  if !literal && first.head? == some '\n' && !blankBefore && !blankAfter then
    if more.isEmpty then [' '] else more.reverse
  else first ++ more.reverse

/-- The text of lines with at least `indent` columns of indentation, and what follows them; none
if a tab stands in the indentation. -/
def lines? (literal : Bool) (chomp : Chomp) (indent : Nat) :
    State → Spots → Option (List Char × Spots)
  | .line _, [] => some ([], [])
  | .line blank, s :: rest =>
    if isBreak s.char then lines? literal chomp indent (.between blank [s.char] []) rest
    else (lines? literal chomp indent (.line blank) rest).map fun r => (s.char :: r.1, r.2)
  | .between _ first more, [] => some (chomp.ends first more, [])
  | .between blank first more, s :: rest =>
    if s.char == ' ' && s.column < indent then
      lines? literal chomp indent (.between blank first more) rest
    else if s.char == '\t' && s.column < indent then none
    else if isBreak s.char then
      lines? literal chomp indent (.between blank first (s.char :: more)) rest
    else if s.column == indent then
      (lines? literal chomp indent (.line (isBlank s.char)) rest).map fun r =>
        (joint literal blank (isBlank s.char) first more ++ s.char :: r.1, r.2)
    else some (chomp.ends first more, s :: rest)

/-- The scalar after its indicator, within a collection of the given indentation, and what
follows it. -/
def read? (literal : Bool) (outer : Int) (t : Spots) : Option (List Char × Spots) := do
  let (header, t) ← header? t
  let t ← afterHeader? t
  let indent ← match header.increment? with
    | some n => some (outer.toNat + n)
    | none => (deepest? 0 t).map fun most => max most (max (outer + 1) 1).toNat
  lines? literal header.chomp indent (.between false [] []) t

end RequestAudit.Yaml.Block
