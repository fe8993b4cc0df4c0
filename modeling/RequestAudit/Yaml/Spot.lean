/-!
# YAML text with positions

The characters of a YAML text, each with its line and its column, and the classes of characters
that the notation distinguishes.
-/

namespace RequestAudit.Yaml

/-- A position in a text. All counts begin at zero. -/
structure Mark where
  /-- How many characters stand before it. -/
  index : Nat := 0
  /-- How many lines end before it. -/
  line : Nat := 0
  /-- How many characters stand before it on its line. -/
  column : Nat := 0
  deriving DecidableEq, Repr, Inhabited

/-- A character at its position. -/
structure Spot extends Mark where
  /-- The character. -/
  char : Char
  deriving DecidableEq, Repr

/-- A character that ends a line. -/
def isBreak (c : Char) : Bool :=
  c == '\n' || c == '\r' || c == '\x85' || c == '\u2028' || c == '\u2029'

/-- A blank within a line. -/
def isBlank (c : Char) : Bool := c == ' ' || c == '\t'

/-- A character that a YAML text may hold at all. -/
def isAllowed (c : Char) : Bool :=
  let n := c.toNat
  n == 0x09 || n == 0x0a || n == 0x0d || (0x20 ≤ n && n ≤ 0x7e) || n == 0x85
    || (0xa0 ≤ n && n ≤ 0xfffd) || 0x10000 ≤ n

/-- The position after a character. -/
def Mark.next (m : Mark) (c : Char) : Mark :=
  if isBreak c then ⟨m.index + 1, m.line + 1, 0⟩ else ⟨m.index + 1, m.line, m.column + 1⟩

/-- A text from some position on. -/
abbrev Spots := List Spot

/-- Gives every character its position, from `m` on. -/
def place (m : Mark) : List Char → Spots
  | [] => []
  | c :: cs => ⟨m, c⟩ :: place (m.next c) cs

/-- The position after a whole text that begins at `m`. -/
def finish (m : Mark) (cs : List Char) : Mark := cs.foldl Mark.next m

/-- The characters of a text. -/
def chars (t : Spots) : List Char := t.map (·.char)

@[simp] theorem chars_place (m : Mark) (cs : List Char) : chars (place m cs) = cs := by
  induction cs generalizing m with
  | nil => rfl
  | cons c cs ih => simpa [place, chars] using ih (m.next c)

/-- The two characters of one line end, and the two other simple ones, as one line feed. The
separators of lines and of paragraphs stay as they are. -/
def joinBreaks : List Char → List Char
  | [] => []
  | '\r' :: '\n' :: cs => '\n' :: joinBreaks cs
  | c :: cs => (if c == '\r' || c == '\x85' then '\n' else c) :: joinBreaks cs

/-- Whether the text ends here, or goes on with a blank or a line end. -/
def isGap : Spots → Bool
  | [] => true
  | s :: _ => isBlank s.char || isBreak s.char

/-- Whether the text goes on with the character. -/
def startsWith (c : Char) : Spots → Bool
  | [] => false
  | s :: _ => s.char == c

/-- Whether a line begins here with three characters `c` and then a gap, which separates
documents. -/
def isDivider (c : Char) : Spots → Bool
  | a :: b :: d :: rest =>
    a.column == 0 && a.char == c && b.char == c && d.char == c && isGap rest
  | _ => false

/-- Whether documents are separated here, in either way. -/
def isBoundary (t : Spots) : Bool := isDivider '-' t || isDivider '.' t

/-- A letter, digit, hyphen or underscore. -/
def isWord (c : Char) : Bool := c.isAlphanum || c == '-' || c == '_'

/-- A character that ends a plain scalar within a flow collection. -/
def isFlowEnd (c : Char) : Bool :=
  c == ',' || c == '[' || c == ']' || c == '\x7b' || c == '\x7d'

/-- A sequence of blanks and line ends within a scalar as part of its text: blanks stay as they
are, a single line feed reads as a space, of several line feeds the first disappears, and blanks
around line ends disappear. -/
def fold (gap : List Char) : List Char :=
  match gap.filter isBreak with
  | [] => gap
  | ['\n'] => [' ']
  | '\n' :: more => more
  | breaks => breaks

end RequestAudit.Yaml
