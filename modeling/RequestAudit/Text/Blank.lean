/-!
# Blank characters

The characters with the Unicode property `White_Space`, and trimming of them.
-/

namespace RequestAudit.Text

/-- The blanks outside the range of `Char.isWhitespace`, which knows ASCII only. -/
def wideBlanks : List Nat :=
  [0x0b, 0x0c, 0x85, 0xa0, 0x1680, 0x2000, 0x2001, 0x2002, 0x2003, 0x2004, 0x2005, 0x2006,
    0x2007, 0x2008, 0x2009, 0x200a, 0x2028, 0x2029, 0x202f, 0x205f, 0x3000]

/-- A character that separates words and has no other meaning. -/
def isBlank (c : Char) : Bool :=
  c.isWhitespace || wideBlanks.contains c.toNat

/-- Drops the longest run of elements satisfying `p` at the end. -/
def dropEndWhile (p : α → Bool) (xs : List α) : List α :=
  (xs.reverse.dropWhile p).reverse

/-- Drops the blanks at both ends. -/
def trim (cs : List Char) : List Char :=
  dropEndWhile isBlank (cs.dropWhile isBlank)

@[simp] theorem trim_nil : trim [] = [] := rfl

end RequestAudit.Text
