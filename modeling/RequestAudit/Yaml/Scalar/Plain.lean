import RequestAudit.Yaml.Spot

/-!
# Plain scalars

A plain scalar stands without quotes. It ends before a colon and a gap, before a comment, where
its line's indentation ends, and in a flow collection before the collection's own characters.
-/

namespace RequestAudit.Yaml.Plain

/-- Where the character at the front ends the scalar; `gap` holds the blanks and line ends just
before it, in reverse. -/
def isEnd (inFlow : Bool) (indent : Int) (gap : List Char) (s : Spot) (rest : Spots) : Bool :=
  (!gap.isEmpty && (s.char == '#' || isBoundary (s :: rest)
      || (!inFlow && decide ((s.column : Int) < indent))))
    || (s.char == ':' && isGap rest) || (inFlow && isFlowEnd s.char)

/-- Whether a colon in a flow collection is followed by one of the characters that may not
follow it there. -/
def isLostColon (inFlow : Bool) (s : Spot) (rest : Spots) : Bool :=
  inFlow && s.char == ':' && match rest with
    | [] => false
    | t :: _ => isFlowEnd t.char || t.char == '?'

/-- The text of the scalar at the front, whether a line end follows it, and what is left after
the gap behind it; none if a tab stands in the indentation of one of its lines. -/
def read? (inFlow : Bool) (indent : Int) : List Char → Spots →
    Option (List Char × Bool × Spots)
  | gap, [] => some ([], gap.any isBreak, [])
  | gap, s :: rest =>
    if isBlank s.char || isBreak s.char then
      if s.char == '\t' && decide ((s.column : Int) < indent) && gap.any isBreak then none
      else read? inFlow indent (s.char :: gap) rest
    else if isLostColon inFlow s rest then none
    else if isEnd inFlow indent gap s rest then some ([], gap.any isBreak, s :: rest)
    else
      (read? inFlow indent [] rest).map fun r => (fold gap.reverse ++ s.char :: r.1, r.2)

end RequestAudit.Yaml.Plain
