import RequestAudit.Yaml.Spot

/-!
# Quoted scalars

Scalars between single quotes, where only the quote itself is doubled, and between double
quotes, where a backslash begins an escape. Line ends are folded in both.
-/

namespace RequestAudit.Yaml

namespace SingleQuoted

/-- The text up to the closing quote, and what follows that. The gap before the front is given
in reverse. -/
def read? : List Char → Spots → Option (List Char × Spots)
  | _, [] => none
  | gap, s :: rest =>
    if isBoundary (s :: rest) then none
    else if isBlank s.char || isBreak s.char then read? (s.char :: gap) rest
    else if s.char == '\'' then
      match rest with
      | t :: rest' =>
        if t.char == '\'' then
          (read? [] rest').map fun r => (fold gap.reverse ++ '\'' :: r.1, r.2)
        else some (fold gap.reverse, t :: rest')
      | [] => some (fold gap.reverse, [])
    else (read? [] rest).map fun r => (fold gap.reverse ++ s.char :: r.1, r.2)

end SingleQuoted

namespace DoubleQuoted

/-- The character of an escape with one letter. -/
def letter? : Char → Option Char
  | '0' => some '\x00'
  | 'a' => some '\x07'
  | 'b' => some '\x08'
  | 't' => some '\t'
  | '\t' => some '\t'
  | 'n' => some '\n'
  | 'v' => some '\x0b'
  | 'f' => some '\x0c'
  | 'r' => some '\r'
  | 'e' => some '\x1b'
  | ' ' => some ' '
  | '"' => some '"'
  | '/' => some '/'
  | '\\' => some '\\'
  | 'N' => some '\x85'
  | '_' => some '\xa0'
  | 'L' => some '\u2028'
  | 'P' => some '\u2029'
  | _ => none

/-- The number of digits of an escape that gives the code of its character. -/
def width? : Char → Option Nat
  | 'x' => some 2
  | 'u' => some 4
  | 'U' => some 8
  | _ => none

/-- The value of a hexadecimal digit. -/
def digit? (c : Char) : Option Nat :=
  if '0' ≤ c && c ≤ '9' then some (c.toNat - '0'.toNat)
  else if 'a' ≤ c && c ≤ 'f' then some (c.toNat - 'a'.toNat + 10)
  else if 'A' ≤ c && c ≤ 'F' then some (c.toNat - 'A'.toNat + 10)
  else none

/-- The character of a code, if there is one. -/
def charOf? (code : Nat) : Option Char :=
  if (0xd800 ≤ code && code ≤ 0xdfff) || 0x10ffff < code then none else some (Char.ofNat code)

/-- What has been read just before the front. -/
inductive State where
  /-- Blanks and line ends, in reverse. -/
  | gap (chars : List Char)
  /-- An escaped line end, and then the given blanks and line ends, in reverse. -/
  | joined (chars : List Char)
  /-- A part of an escaped code: the digits still to come, and the value so far. -/
  | code (more value : Nat)

/-- The text that the state stands for before a further character. -/
def State.text : State → List Char
  | gap cs => fold cs.reverse
  | joined cs => cs.reverse.filter isBreak
  | code _ _ => []

/-- The state after a further blank or line end. -/
def State.widen (c : Char) : State → State
  | gap cs => gap (c :: cs)
  | joined cs => joined (c :: cs)
  | code _ _ => gap [c]

/-- The text up to the closing quote, and what follows that. -/
def read? : State → Spots → Option (List Char × Spots)
  | _, [] => none
  | .code more value, s :: rest => do
    let d ← digit? s.char
    let value := 16 * value + d
    if more ≤ 1 then
      let c ← charOf? value
      (read? (.gap []) rest).map fun r => (c :: r.1, r.2)
    else read? (.code (more - 1) value) rest
  | state, s :: rest =>
    if isBoundary (s :: rest) then none
    else if isBlank s.char || isBreak s.char then read? (state.widen s.char) rest
    else if s.char == '"' then some (state.text, rest)
    else if s.char == '\\' then
      match rest with
      | [] => none
      | t :: rest' =>
        if isBreak t.char then
          (read? (.joined []) rest').map fun r => (state.text ++ r.1, r.2)
        else match width? t.char with
          | some n => (read? (.code n 0) rest').map fun r => (state.text ++ r.1, r.2)
          | none => do
            let c ← letter? t.char
            (read? (.gap []) rest').map fun r => (state.text ++ c :: r.1, r.2)
    else (read? (.gap []) rest).map fun r => (state.text ++ s.char :: r.1, r.2)

end DoubleQuoted

end RequestAudit.Yaml
