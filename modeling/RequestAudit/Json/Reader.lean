import RequestAudit.Json.Basic

/-!
# Reading JSON texts

A text is read into a tree from left to right. Reading never fails: it stops at the first
violation of the notation, which the tree shows as a `broken` leaf.
-/

namespace RequestAudit.Json

/-- A blank between the parts of a JSON text. -/
def isSpace (c : Char) : Bool :=
  c == ' ' || c == '\n' || c == '\t' || c == '\r'

/-- The text after its blanks. -/
def skipSpace (cs : List Char) : List Char := cs.dropWhile isSpace

/-! ## Strings -/

/-- A part of a string: a character, or a unit that is half of a surrogate pair. -/
inductive Piece where
  | char (c : Char)
  | half (unit : Nat)
  deriving DecidableEq, Repr

/-- The value of a hexadecimal digit. -/
def hexValue? (c : Char) : Option Nat :=
  if '0' ≤ c && c ≤ '9' then some (c.toNat - '0'.toNat)
  else if 'a' ≤ c && c ≤ 'f' then some (c.toNat - 'a'.toNat + 10)
  else if 'A' ≤ c && c ≤ 'F' then some (c.toNat - 'A'.toNat + 10)
  else none

/-- The number that hexadecimal digits spell. -/
def hexNumber? (cs : List Char) : Option Nat :=
  cs.foldlM (fun n c => (hexValue? c).map (16 * n + ·)) 0

/-- The part that a unit of 16 bits stands for. -/
def pieceOf (unit : Nat) : Piece :=
  if 0xd800 ≤ unit && unit < 0xe000 then .half unit else .char (Char.ofNat unit)

/-- The character of an escape with one letter. -/
def shortEscape? : Char → Option Char
  | '"' => some '"'
  | '\\' => some '\\'
  | '/' => some '/'
  | 'b' => some '\x08'
  | 'f' => some '\x0c'
  | 'n' => some '\n'
  | 'r' => some '\r'
  | 't' => some '\t'
  | _ => none

/-- The parts of a string up to its closing quote, and what follows that. -/
def pieces? : List Char → Option (List Piece × List Char)
  | [] => none
  | '"' :: rest => some ([], rest)
  | '\\' :: 'u' :: a :: b :: c :: d :: rest => do
    let unit ← hexNumber? [a, b, c, d]
    let (ps, rest) ← pieces? rest
    pure (pieceOf unit :: ps, rest)
  | '\\' :: c :: rest => do
    let c ← shortEscape? c
    let (ps, rest) ← pieces? rest
    pure (.char c :: ps, rest)
  | c :: rest => do
    if c.toNat < 0x20 || c == '\\' then none
    else
      let (ps, rest) ← pieces? rest
      pure (.char c :: ps, rest)

/-- The characters of the parts, pairs of halves being joined; none if a half is left over. -/
def join? : List Piece → Option (List Char)
  | [] => some []
  | .char c :: ps => (join? ps).map (c :: ·)
  | .half a :: .half b :: ps =>
    if a < 0xdc00 && 0xdc00 ≤ b then
      (join? ps).map (Char.ofNat (0x10000 + (a - 0xd800) * 0x400 + (b - 0xdc00)) :: ·)
    else none
  | .half _ :: _ => none

/-- The string after an opening quote. -/
def readString (cs : List Char) : Json × List Char :=
  match pieces? cs with
  | none => (broken, [])
  | some (ps, rest) => match join? ps with
    | none => (halfString, rest)
    | some s => (string (String.ofList s), rest)

/-! ## Numbers -/

/-- The largest natural number of 64 bits. -/
def wordMax : Nat := Nat.pow 2 64 - 1

/-- The value of a decimal digit. -/
def digitValue (c : Char) : Nat := c.toNat - '0'.toNat

/-- A significand under construction: digits beyond 64 bits are counted and not kept. -/
structure Significand where
  value : Nat := 0
  power : Int := 0
  full : Bool := false

/-- Takes up a digit before the point. -/
def Significand.whole (s : Significand) (c : Char) : Significand :=
  if s.full then { s with power := s.power + 1 }
  else if wordMax < 10 * s.value + digitValue c then { s with power := s.power + 1, full := true }
  else { s with value := 10 * s.value + digitValue c }

/-- Takes up a digit after the point. -/
def Significand.fraction (s : Significand) (c : Char) : Significand :=
  if s.full then s
  else if wordMax < 10 * s.value + digitValue c then { s with full := true }
  else { s with value := 10 * s.value + digitValue c, power := s.power - 1 }

/-- The digits at the front, and what follows them. -/
def spanDigits (cs : List Char) : List Char × List Char :=
  (cs.takeWhile Char.isDigit, cs.dropWhile Char.isDigit)

/-- The number that decimal digits spell. -/
def decimalNumber (ds : List Char) : Nat :=
  ds.foldl (fun n c => 10 * n + digitValue c) 0

/-- The exponent at the front, if one begins there; none if it is not well formed. -/
def exponent? : List Char → Option (Option Int × List Char)
  | c :: rest =>
    if c == 'e' || c == 'E' then
      let (minus, rest) := match rest with
        | '+' :: rest => (false, rest)
        | '-' :: rest => (true, rest)
        | rest => (false, rest)
      let (ds, rest) := spanDigits rest
      if ds.isEmpty then none
      else some (some (if minus then -(decimalNumber ds : Int) else decimalNumber ds), rest)
    else some (none, c :: rest)
  | [] => some (none, [])

/-- The fraction at the front, if one begins there; none if it is not well formed. -/
def fraction? : List Char → Option (List Char × List Char)
  | '.' :: rest =>
    let (ds, rest) := spanDigits rest
    if ds.isEmpty then none else some (ds, rest)
  | rest => some ([], rest)

/-- The number that is written, from its parts. -/
def numeralOf (minus : Bool) (whole fraction : List Char) (exponent : Option Int) : Numeral :=
  let s := whole.foldl Significand.whole {}
  if fraction.isEmpty && exponent.isNone && !s.full then
    if !minus then .natural s.value
    else if 1 ≤ s.value && s.value ≤ Nat.pow 2 63 then .negative s.value
    else .real true s.value 0
  else
    let s := fraction.foldl Significand.fraction
      { s with full := s.full && wordMax < 10 * s.value + digitValue (fraction.headD '9') }
    .real minus s.value (s.power + exponent.getD 0)

/-- The number at the front. -/
def readNumber (cs : List Char) : Json × List Char :=
  let (minus, rest) := match cs with
    | '-' :: rest => (true, rest)
    | rest => (false, rest)
  let (whole, rest) := spanDigits rest
  if whole.isEmpty || (whole.headD '0' == '0' && 1 < whole.length) then (broken, [])
  else match fraction? rest with
    | none => (broken, [])
    | some (fraction, rest) => match exponent? rest with
      | none => (broken, [])
      | some (exponent, rest) => (number (numeralOf minus whole fraction exponent), rest)

/-! ## Values -/

mutual

/-- The value at the front and what follows it; `fuel` bounds the steps. -/
def readValue : Nat → List Char → Json × List Char
  | 0, _ => (broken, [])
  | fuel + 1, cs => match skipSpace cs with
    | '\x7b' :: rest => match skipSpace rest with
      | '\x7d' :: rest => (object [], rest)
      | rest =>
        let (es, rest) := readEntries fuel rest
        (object es, rest)
    | '[' :: rest => match skipSpace rest with
      | ']' :: rest => (array [], rest)
      | rest =>
        let (vs, rest) := readItems fuel rest
        (array vs, rest)
    | '"' :: rest => readString rest
    | 'n' :: 'u' :: 'l' :: 'l' :: rest => (null, rest)
    | 't' :: 'r' :: 'u' :: 'e' :: rest => (bool true, rest)
    | 'f' :: 'a' :: 'l' :: 's' :: 'e' :: rest => (bool false, rest)
    | rest => readNumber rest

/-- The elements of an array up to its end. -/
def readItems : Nat → List Char → List Json × List Char
  | 0, _ => ([broken], [])
  | fuel + 1, cs =>
    let (v, rest) := readValue fuel cs
    match skipSpace rest with
    | ',' :: rest =>
      let (vs, rest) := readItems fuel rest
      (v :: vs, rest)
    | ']' :: rest => ([v], rest)
    | _ => ([v, broken], [])

/-- The entries of an object up to its end. -/
def readEntries : Nat → List Char → List (Json × Json) × List Char
  | 0, _ => ([(broken, broken)], [])
  | fuel + 1, cs =>
    let (k, rest) := readValue fuel cs
    match skipSpace rest with
    | ':' :: rest =>
      let (v, rest) := readValue fuel rest
      match skipSpace rest with
      | ',' :: rest =>
        let (es, rest) := readEntries fuel rest
        ((k, v) :: es, rest)
      | '\x7d' :: rest => ([(k, v)], rest)
      | _ => ([(k, v), (broken, broken)], [])
    | _ => ([(k, broken)], [])

end

/-- A text read as JSON: the value, and whether nothing but blanks follows it. -/
structure Reading where
  value : Json
  isEnd : Bool

/-- Reads a text. Every two steps take a character, which bounds their number. -/
def ofText (s : String) : Reading :=
  let cs := s.toList
  let (v, rest) := readValue (2 * cs.length + 2) cs
  ⟨v, (skipSpace rest).isEmpty⟩

end RequestAudit.Json
