import RequestAudit.Decimal.Shortest
import RequestAudit.Document.Fault

/-!
# What plain scalars mean

A plain scalar may be nothing, a truth value, an integer or a number with a fraction; otherwise
it is a text. Numbers with leading zeros are texts.
-/

namespace RequestAudit.Yaml

open Document (Found)

/-- Whether a plain scalar is the null. -/
def isNull (s : String) : Bool := ["null", "Null", "NULL", "~"].contains s

/-- The truth value of a plain scalar. -/
def flag? (s : String) : Option Bool :=
  if ["true", "True", "TRUE"].contains s then some true
  else if ["false", "False", "FALSE"].contains s then some false
  else none

namespace Number

/-- The value of a digit in a base up to sixteen. -/
def digit? (base : Nat) (c : Char) : Option Nat :=
  let d :=
    if '0' ≤ c && c ≤ '9' then c.toNat - '0'.toNat
    else if 'a' ≤ c && c ≤ 'f' then c.toNat - 'a'.toNat + 10
    else if 'A' ≤ c && c ≤ 'F' then c.toNat - 'A'.toNat + 10
    else 16
  if d < base then some d else none

/-- The natural number of at least one digit. -/
def natural? (base : Nat) (cs : List Char) : Option Nat :=
  if cs.isEmpty then none
  else cs.foldlM (fun n c => (digit? base c).map (base * n + ·)) 0

/-- Whether the scalar is a zero followed by digits, after a sign. -/
def hasLeadingZero (cs : List Char) : Bool :=
  let ds := match cs with
    | '-' :: ds => ds
    | '+' :: ds => ds
    | ds => ds
  1 < ds.length && ds.head? == some '0' && ds.all Char.isDigit

/-- A magnitude in one of the bases with a sign of their own. -/
def based? : List Char → Option Nat
  | '0' :: 'x' :: cs => natural? 16 cs
  | '0' :: 'o' :: cs => natural? 8 cs
  | '0' :: 'b' :: cs => natural? 2 cs
  | _ => none

/-- The integer that a plain scalar is. -/
def integer? (cs : List Char) : Option Int :=
  let (minus, ds) := match cs with
    | '-' :: ds => (true, ds)
    | '+' :: ds => (false, ds)
    | ds => (false, ds)
  let n? := match based? ds with
    | some n => some n
    | none => if hasLeadingZero cs then none else natural? 10 ds
  n?.map fun n => if minus then -(n : Int) else n

/-- How an integer is named: beyond 64 bits by the width of 128 bits. -/
def found? (n : Int) : Option Found :=
  if -Nat.pow 2 63 ≤ n && n < Nat.pow 2 64 then some (.integer n)
  else if 0 ≤ n && n < Nat.pow 2 128 then some (.wide n "u128")
  else if -Nat.pow 2 127 ≤ n && n < 0 then some (.wide n "i128")
  else none

/-- The digits at the front, and what follows them. -/
def spanDigits (cs : List Char) : List Char × List Char :=
  (cs.takeWhile Char.isDigit, cs.dropWhile Char.isDigit)

/-- The exponent that makes up the whole text. -/
def exponent? : List Char → Option Int
  | [] => some 0
  | c :: cs =>
    if c != 'e' && c != 'E' then none
    else match cs with
      | '-' :: ds => (natural? 10 ds).map fun n => -(n : Int)
      | '+' :: ds => (natural? 10 ds).map fun n => n
      | ds => (natural? 10 ds).map fun n => n

/-- The magnitude of a decimal, if it is one and not too large. -/
def magnitude? (cs : List Char) : Option Decimal.Double := do
  let (whole, rest) := spanDigits cs
  let (fraction, rest) := match rest with
    | '.' :: rest => spanDigits rest
    | rest => ([], rest)
  let e ← exponent? rest
  let n ← natural? 10 (whole ++ fraction)
  Decimal.Double.ofDecimal? n (e - fraction.length)

/-- The text of the number with a fraction that a plain scalar is. -/
def real? (cs : List Char) : Option String :=
  let signed (minus : Bool) (ds : List Char) : Option String :=
    (magnitude? ds).map fun x =>
      String.ofList ((if minus then ['-'] else []) ++ x.shortest.positional)
  let infinities := [".inf", ".Inf", ".INF"]
  match cs with
  | '+' :: '+' :: _ => none
  | '+' :: '-' :: _ => none
  | '+' :: ds => if infinities.contains (String.ofList ds) then some "inf" else signed false ds
  | '-' :: '+' :: _ => none
  | '-' :: ds => if infinities.contains (String.ofList ds) then some "-inf" else signed true ds
  | ds =>
    let s := String.ofList ds
    if infinities.contains s then some "inf"
    else if [".nan", ".NaN", ".NAN"].contains s then some "NaN"
    else signed false ds

end Number

/-- What a plain scalar is. -/
def meaning (s : String) : Found :=
  let cs := s.toList
  if cs.isEmpty || isNull s then .nothing
  else match flag? s with
    | some b => .flag b
    | none => match (Number.integer? cs).bind Number.found? with
      | some found => found
      | none =>
        if Number.hasLeadingZero cs then .text s
        else match Number.real? cs with
          | some digits => .real digits
          | none => .text s

end RequestAudit.Yaml
