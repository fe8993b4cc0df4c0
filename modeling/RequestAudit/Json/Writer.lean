import RequestAudit.Document.Datum
import RequestAudit.Text.Quoted

/-!
# Writing JSON

Data as JSON text, on one line without blanks or indented by two. Only what must be escaped in
a string is.
-/

namespace RequestAudit.Json

open Document

/-- How a character stands in a string. -/
def escapeChar (c : Char) : List Char :=
  if c = '"' then ['\\', '"']
  else if c = '\\' then ['\\', '\\']
  else if c = '\x08' then ['\\', 'b']
  else if c = '\x0c' then ['\\', 'f']
  else if c = '\n' then ['\\', 'n']
  else if c = '\r' then ['\\', 'r']
  else if c = '\t' then ['\\', 't']
  else if c.toNat < 0x20 then ['\\', 'u'] ++ Text.hexDigits 4 c.toNat
  else [c]

/-- A string with its quotes. -/
def writeString (s : String) : List Char :=
  '"' :: s.toList.flatMap escapeChar ++ ['"']

/-- A truth value. -/
def writeFlag (b : Bool) : List Char :=
  if b then ['t', 'r', 'u', 'e'] else ['f', 'a', 'l', 's', 'e']

mutual

/-- Data on one line. -/
def write : Datum → List Char
  | .flag b => writeFlag b
  | .number n => Nat.toDigits 10 n
  | .text s => writeString s
  | .list [] => ['[', ']']
  | .list (d :: ds) => '[' :: (write d ++ writeTail ds)
  | .record [] => ['\x7b', '\x7d']
  | .record ((k, d) :: fs) => '\x7b' :: (writeString k ++ ':' :: (write d ++ writeFields fs))

/-- The elements after the first, and the end of the list. -/
def writeTail : List Datum → List Char
  | [] => [']']
  | d :: ds => ',' :: (write d ++ writeTail ds)

/-- The fields after the first, and the end of the record. -/
def writeFields : List (String × Datum) → List Char
  | [] => ['\x7d']
  | (k, d) :: fs => ',' :: (writeString k ++ ':' :: (write d ++ writeFields fs))

end

/-- A line break and the indentation after it. -/
def newLine (indent : Nat) : List Char := '\n' :: List.replicate indent ' '

mutual

/-- Data over several lines, `indent` being the indentation of the first. -/
def writeIndented (indent : Nat) : Datum → List Char
  | .flag b => writeFlag b
  | .number n => Nat.toDigits 10 n
  | .text s => writeString s
  | .list [] => ['[', ']']
  | .list (d :: ds) =>
    '[' :: (newLine (indent + 2) ++ writeIndented (indent + 2) d ++ indentedTail indent ds)
  | .record [] => ['\x7b', '\x7d']
  | .record ((k, d) :: fs) =>
    '\x7b' :: (newLine (indent + 2) ++ writeString k ++ ':' :: ' ' ::
      (writeIndented (indent + 2) d ++ indentedFields indent fs))

/-- The elements after the first, each on a new line, and the end of the list. -/
def indentedTail (indent : Nat) : List Datum → List Char
  | [] => newLine indent ++ [']']
  | d :: ds => ',' ::
    (newLine (indent + 2) ++ writeIndented (indent + 2) d ++ indentedTail indent ds)

/-- The fields after the first, each on a new line, and the end of the record. -/
def indentedFields (indent : Nat) : List (String × Datum) → List Char
  | [] => newLine indent ++ ['\x7d']
  | (k, d) :: fs => ',' :: (newLine (indent + 2) ++ writeString k ++ ':' :: ' ' ::
      (writeIndented (indent + 2) d ++ indentedFields indent fs))

end

/-- The text of data on one line. -/
def render (d : Datum) : String := String.ofList (write d)

/-- The text of data over several lines. -/
def renderIndented (d : Datum) : String := String.ofList (writeIndented 0 d)

end RequestAudit.Json
