import RequestAudit.Document.Datum
import RequestAudit.Text.Blank
import RequestAudit.Text.Quoted
import RequestAudit.Yaml.Spot

/-!
# Writing YAML

Data as YAML text in block style. A text is written plain where it can be. Texts that would not
read back as texts stand in single quotes, texts of several lines are block scalars, and what
none of these can hold stands in double quotes with escapes. Lines are never folded.
-/

namespace RequestAudit.Yaml

open Document

namespace Written

/-- A character that can be written as itself in some style other than double quotes. -/
def isPlainly (c : Char) : Bool :=
  let n := c.toNat
  n == 0x0a || (0x20 ≤ n && n ≤ 0x7e) || (0xa0 ≤ n && n ≤ 0xd7ff)
    || (0xe000 ≤ n && n ≤ 0xfffd && n != 0xfeff) || 0x10000 ≤ n

/-- Whether a gap begins here. -/
def isGap : List Char → Bool
  | [] => true
  | c :: _ => isBlank c || isBreak c

/-- Whether the first character of a scalar, with what follows it, rules out the plain style. -/
def isTakenFirst (c : Char) (rest : List Char) : Bool :=
  ['#', ',', '[', ']', '\x7b', '\x7d', '&', '*', '!', '|', '>', '\'', '"', '%', '@',
      '\x60'].contains c
    || ((c == '?' || c == ':' || c == '-') && isGap rest)

/-- Whether a later part of a scalar rules out the plain style: a colon before a gap, or a hash
after one. -/
def hasTaken : Char → List Char → Bool
  | _, [] => false
  | before, c :: rest =>
    (c == ':' && isGap rest) || (c == '#' && (isBlank before || isBreak before))
      || hasTaken c rest

/-- Whether characters satisfying `p` and `q` stand next to each other, in this order. -/
def hasPair (p q : Char → Bool) : List Char → Bool
  | a :: b :: rest => (p a && q b) || hasPair p q (b :: rest)
  | _ => false

/-- A space. -/
def isSpace (c : Char) : Bool := c == ' '

/-- Whether only double quotes can hold the text: it has characters that need escapes, or a line
that ends in a space. -/
def needsEscapes (cs : List Char) : Bool :=
  !cs.all isPlainly || hasPair isSpace isBreak cs

/-- Whether the plain style can hold the text. -/
def fitsPlain (cs : List Char) : Bool :=
  match cs with
  | [] => true
  | c :: rest =>
    !(isTakenFirst c rest || hasTaken c rest || ['-', '-', '-'].isPrefixOf cs
      || ['.', '.', '.'].isPrefixOf cs || isSpace c || (cs.getLast?.any isSpace)
      || cs.any isBreak || needsEscapes cs)

/-- Whether single quotes can hold the text. -/
def fitsSingle (cs : List Char) : Bool :=
  !(hasPair isBreak isSpace cs || needsEscapes cs)

/-- Whether a block scalar can hold the text. -/
def fitsBlock (cs : List Char) : Bool :=
  !(cs.isEmpty || cs.getLast?.any isSpace || needsEscapes cs)

/-- The words that some readers take for something other than a text. -/
def takenWords : List String :=
  ["true", "false", "null", "~", "y", "yes", "n", "no", "on", "off", "nil", "nan"]

/-- Whether a plain text might be taken for something else, such as a number. -/
def isAmbiguous (s : String) : Bool :=
  takenWords.contains (String.ofList (s.toList.map Char.toLower)) || match s.toList with
    | [] => true
    | c :: _ => c.isDigit || c == '-' || c == '.' || c == '+'

/-- Spaces. -/
def spaces (n : Nat) : List Char := List.replicate n ' '

/-- The text between single quotes. Lines after the first are indented; `broken` tells whether a
line end comes just before. -/
def singleBody (indent : Nat) : Bool → List Char → List Char
  | broken, [] => if broken then spaces indent else []
  | broken, c :: cs =>
    if isBreak c then c :: singleBody indent true cs
    else (if broken then spaces indent else []) ++ (if c == '\'' then ['\'', '\''] else [c])
      ++ singleBody indent false cs

/-- The text in single quotes. -/
def single (indent : Nat) (cs : List Char) : List Char :=
  '\'' :: singleBody indent false cs ++ ['\'']

/-- The digits of a code in upper case. -/
def code (width n : Nat) : List Char := (Text.hexDigits width n).map Char.toUpper

/-- How a character stands between double quotes. -/
def escape (c : Char) : List Char :=
  let n := c.toNat
  if c == '"' || c == '\\' then ['\\', c]
  else if isPlainly c && !isBreak c then [c]
  else if n == 0 then ['\\', '0']
  else if n == 0x07 then ['\\', 'a']
  else if n == 0x08 then ['\\', 'b']
  else if n == 0x09 then ['\\', 't']
  else if n == 0x0a then ['\\', 'n']
  else if n == 0x0b then ['\\', 'v']
  else if n == 0x0c then ['\\', 'f']
  else if n == 0x0d then ['\\', 'r']
  else if n == 0x1b then ['\\', 'e']
  else if n == 0x85 then ['\\', 'N']
  else if n == 0x2028 then ['\\', 'L']
  else if n == 0x2029 then ['\\', 'P']
  else if n ≤ 0xff then ['\\', 'x'] ++ code 2 n
  else if n ≤ 0xffff then ['\\', 'u'] ++ code 4 n
  else ['\\', 'U'] ++ code 8 n

/-- The text in double quotes. -/
def double (cs : List Char) : List Char := '"' :: cs.flatMap escape ++ ['"']

/-- The lines of a block scalar; `broken` tells whether a line end comes just before. -/
def blockBody (indent : Nat) : Bool → List Char → List Char
  | _, [] => []
  | broken, c :: cs =>
    if isBreak c then c :: blockBody indent true cs
    else (if broken then spaces indent else []) ++ c :: blockBody indent false cs

/-- The header of a block scalar: the indentation is given if the text does not show it, and the
line ends that are not just one are pointed out. -/
def header (cs : List Char) : List Char :=
  let hint := match cs with
    | c :: _ => if isSpace c || isBreak c then ['2'] else []
    | [] => []
  let chomp := match cs.reverse with
    | [] => ['-']
    | z :: before =>
      if !isBreak z then ['-']
      else match before with
        | [] => ['+']
        | y :: _ => if isBreak y then ['+'] else []
  '|' :: hint ++ chomp

/-- The text as a block scalar with lines as they are, up to the last of its line ends. -/
def block (indent : Nat) (cs : List Char) : List Char :=
  header cs ++ '\n' :: blockBody indent true cs

/-- A text within a collection of the given indentation, in the first style that can hold it. -/
def text (indent : Nat) (s : String) : List Char :=
  let cs := s.toList
  if cs.contains '\n' then
    if fitsBlock cs then block (indent + 2) cs else double cs
  else if !isAmbiguous s && fitsPlain cs then cs
  else if fitsSingle cs then single (indent + 2) cs
  else double cs

/-- Ends a line, unless it is at its end already. -/
def endLine (cs : List Char) : List Char :=
  if cs.getLast?.any isBreak then cs else cs ++ ['\n']

mutual

/-- What follows the name of a field of a record with the given indentation. -/
def fieldBody (indent : Nat) : Datum → List Char
  | .flag b => ' ' :: (toString b).toList ++ ['\n']
  | .number n => ' ' :: Nat.toDigits 10 n ++ ['\n']
  | .text s => ' ' :: endLine (text indent s)
  | .list [] => [' ', '[', ']', '\n']
  | .list (d :: ds) => '\n' :: items indent true (d :: ds)
  | .record [] => [' ', '\x7b', '\x7d', '\n']
  | .record (f :: fs) => '\n' :: fields (indent + 2) true (f :: fs)

/-- What follows the hyphen of an element of a list with the given indentation. -/
def itemBody (indent : Nat) : Datum → List Char
  | .flag b => (toString b).toList ++ ['\n']
  | .number n => Nat.toDigits 10 n ++ ['\n']
  | .text s => endLine (text indent s)
  | .list [] => ['[', ']', '\n']
  | .list (d :: ds) => items (indent + 2) false (d :: ds)
  | .record [] => ['\x7b', '\x7d', '\n']
  | .record (f :: fs) => fields (indent + 2) false (f :: fs)

/-- The elements of a list; `fresh` tells whether the first begins a line of its own. -/
def items (indent : Nat) (fresh : Bool) : List Datum → List Char
  | [] => []
  | d :: ds =>
    (if fresh then spaces indent else []) ++ '-' :: ' ' :: itemBody indent d
      ++ items indent true ds

/-- The fields of a record; `fresh` tells whether the first begins a line of its own. -/
def fields (indent : Nat) (fresh : Bool) : List (String × Datum) → List Char
  | [] => []
  | (k, d) :: fs =>
    (if fresh then spaces indent else []) ++ text indent k ++ ':' :: fieldBody indent d
      ++ fields indent true fs

end

/-- A whole document. -/
def document : Datum → List Char
  | .list [] => ['[', ']', '\n']
  | .list (d :: ds) => items 0 true (d :: ds)
  | .record [] => ['\x7b', '\x7d', '\n']
  | .record (f :: fs) => fields 0 true (f :: fs)
  | .text s => endLine (text 0 s)
  | .flag b => (toString b).toList ++ ['\n']
  | .number n => Nat.toDigits 10 n ++ ['\n']

end Written

/-- The YAML text of data. -/
def render (d : Datum) : String := String.ofList (Written.document d)

end RequestAudit.Yaml
