import RequestAudit.Text.Utf8
import RequestAudit.Yaml.Spot

/-!
# Anchors, tags and directives

The properties that a node may have before its content, and the lines before a document that say
how tags are to be understood.
-/

namespace RequestAudit.Yaml

/-- The characters at the front that satisfy `p`, and what follows them. -/
def spanChars (p : Char → Bool) (t : Spots) : List Char × Spots :=
  (chars (t.takeWhile fun s => p s.char), t.dropWhile fun s => p s.char)

namespace Property

/-- The characters that may follow the name of an anchor without a gap. -/
def afterName : List Char := ['?', ':', ',', ']', '\x7d', '%', '@', '\x60']

/-- The name after the indicator of an anchor or an alias, and what follows it. -/
def name? (t : Spots) : Option (String × Spots) :=
  let (name, rest) := spanChars isWord t
  let ok := isGap rest || match rest with
    | [] => true
    | s :: _ => afterName.contains s.char
  if name.isEmpty || !ok then none else some (String.ofList name, rest)

/-- A character of a tag; the flag says whether the list characters are among them. -/
def isTagChar (whole : Bool) (c : Char) : Bool :=
  isWord c || [';', '/', '?', ':', '@', '&', '=', '+', '$', '.', '!', '~', '*', '\'', '(',
    ')'].contains c || (whole && (c == ',' || c == '[' || c == ']'))

/-- The value of a hexadecimal digit. -/
def digit? (c : Char) : Option Nat :=
  if '0' ≤ c && c ≤ '9' then some (c.toNat - '0'.toNat)
  else if 'a' ≤ c && c ≤ 'f' then some (c.toNat - 'a'.toNat + 10)
  else if 'A' ≤ c && c ≤ 'F' then some (c.toNat - 'A'.toNat + 10)
  else none

/-- The bytes of a tag's text, where an escaped byte is two digits after a percent sign, and what
follows them. -/
def tagBytes? (whole : Bool) : Spots → Option (List UInt8 × Spots)
  | [] => some ([], [])
  | s :: rest =>
    if s.char == '%' then
      match rest with
      | a :: b :: rest => do
        let x ← digit? a.char
        let y ← digit? b.char
        (tagBytes? whole rest).map fun r => (UInt8.ofNat (16 * x + y) :: r.1, r.2)
      | _ => none
    else if isTagChar whole s.char then
      (tagBytes? whole rest).map fun r => (String.utf8EncodeChar s.char ++ r.1, r.2)
    else some ([], s :: rest)

/-- The text of a tag at the front and what follows it; none if it is not readable. -/
def tagText? (whole : Bool) (t : Spots) : Option (List Char × Spots) := do
  let (bytes, rest) ← tagBytes? whole t
  match Text.Utf8.decode bytes with
  | .ok cs => some (cs, rest)
  | .error _ => none

/-- A tag as it is written: a handle that stands for the beginning of the tag, and the rest of
it. The empty handle stands for nothing. -/
structure Tag where
  handle : String
  suffix : String
  deriving DecidableEq, Repr

/-- The beginning of a tag that may be a handle: an exclamation mark, a word, and a second mark
if there is one. The flag tells whether there is. -/
def handle (t : Spots) : List Char × Bool × Spots :=
  let (word, rest) := spanChars isWord t
  match rest with
  | s :: rest' =>
    if s.char == '!' then (word, true, rest') else (word, false, rest)
  | [] => (word, false, [])

/-- Whether a tag may end before this text. -/
def isTagEnd (inFlow : Bool) (t : Spots) : Bool :=
  isGap t || (inFlow && startsWith ',' t)

/-- The tag after its exclamation mark, and what follows it. -/
def tag? (inFlow : Bool) (t : Spots) : Option (Tag × Spots) := do
  let (tag, rest) ← match t with
    | s :: rest =>
      if s.char == '<' then do
        let (text, rest) ← tagText? true rest
        if text.isEmpty then none
        else match rest with
          | e :: rest => if e.char == '>' then some (Tag.mk "" (String.ofList text), rest) else none
          | [] => none
      else do
        let (word, second, rest) := handle (s :: rest)
        let (text, rest) ← tagText? false rest
        if second then
          if text.isEmpty then none
          else some (Tag.mk (String.ofList ('!' :: word ++ ['!'])) (String.ofList text), rest)
        else if (word ++ text).isEmpty then some (Tag.mk "" "!", rest)
        else some (Tag.mk "!" (String.ofList (word ++ text)), rest)
    | [] => some (Tag.mk "" "!", [])
  if isTagEnd inFlow rest then some (tag, rest) else none

end Property

/-- A line that says how the document after it is to be understood. -/
inductive Directive where
  /-- The version of the notation. -/
  | version (major minor : Nat)
  /-- What a handle of tags stands for. -/
  | tag (handle start : String)
  deriving DecidableEq, Repr

namespace Directive

/-- The text after its blanks. -/
def skipBlanks (t : Spots) : Spots := t.dropWhile fun s => isBlank s.char

/-- A number of at most nine digits. -/
def number? (t : Spots) : Option (Nat × Spots) :=
  let (ds, rest) := spanChars Char.isDigit t
  if ds.isEmpty || 9 < ds.length then none
  else some (ds.foldl (fun n c => 10 * n + (c.toNat - '0'.toNat)) 0, rest)

/-- The version after the name of its directive. -/
def version? (t : Spots) : Option (Directive × Spots) := do
  let (major, rest) ← number? (skipBlanks t)
  match rest with
  | s :: rest =>
    if s.char == '.' then
      let (minor, rest) ← number? rest
      some (version major minor, rest)
    else none
  | [] => none

/-- The handle and its meaning after the name of their directive. -/
def tag? (t : Spots) : Option (Directive × Spots) := do
  match skipBlanks t with
  | s :: rest =>
    if s.char != '!' then none
    else
      let (word, second, rest) := Property.handle rest
      if !second && !word.isEmpty then none
      else match rest with
        | b :: _ =>
          if !isBlank b.char then none
          else
            let (text, rest) ← Property.tagText? true (skipBlanks rest)
            if text.isEmpty || !isGap rest then none
            else
              let handle := String.ofList ('!' :: word ++ if second then ['!'] else [])
              some (tag handle (String.ofList text), rest)
        | [] => none
  | [] => none

/-- The directive after its percent sign, and what follows its line. -/
def read? (t : Spots) : Option (Directive × Spots) := do
  let (name, rest) := spanChars isWord t
  if !isGap rest then none
  else
    let (directive, rest) ←
      if name = ['Y', 'A', 'M', 'L'] then version? rest
      else if name = ['T', 'A', 'G'] then tag? rest
      else none
    let rest := skipBlanks rest
    let rest := if startsWith '#' rest then rest.dropWhile fun s => !isBreak s.char else rest
    match rest with
    | [] => some (directive, [])
    | s :: rest => if isBreak s.char then some (directive, rest) else none

end Directive

end RequestAudit.Yaml
