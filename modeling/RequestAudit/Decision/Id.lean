import RequestAudit.Text.Affix
import RequestAudit.Text.Quoted

/-!
# Identifiers of decisions

Identifiers of 128 bits. They are written as 32 hexadecimal digits in five groups, and also read
without the hyphens, in braces, or as names of the namespace `urn:uuid`.
-/

namespace RequestAudit

/-- An identifier. -/
structure Id where
  value : BitVec 128
  deriving DecidableEq, Repr

namespace Id

/-- The value of a hexadecimal digit. -/
def digit? (c : Char) : Option Nat :=
  if '0' ≤ c && c ≤ '9' then some (c.toNat - '0'.toNat)
  else if 'a' ≤ c && c ≤ 'f' then some (c.toNat - 'a'.toNat + 10)
  else if 'A' ≤ c && c ≤ 'F' then some (c.toNat - 'A'.toNat + 10)
  else none

/-- The identifier of 32 digits. -/
def ofDigits? (cs : List Char) : Option Id :=
  if cs.length = 32 then
    (cs.foldlM (fun n c => (digit? c).map (16 * n + ·)) 0).map fun n => ⟨BitVec.ofNat 128 n⟩
  else none

/-- The digits of groups of the given sizes with hyphens between them. -/
def ungroup? : List Nat → List Char → Option (List Char)
  | [], cs => if cs.isEmpty then some [] else none
  | [n], cs => if cs.length = n then some cs else none
  | n :: ns, cs => match cs.drop n with
    | '-' :: rest => (ungroup? ns rest).map (cs.take n ++ ·)
    | _ => none

/-- The sizes of the groups. -/
def groups : List Nat := [8, 4, 4, 4, 12]

/-- The digits in groups of the given sizes with hyphens between them. -/
def group : List Nat → List Char → List Char
  | [], _ => []
  | [_], cs => cs
  | n :: ns, cs => cs.take n ++ '-' :: group ns (cs.drop n)

/-- The written form without what may stand around it. -/
def unwrap (cs : List Char) : List Char :=
  match Text.after? ['u', 'r', 'n', ':', 'u', 'u', 'i', 'd', ':'] cs with
  | some rest => rest
  | none => match cs with
    | '\x7b' :: rest => match Text.before? ['\x7d'] rest with
      | some inner => inner
      | none => cs
    | _ => cs

/-- Reads an identifier in any of its forms. -/
def ofText? (s : String) : Option Id :=
  match ofDigits? s.toList with
  | some id => some id
  | none => (ungroup? groups (unwrap s.toList)).bind ofDigits?

/-- The written form. -/
def text (id : Id) : String :=
  String.ofList (group groups (Text.hexDigits 32 id.value.toNat))

/-- The identifier of zeros only. -/
def zero : Id := ⟨0⟩

/-- The identifier of random bits, six of which are replaced to mark it as such: the thirteenth
digit is the version 4, and the seventeenth begins with the bits of the variant. -/
def ofRandom (bits : BitVec 128) : Id :=
  ⟨bits &&& ~~~(0xf#128 <<< 76 ||| 0x3#128 <<< 62) ||| (0x4#128 <<< 76 ||| 0x2#128 <<< 62)⟩

end Id

end RequestAudit
