/-!
# UTF-8

Reading bytes as text, with the place and the extent of the first fault, and writing text as
bytes.
-/

namespace RequestAudit.Text.Utf8

/-- Why bytes are no text. The place counts the bytes before the fault. -/
inductive Fault where
  /-- `count` bytes at `place` begin no character. -/
  | invalid (count place : Nat)
  /-- The bytes end within the character that begins at `place`. -/
  | incomplete (place : Nat)
  deriving DecidableEq, Repr

namespace Fault

/-- The same fault seen from `n` bytes earlier. -/
def shift (n : Nat) : Fault → Fault
  | invalid count place => invalid count (place + n)
  | incomplete place => incomplete (place + n)

/-- How the fault is worded. -/
def message : Fault → String
  | invalid count place =>
    "invalid utf-8 sequence of " ++ toString count ++ " bytes from index " ++ toString place
  | incomplete place => "incomplete utf-8 byte sequence from index " ++ toString place

end Fault

/-- A byte that continues a character. -/
def isTail (b : UInt8) : Bool :=
  0x80 ≤ b && b ≤ 0xbf

/-- How many bytes a character with this first byte has, if one can begin so. -/
def width? (b : UInt8) : Option Nat :=
  if b < 0x80 then some 1
  else if b < 0xc2 then none
  else if b < 0xe0 then some 2
  else if b < 0xf0 then some 3
  else if b < 0xf5 then some 4
  else none

/-- Whether `b` may follow the first byte `a`. Overlong forms, surrogates and code points
beyond the last are already excluded here. -/
def mayFollow (a b : UInt8) : Bool :=
  isTail b && (a != 0xe0 || 0xa0 ≤ b) && (a != 0xed || b < 0xa0) && (a != 0xf0 || 0x90 ≤ b)
    && (a != 0xf4 || b < 0x90)

/-- The six bits that a continuing byte carries. -/
def tailBits (b : UInt8) : Nat := b.toNat % 64

/-- The first character and the number of its bytes, or the fault that stands there. -/
def first : List UInt8 → Except Fault (Option (Char × List UInt8))
  | [] => .ok none
  | a :: rest =>
    match width? a with
    | none => .error (.invalid 1 0)
    | some 1 => .ok (some (Char.ofNat a.toNat, rest))
    | some n =>
      match rest with
      | [] => .error (.incomplete 0)
      | b :: rest =>
        if !mayFollow a b then .error (.invalid 1 0)
        else if n = 2 then .ok (some (Char.ofNat ((a.toNat % 32) * 64 + tailBits b), rest))
        else match rest with
          | [] => .error (.incomplete 0)
          | c :: rest =>
            if !isTail c then .error (.invalid 2 0)
            else if n = 3 then
              .ok (some (Char.ofNat (((a.toNat % 16) * 64 + tailBits b) * 64 + tailBits c), rest))
            else match rest with
              | [] => .error (.incomplete 0)
              | d :: rest =>
                if !isTail d then .error (.invalid 3 0)
                else .ok (some (Char.ofNat
                  ((((a.toNat % 8) * 64 + tailBits b) * 64 + tailBits c) * 64 + tailBits d), rest))

theorem length_of_first {bs rest : List UInt8} {c : Char}
    (h : first bs = .ok (some (c, rest))) : rest.length < bs.length := by
  unfold first at h
  repeat' split at h
  all_goals simp_all
  all_goals grind

/-- The text that the bytes spell, or the first fault in them. -/
def decode (bs : List UInt8) : Except Fault (List Char) :=
  match h : first bs with
  | .error e => .error e
  | .ok none => .ok []
  | .ok (some (c, rest)) =>
    have := length_of_first h
    match decode rest with
    | .error e => .error (e.shift (bs.length - rest.length))
    | .ok cs => .ok (c :: cs)
  termination_by bs.length

/-- The bytes that spell the text. -/
def encode (cs : List Char) : List UInt8 :=
  cs.flatMap String.utf8EncodeChar

end RequestAudit.Text.Utf8
