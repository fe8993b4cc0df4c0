import Mathlib.Data.List.Basic
import RequestAudit.Text.Utf8

/-!
# Encoded texts

The bytes of a text decode to it, character by character.
-/

namespace RequestAudit.Text.Utf8

/-! ## Bytes as numbers -/

theorem width?_eq_one {a : UInt8} (h : a.toNat < 0x80) : width? a = some 1 := by
  simp [width?, UInt8.lt_iff_toNat_lt, h]

theorem width?_eq_two {a : UInt8} (h : 0xc2 ≤ a.toNat) (h' : a.toNat < 0xe0) :
    width? a = some 2 := by
  simp [width?, UInt8.lt_iff_toNat_lt, show ¬a.toNat < 128 by omega,
    show ¬a.toNat < 194 by omega, h']

theorem width?_eq_three {a : UInt8} (h : 0xe0 ≤ a.toNat) (h' : a.toNat < 0xf0) :
    width? a = some 3 := by
  simp [width?, UInt8.lt_iff_toNat_lt, show ¬a.toNat < 128 by omega,
    show ¬a.toNat < 194 by omega, show ¬a.toNat < 224 by omega, h']

theorem width?_eq_four {a : UInt8} (h : 0xf0 ≤ a.toNat) (h' : a.toNat < 0xf5) :
    width? a = some 4 := by
  simp [width?, UInt8.lt_iff_toNat_lt, show ¬a.toNat < 128 by omega,
    show ¬a.toNat < 194 by omega, show ¬a.toNat < 224 by omega, show ¬a.toNat < 240 by omega, h']

theorem isTail_iff (b : UInt8) : isTail b = true ↔ 0x80 ≤ b.toNat ∧ b.toNat ≤ 0xbf := by
  simp [isTail, UInt8.le_iff_toNat_le]

theorem mayFollow_iff (a b : UInt8) :
    mayFollow a b = true ↔ (0x80 ≤ b.toNat ∧ b.toNat ≤ 0xbf) ∧
      (a.toNat = 0xe0 → 0xa0 ≤ b.toNat) ∧ (a.toNat = 0xed → b.toNat < 0xa0) ∧
      (a.toNat = 0xf0 → 0x90 ≤ b.toNat) ∧ (a.toNat = 0xf4 → b.toNat < 0x90) := by
  simp only [mayFollow, Bool.and_eq_true, Bool.or_eq_true, isTail_iff, bne_iff_ne, ne_eq,
    decide_eq_true_eq, UInt8.le_iff_toNat_le, UInt8.lt_iff_toNat_lt, ← UInt8.toNat_inj,
    ← imp_iff_not_or, and_assoc]
  rfl

/-! ## The first character -/

theorem first_one {a : UInt8} (h : width? a = some 1) (rest : List UInt8) :
    first (a :: rest) = .ok (some (Char.ofNat a.toNat, rest)) := by
  simp [first, h]

theorem first_two {a b : UInt8} (h : width? a = some 2) (hb : mayFollow a b = true)
    (rest : List UInt8) : first (a :: b :: rest) =
      .ok (some (Char.ofNat ((a.toNat % 32) * 64 + tailBits b), rest)) := by
  simp [first, h, hb]

theorem first_three {a b c : UInt8} (h : width? a = some 3) (hb : mayFollow a b = true)
    (hc : isTail c = true) (rest : List UInt8) : first (a :: b :: c :: rest) =
      .ok (some (Char.ofNat (((a.toNat % 16) * 64 + tailBits b) * 64 + tailBits c), rest)) := by
  simp [first, h, hb, hc]

theorem first_four {a b c d : UInt8} (h : width? a = some 4) (hb : mayFollow a b = true)
    (hc : isTail c = true) (hd : isTail d = true) (rest : List UInt8) :
    first (a :: b :: c :: d :: rest) =
      .ok (some (Char.ofNat
        ((((a.toNat % 8) * 64 + tailBits b) * 64 + tailBits c) * 64 + tailBits d), rest)) := by
  simp [first, h, hb, hc, hd]

theorem toNat_ofNat_of_lt {n : ℕ} (h : n < 256) : (UInt8.ofNat n).toNat = n := by
  rw [UInt8.toNat_ofNat']
  exact Nat.mod_eq_of_lt h

/-- Decoding undoes the encoding of one character, whatever follows. -/
theorem first_encodeChar (c : Char) (rest : List UInt8) :
    first (String.utf8EncodeChar c ++ rest) = .ok (some (c, rest)) := by
  have hvalid : c.toNat < 0xd800 ∨ 0xdfff < c.toNat ∧ c.toNat < 0x110000 := c.valid
  have hchar : Char.ofNat c.toNat = c := Char.ofNat_toNat c
  have hval : c.val.toNat = c.toNat := rfl
  unfold String.utf8EncodeChar
  simp only [hval]
  generalize c.toNat = v at hvalid hchar
  have htail : ∀ n, (UInt8.ofNat (n % 64 + 128)).toNat = n % 64 + 128 :=
    fun n => toNat_ofNat_of_lt (by omega)
  have hisTail : ∀ n, isTail (UInt8.ofNat (n % 64 + 128)) = true := by
    intro n
    rw [isTail_iff, htail]
    omega
  split_ifs with h1 h2 h3
  · have ha : (UInt8.ofNat v).toNat = v := toNat_ofNat_of_lt (by omega)
    rw [List.cons_append, List.nil_append, first_one (width?_eq_one (by omega)), ha, hchar]
  · have ha : (UInt8.ofNat (v / 64 % 32 + 192)).toNat = v / 64 % 32 + 192 :=
      toNat_ofNat_of_lt (by omega)
    have hb : mayFollow (UInt8.ofNat (v / 64 % 32 + 192)) (UInt8.ofNat (v % 64 + 128)) = true := by
      rw [mayFollow_iff, ha, htail]
      omega
    simp only [List.cons_append, List.nil_append]
    rw [first_two (width?_eq_two (by omega) (by omega)) hb, tailBits, ha, htail]
    rw [show (v / 64 % 32 + 192) % 32 * 64 + (v % 64 + 128) % 64 = v by omega, hchar]
  · have ha : (UInt8.ofNat (v / 4096 % 16 + 224)).toNat = v / 4096 % 16 + 224 :=
      toNat_ofNat_of_lt (by omega)
    have hb : mayFollow (UInt8.ofNat (v / 4096 % 16 + 224))
        (UInt8.ofNat (v / 64 % 64 + 128)) = true := by
      rw [mayFollow_iff, ha, htail]
      omega
    simp only [List.cons_append, List.nil_append]
    rw [first_three (width?_eq_three (by omega) (by omega)) hb (hisTail v), tailBits, tailBits, ha,
      htail, htail]
    rw [show ((v / 4096 % 16 + 224) % 16 * 64 + (v / 64 % 64 + 128) % 64) * 64 +
      (v % 64 + 128) % 64 = v by omega, hchar]
  · have ha : (UInt8.ofNat (v / 262144 % 8 + 240)).toNat = v / 262144 % 8 + 240 :=
      toNat_ofNat_of_lt (by omega)
    have hb : mayFollow (UInt8.ofNat (v / 262144 % 8 + 240))
        (UInt8.ofNat (v / 4096 % 64 + 128)) = true := by
      rw [mayFollow_iff, ha, htail]
      omega
    simp only [List.cons_append, List.nil_append]
    rw [first_four (width?_eq_four (by omega) (by omega)) hb (hisTail _) (hisTail v), tailBits,
      tailBits, tailBits, ha, htail, htail, htail]
    rw [show (((v / 262144 % 8 + 240) % 8 * 64 + (v / 4096 % 64 + 128) % 64) * 64 +
      (v / 64 % 64 + 128) % 64) * 64 + (v % 64 + 128) % 64 = v by omega, hchar]

/-! ## Whole texts -/

@[simp] theorem encode_nil : encode [] = [] := rfl

@[simp] theorem encode_cons (c : Char) (cs : List Char) :
    encode (c :: cs) = String.utf8EncodeChar c ++ encode cs := List.flatMap_cons

theorem first_nil : first [] = .ok none := rfl

theorem decode_nil : decode [] = .ok [] := by
  rw [decode]
  split
  · next h => cases first_nil.symm.trans h
  · rfl
  · next h => cases first_nil.symm.trans h

theorem decode_of_first {bs rest : List UInt8} {c : Char} {cs : List Char}
    (hfirst : first bs = .ok (some (c, rest))) (hrest : decode rest = .ok cs) :
    decode bs = .ok (c :: cs) := by
  rw [decode]
  split
  · next h => cases hfirst.symm.trans h
  · next h => cases hfirst.symm.trans h
  · next h =>
      cases hfirst.symm.trans h
      simp only [hrest]

theorem decode_of_first_error {bs : List UInt8} {f : Fault} (h : first bs = .error f) :
    decode bs = .error f := by
  rw [decode]
  split
  · next h' => cases h.symm.trans h'; rfl
  · next h' => cases h.symm.trans h'
  · next h' => cases h.symm.trans h'

theorem decode_of_first_of_error {bs rest : List UInt8} {c : Char} {f : Fault}
    (hfirst : first bs = .ok (some (c, rest))) (hrest : decode rest = .error f) :
    decode bs = .error (f.shift (bs.length - rest.length)) := by
  rw [decode]
  split
  · next h => cases hfirst.symm.trans h
  · next h => cases hfirst.symm.trans h
  · next h =>
      cases hfirst.symm.trans h
      simp only [hrest]

/-- Decoding undoes encoding. -/
theorem decode_encode (cs : List Char) : decode (encode cs) = .ok cs := by
  induction cs with
  | nil => exact decode_nil
  | cons c cs ih => exact decode_of_first (first_encodeChar c (encode cs)) ih

/-! ## Bytes before an ASCII character -/

/-- The bytes go on with an ASCII character. -/
def BeginsAscii (bs : List UInt8) : Prop := ∃ a rest, bs = a :: rest ∧ a < 0x80

theorem not_isTail_of_lt {a : UInt8} (h : a < 0x80) : isTail a = false := by
  rw [UInt8.lt_iff_toNat_lt] at h
  rw [Bool.eq_false_iff, ne_eq, isTail_iff]
  intro hs
  exact absurd hs.1 (by simpa using h)

theorem not_mayFollow_of_lt {a b : UInt8} (h : b < 0x80) : mayFollow a b = false := by
  simp [mayFollow, not_isTail_of_lt h]

theorem width?_mem {a : UInt8} {n : ℕ} (h : width? a = some n) : n ∈ [1, 2, 3, 4] := by
  unfold width? at h
  split_ifs at h <;> simp_all

/-- An ASCII character ends whatever stands before it: either a character is complete by then, or
there is a fault, the same for all ASCII characters. -/
theorem first_append_ascii (a : UInt8) (bs : List UInt8) :
    (∃ c rest, rest.length ≤ bs.length ∧ ∀ ds, BeginsAscii ds →
      first (a :: bs ++ ds) = .ok (some (c, rest ++ ds))) ∨
    ∃ f, ∀ ds, BeginsAscii ds → first (a :: bs ++ ds) = .error f := by
  -- Byte by byte of the first character. Where the bytes end before it does, the ASCII character
  -- behind them is a fault, like any other byte that does not go on with it.
  cases hwidth : width? a with
  | none => exact .inr ⟨.invalid 1 0, fun ds _ => by simp [first, hwidth]⟩
  | some n =>
      by_cases hone : n = 1
      · subst hone
        exact .inl ⟨_, bs, Nat.le_refl _, fun ds _ => first_one hwidth _⟩
      cases bs with
      | nil =>
          refine .inr ⟨.invalid 1 0, ?_⟩
          rintro _ ⟨x, r, rfl, hx⟩
          simp [first, hwidth, not_mayFollow_of_lt hx]
      | cons b bs =>
          by_cases hb : mayFollow a b = true
          swap
          · exact .inr ⟨.invalid 1 0, fun ds _ => by simp [first, hwidth, hb]⟩
          by_cases htwo : n = 2
          · subst htwo
            exact .inl ⟨_, bs, by simp, fun ds _ => first_two hwidth hb _⟩
          cases bs with
          | nil =>
              refine .inr ⟨.invalid 2 0, ?_⟩
              rintro _ ⟨x, r, rfl, hx⟩
              simp [first, hwidth, hb, htwo, not_isTail_of_lt hx]
          | cons c bs =>
              by_cases hc : isTail c = true
              swap
              · exact .inr ⟨.invalid 2 0, fun ds _ => by simp [first, hwidth, hb, htwo, hc]⟩
              by_cases hthree : n = 3
              · subst hthree
                exact .inl ⟨_, bs, by simp; omega, fun ds _ => first_three hwidth hb hc _⟩
              cases bs with
              | nil =>
                  refine .inr ⟨.invalid 3 0, ?_⟩
                  rintro _ ⟨x, r, rfl, hx⟩
                  simp [first, hwidth, hb, htwo, hc, hthree, not_isTail_of_lt hx]
              | cons d bs =>
                  by_cases hd : isTail d = true
                  · have hfour : n = 4 := by
                      have := width?_mem hwidth
                      simp_all
                    subst hfour
                    exact .inl ⟨_, bs, by simp; omega, fun ds _ => first_four hwidth hb hc hd _⟩
                  · exact .inr ⟨.invalid 3 0, fun ds _ => by
                      simp [first, hwidth, hb, htwo, hc, hthree, hd]⟩

/-- What stands before an ASCII character either is a text of its own, or has a fault that does
not depend on what follows. -/
theorem decode_append_ascii (bs : List UInt8) :
    (∃ cs, ∀ ds es, BeginsAscii ds → decode ds = .ok es → decode (bs ++ ds) = .ok (cs ++ es)) ∨
    ∃ f, ∀ ds, BeginsAscii ds → decode (bs ++ ds) = .error f := by
  match bs with
  | [] => exact .inl ⟨[], fun ds es _ hes => hes⟩
  | a :: bs =>
      rcases first_append_ascii a bs with ⟨c, rest, hrest, hfirst⟩ | ⟨f, hf⟩
      · have hlt : rest.length < (a :: bs).length := Nat.lt_succ_of_le hrest
        rcases decode_append_ascii rest with ⟨cs, hcs⟩ | ⟨f, hf⟩
        · exact .inl ⟨c :: cs, fun ds es hds hes => decode_of_first (hfirst ds hds) (hcs ds es hds hes)⟩
        · refine .inr ⟨f.shift ((a :: bs).length - rest.length), fun ds hds => ?_⟩
          rw [decode_of_first_of_error (hfirst ds hds) (hf ds hds)]
          simp only [List.length_append]
          congr 2
          omega
      · exact .inr ⟨f, fun ds hds => decode_of_first_error (hf ds hds)⟩
termination_by bs.length

end RequestAudit.Text.Utf8
