import Mathlib.Data.List.Basic
import RequestAudit.Proofs.Utf8
import RequestAudit.Replay

/-!
# The lines of a text

A recording is split as bytes, before anything is decoded. For the bytes of a text this gives the
bytes of the text's own lines, since the byte that ends a line occurs in no character but the
line feed.
-/

namespace RequestAudit.Replay

open Text

/-- Puts elements in front of the first of several lists, or makes them the only one. -/
def glue {α : Type} (xs : List α) : List (List α) → List (List α)
  | [] => [xs]
  | ys :: rest => (xs ++ ys) :: rest

theorem glue_glue {α : Type} (xs ys : List α) (lines : List (List α)) :
    glue xs (glue ys lines) = glue (xs ++ ys) lines := by
  cases lines <;> simp [glue]

/-- The lines of a text, each with its end if it has one. -/
def linesOf : List Char → List (List Char)
  | [] => []
  | c :: cs => if c = '\n' then [c] :: linesOf cs else glue [c] (linesOf cs)

/-! ## Splitting bytes -/

@[simp] theorem split_nil : split [] = [] := by
  rw [split]

theorem split_eq_singleton {bs : List UInt8} (hne : bs ≠ [])
    (h : bs.dropWhile (· != lineEnd) = []) : split bs = [bs] := by
  have htake : bs.takeWhile (· != lineEnd) = bs := by
    have hboth := List.takeWhile_append_dropWhile (p := (· != lineEnd)) (l := bs)
    rwa [h, List.append_nil] at hboth
  cases bs with
  | nil => exact absurd rfl hne
  | cons b bs =>
      rw [split]
      split
      · rw [htake]
      · next h' => rw [h] at h'; cases h'

theorem split_eq_cons {bs rest : List UInt8} {e : UInt8}
    (h : bs.dropWhile (· != lineEnd) = e :: rest) :
    split bs = (bs.takeWhile (· != lineEnd) ++ [e]) :: split rest := by
  cases bs with
  | nil => cases h
  | cons b bs =>
      rw [split]
      split
      · next h' => rw [h] at h'; cases h'
      · next h' => rw [h] at h'; cases h'; rfl

theorem split_cons_lineEnd (bs : List UInt8) : split (lineEnd :: bs) = [lineEnd] :: split bs := by
  have h : (lineEnd :: bs).dropWhile (· != lineEnd) = lineEnd :: bs := by simp
  rw [split_eq_cons h]
  simp

theorem split_cons_ne {b : UInt8} (hb : b ≠ lineEnd) (bs : List UInt8) :
    split (b :: bs) = glue [b] (split bs) := by
  have hdrop : (b :: bs).dropWhile (· != lineEnd) = bs.dropWhile (· != lineEnd) := by simp [hb]
  have htake : (b :: bs).takeWhile (· != lineEnd) = b :: bs.takeWhile (· != lineEnd) := by
    simp [hb]
  cases hrest : bs.dropWhile (· != lineEnd) with
  | nil =>
      rw [split_eq_singleton (List.cons_ne_nil b bs) (hdrop.trans hrest)]
      by_cases hbs : bs = []
      · simp [hbs, glue]
      · rw [split_eq_singleton hbs hrest]
        rfl
  | cons e rest =>
      rw [split_eq_cons (hdrop.trans hrest), split_eq_cons hrest, htake]
      rfl

theorem split_append {bs : List UInt8} (hne : bs ≠ []) (hb : lineEnd ∉ bs) (ds : List UInt8) :
    split (bs ++ ds) = glue bs (split ds) := by
  induction bs with
  | nil => exact absurd rfl hne
  | cons b bs ih =>
      rw [List.mem_cons, not_or] at hb
      rw [List.cons_append, split_cons_ne (Ne.symm hb.1)]
      cases bs with
      | nil => rfl
      | cons d bs => rw [ih (List.cons_ne_nil d bs) hb.2, glue_glue, List.singleton_append]

/-- A line in front of more bytes. -/
theorem split_line_append {line : List UInt8} (h : lineEnd ∉ line) (bs : List UInt8) :
    split (line ++ lineEnd :: bs) = (line ++ [lineEnd]) :: split bs := by
  by_cases hnil : line = []
  · rw [hnil, List.nil_append, split_cons_lineEnd]
    rfl
  · rw [split_append hnil h, split_cons_lineEnd]
    rfl

/-! ## The bytes of a text -/

theorem encodeChar_lineEnd : String.utf8EncodeChar '\n' = [lineEnd] := by decide

theorem encodeChar_ne_nil (c : Char) : String.utf8EncodeChar c ≠ [] := by
  unfold String.utf8EncodeChar
  simp only
  split_ifs <;> simp

theorem lineEnd_notMem_encodeChar {c : Char} (hc : c ≠ '\n') :
    lineEnd ∉ String.utf8EncodeChar c := by
  have hval : c.val.toNat ≠ 10 := fun h => hc (Char.toNat_inj.mp h)
  have hbyte : ∀ n, n < 256 → n ≠ 10 → lineEnd ≠ UInt8.ofNat n := by
    intro n hn hne h
    have hnat := congrArg UInt8.toNat h
    rw [Utf8.toNat_ofNat_of_lt hn] at hnat
    exact hne hnat.symm
  unfold String.utf8EncodeChar
  simp only
  split_ifs <;> simp only [List.mem_cons, List.not_mem_nil, or_false, not_or]
  · exact hbyte _ (by omega) hval
  · exact ⟨hbyte _ (by omega) (by omega), hbyte _ (by omega) (by omega)⟩
  · exact ⟨hbyte _ (by omega) (by omega), hbyte _ (by omega) (by omega),
      hbyte _ (by omega) (by omega)⟩
  · exact ⟨hbyte _ (by omega) (by omega), hbyte _ (by omega) (by omega),
      hbyte _ (by omega) (by omega), hbyte _ (by omega) (by omega)⟩

theorem map_encode_glue (c : Char) (lines : List (List Char)) :
    (glue [c] lines).map Utf8.encode = glue (String.utf8EncodeChar c) (lines.map Utf8.encode) := by
  cases lines <;> simp [glue]

/-- Splitting the bytes of a text gives the bytes of its lines. -/
theorem split_encode (cs : List Char) :
    split (Utf8.encode cs) = (linesOf cs).map Utf8.encode := by
  induction cs with
  | nil => rw [Utf8.encode_nil, split_nil]; rfl
  | cons c cs ih =>
      rw [Utf8.encode_cons, linesOf]
      by_cases hc : c = '\n'
      · rw [if_pos hc, hc, encodeChar_lineEnd, List.singleton_append, split_cons_lineEnd, ih]
        rfl
      · rw [if_neg hc, split_append (encodeChar_ne_nil c) (lineEnd_notMem_encodeChar hc), ih,
          map_encode_glue]

end RequestAudit.Replay
