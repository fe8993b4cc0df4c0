import RequestAudit.Proofs.YamlBlocks
import RequestAudit.Yaml.Token

/-!
# The characters of written YAML

What is written consists of characters that stand for themselves, whatever the texts hold. So the
reader accepts every character, and has no line ends to make one.
-/

namespace RequestAudit.Yaml

open Document

/-- All characters stand for themselves. -/
def AllPlainly (cs : List Char) : Prop := ∀ c ∈ cs, Written.isPlainly c = true

namespace Written

variable {cs ds : List Char}

theorem allPlainly_append (hcs : AllPlainly cs) (hds : AllPlainly ds) : AllPlainly (cs ++ ds) := by
  intro c hc
  rcases List.mem_append.mp hc with hc | hc
  · exact hcs c hc
  · exact hds c hc

theorem allPlainly_cons {c : Char} (hc : isPlainly c = true) (hcs : AllPlainly cs) :
    AllPlainly (c :: cs) :=
  List.forall_mem_cons.mpr ⟨hc, hcs⟩

theorem allPlainly_spaces (n : ℕ) : AllPlainly (spaces n) := by
  intro c hc
  rw [List.eq_of_mem_replicate hc]
  decide

theorem allPlainly_lineEnd : AllPlainly ['\n'] := allPlainly_cons (by decide) (by simp [AllPlainly])

theorem allPlainly_indentation (n : ℕ) (fresh : Bool) :
    AllPlainly (if fresh then spaces n else []) := by
  split
  · exact allPlainly_spaces n
  · simp [AllPlainly]

theorem allPlainly_of_needsEscapes (h : needsEscapes cs = false) : AllPlainly cs := by
  rw [needsEscapes, Bool.or_eq_false_iff, Bool.not_eq_false'] at h
  exact List.all_eq_true.mp h.1

theorem allPlainly_endLine (h : AllPlainly cs) : AllPlainly (endLine cs) := by
  unfold endLine
  split
  · exact h
  · exact allPlainly_append h (by simp [AllPlainly]; decide)

theorem allPlainly_singleBody (h : AllPlainly cs) (n : ℕ) (broken : Bool) :
    AllPlainly (singleBody n broken cs) := by
  induction cs generalizing broken with
  | nil =>
      rw [singleBody]
      split
      · exact allPlainly_spaces n
      · exact h
  | cons c cs ih =>
      obtain ⟨hc, hcs⟩ := List.forall_mem_cons.mp h
      rw [singleBody]
      split
      · exact allPlainly_cons hc (ih hcs true)
      · refine allPlainly_append (allPlainly_append ?_ ?_) (ih hcs false)
        · split
          · exact allPlainly_spaces n
          · simp [AllPlainly]
        · split
          · simp [AllPlainly]
            decide
          · simpa [AllPlainly] using hc

theorem allPlainly_blockBody (h : AllPlainly cs) (n : ℕ) (broken : Bool) :
    AllPlainly (blockBody n broken cs) := by
  induction cs generalizing broken with
  | nil => exact h
  | cons c cs ih =>
      obtain ⟨hc, hcs⟩ := List.forall_mem_cons.mp h
      rw [blockBody]
      split
      · exact allPlainly_cons hc (ih hcs true)
      · refine allPlainly_append ?_ (allPlainly_cons hc (ih hcs false))
        split
        · exact allPlainly_spaces n
        · simp [AllPlainly]

theorem allPlainly_header (cs : List Char) : AllPlainly (header cs) := by
  intro c hc
  have hmarks : c = '|' ∨ c = '2' ∨ c = '-' ∨ c = '+' := by
    unfold header at hc
    grind
  rcases hmarks with rfl | rfl | rfl | rfl
  all_goals decide

theorem allPlainly_of_fitsPlain (h : fitsPlain cs = true) : AllPlainly cs := by
  cases cs with
  | nil => simp [AllPlainly]
  | cons c cs =>
      simp only [fitsPlain, Bool.not_eq_true', Bool.or_eq_false_iff] at h
      exact allPlainly_of_needsEscapes h.2

theorem allPlainly_escape (c : Char) : AllPlainly (escape c) := by
  by_cases h : DoubleQuoted.IsEscaped c
  · have hall : DoubleQuoted.escapable.all (fun c => (escape c).all isPlainly) = true := by
      decide +kernel
    exact List.all_eq_true.mp (List.all_eq_true.mp hall c h.mem_escapable)
  · obtain ⟨hwritten, hc, -⟩ := DoubleQuoted.escape_of_not_isEscaped h
    rw [hwritten]
    simpa [AllPlainly] using hc

theorem allPlainly_double (cs : List Char) : AllPlainly (double cs) := by
  refine allPlainly_append (allPlainly_cons (by decide) ?_) (by simp [AllPlainly]; decide)
  intro c hc
  obtain ⟨d, -, hd⟩ := List.mem_flatMap.mp hc
  exact allPlainly_escape d c hd

theorem allPlainly_text (n : ℕ) (s : String) : AllPlainly (text n s) := by
  unfold text
  dsimp only
  split
  · split
    · next hfits =>
        simp only [fitsBlock, Bool.not_eq_true', Bool.or_eq_false_iff] at hfits
        exact allPlainly_append (allPlainly_header _)
          (allPlainly_cons (by decide) (allPlainly_blockBody (allPlainly_of_needsEscapes hfits.2) _ _))
    · exact allPlainly_double _
  · split
    · next hfits =>
        rw [Bool.and_eq_true] at hfits
        exact allPlainly_of_fitsPlain hfits.2
    · split
      · next hfits =>
          simp only [fitsSingle, Bool.not_eq_true', Bool.or_eq_false_iff] at hfits
          exact allPlainly_append
            (allPlainly_cons (by decide) (allPlainly_singleBody (allPlainly_of_needsEscapes hfits.2) _ _))
            (by simp [AllPlainly]; decide)
      · exact allPlainly_double _

theorem allPlainly_brackets {a b : Char} (ha : isPlainly a = true) (hb : isPlainly b = true) :
    AllPlainly [a, b, '\n'] :=
  allPlainly_cons ha (allPlainly_cons hb allPlainly_lineEnd)

theorem allPlainly_toDigits (n : ℕ) : AllPlainly (Nat.toDigits 10 n) := by
  intro c hc
  have hdigit : c.isDigit = true := Nat.isDigit_of_mem_toDigits (by decide) (by decide) hc
  have hcode : 48 ≤ c.toNat ∧ c.toNat ≤ 57 := by
    simpa [Char.isDigit, UInt32.le_iff_toNat_le] using hdigit
  simp only [isPlainly, Bool.or_eq_true, Bool.and_eq_true, decide_eq_true_eq]
  omega

theorem allPlainly_toString (b : Bool) : AllPlainly (toString b).toList := by
  cases b <;> exact List.all_eq_true.mp (by decide)

/-! ## Data -/

mutual

theorem allPlainly_fieldBody (n : ℕ) : ∀ d, AllPlainly (fieldBody n d)
  | .flag b => allPlainly_cons (by decide) (allPlainly_append (allPlainly_toString b) (allPlainly_lineEnd))
  | .number k => allPlainly_cons (by decide) (allPlainly_append (allPlainly_toDigits k) (allPlainly_lineEnd))
  | .text s => allPlainly_cons (by decide) (allPlainly_endLine (allPlainly_text n s))
  | .list [] => allPlainly_cons (by decide) (allPlainly_brackets (by decide) (by decide))
  | .list (d :: ds) => allPlainly_cons (by decide) (allPlainly_items n true (d :: ds))
  | .record [] => allPlainly_cons (by decide) (allPlainly_brackets (by decide) (by decide))
  | .record (f :: fs) => allPlainly_cons (by decide) (allPlainly_fields (n + 2) true (f :: fs))

theorem allPlainly_itemBody (n : ℕ) : ∀ d, AllPlainly (itemBody n d)
  | .flag b => allPlainly_append (allPlainly_toString b) allPlainly_lineEnd
  | .number k => allPlainly_append (allPlainly_toDigits k) allPlainly_lineEnd
  | .text s => allPlainly_endLine (allPlainly_text n s)
  | .list [] => allPlainly_brackets (by decide) (by decide)
  | .list (d :: ds) => allPlainly_items (n + 2) false (d :: ds)
  | .record [] => allPlainly_brackets (by decide) (by decide)
  | .record (f :: fs) => allPlainly_fields (n + 2) false (f :: fs)

theorem allPlainly_items (n : ℕ) (fresh : Bool) : ∀ ds, AllPlainly (items n fresh ds)
  | [] => by simp [AllPlainly, items]
  | d :: ds => by
      rw [items]
      exact allPlainly_append (allPlainly_append (allPlainly_indentation n fresh)
        (allPlainly_cons (by decide) (allPlainly_cons (by decide) (allPlainly_itemBody n d))))
        (allPlainly_items n true ds)

theorem allPlainly_fields (n : ℕ) (fresh : Bool) : ∀ fs, AllPlainly (fields n fresh fs)
  | [] => by simp [AllPlainly, fields]
  | (k, d) :: fs => by
      rw [fields]
      exact allPlainly_append (allPlainly_append
        (allPlainly_append (allPlainly_indentation n fresh) (allPlainly_text n k))
        (allPlainly_cons (by decide) (allPlainly_fieldBody n d))) (allPlainly_fields n true fs)

end

theorem allPlainly_document (d : Datum) : AllPlainly (document d) := by
  match d with
  | .flag b => exact allPlainly_append (allPlainly_toString b) allPlainly_lineEnd
  | .number n => exact allPlainly_append (allPlainly_toDigits n) allPlainly_lineEnd
  | .text s => exact allPlainly_endLine (allPlainly_text 0 s)
  | .list [] => exact allPlainly_brackets (by decide) (by decide)
  | .list (d :: ds) => exact allPlainly_items 0 true (d :: ds)
  | .record [] => exact allPlainly_brackets (by decide) (by decide)
  | .record (f :: fs) => exact allPlainly_fields 0 true (f :: fs)

end Written

theorem joinBreaks_of_allPlainly {cs : List Char} (h : AllPlainly cs) : joinBreaks cs = cs := by
  induction cs with
  | nil => rfl
  | cons c cs ih =>
      obtain ⟨hc, hcs⟩ := List.forall_mem_cons.mp h
      have hreturn : c ≠ '\r' := ne_of_isPlainly hc (by decide)
      have hnext : c ≠ '\x85' := ne_of_isPlainly hc (by decide)
      rw [joinBreaks]
      · simp [hreturn, hnext, ih hcs]
      · rintro _ rfl
        exact absurd rfl hreturn

namespace Token

/-- A text of such characters is read as it stands. -/
theorem ofText_of_allPlainly {cs : List Char} (h : AllPlainly cs) :
    ofText cs = State.tokens (cs.length + 1) { text := place {} cs, stop := finish {} cs } := by
  have hallowed : cs.all isAllowed = true :=
    List.all_eq_true.mpr fun c hc => isAllowed_of_isPlainly (h c hc)
  rw [ofText, hallowed]
  · dsimp only
    rw [joinBreaks_of_allPlainly h]
    rfl
  · rintro rest rfl
    exact absurd (h _ List.mem_cons_self) (by decide)

end Token

end RequestAudit.Yaml
