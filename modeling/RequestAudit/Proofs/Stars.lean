import Mathlib.Data.List.DropRight
import RequestAudit.Text.Blank

/-!
# Runs at the end of a text

Dropping a run of one character at the end splits a text into a stem that does not end in that
character and a number of copies of it, and the two parts determine each other.
-/

namespace RequestAudit.Text

variable {α : Type}

theorem dropEndWhile_eq_rdropWhile (p : α → Bool) (xs : List α) :
    dropEndWhile p xs = xs.rdropWhile p := rfl

theorem dropEndWhile_concat (p : α → Bool) (xs : List α) (x : α) :
    dropEndWhile p (xs ++ [x]) = if p x then dropEndWhile p xs else xs ++ [x] :=
  List.rdropWhile_concat p xs x

variable [DecidableEq α]

theorem getLast?_dropEndWhile_ne (a : α) (xs : List α) :
    (dropEndWhile (· == a) xs).getLast? ≠ some a := by
  intro h
  have hne : xs.rdropWhile (· == a) ≠ [] := by
    intro hnil
    simp [dropEndWhile_eq_rdropWhile, hnil] at h
  rw [dropEndWhile_eq_rdropWhile, List.getLast?_eq_some_getLast hne, Option.some.injEq] at h
  exact List.rdropWhile_last_not (· == a) xs hne (by simpa using h)

theorem eq_dropEndWhile_append_replicate (a : α) (xs : List α) :
    ∃ n, xs = dropEndWhile (· == a) xs ++ List.replicate n a := by
  refine ⟨(xs.rtakeWhile (· == a)).length, ?_⟩
  have hrun : xs.rtakeWhile (· == a) = List.replicate (xs.rtakeWhile (· == a)).length a := by
    apply List.eq_replicate_of_mem
    intro b hb
    simpa using List.mem_rtakeWhile_imp hb
  rw [← hrun, dropEndWhile_eq_rdropWhile, List.rdropWhile_append_rtakeWhile]

/-- A stem that does not end in the character is what is left of it with a run behind it. -/
theorem dropEndWhile_append_replicate {a : α} {stem : List α} (h : stem.getLast? ≠ some a)
    (n : ℕ) : dropEndWhile (· == a) (stem ++ List.replicate n a) = stem := by
  induction n with
  | zero =>
      rw [List.replicate_zero, List.append_nil, dropEndWhile_eq_rdropWhile,
        List.rdropWhile_eq_self_iff]
      intro hne hlast
      apply h
      rw [List.getLast?_eq_some_getLast hne]
      simpa using hlast
  | succ n ih =>
      rw [List.replicate_succ', ← List.append_assoc, dropEndWhile_concat]
      simpa using ih

/-- One occurrence at most, and only at the end, means none in the stem and no two in a row at
the end. -/
theorem count_le_one_and_last_iff (a : α) (xs : List α) :
    xs.count a ≤ 1 ∧ (a ∈ xs → xs.getLast? = some a) ↔
      a ∉ dropEndWhile (· == a) xs ∧ ¬[a, a] <:+ xs := by
  obtain ⟨n, hn⟩ := eq_dropEndWhile_append_replicate a xs
  have hstem := getLast?_dropEndWhile_ne a xs
  generalize dropEndWhile (· == a) xs = stem at hn hstem
  subst hn
  rw [List.count_append, List.count_replicate_self]
  constructor
  · rintro ⟨hcount, hlast⟩
    refine ⟨fun hmem => ?_, fun hsuffix => ?_⟩
    · have hpos : 0 < stem.count a := List.count_pos_iff.mpr hmem
      obtain rfl : n = 0 := by omega
      rw [List.replicate_zero, List.append_nil] at hlast
      exact hstem (hlast hmem)
    · have htwo := hsuffix.sublist.count_le a
      rw [List.count_append, List.count_replicate_self] at htwo
      simp only [List.count_cons_self, List.count_nil] at htwo
      omega
  · rintro ⟨hnot, hsuffix⟩
    have hcount : stem.count a = 0 := List.count_eq_zero.mpr hnot
    have hn : n ≤ 1 := by
      by_contra hn
      obtain ⟨m, rfl⟩ : ∃ m, n = m + 2 := ⟨n - 2, by omega⟩
      apply hsuffix
      refine ⟨stem ++ List.replicate m a, ?_⟩
      rw [List.replicate_succ', List.replicate_succ']
      simp only [List.append_assoc, List.singleton_append]
    refine ⟨by omega, fun hmem => ?_⟩
    cases n with
    | zero => simp [hnot] at hmem
    | succ n => rw [List.replicate_succ', ← List.append_assoc, List.getLast?_concat]

end RequestAudit.Text
