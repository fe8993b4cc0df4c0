import Mathlib.Data.List.Basic
import RequestAudit.Matching.Spec
import RequestAudit.Proofs.Stars

/-!
# What specs mean

A resource spec is tested by stripping its ends in place, and a path spec by trimming its stars.
Here both tests are described by the texts that pass them.
-/

namespace RequestAudit.Spec

open Text

/-- The requested type as a spec writes it: with the part after a slash, if there is one. -/
def combined (type sub : String) : String :=
  if sub = "" then type else type ++ "/" ++ sub

/-- The spec is the star, the requested type, or a star in place of one half of it. -/
def NamesResource (spec type sub : String) : Prop :=
  spec = "*" ∨ spec = combined type sub ∨
    (sub ≠ "" ∧ (spec = "*/" ++ sub ∨ spec = type ++ "/*"))

/-- The spec is the star, the path itself, or a beginning of the path with stars behind it. -/
def NamesPath (spec path : String) : Prop :=
  spec = "*" ∨ spec = path ∨
    ∃ stem n, spec.toList = stem ++ List.replicate (n + 1) '*' ∧ stem.getLast? ≠ some '*' ∧
      stem <+: path.toList

theorem isExact_iff (spec type sub : String) :
    isExact spec.toList type.toList sub.toList = true ↔ spec = combined type sub := by
  by_cases hsub : sub = ""
  · simp [isExact, combined, hsub, String.toList_inj]
  · have hne : sub.toList ≠ [] := by simpa using hsub
    simp only [isExact, combined, hsub, if_false, List.isEmpty_iff, hne, beq_iff_eq,
      Option.bind_eq_some_iff, after?_eq_some_iff]
    constructor
    · rintro ⟨rest, hspec, rfl⟩
      apply String.toList_inj.mp
      simpa using hspec
    · rintro rfl
      exact ⟨'/' :: sub.toList, by simp, rfl⟩

theorem isAnyType_iff (spec sub : String) :
    isAnyType spec.toList sub.toList = true ↔ sub ≠ "" ∧ spec = "*/" ++ sub := by
  have hspec : spec.toList = ['*', '/'] ++ sub.toList ↔ spec = "*/" ++ sub := by
    rw [← String.toList_inj, String.toList_append]
    rfl
  simp only [isAnyType, Bool.and_eq_true, beq_iff_eq, after?_eq_some_iff, hspec]
  simp

theorem isAnyPart_iff (spec type sub : String) :
    isAnyPart spec.toList type.toList sub.toList = true ↔ sub ≠ "" ∧ spec = type ++ "/*" := by
  have hspec : spec.toList = type.toList ++ ['/', '*'] ↔ spec = type ++ "/*" := by
    rw [← String.toList_inj, String.toList_append]
    rfl
  simp only [isAnyPart, Bool.and_eq_true, beq_iff_eq, before?_eq_some_iff, hspec]
  simp

theorem coversResource_iff (spec type sub : String) :
    coversResource spec type sub = true ↔ NamesResource spec type sub := by
  simp only [coversResource, NamesResource, Bool.or_eq_true, beq_iff_eq, isExact_iff,
    isAnyType_iff, isAnyPart_iff]
  tauto

theorem coversPath_iff (spec path : String) :
    coversPath spec path = true ↔ NamesPath spec path := by
  simp only [coversPath, NamesPath, Bool.or_eq_true, Bool.and_eq_true, beq_iff_eq,
    List.isPrefixOf_iff_prefix, or_assoc]
  refine or_congr_right (or_congr_right ?_)
  obtain ⟨n, hn⟩ := eq_dropEndWhile_append_replicate '*' spec.toList
  constructor
  · rintro ⟨hlast, hprefix⟩
    refine ⟨_, n - 1, ?_, getLast?_dropEndWhile_ne '*' spec.toList, hprefix⟩
    cases n with
    | zero =>
        rw [List.replicate_zero, List.append_nil] at hn
        exact absurd (hn ▸ hlast) (getLast?_dropEndWhile_ne '*' spec.toList)
    | succ n => exact hn
  · rintro ⟨stem, m, hspec, hstem, hprefix⟩
    rw [hspec, dropEndWhile_append_replicate hstem]
    refine ⟨?_, hprefix⟩
    rw [List.replicate_succ', ← List.append_assoc, List.getLast?_concat]

end RequestAudit.Spec
