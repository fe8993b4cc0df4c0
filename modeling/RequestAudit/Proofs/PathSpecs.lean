import Mathlib.Data.List.Basic
import RequestAudit.Proofs.SpecMeaning

/-!
# Path specs and their stars

A path spec is a stem that does not end in a star with any number of stars behind it, and it is so
in one way only. Without a star behind it the stem is compared literally. With stars behind it, no
matter how many, it stands for all paths that it begins, so that of two such specs one covers all
that the other one covers exactly if its stem begins the other one's.
-/

namespace RequestAudit

open Text

/-- A path spec taken apart. -/
structure PathSpec where
  stem : String
  stars : ℕ
  stem_last : stem.toList.getLast? ≠ some '*'

namespace PathSpec

/-- The spec as it is written. -/
def text (s : PathSpec) : String := s.stem ++ String.ofList (List.replicate s.stars '*')

variable {s t : PathSpec} {path : String}

theorem toList_text (s : PathSpec) :
    s.text.toList = s.stem.toList ++ List.replicate s.stars '*' := by
  rw [text, String.toList_append, String.toList_ofList]

theorem dropEndWhile_text (s : PathSpec) :
    dropEndWhile (· == '*') s.text.toList = s.stem.toList := by
  rw [toList_text]
  exact dropEndWhile_append_replicate s.stem_last s.stars

theorem text_injective : Function.Injective text := by
  intro s t h
  have hstem : s.stem = t.stem := by
    apply String.toList_inj.mp
    rw [← dropEndWhile_text, ← dropEndWhile_text, h]
  have hstars : s.stars = t.stars := by
    have hlength := congrArg (fun u => u.toList.length) h
    simp only [toList_text, List.length_append, List.length_replicate, hstem] at hlength
    omega
  obtain ⟨stem, stars, _⟩ := s
  obtain ⟨stem', stars', _⟩ := t
  obtain rfl : stem = stem' := hstem
  obtain rfl : stars = stars' := hstars
  rfl

theorem text_surjective : Function.Surjective text := by
  intro spec
  obtain ⟨n, hn⟩ := eq_dropEndWhile_append_replicate '*' spec.toList
  have hstem := String.toList_ofList (l := dropEndWhile (· == '*') spec.toList)
  refine ⟨⟨String.ofList (dropEndWhile (· == '*') spec.toList), n, ?_⟩, ?_⟩
  · rw [hstem]
    exact getLast?_dropEndWhile_ne '*' spec.toList
  · apply String.toList_inj.mp
    rw [toList_text]
    exact (congrArg (· ++ List.replicate n '*') hstem).trans hn.symm

theorem getLast?_text_iff : s.text.toList.getLast? = some '*' ↔ 0 < s.stars := by
  rw [toList_text]
  cases s.stars with
  | zero => simp [s.stem_last]
  | succ n => simp [List.replicate_succ', ← List.append_assoc]

theorem coversPath_text_of_stars_eq_zero (h : s.stars = 0) :
    Spec.coversPath s.text path = true ↔ path = s.text := by
  have hlast : ¬s.text.toList.getLast? = some '*' := by
    rw [getLast?_text_iff, h]
    exact Nat.lt_irrefl 0
  have hstar : s.text ≠ "*" := by
    intro heq
    exact hlast (by rw [heq]; rfl)
  simp only [Spec.coversPath, Bool.or_eq_true, Bool.and_eq_true, beq_iff_eq, hlast, hstar,
    false_and, or_false, false_or]
  exact eq_comm

theorem coversPath_text_of_stars_pos (h : 0 < s.stars) :
    Spec.coversPath s.text path = true ↔ s.stem.toList <+: path.toList := by
  have hlast := getLast?_text_iff.mpr h
  simp only [Spec.coversPath, Bool.or_eq_true, Bool.and_eq_true, beq_iff_eq, dropEndWhile_text,
    List.isPrefixOf_iff_prefix, hlast, true_and]
  constructor
  · rintro ((heq | heq) | hprefix)
    · -- what is left of a single star is the empty stem
      have hstem := dropEndWhile_text s
      rw [heq] at hstem
      rw [← hstem]
      exact List.nil_prefix
    · rw [← heq, toList_text]
      exact List.prefix_append _ _
    · exact hprefix
  · exact .inr

theorem covers_all_iff (hs : 0 < s.stars) (ht : 0 < t.stars) :
    (∀ path, Spec.coversPath t.text path = true → Spec.coversPath s.text path = true) ↔
      s.stem.toList <+: t.stem.toList := by
  constructor
  · intro h
    -- the stem of `t` is itself a path that `t` covers
    have hstem := h t.stem ((coversPath_text_of_stars_pos ht).mpr (List.prefix_refl _))
    exact (coversPath_text_of_stars_pos hs).mp hstem
  · intro hprefix path hcovers
    rw [coversPath_text_of_stars_pos ht] at hcovers
    rw [coversPath_text_of_stars_pos hs]
    exact hprefix.trans hcovers

/-- Every text is a stem with stars in one way. Without a star it covers itself alone, with stars
the paths that begin with the stem. So the number of the stars does not matter if there are any, a
single star covers all paths, and one spec with stars covers all that another one covers exactly if
its stem begins the other one's. -/
theorem coversPath_stem_stars :
    Function.Bijective text ∧
    (∀ (s : PathSpec) (path : String), Spec.coversPath s.text path = true ↔
      if s.stars = 0 then path = s.text else s.stem.toList <+: path.toList) ∧
    (∀ (s t : PathSpec), s.stem = t.stem → 0 < s.stars → 0 < t.stars →
      Spec.coversPath s.text = Spec.coversPath t.text) ∧
    (∀ path, Spec.coversPath "*" path = true) ∧
    ∀ (s t : PathSpec), 0 < s.stars → 0 < t.stars →
      ((∀ path, Spec.coversPath t.text path = true → Spec.coversPath s.text path = true) ↔
        s.stem.toList <+: t.stem.toList) := by
  refine ⟨⟨text_injective, text_surjective⟩, fun s path => ?_, fun s t hstem hs ht => ?_,
    fun path => rfl, fun s t => covers_all_iff⟩
  · split_ifs with h
    · exact coversPath_text_of_stars_eq_zero h
    · exact coversPath_text_of_stars_pos (Nat.pos_of_ne_zero h)
  · funext path
    rw [Bool.eq_iff_iff, coversPath_text_of_stars_pos hs, coversPath_text_of_stars_pos ht, hstem]

theorem coversPath_stem_stars_api :
    (Spec.coversPath "/a*b" "/a*b" = true ∧ Spec.coversPath "/a*b" "/aab" = false) ∧
    Spec.coversPath "/api***" = Spec.coversPath "/api*" ∧
    (∀ path, Spec.coversPath "/api***" path = true → Spec.coversPath "/a*" path = true) ∧
    ¬∀ path, Spec.coversPath "/a*" path = true → Spec.coversPath "/api***" path = true := by
  obtain ⟨-, hcovers, hstars, -, hsubsumes⟩ := coversPath_stem_stars
  let literal : PathSpec := ⟨"/a*b", 0, by decide⟩
  let api : PathSpec := ⟨"/api", 3, by decide⟩
  let one : PathSpec := ⟨"/api", 1, by decide⟩
  let short : PathSpec := ⟨"/a", 1, by decide⟩
  have hliteral := hcovers literal
  have hsame := hstars api one rfl (by decide) (by decide)
  have hshort := hsubsumes short api (by decide) (by decide)
  have hapi := hsubsumes api short (by decide) (by decide)
  refine ⟨⟨(hliteral "/a*b").mpr rfl, ?_⟩, hsame, hshort.mpr (by decide), fun h => ?_⟩
  · apply Bool.eq_false_iff.mpr
    exact fun h => absurd ((hliteral "/aab").mp h) (by decide)
  · exact absurd (hapi.mp h) (by decide)

end PathSpec

end RequestAudit
