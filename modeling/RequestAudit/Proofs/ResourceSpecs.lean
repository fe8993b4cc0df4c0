import Mathlib.Data.List.Basic
import RequestAudit.Proofs.SpecMeaning

/-!
# Resource specs and plain names

Types as they are really called hold neither a slash nor a star, and parts hold no star. For these
the specs that cover a type with a part are those of a short table, and all different: a spec is
divided at its first slash in one way only. So a spec without stars means one type with one part,
and of the specs with stars all but three kinds mean nothing.
-/

namespace RequestAudit.Spec

/-- The type and the part are named as real ones are. The part may be empty. -/
structure IsPlain (type sub : String) : Prop where
  type_ne : type ≠ ""
  type_slash : '/' ∉ type.toList
  type_star : '*' ∉ type.toList
  sub_star : '*' ∉ sub.toList

instance (type sub : String) : Decidable (IsPlain type sub) :=
  decidable_of_iff (type ≠ "" ∧ '/' ∉ type.toList ∧ '*' ∉ type.toList ∧ '*' ∉ sub.toList)
    ⟨fun ⟨hne, hslash, hstar, hsub⟩ => ⟨hne, hslash, hstar, hsub⟩,
      fun ⟨hne, hslash, hstar, hsub⟩ => ⟨hne, hslash, hstar, hsub⟩⟩

/-- The table of the specs that cover a type with a part. -/
def covering (type sub : String) : List String :=
  if sub = "" then ["*", type] else ["*", type ++ "/" ++ sub, "*/" ++ sub, type ++ "/*"]

/-- The spec is the star, or a star, a slash and a part, or a type, a slash and a star. -/
def HasStarredForm (spec : String) : Prop :=
  spec = "*" ∨ (∃ sub, sub ≠ "" ∧ '*' ∉ sub.toList ∧ spec = "*/" ++ sub) ∨
    ∃ type, type ≠ "" ∧ '/' ∉ type.toList ∧ '*' ∉ type.toList ∧ spec = type ++ "/*"

theorem mem_covering_iff (spec type sub : String) :
    spec ∈ covering type sub ↔ NamesResource spec type sub := by
  by_cases hsub : sub = "" <;> simp [covering, NamesResource, combined, hsub]

/-! ## Division at the first slash -/

theorem toList_combined (type sub : String) :
    (combined type sub).toList = type.toList ++ if sub = "" then [] else '/' :: sub.toList := by
  by_cases hsub : sub = "" <;> simp [combined, hsub]

theorem takeWhile_combined {type : String} (h : '/' ∉ type.toList) (sub : String) :
    (combined type sub).toList.takeWhile (· != '/') = type.toList := by
  have htype : ∀ c ∈ type.toList, (c != '/') = true := by
    intro c hc
    simpa using fun heq : c = '/' => h (heq ▸ hc)
  rw [toList_combined, List.takeWhile_append_of_pos htype]
  split_ifs <;> simp

theorem combined_inj {type type' sub sub' : String} (h : '/' ∉ type.toList)
    (h' : '/' ∉ type'.toList) :
    combined type sub = combined type' sub' ↔ type = type' ∧ sub = sub' := by
  constructor
  · intro heq
    have htype : type = type' := by
      apply String.toList_inj.mp
      rw [← takeWhile_combined h sub, heq, takeWhile_combined h' sub']
    have htails := congrArg String.toList heq
    rw [toList_combined, toList_combined, htype, List.append_cancel_left_eq] at htails
    refine ⟨htype, ?_⟩
    split_ifs at htails with hsub hsub' hsub'
    · rw [hsub, hsub']
    · exact String.toList_inj.mp (List.cons.inj htails).2
  · rintro ⟨rfl, rfl⟩
    rfl

/-- Every spec of the table is a type, or the star, combined with a part, or with the star. -/
theorem covering_eq {type sub : String} (h : sub ≠ "") :
    covering type sub =
      [combined "*" "", combined type sub, combined "*" sub, combined type "*"] := by
  simp [covering, combined, h, String.append_assoc]

/-- A spec without stars says what it covers. -/
theorem eq_combined_of_covers {spec type sub : String} (hspec : '*' ∉ spec.toList)
    (hcovers : coversResource spec type sub = true) : spec = combined type sub := by
  rcases (coversResource_iff spec type sub).mp hcovers with rfl | heq | ⟨-, rfl | rfl⟩
  · exact absurd hspec (by decide)
  · exact heq
  · exact absurd hspec (by simp)
  · exact absurd hspec (by simp)

namespace IsPlain

variable {type sub : String}

theorem type_ne_star (h : IsPlain type sub) : type ≠ "*" := by
  rintro rfl
  exact h.type_star (by decide)

theorem sub_ne_star (h : IsPlain type sub) : sub ≠ "*" := by
  rintro rfl
  exact h.sub_star (by decide)

theorem star_notMem_combined (h : IsPlain type sub) : '*' ∉ (combined type sub).toList := by
  rw [toList_combined, List.mem_append, not_or]
  refine ⟨h.type_star, ?_⟩
  split_ifs
  · exact List.not_mem_nil
  · simp [h.sub_star]

theorem nodup_covering (h : IsPlain type sub) : (covering type sub).Nodup := by
  by_cases hsub : sub = ""
  · simpa [covering, hsub] using h.type_ne_star.symm
  · rw [covering_eq hsub]
    simp [combined_inj, h.type_slash, h.type_ne_star, h.type_ne_star.symm, h.sub_ne_star,
      Ne.symm hsub]

theorem hasStarredForm (h : IsPlain type sub) {spec : String} (hspec : '*' ∈ spec.toList)
    (hcovers : coversResource spec type sub = true) : HasStarredForm spec := by
  rcases (coversResource_iff spec type sub).mp hcovers with rfl | heq | ⟨hsub, rfl | rfl⟩
  · exact .inl rfl
  · exact absurd (heq ▸ hspec) h.star_notMem_combined
  · exact .inr (.inl ⟨sub, hsub, h.sub_star, rfl⟩)
  · exact .inr (.inr ⟨type, h.type_ne, h.type_slash, h.type_star, rfl⟩)

end IsPlain

theorem HasStarredForm.exists_covered {spec : String} (h : HasStarredForm spec) :
    ∃ type sub, IsPlain type sub ∧ coversResource spec type sub = true := by
  rcases h with rfl | ⟨sub, hne, hstar, rfl⟩ | ⟨type, hne, hslash, hstar, rfl⟩
  · exact ⟨"pods", "", by decide, by decide⟩
  · refine ⟨"pods", sub, ⟨by decide, by decide, by decide, hstar⟩, ?_⟩
    exact (coversResource_iff _ _ _).mpr (.inr (.inr ⟨hne, .inl rfl⟩))
  · refine ⟨type, "log", ⟨hne, hslash, hstar, by decide⟩, ?_⟩
    exact (coversResource_iff _ _ _).mpr (.inr (.inr ⟨by decide, .inr rfl⟩))

theorem HasStarredForm.count_star {spec : String} (h : HasStarredForm spec) :
    spec.toList.count '*' = 1 := by
  rcases h with rfl | ⟨sub, -, hstar, rfl⟩ | ⟨type, -, -, hstar, rfl⟩
  · decide
  · simp [List.count_eq_zero.mpr hstar]
  · simp [List.count_eq_zero.mpr hstar]

/-- A spec covers a plain type with a part exactly if it stands in their table, whose entries are
all different. A spec without stars covers no two of them, and one with stars covers some exactly
if it has one of three forms. -/
theorem coversResource_plain (spec : String) :
    (∀ type sub, IsPlain type sub →
      (coversResource spec type sub = true ↔ spec ∈ covering type sub) ∧
        (covering type sub).Nodup) ∧
    ('*' ∉ spec.toList → ∀ type sub type' sub', IsPlain type sub → IsPlain type' sub' →
      coversResource spec type sub = true → coversResource spec type' sub' = true →
        type = type' ∧ sub = sub') ∧
    ('*' ∈ spec.toList →
      ((∃ type sub, IsPlain type sub ∧ coversResource spec type sub = true) ↔
        HasStarredForm spec)) := by
  refine ⟨fun type sub h => ⟨?_, h.nodup_covering⟩, fun hspec type sub type' sub' h h' hc hc' => ?_,
    fun hspec => ⟨?_, HasStarredForm.exists_covered⟩⟩
  · rw [coversResource_iff, mem_covering_iff]
  · have heq := (eq_combined_of_covers hspec hc).symm.trans (eq_combined_of_covers hspec hc')
    exact (combined_inj h.type_slash h'.type_slash).mp heq
  · rintro ⟨type, sub, h, hcovers⟩
    exact h.hasStarredForm hspec hcovers

/-- The spec of one part of a type means nothing else, and that with a star on both sides of the
slash means nothing at all. -/
theorem coversResource_plain_log :
    "pods/log" ∈ covering "pods" "log" ∧
      (∀ type sub, IsPlain type sub → coversResource "pods/log" type sub = true →
        type = "pods" ∧ sub = "log") ∧
      ¬∃ type sub, IsPlain type sub ∧ coversResource "*/*" type sub = true := by
  obtain ⟨htable, hunique, -⟩ := coversResource_plain "pods/log"
  obtain ⟨-, -, hstarred⟩ := coversResource_plain "*/*"
  have hplain : IsPlain "pods" "log" := by decide
  have hcovers : coversResource "pods/log" "pods" "log" = true := by decide
  refine ⟨(htable _ _ hplain).1.mp hcovers, fun type sub h hc => ?_, fun hsome => ?_⟩
  · exact hunique (by decide) type sub "pods" "log" h hplain hc hcovers
  · exact absurd ((hstarred (by decide)).mp hsome).count_star (by decide)

end RequestAudit.Spec
