import Mathlib.Data.List.Basic
import RequestAudit.Stage

/-!
# The union of stages

Merging lists of stages keeps the first occurrence of each stage in the joined list. The
accumulator of the merge is only read by membership, so what it holds can be described by the
elements that it still lets through. A union may be merged again, in front of other lists or behind
them, as if its parts had been merged. Its elements and the order of their first places in the
joined list determine it.
-/

namespace RequestAudit.Stage

theorem firsts_eq (seen xs : List Stage) :
    firsts seen xs = (xs.filter fun s => decide (s ∉ seen)).eraseDups := by
  induction xs generalizing seen with
  | nil => rfl
  | cons s xs ih =>
      by_cases hs : s ∈ seen
      · simp [firsts, hs, ih]
      · have hrest : (xs.filter fun t => decide (t ∉ s :: seen)) =
            (xs.filter fun t => decide (t ∉ seen)).filter fun t => !t == s := by
          rw [List.filter_filter]
          apply List.filter_congr
          intro t _
          by_cases ht : t = s <;> simp [ht]
        simp only [firsts, if_neg hs, ih, hrest]
        rw [List.filter_cons_of_pos (by simpa using hs), List.eraseDups_cons]

/-- The union is the joined list without its later repetitions. -/
theorem union_eq_eraseDups (lists : List (List Stage)) :
    union lists = lists.flatten.eraseDups := by
  rw [union, firsts_eq]
  simp only [List.not_mem_nil, not_false_eq_true, decide_true, List.filter_true]

/-! ## Unions of unions -/

variable {seen seen' xs ys : List Stage}

theorem firsts_congr (h : ∀ s, s ∈ seen ↔ s ∈ seen') : firsts seen xs = firsts seen' xs := by
  simp only [firsts_eq, h]

theorem mem_firsts {s : Stage} : s ∈ firsts seen xs ↔ s ∈ xs ∧ s ∉ seen := by
  simp [firsts_eq]

theorem firsts_eq_nil (h : ∀ s ∈ xs, s ∈ seen) : firsts seen xs = [] :=
  List.eq_nil_iff_forall_not_mem.mpr fun s hs => (mem_firsts.mp hs).2 (h s (mem_firsts.mp hs).1)

theorem firsts_append (seen xs ys : List Stage) :
    firsts seen (xs ++ ys) = firsts seen xs ++ firsts (xs ++ seen) ys := by
  induction xs generalizing seen with
  | nil => rfl
  | cons s xs ih =>
      by_cases hs : s ∈ seen
      · have hseen : ∀ t, t ∈ xs ++ seen ↔ t ∈ s :: xs ++ seen := by
          intro t
          by_cases ht : t = s <;> simp [ht, hs]
        rw [List.cons_append, firsts, if_pos hs, ih, firsts, if_pos hs, firsts_congr hseen]
      · have hseen : ∀ t, t ∈ xs ++ s :: seen ↔ t ∈ s :: xs ++ seen := by
          intro t
          simp [or_left_comm]
        rw [List.cons_append, firsts, if_neg hs, ih, firsts, if_neg hs, firsts_congr hseen]
        rfl

/-- What is left out by one accumulator and then by another is left out by both together. -/
theorem firsts_firsts (seen seen' xs : List Stage) :
    firsts seen (firsts seen' xs) = firsts (seen ++ seen') xs := by
  induction xs generalizing seen seen' with
  | nil => rfl
  | cons s xs ih =>
      by_cases hs' : s ∈ seen'
      · rw [firsts, if_pos hs', ih, firsts, if_pos (List.mem_append_right _ hs')]
      · by_cases hs : s ∈ seen
        · have hseen : ∀ t, t ∈ seen ++ s :: seen' ↔ t ∈ seen ++ seen' := by
            intro t
            by_cases ht : t = s <;> simp [ht, hs]
          rw [firsts, if_neg hs', firsts, if_pos hs, ih, firsts,
            if_pos (List.mem_append_left _ hs), firsts_congr hseen]
        · have hboth : s ∉ seen ++ seen' := by simp [hs, hs']
          have hseen : ∀ t, t ∈ s :: seen ++ s :: seen' ↔ t ∈ s :: (seen ++ seen') := by
            intro t
            by_cases ht : t = s <;> simp [ht]
          rw [firsts, if_neg hs', firsts, if_neg hs, ih, firsts, if_neg hboth, firsts_congr hseen]

theorem firsts_union (seen : List Stage) (lists : List (List Stage)) :
    firsts seen (union lists) = firsts seen lists.flatten := by
  rw [union, firsts_firsts, List.append_nil]

theorem union_append_union (xs ys : List (List Stage)) :
    union (xs ++ [union ys]) = union (xs ++ ys) := by
  rw [union, List.flatten_append, List.flatten_singleton, firsts_append, firsts_union,
    ← firsts_append, ← List.flatten_append, union]

theorem union_union_cons (xs ys : List (List Stage)) :
    union (union xs :: ys) = union (xs ++ ys) := by
  have hseen : ∀ s, s ∈ union xs ++ [] ↔ s ∈ xs.flatten ++ [] := by
    intro s
    simp [union, mem_firsts]
  rw [union, List.flatten_cons, firsts_append, firsts_union, firsts_congr hseen,
    ← firsts_append, ← List.flatten_append, union]

/-- Stages that come first may be merged in once more. -/
theorem union_cons_cons_self (xs : List Stage) (lists : List (List Stage)) :
    union (xs :: xs :: lists) = union (xs :: lists) := by
  have hagain : firsts (xs ++ []) xs = [] := firsts_eq_nil (by simp)
  have hseen : ∀ s, s ∈ xs ++ (xs ++ []) ↔ s ∈ xs ++ [] := by simp
  simp only [union, List.flatten_cons, firsts_append]
  rw [hagain, List.nil_append, firsts_congr hseen]

/-! ## The order of first places -/

/-- The stages of the lists, each once, so that one which stands before another has come up before
it in the joined list. -/
structure IsUnion (lists : List (List Stage)) (zs : List Stage) : Prop where
  nodup : zs.Nodup
  mem_iff : ∀ s, s ∈ zs ↔ ∃ xs ∈ lists, s ∈ xs
  inOrder : zs.Pairwise fun s t => lists.flatten.idxOf s < lists.flatten.idxOf t

theorem idxOf_cons_of_mem_firsts {s t : Stage} (hs : s ∈ seen) (ht : t ∈ firsts seen xs) :
    (s :: xs).idxOf t = xs.idxOf t + 1 := by
  have hne : s ≠ t := by
    rintro rfl
    exact (mem_firsts.mp ht).2 hs
  exact List.idxOf_cons_ne xs hne

theorem pairwise_firsts (seen xs : List Stage) :
    (firsts seen xs).Pairwise fun s t => xs.idxOf s < xs.idxOf t := by
  induction xs generalizing seen with
  | nil => exact List.Pairwise.nil
  | cons s xs ih =>
      -- the places of all that comes behind `s` are moved by one
      have hmoved : ∀ seen, s ∈ seen →
          (firsts seen xs).Pairwise fun t u => (s :: xs).idxOf t < (s :: xs).idxOf u := by
        intro seen hs
        refine (ih seen).imp_of_mem fun ht hu hlt => ?_
        rw [idxOf_cons_of_mem_firsts hs ht, idxOf_cons_of_mem_firsts hs hu]
        exact Nat.succ_lt_succ hlt
      by_cases hs : s ∈ seen
      · rw [firsts, if_pos hs]
        exact hmoved seen hs
      · rw [firsts, if_neg hs, List.pairwise_cons]
        refine ⟨fun t ht => ?_, hmoved _ List.mem_cons_self⟩
        rw [List.idxOf_cons_self, idxOf_cons_of_mem_firsts List.mem_cons_self ht]
        exact Nat.succ_pos _

theorem nodup_firsts (seen xs : List Stage) : (firsts seen xs).Nodup := by
  refine (pairwise_firsts seen xs).imp ?_
  rintro s t hlt rfl
  exact Nat.lt_irrefl _ hlt

theorem isUnion_union (lists : List (List Stage)) : IsUnion lists (union lists) where
  nodup := nodup_firsts [] _
  mem_iff := by
    intro s
    rw [union, mem_firsts, List.mem_flatten]
    simp
  inOrder := pairwise_firsts [] _

theorem IsUnion.eq {lists : List (List Stage)} {zs zs' : List Stage} (h : IsUnion lists zs)
    (h' : IsUnion lists zs') : zs = zs' := by
  have hperm : zs.Perm zs' := by
    rw [List.perm_ext_iff_of_nodup h.nodup h'.nodup]
    intro s
    rw [h.mem_iff, h'.mem_iff]
  refine hperm.eq_of_pairwise (fun s t _ _ hst hts => ?_) h.inOrder h'.inOrder
  exact absurd hst (Nat.lt_asymm hts)

theorem union_flatten (lists : List (List Stage)) : union [lists.flatten] = union lists := by
  rw [union, List.flatten_singleton, union]

theorem union_prefix_union_append (xs ys : List (List Stage)) : union xs <+: union (xs ++ ys) := by
  refine ⟨firsts (xs.flatten ++ []) ys.flatten, ?_⟩
  rw [union, ← firsts_append, ← List.flatten_append, union]

/-- The union is the one list with the stages of the lists in the order of their first places. It
depends on the joined list alone, so that parts of it may be merged before the others, and further
lists only add stages behind it. -/
theorem union_keeps_firsts (xs ys : List (List Stage)) :
    (∀ zs, IsUnion xs zs ↔ zs = union xs) ∧
    union [xs.flatten] = union xs ∧
    union (union xs :: ys) = union (xs ++ ys) ∧
    union (xs ++ [union ys]) = union (xs ++ ys) ∧
    union xs <+: union (xs ++ ys) := by
  refine ⟨fun zs => ⟨fun h => h.eq (isUnion_union xs), ?_⟩, union_flatten xs,
    union_union_cons xs ys, union_append_union xs ys, union_prefix_union_append xs ys⟩
  rintro rfl
  exact isUnion_union xs

example : union [[.panic, .other "Audit"], [.other "Audit", .requestReceived, .panic]] =
    [.panic, .other "Audit", .requestReceived] := by decide

end RequestAudit.Stage
