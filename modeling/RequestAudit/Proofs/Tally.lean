import Mathlib.Algebra.GroupWithZero.Nat
import Mathlib.Data.List.Basic
import Mathlib.Logic.Function.Basic
import RequestAudit.Replay

/-!
# Counting by level

The totals by level are a table of the numbers of occurrences: the levels that occur, in order,
each with its number.
-/

namespace RequestAudit

theorem Level.pairwise_all : Level.all.Pairwise (· < ·) := by decide

namespace Tally

/-- The table of the numbers of levels, without the levels that do not occur. -/
def tableOf (number : Level → ℕ) (ls : List Level) : List (Level × ℕ) :=
  (ls.filter fun l => 0 < number l).map fun l => (l, number l)

theorem tableOf_congr {number number' : Level → ℕ} {ls : List Level}
    (h : ∀ l ∈ ls, number l = number' l) : tableOf number ls = tableOf number' ls := by
  unfold tableOf
  rw [List.filter_congr fun l hl => by rw [h l hl]]
  exact List.map_congr_left fun l hl => by rw [h l (List.mem_of_mem_filter hl)]

theorem tableOf_cons_pos {number : Level → ℕ} {k : Level} (h : 0 < number k) (ls : List Level) :
    tableOf number (k :: ls) = (k, number k) :: tableOf number ls := by
  simp [tableOf, h]

theorem tableOf_cons_zero {number : Level → ℕ} {k : Level} (h : number k = 0) (ls : List Level) :
    tableOf number (k :: ls) = tableOf number ls := by
  simp [tableOf, h]

/-- A level before all levels of a table goes in front of it. -/
theorem bump_tableOf_of_lt {number : Level → ℕ} {l : Level} {ls : List Level}
    (h : ∀ k ∈ ls, l < k) : bump l (tableOf number ls) = (l, 1) :: tableOf number ls := by
  induction ls with
  | nil => rfl
  | cons k ls ih =>
      have hk : l < k := h k List.mem_cons_self
      have hne : l ≠ k := fun heq => Nat.lt_irrefl k.rank (heq ▸ hk)
      by_cases hzero : number k = 0
      · rw [tableOf_cons_zero hzero]
        exact ih fun k' hk' => h k' (List.mem_cons_of_mem k hk')
      · rw [tableOf_cons_pos (Nat.pos_of_ne_zero hzero), bump, if_neg hne, if_pos hk]

/-- One more occurrence of a level changes the table of an ordered list of levels in one
number. -/
theorem bump_tableOf {number : Level → ℕ} {l : Level} {ls : List Level}
    (hsorted : ls.Pairwise (· < ·)) (hl : l ∈ ls) :
    bump l (tableOf number ls) = tableOf (Function.update number l (number l + 1)) ls := by
  induction ls with
  | nil => cases hl
  | cons k ls ih =>
      obtain ⟨hk, hrest⟩ := List.pairwise_cons.mp hsorted
      have hirrefl : ∀ j : Level, ¬j < j := fun j => Nat.lt_irrefl j.rank
      by_cases hlk : l = k
      · subst hlk
        have hsame : tableOf (Function.update number l (number l + 1)) ls = tableOf number ls := by
          apply tableOf_congr
          intro j hj
          have hne : j ≠ l := by
            rintro rfl
            exact hirrefl j (hk j hj)
          exact Function.update_of_ne hne _ _
        have hself : Function.update number l (number l + 1) l = number l + 1 :=
          Function.update_self _ _ _
        have hpos : 0 < Function.update number l (number l + 1) l := by
          rw [hself]
          exact Nat.succ_pos _
        rw [tableOf_cons_pos hpos, hsame, hself]
        by_cases hzero : number l = 0
        · rw [tableOf_cons_zero hzero, bump_tableOf_of_lt hk, hzero]
        · rw [tableOf_cons_pos (Nat.pos_of_ne_zero hzero), bump, if_pos rfl]
      · have hmem : l ∈ ls := (List.mem_cons.mp hl).resolve_left hlk
        have hlt : ¬l < k := fun h => Nat.lt_asymm h (hk l hmem)
        have hother : Function.update number l (number l + 1) k = number k :=
          Function.update_of_ne (Ne.symm hlk) _ _
        by_cases hzero : number k = 0
        · rw [tableOf_cons_zero hzero, tableOf_cons_zero (hother.trans hzero), ih hrest hmem]
        · have hpos := Nat.pos_of_ne_zero hzero
          rw [tableOf_cons_pos hpos, tableOf_cons_pos (hother.symm ▸ hpos), bump, if_neg hlk,
            if_neg hlt, ih hrest hmem, hother]

theorem keys_tableOf (number : Level → ℕ) (ls : List Level) :
    (tableOf number ls).map Prod.fst = ls.filter fun l => 0 < number l := by
  simp [tableOf, Function.comp_def]

theorem mem_tableOf {number : Level → ℕ} {ls : List Level} {l : Level} {n : ℕ} :
    (l, n) ∈ tableOf number ls ↔ l ∈ ls ∧ n = number l ∧ 0 < n := by
  simp only [tableOf, List.mem_map, List.mem_filter, decide_eq_true_eq, Prod.mk.injEq]
  constructor
  · rintro ⟨k, ⟨hk, hpos⟩, rfl, rfl⟩
    exact ⟨hk, rfl, hpos⟩
  · rintro ⟨hl, rfl, hpos⟩
    exact ⟨l, ⟨hl, hpos⟩, rfl, rfl⟩

theorem sum_bump (l : Level) (table : List (Level × ℕ)) :
    ((bump l table).map Prod.snd).sum = (table.map Prod.snd).sum + 1 := by
  induction table with
  | nil => rfl
  | cons p table ih =>
      obtain ⟨k, n⟩ := p
      unfold bump
      split_ifs
      · simp only [List.map_cons, List.sum_cons]
        omega
      · simp only [List.map_cons, List.sum_cons]
        omega
      · simp only [List.map_cons, List.sum_cons, ih]
        omega

end Tally

end RequestAudit
