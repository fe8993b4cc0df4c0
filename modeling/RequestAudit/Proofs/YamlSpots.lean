import Mathlib.Data.List.Basic
import RequestAudit.Yaml.Writer

/-!
# Positions in written YAML

What is written stands in lines that are indented by spaces. Within a line positions only move to
the right, and what follows a written part is either the rest of its line or a line that is
indented less.
-/

namespace RequestAudit.Yaml

theorem isGap_place (m : Mark) (cs : List Char) : isGap (place m cs) = Written.isGap cs := by
  cases cs <;> rfl

/-- A line end is neither a space nor a tab. -/
theorem not_blank_of_isBreak {c : Char} (hc : isBreak c = true) :
    (c == ' ') = false ∧ (c == '\t') = false := by
  simp only [beq_eq_false_iff_ne]
  refine ⟨?_, ?_⟩
  all_goals
    rintro rfl
    cases hc

/-! ## Lines -/

theorem next_of_not_break {c : Char} (hc : isBreak c = false) (m : Mark) :
    m.next c = ⟨m.index + 1, m.line, m.column + 1⟩ := by
  rw [Mark.next, hc]
  rfl

theorem column_next_of_break {c : Char} (hc : isBreak c = true) (m : Mark) :
    (m.next c).column = 0 := by
  rw [Mark.next, hc]
  rfl

theorem finish_cons (m : Mark) (c : Char) (cs : List Char) :
    finish m (c :: cs) = finish (m.next c) cs := rfl

theorem finish_append (m : Mark) (cs ds : List Char) :
    finish m (cs ++ ds) = finish (finish m cs) ds := List.foldl_append

/-- The text stands within one line. -/
def OneLine (cs : List Char) : Prop := ∀ c ∈ cs, isBreak c = false

theorem finish_of_oneLine {cs : List Char} (h : OneLine cs) (m : Mark) :
    finish m cs = ⟨m.index + cs.length, m.line, m.column + cs.length⟩ := by
  induction cs generalizing m with
  | nil => rfl
  | cons c cs ih =>
      obtain ⟨hc, hcs⟩ := List.forall_mem_cons.mp h
      rw [finish_cons, ih hcs, next_of_not_break hc, List.length_cons]
      simp only [Nat.add_assoc, Nat.add_comm 1]

theorem oneLine_spaces (n : ℕ) : OneLine (Written.spaces n) := by
  intro c hc
  rw [List.eq_of_mem_replicate hc]
  rfl

theorem finish_spaces (m : Mark) (n : ℕ) :
    finish m (Written.spaces n) = ⟨m.index + n, m.line, m.column + n⟩ := by
  rw [finish_of_oneLine (oneLine_spaces n), Written.spaces, List.length_replicate]

theorem finish_lineEnd (m : Mark) (j : ℕ) :
    (finish (m.next '\n') (Written.spaces j)).column = j ∧
      (finish (m.next '\n') (Written.spaces j)).line = m.line + 1 := by
  have hbreak : m.next '\n' = ⟨m.index + 1, m.line + 1, 0⟩ := rfl
  rw [finish_spaces, hbreak]
  exact ⟨Nat.zero_add j, rfl⟩

theorem column_finish_of_getLast? {cs : List Char} {c : Char} (h : cs.getLast? = some c)
    (hc : isBreak c = true) (m : Mark) : (finish m cs).column = 0 := by
  obtain ⟨before, rfl⟩ := List.getLast?_eq_some_iff.mp h
  rw [finish_append]
  exact column_next_of_break hc _

theorem spaces_succ (n : ℕ) : Written.spaces (n + 1) = ' ' :: Written.spaces n := rfl

theorem spaces_append_cons (n : ℕ) (cs : List Char) :
    Written.spaces n ++ ' ' :: cs = Written.spaces (n + 1) ++ cs := by
  induction n with
  | zero => rfl
  | succ n ih => rw [spaces_succ, List.cons_append, ih, spaces_succ (n + 1), List.cons_append]

theorem line_le_next (m : Mark) (c : Char) : m.line ≤ (m.next c).line := by
  unfold Mark.next
  split <;> simp

theorem line_le_finish (m : Mark) (cs : List Char) : m.line ≤ (finish m cs).line := by
  induction cs generalizing m with
  | nil => exact Nat.le_refl _
  | cons c cs ih => exact Nat.le_trans (line_le_next m c) (ih (m.next c))

theorem forall_getLast?_of_cons {p : Char → Prop} {c : Char} {cs : List Char}
    (h : ∀ x ∈ (c :: cs).getLast?, p x) : ∀ x ∈ cs.getLast?, p x := by
  intro x hx
  refine h x ?_
  rw [List.getLast?_cons, hx]
  rfl

/-! ## What follows -/

/-- No gap and no comment begins here. -/
def Stops (cs : List Char) : Prop :=
  ∀ c ∈ cs.head?, isBlank c = false ∧ isBreak c = false ∧ c ≠ '#' ∧ c ≠ '\ufeff'

theorem stops_nil : Stops [] := by simp [Stops]

theorem stops_cons {c : Char} {cs : List Char}
    (h : isBlank c = false ∧ isBreak c = false ∧ c ≠ '#' ∧ c ≠ '\ufeff') : Stops (c :: cs) := by
  simpa [Stops] using h

theorem stops_append {c : Char} {cs : List Char} (h : Stops (c :: cs)) (t : List Char) :
    Stops (c :: (cs ++ t)) := stops_cons (h c rfl)

/-! ## Boundaries -/

theorem isDivider_of_column {c : Char} {m : Mark} (hm : m.column ≠ 0) (cs : List Char) :
    isDivider c (place m cs) = false := by
  match cs with
  | [] | [_] | [_, _] => rfl
  | _ :: _ :: _ :: _ => simp [place, isDivider, hm]

theorem isBoundary_of_column {m : Mark} (hm : m.column ≠ 0) (cs : List Char) :
    isBoundary (place m cs) = false := by
  rw [isBoundary, isDivider_of_column hm, isDivider_of_column hm]
  rfl

theorem isDivider_of_head {c d : Char} (hd : d ≠ c) (m : Mark) (cs : List Char) :
    isDivider c (place m (d :: cs)) = false := by
  match cs with
  | [] | [_] => rfl
  | _ :: _ :: _ => simp [place, isDivider, hd]

theorem isBoundary_of_head {d : Char} (hd : d ≠ '-' ∧ d ≠ '.') (m : Mark) (cs : List Char) :
    isBoundary (place m (d :: cs)) = false := by
  rw [isBoundary, isDivider_of_head hd.1, isDivider_of_head hd.2]
  rfl

/-! ## Neighbours -/

section Pairs

variable {p q : Char → Bool}

theorem not_pair {a b : Char} {cs : List Char} (h : Written.hasPair p q (a :: b :: cs) = false) :
    p a = true → q b = false := by
  intro ha
  simp only [Written.hasPair, ha, Bool.true_and, Bool.or_eq_false_iff] at h
  exact h.1

theorem hasPair_append_right {cs ds : List Char} (h : Written.hasPair p q (cs ++ ds) = false) :
    Written.hasPair p q ds = false := by
  induction cs with
  | nil => exact h
  | cons c cs ih =>
      refine ih ?_
      cases hrest : cs ++ ds with
      | nil => rfl
      | cons d rest =>
          rw [List.cons_append, hrest, Written.hasPair, Bool.or_eq_false_iff] at h
          exact h.2

end Pairs

end RequestAudit.Yaml
