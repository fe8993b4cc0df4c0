/-!
# Beginnings and ends of texts

Stripping a given beginning or end. The main statements say that a text is stripped exactly
when it is the affix joined to the rest.
-/

namespace RequestAudit.Text

variable {α : Type} [DecidableEq α]

/-- What follows `start` in a list that begins with it. -/
def after? : List α → List α → Option (List α)
  | [], xs => some xs
  | _ :: _, [] => none
  | a :: start, x :: xs => if a = x then after? start xs else none

/-- What precedes `finish` in a list that ends with it. -/
def before? (finish xs : List α) : Option (List α) :=
  (after? finish.reverse xs.reverse).map List.reverse

theorem after?_eq_some_iff {start xs rest : List α} :
    after? start xs = some rest ↔ xs = start ++ rest := by
  induction start generalizing xs with
  | nil => simp [after?]
  | cons a start ih => cases xs with
    | nil => simp [after?]
    | cons x xs =>
      by_cases h : a = x
      · simp [after?, h, ih]
      · simp [after?, h, Ne.symm h]

@[simp] theorem after?_append (start rest : List α) : after? start (start ++ rest) = some rest :=
  after?_eq_some_iff.2 rfl

theorem before?_eq_some_iff {finish xs rest : List α} :
    before? finish xs = some rest ↔ xs = rest ++ finish := by
  simp only [before?, Option.map_eq_some_iff, after?_eq_some_iff]
  constructor
  · rintro ⟨r, h, rfl⟩
    have := congrArg List.reverse h
    simpa using this
  · rintro rfl
    exact ⟨rest.reverse, by simp, by simp⟩

end RequestAudit.Text
