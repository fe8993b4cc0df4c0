import Mathlib.Data.List.Induction
import RequestAudit.Proofs.YamlScalars
import RequestAudit.Yaml.Scalar.Block

/-!
# Written block scalars read back

A block scalar is a header and lines. The header is chosen so that the reader finds the
indentation of the lines, and keeps just those line ends behind the last line that belong to the
text. A scalar without lines reads as the empty text.
-/

namespace RequestAudit.Yaml.Block

open Written (blockBody isPlainly spaces)

/-! ## Lines -/

section Lines

variable {chomp : Chomp} {indent : ℕ} {blank : Bool} {first more : List Char}

theorem lines?_spaces {literal : Bool} {n : ℕ} {m : Mark} (h : m.column + n ≤ indent)
    (t : List Char) :
    lines? literal chomp indent (.between blank first more) (place m (spaces n ++ t)) =
      lines? literal chomp indent (.between blank first more) (place (finish m (spaces n)) t) := by
  induction n generalizing m with
  | zero => rfl
  | succ n ih =>
      have hlt : m.column < indent := by omega
      have hnext := next_of_not_break (c := ' ') rfl m
      have hcons : spaces (n + 1) ++ t = ' ' :: (spaces n ++ t) := rfl
      rw [hcons, place, lines?]
      simp only [beq_self_eq_true, hlt, decide_true, Bool.and_self, if_true]
      rw [ih (by rw [hnext]; simp only; omega), spaces_succ, finish_cons]

/-- The line ends behind the last line, and less indentation after them. -/
theorem lines?_ends {bs : List Char} (hbs : ∀ c ∈ bs, isBreak c = true) {m : Mark}
    (hm : m.column = 0) {j : ℕ} (hj : j < indent) {ds : List Char} (hds : Stops ds) :
    lines? true chomp indent (.between blank first more) (place m (bs ++ (spaces j ++ ds))) =
      some (chomp.ends first (bs.reverse ++ more), place (finish m (bs ++ spaces j)) ds) := by
  induction bs generalizing m more with
  | nil =>
      rw [List.nil_append, lines?_spaces (by omega)]
      cases ds with
      | nil => rfl
      | cons d ds =>
          obtain ⟨hblank, hbreak, -⟩ := hds d rfl
          rw [isBlank, Bool.or_eq_false_iff] at hblank
          have hcolumn : ((finish m (spaces j)).column == indent) = false := by
            rw [finish_spaces, hm]
            simpa using Nat.ne_of_lt hj
          rw [place, lines?]
          simp only [hblank.1, hblank.2, hbreak, hcolumn, Bool.false_and, Bool.false_eq_true,
            if_false]
          rfl
  | cons b bs ih =>
      obtain ⟨hb, hrest⟩ := List.forall_mem_cons.mp hbs
      obtain ⟨hspace, htab⟩ := not_blank_of_isBreak hb
      rw [List.cons_append, place, lines?]
      simp only [hspace, htab, hb, Bool.false_and, Bool.false_eq_true, if_false, if_true]
      rw [ih hrest (column_next_of_break hb m), List.reverse_cons, List.append_assoc]
      rfl

/-- What the state stands for before further characters. -/
def State.text : State → List Char
  | .line _ => []
  | .between _ first more => first ++ more.reverse

/-- The state fits a place where a line begins, or one within a line. -/
def State.Fits (broken : Bool) (m : Mark) : State → Prop
  | .line _ => broken = false
  | .between .. => broken = true ∧ m.column = 0

/-- The state behind a line end. -/
def State.broken (c : Char) : State → State
  | .line blank => .between blank [c] []
  | .between blank first more => .between blank first (c :: more)

theorem State.text_broken (c : Char) (s : State) : (s.broken c).text = s.text ++ [c] := by
  cases s <;> simp [broken, text]

theorem State.fits_broken {c : Char} (hc : isBreak c = true) (m : Mark) (s : State) :
    (s.broken c).Fits true (m.next c) := by
  cases s <;> exact ⟨rfl, column_next_of_break hc m⟩

theorem lines?_break {c : Char} (hc : isBreak c = true) (s : State) (m : Mark) (t : List Char) :
    lines? true chomp indent s (place m (c :: t)) =
      lines? true chomp indent (s.broken c) (place (m.next c) t) := by
  obtain ⟨hspace, htab⟩ := not_blank_of_isBreak hc
  cases s with
  | line blank =>
      rw [place, lines?, if_pos hc]
      rfl
  | between blank first more =>
      rw [place, lines?]
      simp only [hspace, htab, hc, Bool.false_and, Bool.false_eq_true, if_false, if_true]
      rfl

/-- The first character of a line stands behind the indentation, and any other at once. -/
theorem lines?_char {c : Char} (hbreak : isBreak c = false) (htab : c ≠ '\t') {broken : Bool}
    {m : Mark} {s : State} (hstate : s.Fits broken m) (t : List Char) :
    ∃ blank, lines? true chomp indent s
        (place m ((if broken then spaces indent else []) ++ c :: t)) =
      (lines? true chomp indent (.line blank)
          (place ((finish m (if broken then spaces indent else [])).next c) t)).map
        fun r => (s.text ++ c :: r.1, r.2) := by
  cases s with
  | line blank =>
      obtain rfl : broken = false := hstate
      refine ⟨blank, ?_⟩
      show lines? true chomp indent (.line blank) (place m (c :: t)) = _
      rw [place, lines?, if_neg (by simp [hbreak])]
      rfl
  | between blank first more =>
      obtain ⟨rfl, hm⟩ := hstate
      refine ⟨isBlank c, ?_⟩
      have hcolumn : (finish m (spaces indent)).column = indent := by
        rw [finish_spaces, hm]
        exact Nat.zero_add indent
      rw [if_pos rfl, lines?_spaces (by omega), place, lines?]
      simp only [hcolumn, beq_eq_false_iff_ne.mpr htab, hbreak, Nat.lt_irrefl, decide_false,
        Bool.and_false, Bool.false_eq_true, if_false, beq_self_eq_true, if_true]
      rfl

/-- Lines are read as they are, without their indentation. -/
theorem lines?_blockBody {cs : List Char} {broken : Bool} {m : Mark} {s : State} (t : List Char)
    (hplainly : ∀ c ∈ cs, isPlainly c = true) (hlast : ∀ c ∈ cs.getLast?, isBreak c = false)
    (hstate : s.Fits broken m) (hne : cs = [] → broken = false) :
    ∃ blank, lines? true chomp indent s (place m (blockBody indent broken cs ++ t)) =
      (lines? true chomp indent (.line blank) (place (finish m (blockBody indent broken cs)) t)).map
        fun r => (s.text ++ cs ++ r.1, r.2) := by
  induction cs generalizing broken m s with
  | nil =>
      cases s with
      | line blank =>
          refine ⟨blank, ?_⟩
          show _ = (lines? true chomp indent (.line blank) (place m t)).map id
          rw [Option.map_id]
          rfl
      | between blank first more =>
          obtain ⟨rfl, -⟩ := hstate
          cases hne rfl
  | cons c cs ih =>
      obtain ⟨hc, hcs⟩ := List.forall_mem_cons.mp hplainly
      have hlast' := forall_getLast?_of_cons hlast
      by_cases hbreak : isBreak c = true
      · have hne' : cs = [] → true = false := by
          rintro rfl
          rw [hlast c rfl] at hbreak
          cases hbreak
        obtain ⟨blank, hread⟩ := ih hcs hlast' (State.fits_broken hbreak m s) hne'
        refine ⟨blank, ?_⟩
        rw [blockBody, if_pos hbreak, List.cons_append, lines?_break hbreak, hread, finish_cons,
          State.text_broken]
        simp only [List.append_assoc, List.singleton_append]
      · rw [Bool.not_eq_true] at hbreak
        have htab : c ≠ '\t' := ne_of_isPlainly hc (by decide)
        obtain ⟨blank, hfirst⟩ := lines?_char hbreak htab hstate (blockBody indent false cs ++ t)
        obtain ⟨blank', hread⟩ := ih (s := .line blank) hcs hlast' rfl fun _ => rfl
        refine ⟨blank', ?_⟩
        rw [blockBody, if_neg (by simp [hbreak]), List.append_assoc, List.cons_append, hfirst, hread,
          finish_append, finish_cons, Option.map_map]
        simp [Function.comp_def, State.text]

end Lines

/-! ## Headers -/

/-- How a chomping is written. -/
def Chomp.mark : Chomp → List Char
  | strip => ['-']
  | clip => []
  | keep => ['+']

/-- The chomping that keeps the line ends of a text: those behind the last line, and whether there
is a line. -/
def chompOf (lines bs : List Char) : Chomp :=
  match bs with
  | [] => .strip
  | [_] => if lines.isEmpty then .keep else .clip
  | _ => .keep

/-- Whether the text begins with a line that does not show its indentation. -/
def isHinted (cs : List Char) : Bool := cs.head?.any fun c => Written.isSpace c || isBreak c

theorem exists_lines (cs : List Char) : ∃ lines bs, cs = lines ++ bs ∧
    (∀ c ∈ bs, isBreak c = true) ∧ ∀ c ∈ lines.getLast?, isBreak c = false := by
  induction cs using List.reverseRecOn with
  | nil => exact ⟨[], [], rfl, by simp, by simp⟩
  | append_singleton cs c ih =>
      by_cases hc : isBreak c = true
      · obtain ⟨lines, bs, rfl, hbs, hlines⟩ := ih
        refine ⟨lines, bs ++ [c], List.append_assoc .., ?_, hlines⟩
        simpa [or_imp, forall_and] using ⟨hbs, hc⟩
      · exact ⟨cs ++ [c], [], (List.append_nil _).symm, by simp, by simpa using hc⟩

theorem header_eq {lines bs : List Char} (hbs : ∀ c ∈ bs, isBreak c = true)
    (hlines : ∀ c ∈ lines.getLast?, isBreak c = false) (hne : lines ++ bs ≠ []) :
    Written.header (lines ++ bs) =
      '|' :: (if isHinted (lines ++ bs) then ['2'] else []) ++ (chompOf lines bs).mark := by
  have hlast : ∀ z zs, lines.reverse = z :: zs → isBreak z = false := by
    intro z zs h
    refine hlines z ?_
    rw [← List.head?_reverse, h]
    rfl
  unfold Written.header
  dsimp only
  congr 1
  · congr 1
    cases lines ++ bs <;> rfl
  · rw [List.reverse_append]
    -- The header is chosen by the last two characters of the text.
    match bs, hbs with
    | [], _ =>
        rw [List.append_nil] at hne
        obtain ⟨z, zs, hz⟩ := List.exists_cons_of_ne_nil (List.reverse_ne_nil_iff.mpr hne)
        simp [hz, hlast z zs hz, chompOf, Chomp.mark]
    | [z], hz =>
        have hbreak : isBreak z = true := hz z List.mem_cons_self
        cases hy : lines.reverse with
        | nil =>
            have hnil : lines = [] := List.reverse_eq_nil_iff.mp hy
            simp [hbreak, hnil, chompOf, Chomp.mark]
        | cons y ys =>
            have hnil : lines ≠ [] := by
              rintro rfl
              cases hy
            simp [hbreak, hlast y ys hy, hnil, chompOf, Chomp.mark]
    | a :: b :: cs, hz =>
        obtain ⟨z, y, zs, hzs⟩ : ∃ z y zs, (a :: b :: cs).reverse = z :: y :: zs := by
          have hlength : (a :: b :: cs).reverse.length = cs.length + 2 := List.length_reverse
          match hrev : (a :: b :: cs).reverse, hlength with
          | z :: y :: zs, _ => exact ⟨z, y, zs, rfl⟩
        have hz' : isBreak z = true := hz z (by rw [← List.mem_reverse, hzs]; simp)
        have hy' : isBreak y = true := hz y (by rw [← List.mem_reverse, hzs]; simp)
        rw [hzs]
        simp [hz', hy', chompOf, Chomp.mark]

theorem header?_mark (hinted : Bool) (chomp : Chomp) (m : Mark) (t : List Char) :
    header? (place m ((if hinted then ['2'] else []) ++ chomp.mark ++ '\n' :: t)) =
      some (⟨chomp, if hinted then some 2 else none⟩,
        place (finish m ((if hinted then ['2'] else []) ++ chomp.mark)) ('\n' :: t)) := by
  cases hinted <;> cases chomp <;> rfl

theorem afterHeader?_lineEnd (m : Mark) (t : List Char) :
    afterHeader? (place m ('\n' :: t)) = some (place (m.next '\n') t) := rfl

/-- Spaces count up to the column that they reach, whatever comes after them. -/
theorem deepest?_spaces {most n : ℕ} {m : Mark} (hm : m.column ≤ most) (t : List Char) :
    deepest? most (place m (spaces n ++ t)) =
      deepest? (max most (m.column + n)) (place (finish m (spaces n)) t) := by
  induction n generalizing most m with
  | zero =>
      rw [Nat.add_zero, Nat.max_eq_left hm]
      rfl
  | succ n ih =>
      have hcons : spaces (n + 1) ++ t = ' ' :: (spaces n ++ t) := rfl
      have hcolumn : (m.next ' ').column = m.column + 1 := by
        rw [next_of_not_break rfl]
      have hmost : max (max most (m.column + 1)) (m.column + 1 + n) =
          max most (m.column + (n + 1)) := by
        omega
      rw [hcons, place, deepest?]
      simp only [beq_self_eq_true, if_true]
      rw [ih (by rw [hcolumn]; exact Nat.le_max_right _ _), hcolumn, hmost, spaces_succ,
        finish_cons]

theorem deepest?_char {most : ℕ} {m : Mark} {c : Char} (hblank : isBlank c = false)
    (hbreak : isBreak c = false) (t : List Char) :
    deepest? most (place m (c :: t)) = some (max most m.column) := by
  rw [isBlank, Bool.or_eq_false_iff] at hblank
  rw [place, deepest?]
  simp [hblank.1, hblank.2, hbreak]

/-! ## Whole scalars -/

theorem blockBody_append (indent : ℕ) (broken : Bool) (lines : List Char) {bs : List Char}
    (hbs : ∀ c ∈ bs, isBreak c = true) :
    blockBody indent broken (lines ++ bs) = blockBody indent broken lines ++ bs := by
  induction lines generalizing broken with
  | nil =>
      induction bs generalizing broken with
      | nil => rfl
      | cons b bs ih =>
          obtain ⟨hb, hrest⟩ := List.forall_mem_cons.mp hbs
          have hbody := ih hrest true
          simp only [List.nil_append, blockBody] at hbody ⊢
          rw [if_pos hb, hbody]
  | cons c lines ih =>
      rw [List.cons_append, blockBody, blockBody]
      by_cases hc : isBreak c = true
      · rw [if_pos hc, if_pos hc, ih, List.cons_append]
      · rw [if_neg hc, if_neg hc, ih, List.append_assoc, List.cons_append]

theorem getLast?_blockBody (indent : ℕ) (broken : Bool) (cs : List Char) :
    (blockBody indent broken cs).getLast? = cs.getLast? := by
  induction cs generalizing broken with
  | nil => rfl
  | cons c cs ih =>
      rw [blockBody]
      split
      · rw [List.getLast?_cons, List.getLast?_cons, ih]
      · rw [List.getLast?_append, List.getLast?_cons, List.getLast?_cons, ih]
        rfl

/-- The line ends that are written behind the last line. -/
def endsOf (bs : List Char) : List Char := if bs.isEmpty then ['\n'] else bs

theorem endLine_blockBody {lines bs : List Char} (indent : ℕ)
    (hbs : ∀ c ∈ bs, isBreak c = true) (hlines : ∀ c ∈ lines.getLast?, isBreak c = false) :
    Written.endLine (blockBody indent true (lines ++ bs)) =
      blockBody indent true lines ++ endsOf bs := by
  rw [Written.endLine, getLast?_blockBody, blockBody_append indent true lines hbs]
  cases bs with
  | nil =>
      have hlast : lines.getLast?.any isBreak = false := by
        cases h : lines.getLast? with
        | none => rfl
        | some c => exact hlines c h
      rw [List.append_nil, hlast, if_neg (by simp), List.append_nil]
      rfl
  | cons b bs =>
      obtain ⟨c, hc⟩ : ∃ c, (b :: bs).getLast? = some c := ⟨_, List.getLast?_eq_some_getLast (by simp)⟩
      have hlast : (lines ++ b :: bs).getLast?.any isBreak = true := by
        rw [List.getLast?_append, hc]
        exact hbs c (List.mem_of_getLast? hc)
      rw [hlast]
      rfl

/-- The lines are read with their own line ends and no more, up to a line that is indented less. -/
theorem lines?_written {indent : ℕ} {lines bs : List Char} {m : Mark} (hm : m.column = 0)
    (hne : lines ++ bs ≠ []) (hplainly : ∀ c ∈ lines, isPlainly c = true)
    (hbs : ∀ c ∈ bs, isBreak c = true) (hlines : ∀ c ∈ lines.getLast?, isBreak c = false)
    {j : ℕ} (hj : j < indent) {ds : List Char} (hds : Stops ds) :
    lines? true (chompOf lines bs) indent (.between false [] [])
        (place m (blockBody indent true lines ++ (endsOf bs ++ (spaces j ++ ds)))) =
      some (lines ++ bs,
        place (finish m (blockBody indent true lines ++ (endsOf bs ++ spaces j))) ds) := by
  by_cases hnil : lines = []
  · subst hnil
    have hends : endsOf bs = bs := by
      cases bs with
      | nil => exact absurd rfl hne
      | cons b bs => rfl
    have hkeep : chompOf [] bs = .keep := by
      match bs, hne with
      | [_], _ | _ :: _ :: _, _ => rfl
    rw [hends, hkeep, blockBody, List.nil_append, lines?_ends hbs hm hj hds]
    simp [Chomp.ends]
  · obtain ⟨blank, hread⟩ := lines?_blockBody (s := .between false [] [])
      (endsOf bs ++ (spaces j ++ ds)) hplainly hlines ⟨rfl, hm⟩ (fun h => absurd h hnil)
    -- The first line end ends the last line; only the others stand behind it.
    obtain ⟨z, zs, hends, hz, hzs, hkept⟩ : ∃ z zs, endsOf bs = z :: zs ∧ isBreak z = true ∧
        (∀ c ∈ zs, isBreak c = true) ∧ (chompOf lines bs).ends [z] (zs.reverse ++ []) = bs := by
      match bs, hbs with
      | [], _ => exact ⟨_, _, rfl, rfl, by simp, rfl⟩
      | [b], hb =>
          refine ⟨b, [], rfl, hb b List.mem_cons_self, by simp, ?_⟩
          simp [chompOf, hnil, Chomp.ends]
      | a :: b :: cs, hbs =>
          obtain ⟨ha, hrest⟩ := List.forall_mem_cons.mp hbs
          exact ⟨a, b :: cs, rfl, ha, hrest, by simp [chompOf, Chomp.ends]⟩
    rw [hread, hends, List.cons_append, place, lines?]
    simp only [hz, if_true]
    rw [lines?_ends hzs (column_next_of_break hz _) hj hds, hkept]
    simp only [finish_append, finish_cons]
    rfl

theorem endLine_append (as : List Char) {bs : List Char} (hbs : bs ≠ []) :
    Written.endLine (as ++ bs) = as ++ Written.endLine bs := by
  obtain ⟨c, hc⟩ : ∃ c, bs.getLast? = some c := ⟨_, List.getLast?_eq_some_getLast hbs⟩
  rw [Written.endLine, Written.endLine, List.getLast?_append, hc]
  cases hbreak : isBreak c <;> simp [hbreak]

theorem getLast?_endLine (cs : List Char) :
    ∃ c, (Written.endLine cs).getLast? = some c ∧ isBreak c = true := by
  rw [Written.endLine]
  split
  · next h =>
      cases hlast : cs.getLast? with
      | none =>
          rw [hlast] at h
          cases h
      | some c =>
          rw [hlast] at h
          exact ⟨c, rfl, h⟩
  · exact ⟨'\n', by simp, rfl⟩

/-- A scalar without lines is empty, however far the text is indented up to its end. -/
theorem read?_of_spaces (literal : Bool) (chomp : Chomp) (outer : ℤ) (m : Mark) (n : ℕ) :
    read? literal outer (place m (chomp.mark ++ '\n' :: spaces n)) = some ([], []) := by
  have hheader : header? (place m (chomp.mark ++ '\n' :: spaces n)) =
      some (⟨chomp, none⟩, place (finish m chomp.mark) ('\n' :: spaces n)) :=
    header?_mark false chomp m (spaces n)
  have hcolumn := column_next_of_break (c := '\n') rfl (finish m chomp.mark)
  have hdeepest := deepest?_spaces (n := n) (Nat.le_of_eq hcolumn) []
  rw [hcolumn, List.append_nil, Nat.zero_max, Nat.zero_add] at hdeepest
  have hlines : ∀ indent, n ≤ indent → lines? literal chomp indent (.between false [] [])
      (place ((finish m chomp.mark).next '\n') (spaces n)) = some ([], []) := by
    intro indent hindent
    rw [← List.append_nil (spaces n), lines?_spaces (by omega)]
    cases chomp <;> rfl
  simp only [read?, hheader, afterHeader?_lineEnd, Option.bind_eq_bind, Option.bind_some, hdeepest]
  exact hlines _ (Nat.le_max_left _ _)

/-- Text that is not hinted at shows its indentation. -/
theorem deepest?_written (indent : ℕ) {lines bs : List Char} (hbs : ∀ c ∈ bs, isBreak c = true)
    (hplainly : ∀ c ∈ lines, isPlainly c = true) (hne : lines ++ bs ≠ [])
    (hhint : isHinted (lines ++ bs) = false) {m : Mark} (hm : m.column = 0) (t : List Char) :
    deepest? 0 (place m (blockBody indent true lines ++ t)) = some indent := by
  cases lines with
  | nil =>
      obtain ⟨b, bs, rfl⟩ := List.exists_cons_of_ne_nil hne
      simp [isHinted, hbs b List.mem_cons_self] at hhint
  | cons c lines =>
      obtain ⟨hspace, hbreak⟩ : Written.isSpace c = false ∧ isBreak c = false := by
        simpa [isHinted] using hhint
      have hblank : isBlank c = false := by
        rw [← Bool.not_eq_true]
        intro h
        rw [eq_space_of_isBlank (hplainly c List.mem_cons_self) h] at hspace
        cases hspace
      rw [blockBody, if_neg (by simp [hbreak]), if_pos rfl, List.append_assoc, List.cons_append,
        deepest?_spaces (Nat.le_of_eq hm), deepest?_char hblank hbreak, finish_spaces, hm]
      simp

/-- A text as a block scalar is read from behind the indicator to the end of the lines. -/
theorem read?_written {outer : ℤ} {indent : ℕ} (hindent : outer.toNat + 2 = indent) {cs : List Char}
    (hfits : Written.fitsBlock cs = true) {j : ℕ} (hj : j < indent) {ds : List Char}
    (hds : Stops ds) :
    ∃ body, Written.endLine (Written.block indent cs) = '|' :: body ∧
      ∀ m : Mark, read? true outer (place m (body ++ (spaces j ++ ds))) =
        some (cs, place (finish m (body ++ spaces j)) ds) := by
  simp only [Written.fitsBlock, Written.needsEscapes, Bool.not_eq_true', Bool.or_eq_false_iff,
    Bool.not_eq_false'] at hfits
  obtain ⟨⟨hne, -⟩, hall, -⟩ := hfits
  obtain ⟨lines, bs, rfl, hbs, hlines⟩ := exists_lines cs
  have hne' : lines ++ bs ≠ [] := by simpa using hne
  have hplainly : ∀ c ∈ lines, isPlainly c = true :=
    fun c hc => List.all_eq_true.mp hall c (List.mem_append_left bs hc)
  have hbody : blockBody indent true (lines ++ bs) ≠ [] := by
    intro h
    have hlast := getLast?_blockBody indent true (lines ++ bs)
    rw [h, List.getLast?_nil] at hlast
    exact hne' (List.getLast?_eq_none_iff.mp hlast.symm)
  have hwritten : Written.endLine (Written.block indent (lines ++ bs)) =
      '|' :: ((if isHinted (lines ++ bs) then ['2'] else []) ++ (chompOf lines bs).mark ++
        '\n' :: (blockBody indent true lines ++ endsOf bs)) := by
    rw [Written.block, header_eq hbs hlines hne', ← List.singleton_append (x := '\n'),
      ← List.append_assoc, endLine_append _ hbody, endLine_blockBody indent hbs hlines]
    simp
  refine ⟨_, hwritten, fun m => ?_⟩
  generalize hmarks : (if isHinted (lines ++ bs) then ['2'] else []) ++ (chompOf lines bs).mark =
    marks at *
  have hheader := header?_mark (isHinted (lines ++ bs)) (chompOf lines bs) m
    (blockBody indent true lines ++ (endsOf bs ++ (spaces j ++ ds)))
  rw [hmarks] at hheader
  have hcolumn := column_next_of_break (c := '\n') rfl (finish m marks)
  have hread := lines?_written hcolumn hne' hplainly hbs hlines hj hds
  simp only [List.append_assoc, List.cons_append, read?, hheader, afterHeader?_lineEnd,
    Option.bind_eq_bind, Option.bind_some]
  have hfinish : finish m (marks ++ '\n' :: (blockBody indent true lines ++ (endsOf bs ++ spaces j))) =
      finish ((finish m marks).next '\n')
        (blockBody indent true lines ++ (endsOf bs ++ spaces j)) := by
    rw [finish_append, finish_cons]
  rw [hfinish]
  cases hhint : isHinted (lines ++ bs) with
  | true => simpa [hindent] using hread
  | false =>
      have hdeepest := deepest?_written indent hbs hplainly hne' hhint hcolumn
        (endsOf bs ++ (spaces j ++ ds))
      have hmost : max indent (max (outer + 1) 1).toNat = indent := by omega
      simpa [hdeepest, hmost] using hread

end RequestAudit.Yaml.Block
