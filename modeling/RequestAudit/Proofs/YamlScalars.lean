import Mathlib.Data.Int.Notation
import RequestAudit.Proofs.YamlSpots
import RequestAudit.Yaml.Scalar.Plain
import RequestAudit.Yaml.Scalar.Quoted

/-!
# Written scalars read back

A text in the style that is chosen for it reads as the text, up to the end of the scalar. The
style is chosen so that folding changes nothing: gaps within a scalar are spaces on one line, or
line ends other than line feeds with nothing but indentation after them.
-/

namespace RequestAudit.Yaml

open Written (isPlainly spaces)

/-! ## Characters -/

theorem ne_of_isPlainly {c d : Char} (h : isPlainly c = true) (hd : isPlainly d = false) :
    c ≠ d := by
  rintro rfl
  rw [h] at hd
  cases hd

theorem eq_space_of_isBlank {c : Char} (h : isPlainly c = true) (hc : isBlank c = true) :
    c = ' ' := by
  rw [isBlank, Bool.or_eq_true, beq_iff_eq, beq_iff_eq] at hc
  exact hc.resolve_right (ne_of_isPlainly h (by decide))

theorem isAllowed_of_isPlainly {c : Char} (h : isPlainly c = true) : isAllowed c = true := by
  simp only [isPlainly, isAllowed, Bool.or_eq_true, Bool.and_eq_true, beq_iff_eq, bne_iff_ne,
    decide_eq_true_eq] at h ⊢
  omega

/-! ## Gaps -/

theorem fold_of_oneLine {gap : List Char} (h : OneLine gap) : fold gap = gap := by
  have hnone : gap.filter isBreak = [] := List.filter_eq_nil_iff.mpr (by simpa [OneLine] using h)
  rw [fold, hnone]

theorem fold_spaces {gap : List Char} (h : ∀ c ∈ gap, c = ' ') : fold gap.reverse = gap.reverse := by
  refine fold_of_oneLine fun c hc => ?_
  rw [h c (List.mem_reverse.mp hc)]
  rfl

/-- Line ends other than line feeds stay, and the indentation after them does not. -/
theorem fold_breaks {bs : List Char} (hne : bs ≠ []) (hbreak : ∀ c ∈ bs, isBreak c = true)
    (hfeed : '\n' ∉ bs) (n : ℕ) : fold (bs ++ spaces n) = bs := by
  have hfilter : (bs ++ spaces n).filter isBreak = bs := by
    rw [List.filter_append, List.filter_eq_self.mpr hbreak,
      List.filter_eq_nil_iff.mpr (by simpa [OneLine] using oneLine_spaces n), List.append_nil]
  obtain ⟨b, bs, rfl⟩ := List.exists_cons_of_ne_nil hne
  have hb : b ≠ '\n' := fun h => hfeed (h ▸ List.mem_cons_self)
  rw [fold, hfilter]
  split
  · next h => cases h
  · next h => cases h; exact absurd rfl hb
  · next h => cases h; exact absurd rfl hb
  · rfl

/-! ## Plain scalars -/

namespace Plain

/-- A colon that is not before a gap within the text is before none in what is read. -/
theorem colon_append {c : Char} {cs : List Char} (h : (c == ':' && Written.isGap cs) = false)
    (m : Mark) (t : List Char) : (c == ':' && isGap (place m (cs ++ t))) = false := by
  cases cs with
  | nil =>
      have hne : c ≠ ':' := by simpa [Written.isGap] using h
      simp [hne]
  | cons d cs => simpa [isGap_place, Written.isGap] using h

theorem isEnd_eq_false {i : ℤ} {gap : List Char} {m : Mark} {c : Char} {cs : List Char}
    (t : List Char) (hm : gap ≠ [] → 0 < m.column ∧ i ≤ m.column ∧ c ≠ '#')
    (hcolon : (c == ':' && Written.isGap cs) = false) :
    isEnd false i gap ⟨m, c⟩ (place (m.next c) (cs ++ t)) = false := by
  rw [isEnd, colon_append hcolon]
  cases gap with
  | nil => rfl
  | cons g gap =>
      obtain ⟨hcolumn, hi, hhash⟩ := hm (List.cons_ne_nil g gap)
      have hboundary : isBoundary (⟨m, c⟩ :: place (m.next c) (cs ++ t)) = false :=
        isBoundary_of_column (Nat.ne_of_gt hcolumn) (c :: (cs ++ t))
      have hdeep : decide ((m.column : ℤ) < i) = false := by simpa using hi
      rw [hboundary, hdeep]
      simp [hhash]

/-- The rest of a plain scalar is read with the spaces before it. -/
theorem read?_append {i : ℤ} {cs : List Char} (t : List Char) (before : Char) (m : Mark)
    {gap : List Char} (htaken : Written.hasTaken before cs = false)
    (hplainly : ∀ c ∈ cs, isPlainly c = true) (hline : OneLine cs)
    (hlast : ∀ c ∈ cs.getLast?, c ≠ ' ') (hgap : gap ≠ [] → cs ≠ [] ∧ before = ' ')
    (hspaces : ∀ c ∈ gap, c = ' ') (hm : 0 < m.column) (hi : i ≤ m.column) :
    read? false i gap (place m (cs ++ t)) =
      (read? false i [] (place (finish m cs) t)).map fun r => (gap.reverse ++ cs ++ r.1, r.2) := by
  induction cs generalizing gap before m with
  | nil =>
      have hnil : gap = [] := by
        by_contra h
        exact (hgap h).1 rfl
      subst hnil
      show _ = (read? false i [] (place m t)).map id
      rw [Option.map_id]
      rfl
  | cons c cs ih =>
      obtain ⟨hc, hcs⟩ := List.forall_mem_cons.mp hplainly
      obtain ⟨hbreak, hrest⟩ := List.forall_mem_cons.mp hline
      simp only [Written.hasTaken, Bool.or_eq_false_iff] at htaken
      obtain ⟨⟨hcolon, hhash⟩, htaken⟩ := htaken
      have hnext := next_of_not_break hbreak m
      have hlast' := forall_getLast?_of_cons hlast
      have hcolumn : i ≤ ((m.next c).column : ℤ) := by
        rw [hnext]
        simp only
        omega
      have hm' : 0 < (m.next c).column := by
        rw [hnext]
        exact Nat.succ_pos _
      rw [List.cons_append, place, read?]
      -- A space only makes the gap longer. The character that ends the gap is no hash, since a
      -- hash behind a space is a taken text.
      by_cases hblank : isBlank c = true
      · obtain rfl := eq_space_of_isBlank hc hblank
        have hcons : cs ≠ [] := by
          rintro rfl
          exact hlast ' ' rfl rfl
        simp only [hblank, Bool.true_or, if_true]
        rw [if_neg (by simp), ih ' ' (m.next ' ') htaken hcs hrest hlast'
          (fun _ => ⟨hcons, rfl⟩) (by simpa using hspaces) hm' hcolumn]
        simp only [List.reverse_cons, List.append_assoc, List.singleton_append, finish_cons]
      · rw [Bool.not_eq_true] at hblank
        have hend : isEnd false i gap ⟨m, c⟩ (place (m.next c) (cs ++ t)) = false :=
          isEnd_eq_false t (fun hne => by
            rw [(hgap hne).2] at hhash
            exact ⟨hm, hi, by simpa [isBlank] using hhash⟩) hcolon
        have hlost : isLostColon false ⟨m, c⟩ (place (m.next c) (cs ++ t)) = false := rfl
        simp only [hblank, hbreak, Bool.or_self, Bool.false_eq_true, if_false, hlost, hend]
        rw [ih c (m.next c) htaken hcs hrest hlast' (by simp) (by simp) hm' hcolumn, Option.map_map,
          fold_spaces hspaces]
        congr 1
        funext r
        simp

theorem head_of_fitsPlain {c : Char} {cs : List Char} (h : Written.fitsPlain (c :: cs) = true) :
    isPlainly c = true ∧ isBlank c = false ∧ OneLine (c :: cs) ∧
      Written.isTakenFirst c cs = false := by
  simp only [Written.fitsPlain, Written.needsEscapes, Bool.not_eq_true', Bool.or_eq_false_iff,
    Bool.not_eq_false'] at h
  obtain ⟨⟨⟨⟨⟨⟨⟨hfirst, -⟩, -⟩, -⟩, hspace⟩, -⟩, hline⟩, hall, -⟩ := h
  obtain ⟨hc, -⟩ := List.forall_mem_cons.mp (List.all_eq_true.mp hall)
  have hblank : isBlank c = false := by
    rw [← Bool.not_eq_true]
    intro h
    rw [eq_space_of_isBlank hc h] at hspace
    cases hspace
  exact ⟨hc, hblank, by simpa [OneLine] using hline, hfirst⟩

/-- The text of a plain scalar is read from its first character on. -/
theorem read?_of_fitsPlain {i : ℤ} {c : Char} {cs : List Char} {m : Mark} (t : List Char)
    (hfits : Written.fitsPlain (c :: cs) = true) (hi : i ≤ m.column + 1) :
    read? false i [] (place m (c :: cs ++ t)) =
      (read? false i [] (place (finish m (c :: cs)) t)).map fun r => (c :: cs ++ r.1, r.2) := by
  obtain ⟨-, hblank, hline, hfirst⟩ := head_of_fitsPlain hfits
  obtain ⟨hbreak, hrest⟩ := List.forall_mem_cons.mp hline
  simp only [Written.fitsPlain, Written.needsEscapes, Bool.not_eq_true', Bool.or_eq_false_iff,
    Bool.not_eq_false'] at hfits
  obtain ⟨⟨⟨⟨⟨⟨⟨-, htaken⟩, -⟩, -⟩, -⟩, hlast⟩, -⟩, hall, -⟩ := hfits
  obtain ⟨-, hcs⟩ := List.forall_mem_cons.mp (List.all_eq_true.mp hall)
  have hcolon : (c == ':' && Written.isGap cs) = false := by
    rw [Written.isTakenFirst, Bool.or_eq_false_iff] at hfirst
    by_cases h : c = ':'
    · simpa [h] using hfirst.2
    · simp [h]
  have hlast' : ∀ x ∈ cs.getLast?, x ≠ ' ' := by
    refine forall_getLast?_of_cons (c := c) ?_
    rintro x hx rfl
    rw [hx] at hlast
    cases hlast
  have hend : isEnd false i [] ⟨m, c⟩ (place (m.next c) (cs ++ t)) = false :=
    isEnd_eq_false t (fun h => absurd rfl h) hcolon
  have hlost : isLostColon false ⟨m, c⟩ (place (m.next c) (cs ++ t)) = false := rfl
  have hnext := next_of_not_break hbreak m
  rw [List.cons_append, place, read?]
  simp only [hblank, hbreak, Bool.or_self, Bool.false_eq_true, if_false, hlost, hend]
  rw [read?_append t c (m.next c) htaken hcs hrest hlast' (by simp) (by simp)
    (by rw [hnext]; exact Nat.succ_pos _) (by rw [hnext]; simpa using hi), Option.map_map]
  rfl

theorem read?_colon (i : ℤ) (m : Mark) {body : List Char} (hbody : Written.isGap body = true) :
    read? false i [] (place m (':' :: body)) = some ([], false, place m (':' :: body)) := by
  have hgap : isGap (place (m.next ':') body) = true := by rwa [isGap_place]
  simp [place, read?, isBlank, isBreak, isLostColon, isEnd, hgap]

theorem read?_spaces {i : ℤ} (j : ℕ) (gap : List Char) (m : Mark) (cs : List Char) :
    read? false i gap (place m (spaces j ++ cs)) =
      read? false i (spaces j ++ gap) (place (finish m (spaces j)) cs) := by
  induction j generalizing gap m with
  | zero => rfl
  | succ j ih =>
      rw [spaces_succ, List.cons_append, place, read?]
      simp only [isBlank, beq_self_eq_true, Bool.true_or, if_true]
      rw [if_neg (by simp), ih, spaces_append_cons, finish_cons, spaces_succ]

/-- The scalar ends with its line if less indentation follows. -/
theorem read?_lineEnd {i : ℤ} {j : ℕ} (hj : (j : ℤ) < i) {cs : List Char} (hcs : Stops cs)
    (m : Mark) :
    read? false i [] (place m ('\n' :: (spaces j ++ cs))) =
      some ([], true, place (finish (m.next '\n') (spaces j)) cs) := by
  have hbreak : (spaces j ++ ['\n']).any isBreak = true := by simp [isBreak]
  rw [place, read?]
  simp only [isBreak, beq_self_eq_true, Bool.true_or, Bool.or_true, if_true]
  rw [if_neg (by simp), read?_spaces]
  cases cs with
  | nil => rw [place, read?, hbreak]
  | cons c cs =>
      obtain ⟨hblank, hnot, -⟩ := hcs c rfl
      have hcolumn : ((finish (m.next '\n') (spaces j)).column : ℤ) < i := by
        rw [finish_spaces, column_next_of_break rfl]
        simpa using hj
      rw [place, read?]
      simp [hblank, hnot, isLostColon, isEnd, hcolumn, hbreak]

end Plain

/-! ## Single quotes -/

namespace SingleQuoted

open Written (hasPair isSpace singleBody)

theorem read?_place {m : Mark} {c : Char} {t : List Char} (h : isBoundary (place m (c :: t)) = false)
    (gap : List Char) : read? gap (place m (c :: t)) =
      if isBlank c || isBreak c then read? (c :: gap) (place (m.next c) t)
      else if c == '\'' then
        match place (m.next c) t with
        | s :: rest =>
          if s.char == '\'' then
            (read? [] rest).map fun r => (fold gap.reverse ++ '\'' :: r.1, r.2)
          else some (fold gap.reverse, s :: rest)
        | [] => some (fold gap.reverse, [])
      else (read? [] (place (m.next c) t)).map fun r => (fold gap.reverse ++ c :: r.1, r.2) := by
  rw [place] at h ⊢
  rw [read?.eq_def]
  simp only [h, Bool.false_eq_true, if_false]
  rfl

theorem read?_gap {c : Char} (hc : isBlank c = true ∨ isBreak c = true) (gap : List Char) (m : Mark)
    (t : List Char) : read? gap (place m (c :: t)) = read? (c :: gap) (place (m.next c) t) := by
  have hhead : c ≠ '-' ∧ c ≠ '.' := by
    constructor
    all_goals
      rintro rfl
      revert hc
      decide
  rw [read?_place (isBoundary_of_head hhead m t), if_pos (by simpa using hc)]

theorem read?_spaces (n : ℕ) (gap : List Char) (m : Mark) (t : List Char) :
    read? gap (place m (spaces n ++ t)) =
      read? (spaces n ++ gap) (place (finish m (spaces n)) t) := by
  induction n generalizing gap m with
  | zero => rfl
  | succ n ih =>
      have hcons : spaces (n + 1) ++ t = ' ' :: (spaces n ++ t) := rfl
      rw [hcons, read?_gap (.inl rfl), ih, spaces_append_cons, spaces_succ, finish_cons]

/-- What stands before a part of the text: line ends of the text if one comes just before, and
else spaces of a line that has begun. -/
def Before (broken : Bool) (gap : List Char) (m : Mark) : Prop :=
  if broken then gap ≠ [] ∧ (∀ c ∈ gap, isBreak c = true) ∧ '\n' ∉ gap
  else (∀ c ∈ gap, c = ' ') ∧ 0 < m.column

/-- The indentation after line ends is read, and the gap stands for itself. -/
theorem read?_indentation {indent : ℕ} (hindent : 0 < indent) {broken : Bool} {gap : List Char}
    {m : Mark} (h : Before broken gap m) (t : List Char) :
    ∃ gap', read? gap (place m ((if broken then spaces indent else []) ++ t)) =
        read? gap' (place (finish m (if broken then spaces indent else [])) t) ∧
      fold gap'.reverse = gap.reverse ∧
      0 < (finish m (if broken then spaces indent else [])).column := by
  cases broken with
  | false =>
      obtain ⟨hspaces, hm⟩ := h
      exact ⟨gap, rfl, fold_spaces hspaces, hm⟩
  | true =>
      obtain ⟨hne, hbreak, hfeed⟩ := h
      refine ⟨spaces indent ++ gap, read?_spaces indent gap m t, ?_, ?_⟩
      · rw [List.reverse_append, spaces, List.reverse_replicate]
        exact fold_breaks (by simpa using hne) (by simpa using hbreak) (by simpa using hfeed) indent
      · simp only [if_true, finish_spaces]
        omega

theorem read?_quote {m : Mark} (hm : 0 < m.column) (gap : List Char) {rest : List Char}
    (hrest : ∀ c ∈ rest.head?, c ≠ '\'') :
    read? gap (place m ('\'' :: rest)) =
      some (fold gap.reverse, place (finish m ['\'']) rest) := by
  rw [read?_place (isBoundary_of_column (Nat.ne_of_gt hm) _)]
  cases rest with
  | nil => rfl
  | cons c rest =>
      have hc : c ≠ '\'' := hrest c rfl
      simp [place, isBlank, isBreak, hc, finish]

/-- How a character stands between single quotes. -/
def written (c : Char) : List Char := if c == '\'' then ['\'', '\''] else [c]

theorem read?_char {m : Mark} (hm : 0 < m.column) (gap : List Char) {c : Char}
    (hblank : isBlank c = false) (hbreak : isBreak c = false) (t : List Char) :
    read? gap (place m (written c ++ t)) =
      (read? [] (place (finish m (written c)) t)).map fun r => (fold gap.reverse ++ c :: r.1, r.2) := by
  unfold written
  by_cases hquote : c = '\''
  · subst hquote
    simp only [beq_self_eq_true, if_true, List.cons_append, List.nil_append]
    rw [read?_place (isBoundary_of_column (Nat.ne_of_gt hm) _)]
    rfl
  · simp only [beq_iff_eq, hquote, if_false, List.cons_append, List.nil_append]
    rw [read?_place (isBoundary_of_column (Nat.ne_of_gt hm) _)]
    simp only [hblank, hbreak, Bool.or_self, Bool.false_eq_true, if_false, beq_iff_eq, hquote]
    rfl

theorem read?_indented {indent : ℕ} (hindent : 0 < indent) {broken : Bool} {gap : List Char}
    {m : Mark} (h : Before broken gap m) {c : Char} (hblank : isBlank c = false)
    (hbreak : isBreak c = false) (t : List Char) :
    read? gap (place m ((if broken then spaces indent else []) ++ written c ++ t)) =
        (read? [] (place (finish m ((if broken then spaces indent else []) ++ written c)) t)).map
          (fun r => (gap.reverse ++ c :: r.1, r.2)) ∧
      0 < (finish m ((if broken then spaces indent else []) ++ written c)).column := by
  have hline : OneLine (written c) := by
    unfold written
    split
    · simp [OneLine, isBreak]
    · simpa [OneLine] using hbreak
  obtain ⟨gap', hread, hfold, hcolumn⟩ := read?_indentation hindent h (written c ++ t)
  generalize (if broken then spaces indent else []) = indentation at *
  constructor
  · rw [List.append_assoc, hread, read?_char hcolumn gap' hblank hbreak, hfold, finish_append]
  · rw [finish_append, finish_of_oneLine hline]
    simp only
    omega

/-- A space before the line end would have ruled out single quotes. -/
theorem Before.lineEnd {broken : Bool} {gap : List Char} {m : Mark} (h : Before broken gap m)
    {c : Char} (hbreak : isBreak c = true) (hfeed : c ≠ '\n') {cs : List Char}
    (htrailing : hasPair isSpace isBreak (gap.head?.toList ++ c :: cs) = false) :
    Before true (c :: gap) (m.next c) := by
  cases broken with
  | true =>
      obtain ⟨-, hall, hno⟩ := h
      exact ⟨by simp, by simpa using ⟨hbreak, hall⟩, by simpa using ⟨hfeed.symm, hno⟩⟩
  | false =>
      have hnil : gap = [] := by
        cases gap with
        | nil => rfl
        | cons g gap =>
            have hg : g = ' ' := h.1 g List.mem_cons_self
            simp [hasPair, isSpace, hg, hbreak] at htrailing
      rw [hnil]
      exact ⟨by simp, by simpa using hbreak, by simpa using hfeed.symm⟩

/-- A space after a line end would have ruled out single quotes. -/
theorem Before.space {broken : Bool} {gap : List Char} {m : Mark} (h : Before broken gap m)
    {cs : List Char} (hindented : hasPair isBreak isSpace (gap.head?.toList ++ ' ' :: cs) = false) :
    broken = false ∧ Before false (' ' :: gap) (m.next ' ') := by
  cases broken with
  | true =>
      obtain ⟨hne, hall, -⟩ := h
      obtain ⟨g, gap, rfl⟩ := List.exists_cons_of_ne_nil hne
      exact absurd (not_pair hindented (hall g List.mem_cons_self)) (by decide)
  | false => exact ⟨rfl, by simpa using h.1, Nat.succ_pos _⟩

theorem read?_singleBody {indent : ℕ} (hindent : 0 < indent) {cs : List Char} (broken : Bool)
    (gap : List Char) (m : Mark) {rest : List Char} (hplainly : ∀ c ∈ cs, isPlainly c = true)
    (hfeed : '\n' ∉ cs) (hindented : hasPair isBreak isSpace (gap.head?.toList ++ cs) = false)
    (htrailing : hasPair isSpace isBreak (gap.head?.toList ++ cs) = false)
    (hgap : Before broken gap m) (hrest : ∀ c ∈ rest.head?, c ≠ '\'') :
    read? gap (place m (singleBody indent broken cs ++ '\'' :: rest)) =
      some (gap.reverse ++ cs,
        place (finish m (singleBody indent broken cs ++ ['\''])) rest) := by
  induction cs generalizing broken gap m with
  | nil =>
      obtain ⟨gap', hread, hfold, hcolumn⟩ := read?_indentation hindent hgap ('\'' :: rest)
      rw [singleBody, hread, finish_append, List.append_nil, ← hfold]
      exact read?_quote hcolumn gap' hrest
  | cons c cs ih =>
      obtain ⟨hc, hcs⟩ := List.forall_mem_cons.mp hplainly
      rw [List.mem_cons, not_or] at hfeed
      rw [singleBody]
      -- Line ends and spaces are kept in the gap until another character brings them in.
      by_cases hbreak : isBreak c = true
      · have hgap' := hgap.lineEnd hbreak (Ne.symm hfeed.1) htrailing
        rw [if_pos hbreak, List.cons_append, read?_gap (.inr hbreak),
          ih true (c :: gap) (m.next c) hcs hfeed.2 (hasPair_append_right hindented)
            (hasPair_append_right htrailing) hgap', List.reverse_cons, List.append_assoc]
        rfl
      · rw [Bool.not_eq_true] at hbreak
        rw [if_neg (by simp [hbreak])]
        by_cases hblank : isBlank c = true
        · obtain rfl := eq_space_of_isBlank hc hblank
          obtain ⟨rfl, hgap'⟩ := hgap.space hindented
          have hcons : (if false = true then spaces indent else []) ++
              (if ' ' == '\'' then ['\'', '\''] else [' ']) ++ singleBody indent false cs =
              ' ' :: singleBody indent false cs := rfl
          rw [hcons, List.cons_append, read?_gap (.inl hblank),
            ih false (' ' :: gap) (m.next ' ') hcs hfeed.2 (hasPair_append_right hindented)
              (hasPair_append_right htrailing) hgap', List.reverse_cons, List.append_assoc]
          rfl
        · rw [Bool.not_eq_true] at hblank
          obtain ⟨hread, hcolumn⟩ := read?_indented hindent hgap hblank hbreak
            (singleBody indent false cs ++ '\'' :: rest)
          have hpairs : ∀ {p q}, hasPair p q (gap.head?.toList ++ c :: cs) = false →
              hasPair p q ([].head?.toList ++ cs) = false := by
            intro p q h
            have h' : hasPair p q ((gap.head?.toList ++ [c]) ++ cs) = false := by simpa using h
            exact hasPair_append_right h'
          have hbody := ih false [] _ hcs hfeed.2 (hpairs hindented) (hpairs htrailing)
            ⟨by simp, hcolumn⟩
          rw [← written, List.append_assoc, hread, hbody, Option.map_some]
          simp only [finish_append]
          rfl

end SingleQuoted

/-! ## Double quotes -/

namespace DoubleQuoted

open Written (escape)

/-- The number that hexadecimal digits add to one before them. -/
def number? (ds : List Char) (value : ℕ) : Option ℕ :=
  ds.foldlM (fun n c => (digit? c).map (16 * n + ·)) value

/-- The escape stands for the character, by a letter or by the digits of its code. -/
def spells (c : Char) : List Char → Bool
  | '\\' :: x :: ds =>
    !isBreak x && ds.all (fun d => !isBreak d) && if ds.isEmpty then letter? x = some c && width? x = none
      else width? x = some ds.length && (number? ds 0).bind charOf? = some c
  | _ => false

/-- The characters that do not stand for themselves between double quotes. -/
def IsEscaped (c : Char) : Prop :=
  (isPlainly c && !isBreak c && c != '"' && c != '\\') = false

instance (c : Char) : Decidable (IsEscaped c) := inferInstanceAs (Decidable (_ = _))

/-- The controls and the few others, among which all escaped characters are. -/
def escapable : List Char :=
  (List.range 0xa0).map Char.ofNat ++ ['\u2028', '\u2029', '\ufeff', '\ufffe', '\uffff']

theorem IsEscaped.mem_escapable {c : Char} (h : IsEscaped c) : c ∈ escapable := by
  have hcases : c.toNat < 0xa0 ∨ c ∈ ['\u2028', '\u2029', '\ufeff', '\ufffe', '\uffff'] := by
    rw [IsEscaped, Bool.and_eq_false_iff, Bool.and_eq_false_iff, Bool.and_eq_false_iff] at h
    rcases h with ((hplainly | hbreak) | hquote) | hslash
    · have hcode : c.toNat < 0xa0 ∨ c.toNat = 0xfeff ∨ c.toNat = 0xfffe ∨ c.toNat = 0xffff := by
        have hvalid : c.toNat < 0xd800 ∨ 0xdfff < c.toNat ∧ c.toNat < 0x110000 := c.valid
        simp only [isPlainly, Bool.or_eq_false_iff, Bool.and_eq_false_iff, beq_eq_false_iff_ne,
          bne_eq_false_iff_eq, decide_eq_false_iff_not] at hplainly
        omega
      simp only [List.mem_cons, ← Char.toNat_inj]
      rcases hcode with h | h | h | h
      · exact .inl h
      · exact .inr (.inr (.inr (.inl h)))
      · exact .inr (.inr (.inr (.inr (.inl h))))
      · exact .inr (.inr (.inr (.inr (.inr (.inl h)))))
    · simp only [isBreak, Bool.not_eq_false', Bool.or_eq_true, beq_iff_eq] at hbreak
      rcases hbreak with (((rfl | rfl) | rfl) | rfl) | rfl
      all_goals decide
    · obtain rfl : c = '"' := by simpa using hquote
      decide
    · obtain rfl : c = '\\' := by simpa using hslash
      decide
  rw [escapable, List.mem_append]
  refine hcases.imp_left fun hn => ?_
  exact List.mem_map.mpr ⟨c.toNat, List.mem_range.mpr hn, Char.ofNat_toNat c⟩

theorem spells_escape {c : Char} (hc : IsEscaped c) : spells c (escape c) = true := by
  have hall : escapable.all (fun c => !decide (IsEscaped c) || spells c (escape c)) = true := by
    decide +kernel
  have hspells := List.all_eq_true.mp hall c hc.mem_escapable
  simpa [hc] using hspells

theorem escape_of_not_isEscaped {c : Char} (h : ¬ IsEscaped c) : escape c = [c] ∧
    isPlainly c = true ∧ isBreak c = false ∧ c ≠ '"' ∧ c ≠ '\\' := by
  simp only [IsEscaped, Bool.not_eq_false, Bool.and_eq_true, Bool.not_eq_true', bne_iff_ne] at h
  obtain ⟨⟨⟨hplainly, hbreak⟩, hquote⟩, hslash⟩ := h
  have hwritten : escape c = [c] := by simp [escape, hplainly, hbreak, hquote, hslash]
  exact ⟨hwritten, hplainly, hbreak, hquote, hslash⟩

theorem read?_place {m : Mark} {c : Char} {t : List Char} (h : isBoundary (place m (c :: t)) = false)
    (gap : List Char) : read? (.gap gap) (place m (c :: t)) =
      if isBlank c || isBreak c then read? (.gap (c :: gap)) (place (m.next c) t)
      else if c == '"' then some (fold gap.reverse, place (m.next c) t)
      else if c == '\\' then
        match place (m.next c) t with
        | [] => none
        | s :: rest =>
          if isBreak s.char then
            (read? (.joined []) rest).map fun r => (fold gap.reverse ++ r.1, r.2)
          else match width? s.char with
            | some n => (read? (.code n 0) rest).map fun r => (fold gap.reverse ++ r.1, r.2)
            | none => (letter? s.char).bind fun d =>
              (read? (.gap []) rest).map fun r => (fold gap.reverse ++ d :: r.1, r.2)
      else (read? (.gap []) (place (m.next c) t)).map fun r => (fold gap.reverse ++ c :: r.1, r.2) := by
  rw [place] at h ⊢
  rw [read?.eq_def]
  simp only [h, Bool.false_eq_true, if_false]
  rfl

theorem read?_digits {ds : List Char} (hne : ds ≠ []) {value : ℕ} {c : Char}
    (hcode : (number? ds value).bind charOf? = some c) (m : Mark) (t : List Char) :
    read? (.code ds.length value) (place m (ds ++ t)) =
      (read? (.gap []) (place (finish m ds) t)).map fun r => (c :: r.1, r.2) := by
  induction ds generalizing value m with
  | nil => exact absurd rfl hne
  | cons d ds ih =>
      cases hdigit : digit? d with
      | none => simp [number?, hdigit] at hcode
      | some n =>
          have hrest : (number? ds (16 * value + n)).bind charOf? = some c := by
            simpa [number?, hdigit] using hcode
          rw [List.cons_append, place, List.length_cons, read?.eq_def]
          simp only [hdigit, Option.bind_eq_bind, Option.bind_some]
          cases ds with
          | nil =>
              have hchar : charOf? (16 * value + n) = some c := by simpa [number?] using hrest
              simp [hchar, finish]
          | cons e ds =>
              rw [if_neg (by simp), finish_cons]
              exact ih (List.cons_ne_nil e ds) hrest (m.next d)

theorem read?_spelled {c : Char} {cs : List Char} (h : spells c cs = true) {m : Mark}
    (hm : 0 < m.column) (gap t : List Char) :
    read? (.gap gap) (place m (cs ++ t)) =
      (read? (.gap []) (place (finish m cs) t)).map fun r => (fold gap.reverse ++ c :: r.1, r.2) := by
  unfold spells at h
  split at h
  case h_2 => cases h
  case h_1 x ds =>
    simp only [Bool.and_eq_true, Bool.not_eq_true'] at h
    obtain ⟨⟨hx, -⟩, hspelled⟩ := h
    rw [List.cons_append, List.cons_append, read?_place (isBoundary_of_column (Nat.ne_of_gt hm) _),
      if_neg (by simp [isBlank, isBreak]), if_neg (by simp), if_pos (by simp), place]
    cases ds with
    | nil =>
        simp only [List.isEmpty_nil, if_true, Bool.and_eq_true, decide_eq_true_eq] at hspelled
        simp only [hx, Bool.false_eq_true, if_false, hspelled.1, hspelled.2, Option.bind_some]
        rfl
    | cons d ds =>
        simp only [List.isEmpty_cons, Bool.false_eq_true, if_false, Bool.and_eq_true,
          decide_eq_true_eq] at hspelled
        have hdigits := read?_digits (List.cons_ne_nil d ds) hspelled.2 ((m.next '\\').next x) t
        rw [List.cons_append, place] at hdigits
        simp only [hx, Bool.false_eq_true, if_false, hspelled.1, List.cons_append, place, hdigits,
          Option.map_map]
        rfl

theorem oneLine_of_spells {c : Char} {cs : List Char} (h : spells c cs = true) : OneLine cs := by
  unfold spells at h
  split at h
  case h_2 => cases h
  case h_1 x ds =>
    simp only [Bool.and_eq_true, Bool.not_eq_true', List.all_eq_true] at h
    obtain ⟨⟨hx, hds⟩, -⟩ := h
    intro d hd
    rcases List.mem_cons.mp hd with rfl | hd
    · rfl
    · rcases List.mem_cons.mp hd with rfl | hd
      · exact hx
      · exact hds d hd

/-- A character between double quotes is read where it stands as itself and where it does not. -/
theorem read?_flatMap_escape {cs gap : List Char} {m : Mark} (rest : List Char)
    (hspaces : ∀ g ∈ gap, g = ' ') (hm : 0 < m.column) :
    read? (.gap gap) (place m (cs.flatMap escape ++ '"' :: rest)) =
      some (gap.reverse ++ cs, place (finish m (cs.flatMap escape ++ ['"'])) rest) := by
  induction cs generalizing gap m with
  | nil =>
      rw [List.flatMap_nil, List.nil_append, read?_place (isBoundary_of_column (Nat.ne_of_gt hm) _),
        if_neg (by simp [isBlank, isBreak]), if_pos (by simp), fold_spaces hspaces, List.append_nil]
      rfl
  | cons c cs ih =>
      rw [List.flatMap_cons, List.append_assoc]
      by_cases hescaped : IsEscaped c
      · have hspelled := spells_escape hescaped
        have hcolumn : 0 < (finish m (escape c)).column := by
          rw [finish_of_oneLine (oneLine_of_spells hspelled)]
          simp only
          omega
        rw [read?_spelled hspelled hm, ih (by simp) hcolumn, fold_spaces hspaces, Option.map_some]
        simp only [finish_append]
        rfl
      · obtain ⟨hwritten, hplainly, hbreak, hquote, hslash⟩ := escape_of_not_isEscaped hescaped
        have hcolumn : 0 < (m.next c).column := by
          rw [next_of_not_break hbreak]
          exact Nat.succ_pos _
        rw [hwritten, List.singleton_append, read?_place (isBoundary_of_column (Nat.ne_of_gt hm) _)]
        by_cases hblank : isBlank c = true
        · obtain rfl := eq_space_of_isBlank hplainly hblank
          rw [if_pos (by simp [isBlank]), ih (by simpa using hspaces) hcolumn, List.reverse_cons,
            List.append_assoc]
          rfl
        · rw [Bool.not_eq_true] at hblank
          rw [if_neg (by simp [hblank, hbreak]), if_neg (by simpa using hquote),
            if_neg (by simpa using hslash), ih (by simp) hcolumn, fold_spaces hspaces]
          rfl

end DoubleQuoted

end RequestAudit.Yaml
