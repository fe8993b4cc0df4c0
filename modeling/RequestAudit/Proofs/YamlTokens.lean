import RequestAudit.Proofs.YamlBlocks
import RequestAudit.Yaml.Token

/-!
# The tokens of written YAML

How the reader comes through a written text, token by token. Between tokens it is at a place of
the text within the block collections around that place, and what it has given out does not
matter for what follows. So the tokens of a text are found from its end: a part of the text puts
its tokens in front of those of the rest.
-/

namespace RequestAudit.Yaml.Token.State

open Written (spaces)

/-- The reader at a place of the text, outside of flow collections. -/
def here (candidate? : Option Candidate) (indent : ℤ) (outer : List ℤ) (keyAllowed : Bool)
    (m : Mark) (cs : List Char) (given : ℕ) (held : List Token) : State where
  text := place m cs
  stop := finish m cs
  indent
  outer
  candidates := [candidate?]
  keyAllowed
  given
  held

section

variable {candidate? : Option Candidate} {indent : ℤ} {outer : List ℤ} {keyAllowed : Bool}
  {m : Mark} {cs : List Char} {given : ℕ} {held : List Token}

theorem mark_here : (here candidate? indent outer keyAllowed m cs given held).mark = m := by
  cases cs <;> rfl

theorem tokens_congr {s s' : State} (h : s.take? = s'.take?) (fuel : ℕ) :
    s.tokens fuel = s'.tokens fuel := by
  cases fuel with
  | zero => rfl
  | succ fuel => rw [tokens, tokens, h]

theorem take?_congr {s s' : State} (h : s.advance = s'.advance) : s.take? = s'.take? := by
  rw [take?, take?, h]

/-! ## Gaps -/

/-- Only at the very beginning of a text there is something else to pass over than a gap. -/
theorem advance_of_index (hm : 0 < m.index) :
    (here candidate? indent outer keyAllowed m cs given held).advance =
      { here candidate? indent outer keyAllowed m cs given held with
        text := (skipGap false keyAllowed false (place m cs)).2
        keyAllowed := (skipGap false keyAllowed false (place m cs)).1 } := by
  cases cs with
  | nil => rfl
  | cons c cs => simp [here, advance, place, Nat.ne_of_gt hm, inFlow]

theorem index_next_pos (m : Mark) (c : Char) : 0 < (m.next c).index := by
  unfold Mark.next
  split <;> exact Nat.succ_pos _

theorem advance_space : (here candidate? indent outer keyAllowed m (' ' :: cs) given held).advance =
    (here candidate? indent outer keyAllowed (m.next ' ') cs given held).advance := by
  rw [advance_of_index (index_next_pos m ' ')]
  simp [here, advance, place, skipGap, isBreak, inFlow, finish_cons]

theorem advance_break {c : Char} (hc : isBreak c = true) :
    (here candidate? indent outer keyAllowed m (c :: cs) given held).advance =
      (here candidate? indent outer true (m.next c) cs given held).advance := by
  have hmark : c ≠ '\ufeff' := by
    rintro rfl
    cases hc
  rw [advance_of_index (index_next_pos m c)]
  simp [here, advance, place, skipGap, hc, hmark, inFlow, finish_cons]

theorem advance_stops (h : Stops cs) :
    (here candidate? indent outer keyAllowed m cs given held).advance =
      here candidate? indent outer keyAllowed m cs given held := by
  cases cs with
  | nil => rfl
  | cons c cs =>
      obtain ⟨hblank, hbreak, hhash, hmark⟩ := h c rfl
      rw [isBlank, Bool.or_eq_false_iff] at hblank
      simp [here, advance, place, skipGap, hblank.1, hblank.2, hbreak, hhash, hmark]

theorem advance_spaces (n : ℕ) :
    (here candidate? indent outer keyAllowed m (spaces n ++ cs) given held).advance =
      (here candidate? indent outer keyAllowed (finish m (spaces n)) cs given held).advance := by
  induction n generalizing m with
  | zero => rfl
  | succ n ih =>
      have hcons : spaces (n + 1) ++ cs = ' ' :: (spaces n ++ cs) := rfl
      rw [hcons, advance_space, ih, spaces_succ, finish_cons]

/-- The gap at a place, if there is one, ends at another place of a line that has just begun. -/
def LeadsTo (indent : ℤ) (outer : List ℤ) (keyAllowed : Bool) (m : Mark) (cs : List Char) (m' : Mark)
    (cs' : List Char) : Prop :=
  ∀ candidate? given held, (here candidate? indent outer keyAllowed m cs given held).advance =
    here candidate? indent outer true m' cs' given held

theorem leadsTo_self (h : Stops cs) : LeadsTo indent outer true m cs m cs :=
  fun _ _ _ => advance_stops h

theorem leadsTo_lineEnd (h : Stops cs) (j : ℕ) :
    LeadsTo indent outer keyAllowed m ('\n' :: (spaces j ++ cs))
      (finish (m.next '\n') (spaces j)) cs := by
  intro candidate? given held
  rw [advance_break rfl, advance_spaces, advance_stops h]

/-! ## Steps -/

theorem closeTo_of_le {column : ℤ} (h : indent ≤ column) (outer : List ℤ) :
    closeTo column indent outer = (indent, outer, []) := by
  cases outer with
  | nil => rfl
  | cons o outer => rw [closeTo, if_neg (Int.not_lt.mpr h)]

/-- Where no gap is in the way, no collection ends and no candidate expires, the next token
begins. -/
theorem take?_of_expire? {c : Char} (h : Stops (c :: cs))
    (hexpire : (here candidate? indent outer keyAllowed m (c :: cs) given held).expire? =
      some (here candidate? indent outer keyAllowed m (c :: cs) given held)) (hm : indent ≤ m.column) :
    (here candidate? indent outer keyAllowed m (c :: cs) given held).take? =
      takeFrom? c (place (m.next c) cs)
        (here candidate? indent outer keyAllowed m (c :: cs) given held) := by
  rw [take?, advance_stops h, hexpire]
  simp [here, close, inFlow, mark, place, closeTo_of_le hm]

theorem take?_here {c : Char} (h : Stops (c :: cs)) (hm : indent ≤ m.column) :
    (here none indent outer keyAllowed m (c :: cs) given held).take? =
      takeFrom? c (place (m.next c) cs)
        (here none indent outer keyAllowed m (c :: cs) given held) :=
  take?_of_expire? h rfl hm

/-- Where less indentation begins, the innermost collection ends first. -/
theorem take?_leave {o : ℤ} (h : Stops cs) (hm : m.column < indent) :
    (here none indent (o :: outer) keyAllowed m cs given held).take? =
      (here none o outer keyAllowed m cs given (held ++ [.blockEnd])).take? := by
  rw [take?, take?, advance_stops h, advance_stops h]
  have hmark : ∀ {i : ℤ} {os : List ℤ} {ts : List Token},
      (here none i os keyAllowed m cs given ts).mark = m := mark_here
  simp only [expire?, here, hmark] at hmark ⊢
  simp [close, inFlow, hmark, closeTo, hm]

theorem deepen_of_le {column : ℕ} (h : column ≤ indent) (number : ℕ) (t : Token) :
    (here candidate? indent outer keyAllowed m cs given held).deepen column number t =
      here candidate? indent outer keyAllowed m cs given held := by
  have hnot : ¬ indent < column := Int.not_lt.mpr h
  simp [deepen, here, hnot]

theorem deepen_of_lt {column : ℕ} (h : indent < column) (number : ℕ) (t : Token) :
    (here candidate? indent outer keyAllowed m cs given held).deepen column number t =
      here candidate? column (indent :: outer) keyAllowed m cs given
        (held.take (number - given) ++ t :: held.drop (number - given)) := by
  simp [deepen, here, inFlow, insert, h]

theorem takeMark_here {c : Char} (t : Token) :
    (here candidate? indent outer keyAllowed m (c :: cs) given held).takeMark t =
      here candidate? indent outer keyAllowed (m.next c) cs given (held ++ [t]) := rfl

/-- What may become a key here. -/
def candidateHere (indent : ℤ) (keyAllowed : Bool) (m : Mark) (number : ℕ) : Option Candidate :=
  if keyAllowed then some ⟨m, number, indent == m.column⟩ else none

theorem remember?_here : (here none indent outer keyAllowed m cs given held).remember? =
    some (here (candidateHere indent keyAllowed m (given + held.length)) indent outer keyAllowed m cs
      given held) := by
  cases keyAllowed with
  | false => rfl
  | true =>
      rw [remember?, mark_here]
      simp [here, inFlow, forget?, candidateHere]

theorem give?_here : (here none indent outer keyAllowed m cs given held).give? =
    some (held, here none indent outer keyAllowed m cs (given + held.length) []) := by
  simp [give?, expire?, here]

/-- The candidate is on an earlier line, or too far back. -/
def IsPast (c : Candidate) (m : Mark) : Prop :=
  c.mark.line < m.line ∨ c.mark.index + 1024 < m.index

theorem expire?_past {c : Candidate} (h : IsPast c m) (hc : c.required = false) :
    (here (some c) indent outer keyAllowed m cs given held).expire? =
      some (here none indent outer keyAllowed m cs given held) := by
  unfold IsPast at h
  rw [expire?, mark_here]
  simp [here, h, hc]

theorem expire?_pending {c : Candidate} (h : ¬ IsPast c m) :
    (here (some c) indent outer keyAllowed m cs given held).expire? =
      some (here (some c) indent outer keyAllowed m cs given held) := by
  unfold IsPast at h
  rw [expire?, mark_here]
  simp only [here, List.mapM_cons, List.mapM_nil, Bool.or_eq_true, decide_eq_true_eq, h, if_false]
  rfl

theorem expire?_none : (here none indent outer keyAllowed m cs given held).expire? =
    some (here none indent outer keyAllowed m cs given held) := rfl

/-- A candidate from before is no key, and nothing changes by it. -/
theorem take?_past {c : Candidate} (h : Stops cs) (hline : c.mark.line < m.line)
    (hc : c.required = false) : (here (some c) indent outer keyAllowed m cs given held).take? =
      (here none indent outer keyAllowed m cs given held).take? := by
  rw [take?, take?, advance_stops h, advance_stops h, expire?_past (.inl hline) hc, expire?_none]

theorem give?_past {c : Candidate} (h : IsPast c m) (hc : c.required = false) :
    (here (some c) indent outer keyAllowed m cs given held).give? =
      some (held, here none indent outer keyAllowed m cs (given + held.length) []) := by
  rw [give?, expire?_past h hc, ← expire?_none, ← give?, give?_here]

/-- A token that may become a key is held back. -/
theorem give?_pending {c : Candidate} (h : ¬ IsPast c m) (hnumber : c.number = given + held.length)
    (t : Token) : (here (some c) indent outer keyAllowed m cs given (held ++ [t])).give? =
      some (held, here (some c) indent outer keyAllowed m cs (given + held.length) [t]) := by
  rw [give?, expire?_pending h]
  simp [here, hnumber]

end

/-! ## The tokens of the rest -/

/-- In a column of its line, the rest of a text has these tokens. -/
def Scans (indent : ℤ) (outer : List ℤ) (keyAllowed : Bool) (column : ℕ) (cs : List Char)
    (ts : List Token) : Prop :=
  ∀ m : Mark, m.column = column → ∀ given held fuel, cs.length < fuel →
    tokens fuel (here none indent outer keyAllowed m cs given held) = held ++ ts

namespace Scans

variable {indent : ℤ} {outer : List ℤ} {keyAllowed : Bool} {column : ℕ} {cs : List Char}
  {ts : List Token}

theorem blank (h : Scans indent outer keyAllowed (column + 1) cs ts) :
    Scans indent outer keyAllowed column (' ' :: cs) ts := by
  rintro m rfl given held fuel hfuel
  rw [tokens_congr (take?_congr advance_space)]
  exact h _ rfl given held fuel (Nat.lt_of_succ_lt hfuel)

theorem indentation {n : ℕ} (h : Scans indent outer keyAllowed (column + n) cs ts) :
    Scans indent outer keyAllowed column (spaces n ++ cs) ts := by
  induction n generalizing column with
  | zero => exact h
  | succ n ih =>
      refine Scans.blank (ih ?_)
      rwa [Nat.add_assoc, Nat.add_comm 1 n]

theorem lineEnd (h : Scans indent outer true 0 cs ts) :
    Scans indent outer keyAllowed column ('\n' :: cs) ts := by
  rintro m rfl given held fuel hfuel
  rw [tokens_congr (take?_congr (advance_break rfl))]
  exact h _ rfl given held fuel (Nat.lt_of_succ_lt hfuel)

/-- A token that is no candidate is given out at once. -/
theorem step {indent' : ℤ} {outer' : List ℤ} {keyAllowed' : Bool} {column' : ℕ}
    {cs' : List Char} (ts' : List Token)
    (htake : ∀ m : Mark, m.column = column → ∀ given held, ∃ m' : Mark, m'.column = column' ∧
      (here none indent outer keyAllowed m cs given held).take? =
        some (here none indent' outer' keyAllowed' m' cs' given (held ++ ts')))
    (hless : cs'.length < cs.length) (h : Scans indent' outer' keyAllowed' column' cs' ts) :
    Scans indent outer keyAllowed column cs (ts' ++ ts) := by
  intro m hm given held fuel hfuel
  obtain ⟨m', hm', htake⟩ := htake m hm given held
  cases fuel with
  | zero => exact absurd hfuel (Nat.not_lt_zero _)
  | succ fuel =>
      have hnotDone : (here none indent' outer' keyAllowed' m' cs'
        (given + (held ++ ts').length) []).isDone = false := rfl
      have hrest := h m' hm' (given + (held ++ ts').length) [] fuel (by omega)
      rw [tokens, htake]
      simp only [give?_here, hnotDone, Bool.false_eq_true, if_false, hrest, List.nil_append,
        List.append_assoc]

/-- The innermost collection ends where less indentation begins. -/
theorem leave {o : ℤ} (hcs : Stops cs) (hcolumn : column < indent)
    (h : Scans o outer keyAllowed column cs ts) :
    Scans indent (o :: outer) keyAllowed column cs (.blockEnd :: ts) := by
  rintro m rfl given held fuel hfuel
  rw [tokens_congr (take?_leave hcs hcolumn), h m rfl given _ fuel hfuel, List.append_assoc]
  rfl

/-- Where the text ends, so do the collections. -/
theorem atEnd : Scans 0 [-1] true 0 [] [.blockEnd, .textEnd] := by
  rintro m hm given held fuel hfuel
  cases fuel with
  | zero => exact absurd hfuel (Nat.not_lt_zero _)
  | succ fuel =>
      simp [tokens, take?, advance, skipGap, expire?, here, place, finish, close, inFlow, mark, hm,
        closeTo, takeEnd?, forget?, push, give?, List.take_of_length_le]

/-- What is held back for a key is given out behind the end of the line. -/
theorem tokens_pending {m m' : Mark} {cs' : List Char} {candidate? : Option Candidate}
    (hcs : Stops cs) (hlead : LeadsTo indent outer keyAllowed m' cs' m cs)
    (hcandidate : ∀ c ∈ candidate?, c.required = false ∧ c.mark.line < m.line)
    (h : Scans indent outer true m.column cs ts) (given : ℕ) (held : List Token) {fuel : ℕ}
    (hfuel : cs.length < fuel) :
    tokens fuel (here candidate? indent outer keyAllowed m' cs' given held) = held ++ ts := by
  have hgap := (hlead candidate? given held).trans (advance_stops hcs).symm
  rw [tokens_congr (take?_congr hgap)]
  cases candidate? with
  | none => exact h m rfl given held fuel hfuel
  | some c =>
      obtain ⟨hc, hline⟩ := hcandidate c rfl
      rw [tokens_congr (take?_past hcs hline hc)]
      exact h m rfl given held fuel hfuel

/-- A scalar that ends its line is no key. -/
theorem scalar {t : Token} {j : ℕ} {ds : List Char} (hds : Stops ds) (hcolumn : indent < column)
    (htake : ∀ m : Mark, m.column = column → ∀ given held, ∃ keyAllowed' m' cs' m'',
      (here none indent outer keyAllowed m cs given held).take? =
        some (here (candidateHere indent keyAllowed m (given + held.length)) indent outer keyAllowed'
          m' cs' given (held ++ [t])) ∧
      LeadsTo indent outer keyAllowed' m' cs' m'' ds ∧ m''.column = j ∧ m.line < m''.line)
    (hless : ds.length < cs.length) (h : Scans indent outer true j ds ts) :
    Scans indent outer keyAllowed column cs (t :: ts) := by
  intro m hm given held fuel hfuel
  obtain ⟨keyAllowed', m', cs', m'', htake, hlead, rfl, hline⟩ := htake m hm given held
  have hcandidate : ∀ c ∈ candidateHere indent keyAllowed m (given + held.length),
      c.number = given + held.length ∧ c.required = false ∧ c.mark.line < m''.line := by
    intro c hc
    have hrequired : (indent == (m.column : ℤ)) = false := by
      rw [hm]
      exact beq_eq_false_iff_ne.mpr (Int.ne_of_lt hcolumn)
    unfold candidateHere at hc
    split at hc
    · cases hc
      exact ⟨rfl, hrequired, hline⟩
    · cases hc
  generalize candidateHere indent keyAllowed m (given + held.length) = candidate? at *
  -- The scalar is given out at once or held back as a key, and in the next line it is none.
  cases fuel with
  | zero => exact absurd hfuel (Nat.not_lt_zero _)
  | succ fuel =>
      have hfuel' : ds.length < fuel := by omega
      have hnone : ∀ given held, tokens fuel (here none indent outer keyAllowed' m' cs' given held) =
          held ++ ts :=
        fun given held => tokens_pending hds hlead (by simp) h given held hfuel'
      have hheld : ∀ given held, tokens fuel (here candidate? indent outer keyAllowed' m' cs' given held) =
          held ++ ts :=
        fun given held => tokens_pending hds hlead (fun c hc => (hcandidate c hc).2) h given held hfuel'
      have hnotDone : ∀ candidate? given held,
          (here candidate? indent outer keyAllowed' m' cs' given held).isDone = false :=
        fun _ _ _ => rfl
      rw [tokens, htake]
      cases candidate? with
      | none =>
          simp only [give?_here, hnotDone, Bool.false_eq_true, if_false, hnone,
            List.append_assoc, List.singleton_append, List.nil_append]
      | some c =>
          obtain ⟨hnumber, hc, -⟩ := hcandidate c rfl
          by_cases hpast : IsPast c m'
          · simp only [give?_past hpast hc, hnotDone, Bool.false_eq_true, if_false,
              hnone, List.append_assoc, List.singleton_append, List.nil_append]
          · simp only [give?_pending hpast hnumber, hnotDone, Bool.false_eq_true, if_false, hheld,
              List.singleton_append]

/-! ## Elements of sequences -/

theorem takeFrom?_item (m : Mark) {s : State} (hs : s.text = place m ('-' :: ' ' :: cs)) :
    takeFrom? '-' (place (m.next '-') (' ' :: cs)) s = s.takeItem? := by
  have hyphens : isDivider '-' (place m ('-' :: ' ' :: cs)) = false := by
    cases cs with
    | nil => rfl
    | cons c cs => simp [place, isDivider]
  have hdots : isDivider '.' (place m ('-' :: ' ' :: cs)) = false := isDivider_of_head (by decide) m _
  have hgap : isGap (place (m.next '-') (' ' :: cs)) = true := rfl
  simp [takeFrom?, hs, hyphens, hdots, hgap]

theorem item {n : ℕ} (h : Scans n outer true (n + 2) cs ts) :
    Scans n outer true n ('-' :: ' ' :: cs) (.item :: ts) := by
  refine Scans.step [.item] ?_ (by simp) (Scans.blank h)
  rintro m hm given held
  refine ⟨m.next '-', by rw [next_of_not_break rfl, hm], ?_⟩
  rw [take?_here (stops_cons (by decide)) (by omega), takeFrom?_item m rfl]
  rw [takeItem?, mark_here, hm, deepen_of_le (Int.le_refl _)]
  rfl

/-- The first element begins its sequence where it is indented more than what is around it. -/
theorem firstItem {n : ℕ} (hn : indent < n) (h : Scans n (indent :: outer) true (n + 2) cs ts) :
    Scans indent outer true n ('-' :: ' ' :: cs) (.sequenceStart :: .item :: ts) := by
  refine Scans.step [.sequenceStart, .item] ?_ (by simp) (Scans.blank h)
  rintro m hm given held
  refine ⟨m.next '-', by rw [next_of_not_break rfl, hm], ?_⟩
  rw [take?_here (stops_cons (by decide)) (by omega), takeFrom?_item m rfl]
  rw [takeItem?, mark_here, hm, deepen_of_lt hn]
  simp [here, inFlow, forget?, takeMark, skip, push, place, finish_cons]

end Scans

end RequestAudit.Yaml.Token.State
