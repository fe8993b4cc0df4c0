import RequestAudit.Proofs.YamlTokens

/-!
# The tokens of written scalars

Every written scalar becomes one token. Before a colon a plain scalar is a key, and anywhere else
a scalar ends its line, so that it is none.
-/

namespace RequestAudit.Yaml

/-- How a text is written, as far as that matters for its meaning. -/
def styleOf (s : String) : Style :=
  if s.toList.contains '\n' then
    if Written.fitsBlock s.toList then .literal else .other
  else if !Written.isAmbiguous s && Written.fitsPlain s.toList then .plain
  else .other

namespace Token.State

open Written (spaces)

variable {candidate? : Option Candidate} {indent : ℤ} {outer : List ℤ} {keyAllowed : Bool}
  {m : Mark} {given : ℕ} {held : List Token}

/-! ## Plain scalars and keys -/

theorem isDivider_text {c d : Char} {cs : List Char} {s : State} (hs : s.text = place m (c :: cs))
    (hd : d ≠ c) : isDivider d s.text = false := by
  rw [hs]
  exact isDivider_of_head hd.symm m cs

theorem takeFrom?_plain {c : Char} {cs : List Char} (hfits : Written.fitsPlain (c :: cs) = true)
    (hc : c ≠ '-' ∧ c ≠ '.') (m : Mark) (t : List Char) {s : State}
    (hs : s.text = place m (c :: cs ++ t)) (hflow : s.inFlow = false) :
    takeFrom? c (place (m.next c) (cs ++ t)) s = s.takePlain? := by
  obtain ⟨-, hblank, hline, hfirst⟩ := Plain.head_of_fitsPlain hfits
  have hbreak : isBreak c = false := hline c List.mem_cons_self
  rw [Written.isTakenFirst, Bool.or_eq_false_iff] at hfirst
  obtain ⟨hlist, hthree⟩ := hfirst
  have hgap : ∀ d, d = '?' ∨ d = ':' → c = d → isGap (place (m.next c) (cs ++ t)) = false := by
    rintro d hd rfl
    cases cs with
    | nil => rcases hd with rfl | rfl <;> cases hthree
    | cons e cs =>
        rw [isGap_place]
        rcases hd with rfl | rfl <;> exact hthree
  have hplain : beginsPlain s.inFlow c (place (m.next c) (cs ++ t)) = true := by
    by_cases h : c = '?' ∨ c = ':'
    · have hnot := hgap c h rfl
      rcases h with rfl | rfl <;> simp [beginsPlain, hflow, hnot]
    · rw [not_or] at h
      simp at hlist
      simp [beginsPlain, hblank, hbreak, indicators, hlist, h, hc]
  have hquestion : ¬ (c = '?' ∧ isGap (place (m.next c) (cs ++ t)) = true) := by
    rintro ⟨h, hnot⟩
    rw [hgap '?' (.inl rfl) h] at hnot
    cases hnot
  have hcolon : ¬ (c = ':' ∧ isGap (place (m.next c) (cs ++ t)) = true) := by
    rintro ⟨h, hnot⟩
    rw [hgap ':' (.inr rfl) h] at hnot
    cases hnot
  rw [hflow] at hplain
  simp at hlist
  simp [takeFrom?, isDivider_text hs hc.1.symm, isDivider_text hs hc.2.symm, hlist, hc, hflow, hplain,
    hquestion, hcolon]

/-- A text that reads as a plain scalar wherever one may stand. -/
def IsPlain (s : String) : Prop :=
  Written.fitsPlain s.toList = true ∧ ∃ c ∈ s.toList.head?, c ≠ '-' ∧ c ≠ '.'

theorem isPlain_of_not_isAmbiguous {s : String} (h : Written.isAmbiguous s = false)
    (hfits : Written.fitsPlain s.toList = true) : IsPlain s := by
  refine ⟨hfits, ?_⟩
  rw [Written.isAmbiguous, Bool.or_eq_false_iff] at h
  cases hs : s.toList with
  | nil => simp [hs] at h
  | cons c cs =>
      have hc : ((c.isDigit = false ∧ c ≠ '-') ∧ c ≠ '.') ∧ c ≠ '+' := by simpa [hs] using h.2
      exact ⟨c, rfl, hc.1.1.2, hc.1.2⟩

theorem isPlain_toString (b : Bool) : IsPlain (toString b) := by
  cases b with
  | false => exact ⟨by decide, 'f', rfl, by decide⟩
  | true => exact ⟨by decide, 't', rfl, by decide⟩

theorem IsPlain.exists_cons {s : String} (h : IsPlain s) : ∃ c cs, s.toList = c :: cs ∧
    Written.fitsPlain (c :: cs) = true ∧ (c ≠ '-' ∧ c ≠ '.') ∧ Stops (c :: cs) := by
  obtain ⟨hfits, c, hc, hhead⟩ := h
  obtain ⟨cs, hs⟩ := List.head?_eq_some_iff.mp hc
  rw [hs] at hfits
  obtain ⟨hplainly, hblank, hline, hfirst⟩ := Plain.head_of_fitsPlain hfits
  have hhash : c ≠ '#' := by
    rintro rfl
    cases hfirst
  have hmark : c ≠ '\ufeff' := ne_of_isPlainly hplainly (by decide)
  exact ⟨c, cs, hs, hfits, hhead,
    stops_cons ⟨hblank, hline c List.mem_cons_self, hhash, hmark⟩⟩

theorem IsPlain.oneLine {s : String} (h : IsPlain s) : OneLine s.toList := by
  obtain ⟨c, cs, hcs, hfits, -, -⟩ := h.exists_cons
  rw [hcs]
  exact (Plain.head_of_fitsPlain hfits).2.2.1

theorem takePlain?_here {cs rest text : List Char} {spans : Bool} {m' : Mark}
    (hread : Plain.read? false (indent + 1) [] (place m cs) = some (text, spans, place m' rest))
    (hstop : finish m cs = finish m' rest) :
    (here none indent outer keyAllowed m cs given held).takePlain? =
      some (here (candidateHere indent keyAllowed m (given + held.length)) indent outer spans m' rest
        given (held ++ [.scalar .plain (String.ofList text)])) := by
  rw [takePlain?, remember?_here]
  have hflow : ∀ candidate?,
      (here candidate? indent outer keyAllowed m cs given held).inFlow = false := fun _ => rfl
  simp only [Option.bind_eq_bind, Option.bind_some, hflow]
  simp only [here, hread, hstop]
  rfl

/-! ## Keys -/

theorem takeFrom?_colon {body : List Char} (hbody : Written.isGap body = true) {s : State}
    (hs : s.text = place m (':' :: body)) :
    takeFrom? ':' (place (m.next ':') body) s = s.takeValue? := by
  have hgap : isGap (place (m.next ':') body) = true := by rwa [isGap_place]
  simp [takeFrom?, isDivider_text hs (d := '-') (by decide),
    isDivider_text hs (d := '.') (by decide), hgap]

/-- A colon makes a key of what is held back. -/
theorem take?_colon {c : Candidate} {body : List Char} (hbody : Written.isGap body = true)
    (hpending : ¬ IsPast c m) (hm : indent ≤ m.column) {indent' : ℤ} {outer' : List ℤ}
    {start : List Token}
    (hdeepen : ∀ m cs held, (here (some c) indent outer keyAllowed m cs c.number held).deepen
        c.mark.column c.number .mappingStart =
      here (some c) indent' outer' keyAllowed m cs c.number (start ++ held)) :
    (here (some c) indent outer keyAllowed m (':' :: body) c.number held).take? =
      some (here none indent' outer' false (m.next ':') body c.number
        (start ++ .key :: held ++ [.value])) := by
  have hinsert : (here (some c) indent outer keyAllowed m (':' :: body) c.number held).insert
      c.number .key =
      here (some c) indent outer keyAllowed m (':' :: body) c.number (.key :: held) := by
    simp [insert, here]
  have hcandidate : (here (some c) indent outer keyAllowed m (':' :: body) c.number held).candidate? =
    some c := rfl
  rw [take?_of_expire? (stops_cons (by decide)) (expire?_pending hpending) hm,
    takeFrom?_colon hbody rfl, takeValue?, hcandidate]
  simp only [hinsert, hdeepen, takeMark_here]
  simp [here]

theorem take?_key {k : String} (hk : IsPlain k) {body : List Char}
    (hbody : Written.isGap body = true) (hm : indent ≤ m.column) :
    (here none indent outer keyAllowed m (k.toList ++ ':' :: body) given held).take? =
      some (here (candidateHere indent keyAllowed m (given + held.length)) indent outer false
        (finish m k.toList) (':' :: body) given (held ++ [.scalar .plain k])) := by
  obtain ⟨c, cs, hcs, hfits, hhead, hstops⟩ := hk.exists_cons
  have hread : Plain.read? false (indent + 1) [] (place m (c :: cs ++ ':' :: body)) =
      some (c :: cs, false, place (finish m (c :: cs)) (':' :: body)) := by
    rw [Plain.read?_of_fitsPlain _ hfits (by omega), Plain.read?_colon _ _ hbody, Option.map_some,
      List.append_nil]
  have hstop := finish_append m (c :: cs) (':' :: body)
  have htext : String.ofList (c :: cs) = k := by rw [← hcs, String.ofList_toList]
  rw [List.cons_append] at hread hstop
  rw [hcs, List.cons_append, take?_here (stops_append hstops _) hm,
    takeFrom?_plain hfits hhead m _ rfl rfl, takePlain?_here hread hstop, htext]

namespace Scans

variable {column : ℕ} {ts : List Token}

/-- A key with its colon, in front of what follows it on its line. -/
theorem entry {n : ℕ} {k : String} (hk : IsPlain k) (hlength : k.toList.length ≤ 1024)
    {body : List Char} (hbody : Written.isGap body = true) (hn : indent ≤ n) {indent' : ℤ}
    {outer' : List ℤ} (start : List Token)
    (hdeepen : ∀ candidate? m cs given held, (here candidate? indent outer false m cs given held).deepen
        n given .mappingStart =
      here candidate? indent' outer' false m cs given (start ++ held))
    (h : Scans indent' outer' false (n + k.toList.length + 1) body ts) :
    Scans indent outer true n (k.toList ++ ':' :: body)
      (start ++ .key :: .scalar .plain k :: .value :: ts) := by
  intro m hm given held fuel hfuel
  obtain ⟨c, cs, hcs, -, -, -⟩ := hk.exists_cons
  have hfinish := finish_of_oneLine hk.oneLine m
  have hpos : 0 < k.toList.length := by
    rw [hcs]
    exact Nat.succ_pos _
  rw [List.length_append, List.length_cons] at hfuel
  obtain ⟨fuel, rfl⟩ : ∃ n, fuel = n + 2 := ⟨fuel - 2, by omega⟩
  have hpending : ¬ IsPast ⟨m, given + held.length, indent == (m.column : ℤ)⟩ (finish m k.toList) := by
    rw [hfinish, IsPast]
    simp only
    omega
  have hcolumn : indent ≤ (finish m k.toList).column := by
    rw [hfinish]
    simp only
    omega
  have hrest : ∀ given held, tokens fuel (here none indent' outer' false
      ((finish m k.toList).next ':') body given held) = held ++ ts := by
    intro given held
    exact h _ (by rw [next_of_not_break rfl, hfinish, hm]) given held fuel (by omega)
  have hnotDone : ∀ candidate? i os m cs given held,
      (here candidate? i os false m cs given held).isDone = false := fun _ _ _ _ _ _ _ => rfl
  -- The scalar is held back, and the colon puts its marks in front of it.
  rw [tokens, take?_key hk hbody (by omega)]
  simp only [candidateHere, if_true, give?_pending hpending rfl, hnotDone, Bool.false_eq_true, if_false]
  rw [tokens, take?_colon hbody hpending hcolumn fun m' cs' held' => by
    simpa only [hm] using hdeepen _ m' cs' _ held']
  simp only [give?_here, hnotDone, Bool.false_eq_true, if_false, hrest]
  simp

theorem key {n : ℕ} {k : String} (hk : IsPlain k) (hlength : k.toList.length ≤ 1024)
    {body : List Char} (hbody : Written.isGap body = true)
    (h : Scans n outer false (n + k.toList.length + 1) body ts) :
    Scans n outer true n (k.toList ++ ':' :: body) (.key :: .scalar .plain k :: .value :: ts) :=
  entry hk hlength hbody (Int.le_refl _) [] (fun _ _ _ _ _ => deepen_of_le (Int.le_refl _) _ _) h

/-- The first key begins its mapping where it is indented more than what is around it. -/
theorem firstKey {n : ℕ} {k : String} (hk : IsPlain k) (hlength : k.toList.length ≤ 1024)
    {body : List Char} (hbody : Written.isGap body = true) (hn : indent < n)
    (h : Scans n (indent :: outer) false (n + k.toList.length + 1) body ts) :
    Scans indent outer true n (k.toList ++ ':' :: body)
      (.mappingStart :: .key :: .scalar .plain k :: .value :: ts) := by
  refine entry hk hlength hbody (Int.le_of_lt hn) [.mappingStart] (fun candidate? m cs given held => ?_) h
  rw [deepen_of_lt hn, Nat.sub_self]
  rfl

end Scans

/-! ## Scalars -/

theorem takeFrom?_single {cs : List Char} {s : State} (hs : s.text = place m ('\'' :: cs)) :
    takeFrom? '\'' (place (m.next '\'') cs) s = s.takeQuoted? (SingleQuoted.read? []) := by
  simp [takeFrom?, isDivider_text hs (d := '-') (by decide),
    isDivider_text hs (d := '.') (by decide)]

theorem takeFrom?_double {cs : List Char} {s : State} (hs : s.text = place m ('"' :: cs)) :
    takeFrom? '"' (place (m.next '"') cs) s = s.takeQuoted? (DoubleQuoted.read? (.gap [])) := by
  simp [takeFrom?, isDivider_text hs (d := '-') (by decide),
    isDivider_text hs (d := '.') (by decide)]

theorem takeFrom?_block {cs : List Char} {s : State} (hs : s.text = place m ('|' :: cs))
    (hflow : s.inFlow = false) : takeFrom? '|' (place (m.next '|') cs) s = s.takeBlock? true := by
  simp [takeFrom?, isDivider_text hs (d := '-') (by decide),
    isDivider_text hs (d := '.') (by decide), hflow]

theorem takeQuoted?_here {read : Spots → Option (List Char × Spots)} {c : Char}
    {cs rest text : List Char} {m' : Mark}
    (hread : read (place (m.next c) cs) = some (text, place m' rest))
    (hstop : finish (m.next c) cs = finish m' rest) :
    (here none indent outer keyAllowed m (c :: cs) given held).takeQuoted? read =
      some (here (candidateHere indent keyAllowed m (given + held.length)) indent outer false m' rest
        given (held ++ [.scalar .other (String.ofList text)])) := by
  rw [takeQuoted?, remember?_here]
  simp only [Option.bind_eq_bind, Option.bind_some]
  simp only [here, place, List.drop_succ_cons, List.drop_zero, hread, finish_cons, hstop]
  rfl

theorem takeBlock?_here {c : Char} {cs rest text : List Char} {m' : Mark}
    (hread : Block.read? true indent (place (m.next c) cs) = some (text, place m' rest))
    (hstop : finish (m.next c) cs = finish m' rest) :
    (here none indent outer keyAllowed m (c :: cs) given held).takeBlock? true =
      some (here none indent outer true m' rest given
        (held ++ [.scalar .literal (String.ofList text)])) := by
  have hforget : (here none indent outer keyAllowed m (c :: cs) given held).forget? =
    some (here none indent outer keyAllowed m (c :: cs) given held) := rfl
  rw [takeBlock?, hforget]
  simp only [Option.bind_eq_bind, Option.bind_some]
  simp only [here, place, List.drop_succ_cons, List.drop_zero, hread, finish_cons, hstop]
  rfl

namespace Scans

variable {column : ℕ} {ts : List Token} {j : ℕ} {ds : List Char}

theorem quoted {read : Spots → Option (List Char × Spots)} {q : Char} {body : List Char} {s : String}
    (hds : Stops ds) (hcolumn : indent < column) (hq : ∀ cs, Stops (q :: cs))
    (hfrom : ∀ (m : Mark) cs (s : State), s.text = place m (q :: cs) →
      takeFrom? q (place (m.next q) cs) s = s.takeQuoted? read)
    (hread : ∀ m : Mark, 0 < m.column → read (place m (body ++ '\n' :: (spaces j ++ ds))) =
      some (s.toList, place (finish m body) ('\n' :: (spaces j ++ ds))))
    (h : Scans indent outer true j ds ts) :
    Scans indent outer keyAllowed column (q :: body ++ '\n' :: (spaces j ++ ds))
      (.scalar .other s :: ts) := by
  refine scalar hds hcolumn (fun m hm given held => ?_) ?_ h
  · have hbreak := (hq [] q rfl).2.1
    have hpos : 0 < (m.next q).column := by
      rw [next_of_not_break hbreak]
      exact Nat.succ_pos _
    refine ⟨false, finish (m.next q) body, _, _, ?_, leadsTo_lineEnd hds j, ?_, ?_⟩
    · rw [List.cons_append, take?_here (hq _) (by omega), hfrom m _ _ rfl,
        takeQuoted?_here (hread (m.next q) hpos) (finish_append (m.next q) body _),
        String.ofList_toList]
    · exact (finish_lineEnd _ j).1
    · have hline := line_le_finish m (q :: body)
      rw [finish_cons] at hline
      rw [(finish_lineEnd _ j).2]
      omega
  · simp only [List.length_append, List.length_cons]
    omega

/-- A text on its line, plain. -/
theorem plain {n : ℕ} {s : String} (hs : IsPlain s) (hds : Stops ds) (hj : j ≤ n)
    (hcolumn : n < column) (h : Scans n outer true j ds ts) :
    Scans n outer keyAllowed column (s.toList ++ '\n' :: (spaces j ++ ds))
      (.scalar .plain s :: ts) := by
  obtain ⟨c, cs, hcs, hfits, hhead, hstops⟩ := hs.exists_cons
  refine scalar hds (Int.ofNat_lt.mpr hcolumn) (fun m hm given held => ?_) ?_ h
  · have hread : Plain.read? false (n + 1) [] (place m (c :: cs ++ '\n' :: (spaces j ++ ds))) =
        some (c :: cs, true, place (finish ((finish m (c :: cs)).next '\n') (spaces j)) ds) := by
      rw [Plain.read?_of_fitsPlain _ hfits (by omega), Plain.read?_lineEnd (by omega) hds,
        Option.map_some, List.append_nil]
    have hstop : finish m (c :: cs ++ '\n' :: (spaces j ++ ds)) =
        finish (finish ((finish m (c :: cs)).next '\n') (spaces j)) ds := by
      rw [finish_append, finish_cons, finish_append]
    have htext : String.ofList (c :: cs) = s := by rw [← hcs, String.ofList_toList]
    rw [List.cons_append] at hread hstop
    refine ⟨true, finish ((finish m (c :: cs)).next '\n') (spaces j), ds, _, ?_, leadsTo_self hds,
      ?_, ?_⟩
    · rw [hcs, List.cons_append, take?_here (stops_append hstops _) (by omega),
        takeFrom?_plain hfits hhead m _ rfl rfl, takePlain?_here hread hstop, htext]
    · exact (finish_lineEnd _ j).1
    · have hline := line_le_finish m (c :: cs)
      rw [(finish_lineEnd _ j).2]
      omega
  · simp only [List.length_append, List.length_cons]
    omega

/-- A text as a block of lines. -/
theorem block {n : ℕ} {s : String} (hfits : Written.fitsBlock s.toList = true) (hds : Stops ds)
    (hj : j ≤ n) (hcolumn : n < column) (h : Scans n outer true j ds ts) :
    Scans n outer keyAllowed column
      (Written.endLine (Written.block (n + 2) s.toList) ++ (spaces j ++ ds))
      (.scalar .literal s :: ts) := by
  have hindent : (n : ℤ).toNat + 2 = n + 2 := rfl
  obtain ⟨body, hwritten, hread⟩ := Block.read?_written hindent hfits
    (by omega : j < n + 2) hds
  obtain ⟨c, hlast, hbreak⟩ := Block.getLast?_endLine (Written.block (n + 2) s.toList)
  have hbody : body.getLast? = some c := by
    rw [hwritten] at hlast
    cases body with
    | nil =>
        cases hlast
        cases hbreak
    | cons b body => rwa [List.getLast?_cons_cons] at hlast
  rw [hwritten]
  refine step [.scalar .literal s] (fun m hm given held => ?_) ?_ h
  · refine ⟨finish (m.next '|') (body ++ spaces j), ?_, ?_⟩
    · rw [finish_append, finish_spaces, column_finish_of_getLast? hbody hbreak, Nat.zero_add]
    · have hstop : finish (m.next '|') (body ++ (spaces j ++ ds)) =
          finish (finish (m.next '|') (body ++ spaces j)) ds := by
        rw [← finish_append, List.append_assoc]
      rw [List.cons_append, take?_here (stops_cons (by decide)) (by omega), takeFrom?_block rfl rfl,
        takeBlock?_here (hread (m.next '|')) hstop, String.ofList_toList]
  · simp only [List.length_append, List.length_cons]
    omega

theorem single {n : ℕ} {s : String} (hfits : Written.fitsSingle s.toList = true)
    (hfeed : '\n' ∉ s.toList) (hds : Stops ds) (hcolumn : n < column)
    (h : Scans n outer true j ds ts) :
    Scans n outer keyAllowed column
      (Written.single (n + 2) s.toList ++ '\n' :: (spaces j ++ ds)) (.scalar .other s :: ts) := by
  simp only [Written.fitsSingle, Written.needsEscapes, Bool.not_eq_true', Bool.or_eq_false_iff,
    Bool.not_eq_false'] at hfits
  obtain ⟨hindented, hall, htrailing⟩ := hfits
  have hwritten : Written.single (n + 2) s.toList =
      '\'' :: (Written.singleBody (n + 2) false s.toList ++ ['\'']) := rfl
  rw [hwritten]
  refine quoted hds (Int.ofNat_lt.mpr hcolumn) (fun cs => stops_cons (by decide))
    (fun m cs s hs => takeFrom?_single hs) (fun m hm => ?_) h
  rw [List.append_assoc]
  exact SingleQuoted.read?_singleBody (Nat.succ_pos _) false [] m (List.all_eq_true.mp hall) hfeed
    hindented htrailing ⟨by simp, hm⟩ (by simp)

theorem double {n : ℕ} (s : String) (hds : Stops ds) (hcolumn : n < column)
    (h : Scans n outer true j ds ts) :
    Scans n outer keyAllowed column (Written.double s.toList ++ '\n' :: (spaces j ++ ds))
      (.scalar .other s :: ts) := by
  have hwritten : Written.double s.toList = '"' :: (s.toList.flatMap Written.escape ++ ['"']) := rfl
  rw [hwritten]
  refine quoted hds (Int.ofNat_lt.mpr hcolumn) (fun cs => stops_cons (by decide))
    (fun m cs s hs => takeFrom?_double hs) (fun m hm => ?_) h
  rw [List.append_assoc]
  exact DoubleQuoted.read?_flatMap_escape _ (by simp) hm

theorem endLine_of_getLast? {cs : List Char} (h : ∀ c ∈ cs.getLast?, isBreak c = false)
    (rest : List Char) : Written.endLine cs ++ rest = cs ++ '\n' :: rest := by
  have hlast : cs.getLast?.any isBreak = false := by
    cases hc : cs.getLast? with
    | none => rfl
    | some c => exact h c hc
  rw [Written.endLine, hlast, if_neg (by simp), List.append_assoc]
  rfl

theorem endLine_concat {q : Char} (hq : isBreak q = false) (cs rest : List Char) :
    Written.endLine (cs ++ [q]) ++ rest = cs ++ [q] ++ '\n' :: rest := by
  refine endLine_of_getLast? (fun c hc => ?_) rest
  rw [List.getLast?_concat] at hc
  cases hc
  exact hq

/-- A written text is one token, which holds the text. -/
theorem text {n : ℕ} (s : String) (hds : Stops ds) (hj : j ≤ n) (hcolumn : n < column)
    (h : Scans n outer true j ds ts) :
    Scans n outer keyAllowed column (Written.endLine (Written.text n s) ++ (spaces j ++ ds))
      (.scalar (styleOf s) s :: ts) := by
  have hdouble : Scans n outer keyAllowed column
      (Written.endLine (Written.double s.toList) ++ (spaces j ++ ds)) (.scalar .other s :: ts) := by
    rw [Written.double, endLine_concat rfl]
    exact double s hds hcolumn h
  simp only [Written.text, styleOf, List.contains_iff_mem]
  split
  · split
    · next hfits => exact block hfits hds hj hcolumn h
    · exact hdouble
  · next hfeed =>
      split
      · next hplain =>
          rw [Bool.and_eq_true, Bool.not_eq_true'] at hplain
          have hs := isPlain_of_not_isAmbiguous hplain.1 hplain.2
          rw [endLine_of_getLast? fun c hc => hs.oneLine c (List.mem_of_getLast? hc)]
          exact plain hs hds hj hcolumn h
      · split
        · next hfits =>
            rw [Written.single, endLine_concat rfl]
            exact single hfits hfeed hds hcolumn h
        · exact hdouble

end Scans

/-! ## Empty lists -/

/-- The reader within a flow collection. -/
def within (indent : ℤ) (outer : List ℤ) (m : Mark) (cs : List Char) (given : ℕ)
    (held : List Token) : State :=
  { here none indent outer true m cs given held with candidates := [none, none] }

theorem take?_opening {cs : List Char} (hm : indent ≤ m.column) :
    (here none indent outer false m ('[' :: cs) given held).take? =
      some (within indent outer (m.next '[') cs given (held ++ [.flowSequenceStart])) := by
  have hs : (here none indent outer false m ('[' :: cs) given held).text = place m ('[' :: cs) := rfl
  have hfrom : takeFrom? '[' (place (m.next '[') cs)
      (here none indent outer false m ('[' :: cs) given held) =
      takeOpening? .flowSequenceStart (here none indent outer false m ('[' :: cs) given held) := by
    simp [takeFrom?, isDivider_text hs (d := '-') (by decide), isDivider_text hs (d := '.') (by decide)]
  rw [take?_here (stops_cons (by decide)) hm, hfrom]
  rfl

theorem take?_closing {cs : List Char} :
    (within indent outer m (']' :: cs) given held).take? =
      some (here none indent outer false (m.next ']') cs given (held ++ [.flowSequenceEnd])) := by
  have hs : (within indent outer m (']' :: cs) given held).text = place m (']' :: cs) := rfl
  have hfrom : takeFrom? ']' (place (m.next ']') cs) (within indent outer m (']' :: cs) given held) =
      takeClosing? .flowSequenceEnd (within indent outer m (']' :: cs) given held) := by
    simp [takeFrom?, isDivider_text hs (d := '-') (by decide), isDivider_text hs (d := '.') (by decide)]
  have hadvance : (within indent outer m (']' :: cs) given held).advance =
      within indent outer m (']' :: cs) given held := by
    simp [within, here, advance, place, skipGap, inFlow, isBreak]
  have hexpire : (within indent outer m (']' :: cs) given held).expire? =
      some (within indent outer m (']' :: cs) given held) := rfl
  have hclose : ∀ column, (within indent outer m (']' :: cs) given held).close column =
      within indent outer m (']' :: cs) given held := fun _ => rfl
  rw [take?, hadvance, hexpire]
  simp only [Option.bind_eq_bind, Option.bind_some, hclose]
  exact hfrom.trans rfl

/-- A list without elements stands on its line. -/
theorem Scans.emptyList {column : ℕ} {cs : List Char} {ts : List Token} (hcolumn : indent ≤ column)
    (h : Scans indent outer false (column + 2) cs ts) :
    Scans indent outer false column ('[' :: ']' :: cs)
      (.flowSequenceStart :: .flowSequenceEnd :: ts) := by
  rintro m rfl given held fuel hfuel
  obtain ⟨fuel, rfl⟩ : ∃ n, fuel = n + 2 := ⟨fuel - 2, by simp only [List.length_cons] at hfuel; omega⟩
  have hless : cs.length < fuel := by
    simp only [List.length_cons] at hfuel
    omega
  have hgive : ∀ ts, (within indent outer (m.next '[') (']' :: cs) given ts).give? =
      some (ts, within indent outer (m.next '[') (']' :: cs) (given + ts.length) []) := by
    intro ts
    simp [within, here, give?, expire?]
  have hnotDone : ∀ given ts, (within indent outer (m.next '[') (']' :: cs) given ts).isDone = false :=
    fun _ _ => rfl
  have hnotDone' : ∀ m given ts, (here none indent outer false m cs given ts).isDone = false :=
    fun _ _ _ => rfl
  rw [tokens, take?_opening hcolumn]
  simp only [hgive, hnotDone, Bool.false_eq_true, if_false]
  rw [tokens, take?_closing]
  simp only [give?_here, hnotDone', Bool.false_eq_true, if_false]
  rw [h _ (by simp [next_of_not_break, isBreak]) _ _ _ hless]
  simp

end Token.State

end RequestAudit.Yaml
