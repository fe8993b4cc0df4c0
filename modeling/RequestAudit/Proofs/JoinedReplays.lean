import Mathlib.Data.List.Basic
import RequestAudit.Proofs.Accounts
import RequestAudit.Proofs.Stars

/-!
# Replays of joined recordings

A replay takes its recording line by line and carries nothing from one line to the next but its
totals. So the replay of whole lines of text followed by anything else is made up of the two
replays; comments and the two ways to end a line make no difference; and nothing behind bytes that
are no text is looked at.
-/

namespace RequestAudit

open Text

namespace Text

theorem trim_concat {c : Char} (hc : isBlank c = true) (cs : List Char) :
    trim (cs ++ [c]) = trim cs := by
  unfold trim
  by_cases hall : cs.all isBlank = true
  · have hnil : cs.dropWhile isBlank = [] := by
      rw [List.dropWhile_eq_nil_iff]
      simpa using hall
    have hnil' : (cs ++ [c]).dropWhile isBlank = [] := by
      rw [List.dropWhile_eq_nil_iff]
      simp only [List.mem_append, List.mem_singleton]
      rintro d (hd | rfl)
      · exact List.all_eq_true.mp hall d hd
      · exact hc
    rw [hnil, hnil']
  · have hdrop : (cs ++ [c]).dropWhile isBlank = cs.dropWhile isBlank ++ [c] := by
      rw [List.dropWhile_append, if_neg]
      simpa [List.isEmpty_iff, List.dropWhile_eq_nil_iff] using hall
    rw [hdrop, dropEndWhile_concat, if_pos hc]

end Text

namespace Replay

/-! ## Whole lines -/

/-- The bytes are made up of lines with their ends. -/
def IsWhole (bs : List UInt8) : Prop := bs = [] ∨ bs.getLast? = some lineEnd

theorem glue_ne_nil {α : Type} (xs : List α) (lines : List (List α)) : glue xs lines ≠ [] := by
  cases lines <;> simp [glue]

theorem glue_append {α : Type} (xs : List α) {lines : List (List α)} (h : lines ≠ [])
    (more : List (List α)) : glue xs (lines ++ more) = glue xs lines ++ more := by
  cases lines with
  | nil => exact absurd rfl h
  | cons line lines => simp [glue]

theorem split_ne_nil {bs : List UInt8} (h : bs ≠ []) : split bs ≠ [] := by
  cases bs with
  | nil => exact absurd rfl h
  | cons b bs =>
      by_cases hb : b = lineEnd
      · rw [hb, split_cons_lineEnd]
        exact List.cons_ne_nil _ _
      · rw [split_cons_ne hb]
        exact glue_ne_nil _ _

theorem split_append_of_isWhole {as : List UInt8} (h : IsWhole as) (bs : List UInt8) :
    split (as ++ bs) = split as ++ split bs := by
  induction as with
  | nil => simp
  | cons a as ih =>
      have hrest : IsWhole as := by
        rcases h with h | h
        · cases h
        · cases as with
          | nil => exact .inl rfl
          | cons a' as => exact .inr (by rwa [List.getLast?_cons_cons] at h)
      by_cases ha : a = lineEnd
      · rw [ha, List.cons_append, split_cons_lineEnd, split_cons_lineEnd, ih hrest]
        rfl
      · have hne : as ≠ [] := by
          rintro rfl
          simp [IsWhole, ha] at h
        rw [List.cons_append, split_cons_ne ha, split_cons_ne ha, ih hrest,
          glue_append _ (split_ne_nil hne)]

/-- Bytes are whole lines and the beginning of another. -/
theorem exists_eq_append_line (bs : List UInt8) :
    ∃ whole line, bs = whole ++ line ∧ IsWhole whole ∧ lineEnd ∉ line := by
  induction bs with
  | nil => exact ⟨[], [], rfl, .inl rfl, by simp⟩
  | cons b bs ih =>
      obtain ⟨whole, line, rfl, hwhole, hline⟩ := ih
      rcases hwhole with rfl | hwhole
      · by_cases hb : b = lineEnd
        · exact ⟨[b], line, rfl, .inr (by simp [hb]), hline⟩
        · exact ⟨[], b :: line, rfl, .inl rfl, by simp [Ne.symm hb, hline]⟩
      · refine ⟨b :: whole, line, rfl, .inr ?_, hline⟩
        cases whole with
        | nil => simp at hwhole
        | cons c whole => rwa [List.getLast?_cons_cons]

/-! ## The texts of lines -/

/-- The texts of lines up to the first line that is no text, and the fault in that. -/
def texts : List (List UInt8) → List (List Char) × Option Utf8.Fault
  | [] => ([], none)
  | line :: lines =>
    match Utf8.decode line with
    | .error f => ([], some f)
    | .ok cs => (cs :: (texts lines).1, (texts lines).2)

theorem texts_append_of_none {xs : List (List UInt8)} (h : (texts xs).2 = none)
    (ys : List (List UInt8)) :
    texts (xs ++ ys) = ((texts xs).1 ++ (texts ys).1, (texts ys).2) := by
  induction xs with
  | nil => rfl
  | cons x xs ih =>
      rw [List.cons_append, texts, texts]
      cases hx : Utf8.decode x with
      | error f => simp [texts, hx] at h
      | ok cs =>
          have hxs : (texts xs).2 = none := by simpa [texts, hx] using h
          simp [ih hxs]

theorem texts_append_of_some {xs : List (List UInt8)} {f : Utf8.Fault} (h : (texts xs).2 = some f)
    (ys : List (List UInt8)) : texts (xs ++ ys) = texts xs := by
  induction xs with
  | nil => cases h
  | cons x xs ih =>
      rw [List.cons_append, texts, texts]
      cases hx : Utf8.decode x with
      | error f => rfl
      | ok cs =>
          have hxs : (texts xs).2 = some f := by simpa [texts, hx] using h
          simp [ih hxs]

theorem texts_map_encode (css : List (List Char)) :
    texts (css.map Utf8.encode) = (css, none) := by
  induction css with
  | nil => rfl
  | cons cs css ih => rw [List.map_cons, texts, Utf8.decode_encode, ih]

variable {e : Evaluator} {stamps : ℕ → Stamp}

theorem fault?_take (r : Replay) (cs : List Char) : (r.take e stamps cs).fault? = r.fault? := by
  unfold take
  dsimp only
  split <;> rfl

/-- A replay takes the texts of its lines, and ends with the first fault in them. -/
theorem takeAll_eq {r : Replay} (h : r.fault? = none) (lines : List (List UInt8)) :
    takeAll e stamps r lines =
      { (texts lines).1.foldl (take e stamps) r with fault? := (texts lines).2 } := by
  induction lines generalizing r with
  | nil =>
      rw [takeAll, texts, ← h]
      rfl
  | cons line lines ih =>
      rw [takeAll, texts]
      cases Utf8.decode line with
      | error f => rfl
      | ok cs => exact ih ((fault?_take r cs).trans h)

theorem run_eq (bs : List UInt8) : run e stamps bs =
    { (texts (split bs)).1.foldl (take e stamps) {} with fault? := (texts (split bs)).2 } :=
  takeAll_eq rfl _

/-! ## Lines that read alike -/

theorem trim_withoutEnd (cs : List Char) : trim (withoutEnd cs) = trim cs := by
  have hreverse : ∀ {ds : List Char}, cs.reverse = ds → cs = ds.reverse := by
    rintro _ rfl
    rw [List.reverse_reverse]
  unfold withoutEnd
  split
  · next rest h =>
      rw [hreverse h, List.reverse_cons, List.reverse_cons, trim_concat (by decide),
        trim_concat (by decide)]
  · next rest h => rw [hreverse h, List.reverse_cons, trim_concat (by decide)]
  · rfl

theorem parse_eq_of_trim {cs ds : List Char} (h : trim cs = trim ds) : parse cs = parse ds := by
  simp only [parse, Request.ofLine, String.toList_ofList, trim_withoutEnd, h]

theorem take_congr {cs ds : List Char} (h : parse cs = parse ds) (r : Replay) :
    r.take e stamps cs = r.take e stamps ds := by
  unfold parse at h
  simp only [take, h]

theorem foldl_take_congr {css dss : List (List Char)} (h : css.map parse = dss.map parse)
    (r : Replay) : css.foldl (take e stamps) r = dss.foldl (take e stamps) r := by
  induction css generalizing dss r with
  | nil =>
      rw [List.map_nil, eq_comm, List.map_eq_nil_iff] at h
      rw [h]
  | cons cs css ih =>
      cases dss with
      | nil => cases h
      | cons ds dss =>
          obtain ⟨hhead, htail⟩ := List.cons.inj h
          rw [List.foldl_cons, List.foldl_cons, take_congr hhead, ih htail]

/-- The lines read as the same requests, comments and mistakes, and end in the same fault. -/
def Alike (xs ys : List (List UInt8)) : Prop :=
  (texts xs).1.map parse = (texts ys).1.map parse ∧ (texts xs).2 = (texts ys).2

theorem run_eq_of_alike {as bs : List UInt8} (h : Alike (split as) (split bs)) :
    run e stamps as = run e stamps bs := by
  rw [run_eq, run_eq, foldl_take_congr h.1, h.2]

theorem Alike.append_left {xs ys : List (List UInt8)} (h : Alike xs ys)
    (ws : List (List UInt8)) : Alike (ws ++ xs) (ws ++ ys) := by
  cases hws : (texts ws).2 with
  | none =>
      rw [Alike, texts_append_of_none hws, texts_append_of_none hws, List.map_append,
        List.map_append, h.1, h.2]
      exact ⟨rfl, rfl⟩
  | some f =>
      rw [Alike, texts_append_of_some hws, texts_append_of_some hws]
      exact ⟨rfl, rfl⟩

/-- The byte that may stand before the end of a line. -/
def carriageReturn : UInt8 := 13

theorem alike_carriageReturn (line : List UInt8) (xs : List (List UInt8)) :
    Alike ((line ++ [carriageReturn, lineEnd]) :: xs) ((line ++ [lineEnd]) :: xs) := by
  have hascii : Utf8.BeginsAscii [carriageReturn, lineEnd] ∧ Utf8.BeginsAscii [lineEnd] :=
    ⟨⟨_, _, rfl, by decide⟩, ⟨_, _, rfl, by decide⟩⟩
  have hreturn : Utf8.decode [carriageReturn, lineEnd] = .ok ['\r', '\n'] :=
    Utf8.decode_encode ['\r', '\n']
  have hend : Utf8.decode [lineEnd] = .ok ['\n'] := Utf8.decode_encode ['\n']
  rcases Utf8.decode_append_ascii line with ⟨cs, hcs⟩ | ⟨f, hf⟩
  · have htrim : trim (cs ++ ['\r', '\n']) = trim (cs ++ ['\n']) := by
      rw [show cs ++ ['\r', '\n'] = cs ++ ['\r'] ++ ['\n'] by simp, trim_concat (by decide),
        trim_concat (by decide), trim_concat (by decide)]
    simp only [Alike, texts, hcs _ _ hascii.1 hreturn, hcs _ _ hascii.2 hend, List.map_cons,
      parse_eq_of_trim htrim, and_self]
  · simp only [Alike, texts, hf _ hascii.1, hf _ hascii.2, and_self]

/-! ## One replay after another -/

end Replay

/-- The entry without what tells it from all others. -/
def Entry.unstamped (en : Entry) : Entry := { en with stamp := .zero }

/-- The number of requests at a level. -/
def Tally.countAt (t : Tally) (l : Level) : ℕ := (t.byLevel.lookup l).getD 0

theorem Tally.lookup_tableOf {number : Level → ℕ} {ls : List Level} {l : Level} (hl : l ∈ ls) :
    ((tableOf number ls).lookup l).getD 0 = number l := by
  induction ls with
  | nil => cases hl
  | cons k ls ih =>
      by_cases hlk : l = k
      · subst hlk
        by_cases hzero : number l = 0
        · rw [tableOf_cons_zero hzero]
          by_cases hmem : l ∈ ls
          · exact ih hmem
          · have hnone : (tableOf number ls).lookup l = none := by
              rw [List.lookup_eq_none_iff]
              intro p hp
              obtain ⟨k, n⟩ := p
              have hk := (mem_tableOf.mp hp).1
              simpa using fun heq : l = k => hmem (heq ▸ hk)
            rw [hnone, hzero]
            rfl
        · rw [tableOf_cons_pos (Nat.pos_of_ne_zero hzero), List.lookup_cons_self]
          rfl
      · have hmem : l ∈ ls := (List.mem_cons.mp hl).resolve_left hlk
        by_cases hzero : number k = 0
        · rw [tableOf_cons_zero hzero, ih hmem]
        · rw [tableOf_cons_pos (Nat.pos_of_ne_zero hzero), List.lookup_cons,
            beq_eq_false_iff_ne.mpr hlk, ih hmem]

namespace Replay

variable {e : Evaluator} {stamps : ℕ → Stamp}

/-- The judged requests and the skipped lines of `r` are those of `q` and then those of `s` with
their lines counted on from those of `q`, and the totals are sums. -/
structure Joins (q s r : Replay) : Prop where
  lines : r.lines = q.lines + s.lines
  judged : r.judged.map (fun j => (j.1, j.2.unstamped)) =
    q.judged.map (fun j => (j.1, j.2.unstamped)) ++
      s.judged.map fun j => (q.lines + j.1, j.2.unstamped)
  mistakes : r.skipped = q.skipped ++ s.skipped.map fun k => (q.lines + k.1, k.2)
  evaluated : r.tally.evaluated = q.tally.evaluated + s.tally.evaluated
  matched : r.tally.matched = q.tally.matched + s.tally.matched
  skipped : r.tally.skipped = q.tally.skipped + s.tally.skipped

variable {q s r : Replay}

theorem Joins.initial : Joins {} {} {} := ⟨rfl, rfl, rfl, rfl, rfl, rfl⟩

/-- What follows nothing is followed by nothing. -/
theorem Joins.swap (h : Joins {} q r) : Joins q {} r where
  lines := h.lines.trans (Nat.add_comm 0 q.lines)
  judged := by simpa using h.judged
  mistakes := by simpa using h.mistakes
  evaluated := h.evaluated.trans (Nat.add_comm 0 _)
  matched := h.matched.trans (Nat.add_comm 0 _)
  skipped := h.skipped.trans (Nat.add_comm 0 _)

/-- The same line, taken by both, is the same step of both. -/
theorem Joins.take (h : Joins q s r) (stamps stamps' : ℕ → Stamp) (cs : List Char) :
    Joins q (s.take e stamps cs) (r.take e stamps' cs) := by
  have hnumber : r.lines + 1 = q.lines + (s.lines + 1) := by rw [h.lines, Nat.add_assoc]
  cases hparse : parse cs with
  | error f =>
      rw [take_malformed hparse, take_malformed hparse]
      refine ⟨hnumber, h.judged, ?_, h.evaluated, h.matched, ?_⟩
      · simp [h.mistakes, hnumber]
      · simp only [Tally.skip, h.skipped, Nat.add_assoc]
  | ok found =>
      cases found with
      | none =>
          rw [take_comment hparse, take_comment hparse]
          exact ⟨hnumber, h.judged, h.mistakes, h.evaluated, h.matched, h.skipped⟩
      | some req =>
          rw [take_request hparse, take_request hparse]
          refine ⟨hnumber, ?_, h.mistakes, ?_, ?_, h.skipped⟩
          · rw [List.map_append, List.map_append, h.judged, List.append_assoc]
            simp [hnumber, Entry.of, Entry.unstamped]
          · simp only [Tally.add, h.evaluated, Nat.add_assoc]
          · simp only [Tally.add, h.matched]
            split <;> omega

theorem Joins.foldl (h : Joins q s r) (stamps stamps' : ℕ → Stamp) (css : List (List Char)) :
    Joins q (css.foldl (Replay.take e stamps) s) (css.foldl (Replay.take e stamps') r) := by
  induction css generalizing s r with
  | nil => exact h
  | cons cs css ih => exact ih (h.take stamps stamps' cs)

theorem Joins.entries (h : Joins q s r) :
    r.entries.map Entry.unstamped =
      q.entries.map Entry.unstamped ++ s.entries.map Entry.unstamped := by
  have hsnd := congrArg (List.map Prod.snd) h.judged
  simpa [Replay.entries, Function.comp_def] using hsnd

theorem levelCount_unstamped (es : List Entry) (l : Level) :
    levelCount (es.map Entry.unstamped) l = levelCount es l := by
  rw [levelCount, List.countP_map]
  rfl

theorem Follows.countAt {rs : List Reading} (h : Follows e stamps rs r) (l : Level) :
    r.tally.countAt l = levelCount r.entries l := by
  rw [Tally.countAt, h.byLevel, Tally.lookup_tableOf (Level.mem_all l)]

/-- What is taken of the lines of a text follows from what they read as. -/
theorem follows_foldl (e : Evaluator) (stamps : ℕ → Stamp) (css : List (List Char)) :
    Follows e stamps (css.map parse) (css.foldl (Replay.take e stamps) {}) := by
  have h : Follows e stamps [] {} := Follows.initial
  simpa using h.takeLines css

theorem Joins.countAt (h : Joins q s r) {stamps' stamps'' : ℕ → Stamp}
    {qs ss rs : List Reading} (hq : Follows e stamps qs q) (hs : Follows e stamps' ss s)
    (hr : Follows e stamps'' rs r) (l : Level) :
    r.tally.countAt l = q.tally.countAt l + s.tally.countAt l := by
  rw [hr.countAt, hq.countAt, hs.countAt, ← levelCount_unstamped r.entries, h.entries,
    levelCount, List.countP_append]
  exact congrArg₂ (· + ·) (levelCount_unstamped _ l) (levelCount_unstamped _ l)

/-! ## Comments -/

/-- A line that is blank or a comment. -/
def IsComment (line : List UInt8) : Prop :=
  split line = [line] ∧
    ∃ cs, Utf8.decode line = .ok cs ∧ (trim cs = [] ∨ (trim cs).head? = some '#')

theorem parse_of_trim {cs : List Char} (h : trim cs = [] ∨ (trim cs).head? = some '#') :
    parse cs = .ok none := by
  simp only [parse, Request.ofLine, String.toList_ofList, trim_withoutEnd]
  rcases h with h | h
  · rw [h]
  · obtain ⟨ds, hds⟩ := List.head?_eq_some_iff.mp h
    simp only [hds]

/-- Both replays log the same entries and report the same. -/
structure Agree (r s : Replay) : Prop where
  entries : r.entries = s.entries
  tally : r.tally = s.tally
  fault : r.fault? = s.fault?

theorem Follows.agree {rs ss : List Reading} (hr : Follows e stamps rs r)
    (hs : Follows e stamps ss s) (hrequests : requests rs = requests ss)
    (hmistakes : rs.countP isMalformed = ss.countP isMalformed) : Agree r s := by
  have hentries : r.entries = s.entries := by rw [hr.entries, hs.entries, hrequests]
  refine ⟨hentries, ?_, hr.unbroken.trans hs.unbroken.symm⟩
  have hlevels := hr.byLevel
  rw [hentries, ← hs.byLevel] at hlevels
  have hevaluated := hr.evaluated
  rw [hrequests, ← hs.evaluated] at hevaluated
  have hskipped := hr.skipped
  rw [hmistakes, ← hs.skipped] at hskipped
  have hmatched := hr.matched
  rw [hentries, ← hs.matched] at hmatched
  cases hrt : r.tally
  cases hst : s.tally
  simp_all

/-- A comment between lines changes neither entries nor totals. -/
theorem agree_of_comment {as line bs : List UInt8} (has : IsWhole as) (hline : IsComment line)
    (hend : IsWhole line ∨ bs = []) :
    Agree (run e stamps (as ++ (line ++ bs))) (run e stamps (as ++ bs)) := by
  obtain ⟨hone, cs, hcs, htrim⟩ := hline
  have hsplit : split (line ++ bs) = line :: split bs := by
    rcases hend with hwhole | rfl
    · rw [split_append_of_isWhole hwhole, hone, List.singleton_append]
    · rw [List.append_nil, hone, split_nil]
  rw [run_eq, run_eq, split_append_of_isWhole has, split_append_of_isWhole has, hsplit]
  -- Behind a fault nothing is looked at, the comment no more than the rest.
  cases hfault : (texts (split as)).2 with
  | some f =>
      rw [texts_append_of_some hfault, texts_append_of_some hfault]
      exact ⟨rfl, rfl, rfl⟩
  | none =>
      rw [texts_append_of_none hfault, texts_append_of_none hfault]
      simp only [texts, hcs]
      have hcomment : [cs].map parse = [.ok none] := by
        rw [List.map_singleton, parse_of_trim htrim]
      have hagree := (follows_foldl e stamps
        ((texts (split as)).1 ++ cs :: (texts (split bs)).1)).agree
        (follows_foldl e stamps ((texts (split as)).1 ++ (texts (split bs)).1)) ?_ ?_
      · exact ⟨hagree.entries, hagree.tally, rfl⟩
      · rw [← List.singleton_append, List.map_append, List.map_append, List.map_append, hcomment,
          requests_append, requests_append, requests_append]
        rfl
      · rw [← List.singleton_append, List.map_append, List.map_append, List.map_append, hcomment,
          List.countP_append, List.countP_append, List.countP_append]
        simp [isMalformed]

/-! ## Joined recordings -/

/-- What a replay of whole lines of text followed by other bytes comes to: `q` is the replay of
the lines, `s` that of the other bytes, and `r` that of both. -/
structure Continues (q s r : Replay) : Prop extends Joins q s r where
  byLevel : ∀ l, r.tally.countAt l = q.tally.countAt l + s.tally.countAt l
  fault : r.fault? = s.fault?

theorem continues_run (stamps stamps' stamps'' : ℕ → Stamp) {cs : List Char}
    (hcs : IsWhole (Utf8.encode cs)) (bs : List UInt8) :
    Continues (run e stamps (Utf8.encode cs)) (run e stamps' bs)
      (run e stamps'' (Utf8.encode cs ++ bs)) := by
  have hwhole : texts (split (Utf8.encode cs)) = (linesOf cs, none) := by
    rw [split_encode, texts_map_encode]
  have hboth : texts (split (Utf8.encode cs ++ bs)) =
      (linesOf cs ++ (texts (split bs)).1, (texts (split bs)).2) := by
    rw [split_append_of_isWhole hcs, texts_append_of_none (congrArg Prod.snd hwhole), hwhole]
  rw [run_eq, run_eq, run_eq, hwhole, hboth]
  have hjoins := ((Joins.initial.foldl (e := e) stamps stamps'' (linesOf cs)).swap).foldl
    (e := e) stamps' stamps'' (texts (split bs)).1
  rw [← List.foldl_append] at hjoins
  have hlevels := hjoins.countAt (follows_foldl e stamps _) (follows_foldl e stamps' _)
    (follows_foldl e stamps'' _)
  exact ⟨⟨hjoins.lines, hjoins.judged, hjoins.mistakes, hjoins.evaluated, hjoins.matched,
    hjoins.skipped⟩, hlevels, rfl⟩

theorem lines_run_encode (cs : List Char) :
    (run e stamps (Utf8.encode cs)).lines = (linesOf cs).length := by
  have hfoldl : ∀ (css : List (List Char)) (r : Replay),
      (css.foldl (Replay.take e stamps) r).lines = r.lines + css.length := by
    intro css
    induction css with
    | nil => exact fun r => rfl
    | cons cs css ih =>
        intro r
        have htake : (r.take e stamps cs).lines = r.lines + 1 := by
          unfold Replay.take
          dsimp only
          split <;> rfl
        rw [List.foldl_cons, ih, htake, List.length_cons]
        omega
  rw [run_encode, hfoldl]
  exact Nat.zero_add _

/-- A replay of whole lines of text and then other bytes is the one replay and then the other. So
comments and the way in which lines end make no difference, and what stands behind a line that is
no text is not looked at. -/
theorem run_append (e : Evaluator) (stamps : ℕ → Stamp) :
    (∀ cs, IsWhole (Utf8.encode cs) →
      (run e stamps (Utf8.encode cs)).lines = (linesOf cs).length ∧
        ∀ (stamps' stamps'' : ℕ → Stamp) (bs : List UInt8),
          Continues (run e stamps (Utf8.encode cs)) (run e stamps' bs)
            (run e stamps'' (Utf8.encode cs ++ bs))) ∧
    (∀ as line bs, IsWhole as → IsComment line → IsWhole line ∨ bs = [] →
      Agree (run e stamps (as ++ (line ++ bs))) (run e stamps (as ++ bs))) ∧
    (∀ as bs, run e stamps (as ++ carriageReturn :: lineEnd :: bs) =
      run e stamps (as ++ lineEnd :: bs)) ∧
    ∀ as bs, IsWhole as → (run e stamps as).fault?.isSome →
      run e stamps (as ++ bs) = run e stamps as := by
  refine ⟨?_, ?_, ?_, ?_⟩
  · intro cs hcs
    exact ⟨lines_run_encode cs, fun stamps' stamps'' => continues_run stamps stamps' stamps'' hcs⟩
  · intro as line bs has hline hend
    exact agree_of_comment has hline hend
  · intro as bs
    obtain ⟨whole, line, rfl, hwhole, hline⟩ := exists_eq_append_line as
    have hline' : lineEnd ∉ line ++ [carriageReturn] := by
      simpa [lineEnd, carriageReturn] using hline
    apply run_eq_of_alike
    rw [List.append_assoc, List.append_assoc, split_append_of_isWhole hwhole,
      split_append_of_isWhole hwhole, split_line_append hline]
    have hreturn := split_line_append hline' bs
    rw [List.append_assoc, List.append_assoc, List.singleton_append] at hreturn
    rw [hreturn]
    exact (alike_carriageReturn line (split bs)).append_left (split whole)
  · intro as bs has hfault
    rw [run_eq] at hfault
    obtain ⟨f, hf⟩ := Option.isSome_iff_exists.mp hfault
    rw [run_eq, run_eq, split_append_of_isWhole has, texts_append_of_some hf]

/-- A request before bytes that are no text, a comment before them, and more bytes behind them. -/
theorem run_append_faulty :
    let e := Evaluator.ofPolicy {}
    let stamps : ℕ → Stamp := fun _ => .zero
    let request := (Request.forPath "get" "/").line.toList ++ ['\n']
    let comment : List UInt8 := [35, lineEnd]
    let faulty : List UInt8 := [0xff, lineEnd]
    IsWhole (Utf8.encode request) ∧ IsComment comment ∧ IsWhole comment ∧ IsWhole faulty ∧
      (run e stamps faulty).fault?.isSome ∧
      Continues (run e stamps (Utf8.encode request)) (run e stamps faulty)
        (run e stamps (Utf8.encode request ++ faulty)) ∧
      Agree (run e stamps (Utf8.encode request ++ (comment ++ faulty)))
        (run e stamps (Utf8.encode request ++ faulty)) ∧
      run e stamps (faulty ++ comment) = run e stamps faulty := by
  intro e stamps request comment faulty
  have hrequest : IsWhole (Utf8.encode request) := .inr (by
    simp [request, Utf8.encode, encodeChar_lineEnd])
  have hsplit : split comment = [comment] := by
    have hline := split_line_append (show lineEnd ∉ [35] by decide) []
    rwa [split_nil] at hline
  have hcomment : IsComment comment :=
    ⟨hsplit, ['#', '\n'], Utf8.decode_encode ['#', '\n'], .inr (by decide)⟩
  have hfaulty : (run e stamps faulty).fault?.isSome := by cbv
  obtain ⟨hjoin, hagree, -, hbehind⟩ := run_append e stamps
  exact ⟨hrequest, hcomment, .inr rfl, .inr rfl, hfaulty, (hjoin _ hrequest).2 _ _ _,
    hagree _ _ _ hrequest hcomment (.inl (.inr rfl)), hbehind _ _ (.inr rfl) hfaulty⟩

end Replay

end RequestAudit
