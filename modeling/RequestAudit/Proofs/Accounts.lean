import Mathlib.Data.List.Basic
import RequestAudit.Proofs.Lines
import RequestAudit.Proofs.Tally

/-!
# What a replay accounts for

The totals of a replay and the entries that it logs tell the same story about the lines of the
recording. Every line taken keeps a short invariant, and the account of a whole recording is read
off from it.
-/

namespace RequestAudit

open Text

namespace Evaluator

variable {α : Type} [Attributes α]

/-- A place in a decision is the place of a rule whose level and stages the verdict has. -/
theorem rule_of_judge {e : Evaluator} {a : α} {i : ℕ} (h : (e.judge a).rule? = some i) :
    ∃ r, e.rules[i]? = some r ∧ (e.judge a).verdict.level = r.level ∧
      (e.judge a).verdict.omitStages = r.omitStages := by
  unfold judge at h ⊢
  cases hfirst : e.first? a with
  | none => simp [hfirst] at h
  | some found =>
      obtain ⟨r, place⟩ := found
      have hmem := List.mem_of_find?_eq_some hfirst
      simp only [hfirst, Option.some.injEq] at h
      subst h
      exact ⟨r, List.mem_zipIdx_iff_getElem?.mp hmem, rfl, rfl⟩

end Evaluator

namespace Replay

/-- What a line reads as: nothing, a fault, or a request. -/
abbrev Reading := Except Document.Fault (Option Request)

def isComment : Reading → Bool
  | .ok none => true
  | _ => false

def isMalformed : Reading → Bool
  | .error _ => true
  | .ok _ => false

def request? : Reading → Option Request
  | .ok q => q
  | .error _ => none

def parse (line : List Char) : Reading := Request.ofLine (String.ofList (withoutEnd line))

/-- What the lines of a text read as. -/
def readings (cs : List Char) : List Reading := (linesOf cs).map parse

def requests (rs : List Reading) : List Request := rs.filterMap request?

/-- The entries of requests that are judged in order. -/
def entriesOf (e : Evaluator) (stamps : ℕ → Stamp) (qs : List Request) : List Entry :=
  qs.mapIdx fun i q => ⟨stamps i, q.outline, (e.judge q).verdict, (e.judge q).rule?⟩

/-- The number of entries at a level. -/
def levelCount (es : List Entry) (l : Level) : ℕ := es.countP (·.verdict.level = l)

/-- The account of lines that a replay gives. -/
structure Accounts (e : Evaluator) (stamps : ℕ → Stamp) (rs : List Reading) (r : Replay) :
    Prop where
  unbroken : r.fault? = none
  skipped : r.tally.skipped = rs.countP isMalformed
  evaluated : r.tally.evaluated = (requests rs).length
  total : r.tally.evaluated + r.tally.skipped + rs.countP isComment = rs.length
  entries : r.entries = entriesOf e stamps (requests rs)
  matched : r.tally.matched = r.entries.countP (·.rule?.isSome)
  rules : ∀ en ∈ r.entries, ∀ i, en.rule? = some i →
    ∃ rule, e.rules[i]? = some rule ∧ en.verdict.level = rule.level ∧
      en.verdict.omitStages = rule.omitStages
  ordered : (r.tally.byLevel.map Prod.fst).Pairwise (· < ·)
  counted : ∀ l n, (l, n) ∈ r.tally.byLevel ↔ n = levelCount r.entries l ∧ 0 < n
  sum : (r.tally.byLevel.map Prod.snd).sum = r.tally.evaluated

/-! ## One line -/

/-- What holds of a replay after every line. -/
structure Follows (e : Evaluator) (stamps : ℕ → Stamp) (rs : List Reading) (r : Replay) :
    Prop where
  unbroken : r.fault? = none
  skipped : r.tally.skipped = rs.countP isMalformed
  evaluated : r.tally.evaluated = (requests rs).length
  entries : r.entries = entriesOf e stamps (requests rs)
  matched : r.tally.matched = r.entries.countP (·.rule?.isSome)
  byLevel : r.tally.byLevel = Tally.tableOf (levelCount r.entries) Level.all
  sum : (r.tally.byLevel.map Prod.snd).sum = r.tally.evaluated

variable {e : Evaluator} {stamps : ℕ → Stamp} {rs : List Reading} {r : Replay} {line : List Char}

theorem take_comment (h : parse line = .ok none) :
    r.take e stamps line = { r with lines := r.lines + 1 } := by
  simp only [parse] at h
  simp [take, h]

theorem take_malformed {f : Document.Fault} (h : parse line = .error f) :
    r.take e stamps line = { r with
      lines := r.lines + 1
      tally := r.tally.skip
      skipped := r.skipped ++ [(r.lines + 1, f)] } := by
  simp only [parse] at h
  simp [take, h]

theorem take_request {q : Request} (h : parse line = .ok (some q)) :
    r.take e stamps line = { r with
      lines := r.lines + 1
      tally := r.tally.add (e.judge q)
      judged := r.judged ++ [(r.lines + 1, Entry.of (stamps r.judged.length) q (e.judge q))] } := by
  simp only [parse] at h
  simp [take, h]

theorem requests_append (rs rs' : List Reading) :
    requests (rs ++ rs') = requests rs ++ requests rs' := List.filterMap_append

theorem entriesOf_concat (qs : List Request) (q : Request) :
    entriesOf e stamps (qs ++ [q]) =
      entriesOf e stamps qs ++ [Entry.of (stamps qs.length) q (e.judge q)] := by
  rw [entriesOf, List.mapIdx_concat]
  rfl

theorem levelCount_concat (es : List Entry) (en : Entry) :
    levelCount (es ++ [en]) = Function.update (levelCount es) en.verdict.level
      (levelCount es en.verdict.level + 1) := by
  funext l
  rw [levelCount, List.countP_append]
  by_cases hl : en.verdict.level = l
  · subst hl
    simp [levelCount]
  · rw [Function.update_of_ne (Ne.symm hl)]
    simp [levelCount, hl]

theorem Follows.initial : Follows e stamps [] {} where
  unbroken := rfl
  skipped := rfl
  evaluated := rfl
  entries := rfl
  matched := rfl
  byLevel := by decide
  sum := rfl

/-- A line without a request changes no total but that of the skipped lines. -/
theorem Follows.pass (h : Follows e stamps rs r) {x : Reading} (hx : request? x = none)
    {r' : Replay} (hfault : r'.fault? = r.fault?) (hjudged : r'.judged = r.judged)
    (htally : r'.tally = { r.tally with
      skipped := r.tally.skipped + [x].countP isMalformed }) :
    Follows e stamps (rs ++ [x]) r' := by
  have hrequests : requests (rs ++ [x]) = requests rs := by
    rw [requests_append]
    simp [requests, hx]
  have hentries : r'.entries = r.entries := congrArg (List.map Prod.snd) hjudged
  refine ⟨hfault.trans h.unbroken, ?_, ?_, ?_, ?_, ?_, ?_⟩
  · rw [htally, List.countP_append, ← h.skipped]
  · rw [htally, hrequests, ← h.evaluated]
  · rw [hentries, hrequests, h.entries]
  · rw [htally, hentries, ← h.matched]
  · rw [htally, hentries, ← h.byLevel]
  · rw [htally, ← h.sum]

/-- A request adds its entry, and one to the totals that its decision concerns. -/
theorem Follows.judge (h : Follows e stamps rs r) (q : Request) {r' : Replay}
    (hfault : r'.fault? = r.fault?) (htally : r'.tally = r.tally.add (e.judge q))
    (hentries : r'.entries =
      r.entries ++ [Entry.of (stamps r.entries.length) q (e.judge q)]) :
    Follows e stamps (rs ++ [.ok (some q)]) r' := by
  have hrequests : requests (rs ++ [.ok (some q)]) = requests rs ++ [q] := by
    rw [requests_append]
    rfl
  have hlength : r.entries.length = (requests rs).length := by
    rw [h.entries, entriesOf, List.length_mapIdx]
  refine ⟨hfault.trans h.unbroken, ?_, ?_, ?_, ?_, ?_, ?_⟩
  · rw [htally, List.countP_append, ← h.skipped]
    rfl
  · rw [htally, hrequests, List.length_append, ← h.evaluated]
    rfl
  · rw [hentries, hrequests, entriesOf_concat, hlength, h.entries]
  · rw [htally, hentries, List.countP_append, ← h.matched]
    simp only [Tally.add, Entry.of, List.countP_singleton]
    split_ifs <;> rfl
  · rw [htally, hentries, levelCount_concat, Tally.add, h.byLevel,
      Tally.bump_tableOf Level.pairwise_all (Level.mem_all _)]
    rfl
  · rw [htally, Tally.add, Tally.sum_bump, h.sum]

theorem Follows.take (h : Follows e stamps rs r) (line : List Char) :
    Follows e stamps (rs ++ [parse line]) (r.take e stamps line) := by
  cases hparse : parse line with
  | error f =>
      rw [take_malformed hparse]
      exact h.pass rfl rfl rfl rfl
  | ok q? =>
      cases q? with
      | none =>
          rw [take_comment hparse]
          exact h.pass rfl rfl rfl rfl
      | some q =>
          rw [take_request hparse]
          refine h.judge q rfl rfl ?_
          simp [Replay.entries]

/-! ## Whole recordings -/

theorem Follows.takeLines (h : Follows e stamps rs r) (lines : List (List Char)) :
    Follows e stamps (rs ++ lines.map parse) (lines.foldl (Replay.take e stamps) r) := by
  induction lines generalizing rs r with
  | nil => simpa using h
  | cons line lines ih =>
      rw [List.foldl_cons, List.map_cons, ← List.singleton_append, ← List.append_assoc]
      exact ih (h.take line)

theorem takeAll_encode (r : Replay) (lines : List (List Char)) :
    takeAll e stamps r (lines.map Utf8.encode) = lines.foldl (Replay.take e stamps) r := by
  induction lines generalizing r with
  | nil => rfl
  | cons line lines ih =>
      rw [List.map_cons, takeAll, Utf8.decode_encode, List.foldl_cons]
      exact ih (r.take e stamps line)

theorem run_encode (cs : List Char) :
    run e stamps (Utf8.encode cs) = (linesOf cs).foldl (Replay.take e stamps) {} := by
  rw [run, split_encode, takeAll_encode]

theorem countP_isMalformed_add (rs : List Reading) :
    (requests rs).length + rs.countP isMalformed + rs.countP isComment = rs.length := by
  induction rs with
  | nil => rfl
  | cons x rs ih =>
      rw [← List.singleton_append, requests_append, List.countP_append, List.countP_append,
        List.length_append, List.length_append]
      have hone : (requests [x]).length + [x].countP isMalformed + [x].countP isComment = 1 := by
        rcases x with f | (_ | q) <;> rfl
      rw [List.length_singleton]
      omega

theorem Follows.accounts (h : Follows e stamps rs r) : Accounts e stamps rs r where
  unbroken := h.unbroken
  skipped := h.skipped
  evaluated := h.evaluated
  total := by
    rw [h.evaluated, h.skipped]
    exact countP_isMalformed_add rs
  entries := h.entries
  matched := h.matched
  rules := by
    intro en hen i hi
    rw [h.entries, entriesOf] at hen
    obtain ⟨j, hj, rfl⟩ := List.mem_mapIdx.mp hen
    exact Evaluator.rule_of_judge hi
  ordered := by
    rw [h.byLevel, Tally.keys_tableOf]
    exact Level.pairwise_all.filter _
  counted := by
    intro l n
    rw [h.byLevel, Tally.mem_tableOf]
    exact and_iff_right (Level.mem_all l)
  sum := h.sum

/-- The replay of a text accounts for its lines, and its entries depend on nothing but the
requests among them. -/
theorem run_accounts (e : Evaluator) (stamps : ℕ → Stamp) (cs : List Char) :
    Accounts e stamps (readings cs) (run e stamps (Utf8.encode cs)) ∧
      ∀ ds, requests (readings ds) = requests (readings cs) →
        (run e stamps (Utf8.encode ds)).entries = (run e stamps (Utf8.encode cs)).entries := by
  have hall : ∀ ds, Follows e stamps (readings ds) (run e stamps (Utf8.encode ds)) := by
    intro ds
    rw [run_encode]
    exact Follows.initial.takeLines (linesOf ds)
  refine ⟨(hall cs).accounts, fun ds hds => ?_⟩
  rw [(hall ds).entries, (hall cs).entries, hds]

end Replay

end RequestAudit
