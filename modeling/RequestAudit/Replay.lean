import RequestAudit.Decision.Entry
import RequestAudit.Evaluator
import RequestAudit.Request.Document
import RequestAudit.Text.Utf8

/-!
# Replays

A recording of requests is replayed line by line: every request is judged, comments are passed
over, and lines that are no request are skipped. Only bytes that are no text end a replay early.
-/

namespace RequestAudit

/-- The totals of a replay. -/
structure Tally where
  /-- How many requests were judged. -/
  evaluated : Nat := 0
  /-- How many of them a rule has decided. -/
  matched : Nat := 0
  /-- How many lines were skipped. -/
  skipped : Nat := 0
  /-- How many requests were judged at each level that occurs, in the order of levels. -/
  byLevel : List (Level × Nat) := []
  deriving DecidableEq, Repr

namespace Tally

/-- One more request at a level. -/
def bump (l : Level) : List (Level × Nat) → List (Level × Nat)
  | [] => [(l, 1)]
  | (k, n) :: rest =>
    if l = k then (k, n + 1) :: rest
    else if l < k then (l, 1) :: (k, n) :: rest
    else (k, n) :: bump l rest

/-- One more judged request. -/
def add (t : Tally) (d : Decision) : Tally :=
  { t with
    evaluated := t.evaluated + 1
    matched := if d.rule?.isSome then t.matched + 1 else t.matched
    byLevel := bump d.verdict.level t.byLevel }

/-- One more skipped line. -/
def skip (t : Tally) : Tally := { t with skipped := t.skipped + 1 }

open Document in
/-- The totals as data. -/
def datum (t : Tally) : Datum :=
  .record [("evaluated", .number t.evaluated), ("matched", .number t.matched),
    ("skipped", .number t.skipped),
    ("by_level", .record (t.byLevel.map fun p => (p.1.name, .number p.2)))]

/-- The totals as a report. -/
def report (t : Tally) : String := Json.renderIndented t.datum

end Tally

/-- What has come of a replay so far. -/
structure Replay where
  /-- How many lines were read. -/
  lines : Nat := 0
  /-- The totals. -/
  tally : Tally := {}
  /-- The entries of the judged requests, with the numbers of their lines. -/
  judged : List (Nat × Entry) := []
  /-- The skipped lines, by number, and what is wrong with them. -/
  skipped : List (Nat × Document.Fault) := []
  /-- The bytes that are no text, if the replay has come to such. -/
  fault? : Option Text.Utf8.Fault := none

namespace Replay

/-- The byte that ends a line. -/
def lineEnd : UInt8 := 10

/-- The lines of a recording, each with its end if it has one. -/
def split (bytes : List UInt8) : List (List UInt8) :=
  match bytes with
  | [] => []
  | b :: bs =>
    let line := (b :: bs).takeWhile (· != lineEnd)
    match h : (b :: bs).dropWhile (· != lineEnd) with
    | [] => [line]
    | e :: rest =>
      have : rest.length < (b :: bs).length := by
        have := (List.dropWhile_sublist (fun x : UInt8 => x != lineEnd) (l := b :: bs)).length_le
        rw [h] at this
        exact this
      (line ++ [e]) :: split rest
  termination_by bytes.length
  decreasing_by exact this

/-- A line without its end. -/
def withoutEnd (cs : List Char) : List Char :=
  match cs.reverse with
  | '\n' :: '\r' :: rest => rest.reverse
  | '\n' :: rest => rest.reverse
  | _ => cs

/-- Takes a line: its request is judged, if it holds one. -/
def take (e : Evaluator) (stamps : Nat → Stamp) (r : Replay) (line : List Char) : Replay :=
  let number := r.lines + 1
  let r := { r with lines := number }
  match Request.ofLine (String.ofList (withoutEnd line)) with
  | .ok none => r
  | .error f => { r with tally := r.tally.skip, skipped := r.skipped ++ [(number, f)] }
  | .ok (some q) =>
    let d := e.judge q
    let entry := Entry.of (stamps r.judged.length) q d
    { r with tally := r.tally.add d, judged := r.judged ++ [(number, entry)] }

/-- Takes lines up to one that is no text. -/
def takeAll (e : Evaluator) (stamps : Nat → Stamp) : Replay → List (List UInt8) → Replay
  | r, [] => r
  | r, line :: lines =>
    match Text.Utf8.decode line with
    | .error f => { r with fault? := some f }
    | .ok cs => takeAll e stamps (r.take e stamps cs) lines

/-- Replays a recording; the entries get the stamps in order. -/
def run (e : Evaluator) (stamps : Nat → Stamp) (recording : List UInt8) : Replay :=
  takeAll e stamps {} (split recording)

/-- The entries that are to be logged. -/
def entries (r : Replay) : List Entry := r.judged.map (·.2)

end Replay

end RequestAudit
