import Mathlib.Data.List.Basic
import RequestAudit.Proofs.RecorderSteps

/-!
# Whole lines

A writer hands over what it has collected all at once or not at all, so that its file always ends
between two lines. Of the entries that a recorder was given, in order, the first stand in the
file, the next are collected by the writer and the last wait in the queue.
-/

namespace RequestAudit.Log

namespace Writer

theorem lineBytes_ne_nil (e : Entry) : lineBytes e ≠ [] := by
  rw [lineBytes, Text.Utf8.encode, List.flatMap_append]
  exact List.append_ne_nil_of_right_ne_nil _ (by decide)

theorem eq_nil_of_lines {es : List Entry} (h : es.flatMap lineBytes = []) : es = [] := by
  cases es with
  | nil => rfl
  | cons e es =>
      rw [List.flatMap_cons, List.append_eq_nil_iff] at h
      exact absurd h.1 (lineBytes_ne_nil e)

/-- Behind what stood there before, the file has the lines of `done`; those of `kept` are
collected. -/
structure Splits (w : Writer) (fs : Files) (before : List UInt8) (done kept : List Entry) :
    Prop where
  stands : w.Stands fs (before ++ done.flatMap lineBytes)
  collected : w.collected = kept.flatMap lineBytes

variable {w : Writer} {fs : Files} {before : List UInt8} {done kept : List Entry}

theorem Splits.write (h : w.Splits fs before done kept) (e : Entry) :
    ∃ w' fs' done' kept', w.write e fs = (none, w', fs') ∧ w'.target = w.target ∧
      w'.Splits fs' before done' kept' ∧ done' ++ kept' = done ++ kept ++ [e] := by
  obtain ⟨w', fs', content', htake, htarget, hstands, hsplit⟩ := take_whole h.stands (lineBytes e)
  have hwrite : w.write e fs = (none, w', fs') := by
    simp only [Writer.write, htake, Option.map_none]
  rw [h.collected] at hsplit
  rcases hsplit with ⟨rfl, hkept⟩ | ⟨rfl, hkept⟩ | ⟨rfl, hkept⟩
  · refine ⟨w', fs', done, kept ++ [e], hwrite, htarget, ⟨hstands, ?_⟩, ?_⟩
    · rw [hkept, List.flatMap_append, List.flatMap_singleton]
    · rw [List.append_assoc]
  · rw [List.append_assoc, ← List.flatMap_append] at hstands
    refine ⟨w', fs', done ++ kept, [e], hwrite, htarget, ⟨hstands, ?_⟩, rfl⟩
    rw [hkept, List.flatMap_singleton]
  · rw [List.append_assoc, List.append_assoc, ← List.flatMap_singleton lineBytes e,
      ← List.flatMap_append, ← List.flatMap_append] at hstands
    refine ⟨w', fs', done ++ (kept ++ [e]), [], hwrite, htarget, ⟨hstands, hkept⟩, ?_⟩
    rw [List.append_nil, List.append_assoc]

theorem Splits.flush (h : w.Splits fs before done kept) :
    ∃ w' fs', w.flush fs = (none, w', fs') ∧ w'.target = w.target ∧
      w'.Splits fs' before (done ++ kept) [] := by
  obtain ⟨w', fs', hflush, htarget, hstands, hempty⟩ := flush_spec h.stands
  rw [h.collected, List.append_assoc, ← List.flatMap_append] at hstands
  exact ⟨w', fs', hflush, htarget, hstands, hempty⟩

end Writer

namespace Recorder

variable {r : Recorder} {fs : Files} {l : Location} {before : List UInt8} {es : List Entry}

/-- What has become of the entries that the recorder was given. A task that has nothing to flush
has nothing collected. -/
structure Records (r : Recorder) (fs : Files) (l : Location) (before : List UInt8)
    (es : List Entry) : Prop where
  target : r.writer.target = l
  split : ∃ done kept, r.writer.Splits fs before done kept ∧ done ++ kept ++ r.queue = es
  clean : r.task = .running true ∨ r.writer.collected = []

def After.Records (a : After) (l : Location) (before : List UInt8) (es : List Entry) : Prop :=
  a.recorder.Records a.files l before es

theorem Records.record {e : Entry} {queue : List Entry} (h : r.Records fs l before es)
    (hqueue : r.queue = e :: queue) (dirty : Bool) :
    ({ r with queue }.record dirty e fs).Records l before es := by
  obtain ⟨htarget, ⟨done, kept, hsplit, hes⟩, -⟩ := h
  obtain ⟨w, fs', done', kept', hwrite, htarget', hsplit', hes'⟩ := hsplit.write e
  have hrecord : { r with queue }.record dirty e fs =
      ⟨{ r with queue, writer := w, task := .running true, waited := 0 }, fs', []⟩ := by
    unfold Recorder.record
    rw [hwrite]
  rw [hrecord]
  refine ⟨htarget'.trans htarget, ⟨done', kept', hsplit', ?_⟩, .inl rfl⟩
  rw [hes', ← hes, hqueue, List.append_assoc _ [e], List.singleton_append]

theorem Records.receive (h : r.Records fs l before es) :
    (r.receive fs).Records l before es := by
  unfold Recorder.receive
  split
  · next hqueue => exact h.record hqueue _
  · exact h

theorem Records.flush (h : r.Records fs l before es) (t : Task) :
    ∃ w fs', r.writer.flush fs = (none, w, fs') ∧
      ({ r with writer := w, task := t }).Records fs' l before es := by
  obtain ⟨htarget, ⟨done, kept, hsplit, hes⟩, -⟩ := h
  obtain ⟨w, fs', hflush, htarget', hsplit'⟩ := hsplit.flush
  refine ⟨w, fs', hflush, htarget'.trans htarget, ⟨_, [], hsplit', ?_⟩, .inr hsplit'.collected⟩
  rw [List.append_nil]
  exact hes

theorem Records.timeOut (h : r.Records fs l before es) :
    (r.timeOut fs).Records l before es := by
  unfold Recorder.timeOut
  split
  · obtain ⟨w, fs', hflush, hrecords⟩ := h.flush (.running false)
    rw [hflush]
    exact hrecords
  · exact h

theorem Records.finish (h : r.Records fs l before es) : (r.finish fs).Records l before es := by
  unfold Recorder.finish
  split
  · obtain ⟨w, fs', hflush, hrecords⟩ := h.flush .ended
    rw [hflush]
    exact hrecords
  · next htask =>
      rcases h.clean with hdirty | hempty
      · rw [hdirty] at htask
        cases htask
      · exact ⟨h.target, h.split, .inr hempty⟩
  · exact h

theorem Records.turn (h : r.Records fs l before es) (t : Turn) :
    (r.turn t fs).Records l before es := by
  cases t with
  | work =>
      rw [Recorder.turn]
      split_ifs
      · exact h.finish
      · exact h.receive
  | timeOut =>
      rw [Recorder.turn]
      split_ifs
      · exact h.timeOut
      · exact h

theorem Records.turns (h : r.Records fs l before es) (ts : List Turn) :
    (r.turns ts fs).Records l before es := by
  induction ts generalizing r fs with
  | nil => exact h
  | cons t ts ih => exact ih (h.turn t)

theorem Records.drop (h : r.Records fs l before es) : r.drop.Records fs l before es :=
  ⟨h.target, h.split, h.clean⟩

/-! ## While the handle is held -/

/-- The task is at work for the one who may log. -/
structure IsOpen (r : Recorder) : Prop where
  running : r.task.IsRunning
  held : r.handles = 1

theorem IsOpen.of_steady {queue : List Entry} {a : After} (h : r.IsOpen)
    (ha : r.Steady queue a) : a.recorder.IsOpen :=
  ⟨ha.running, ha.handles.trans h.held⟩

theorem IsOpen.turn (h : r.IsOpen) (t : Turn) (fs : Files) : (r.turn t fs).recorder.IsOpen := by
  have hheld : (r.handles == 0) = false := by rw [h.held]; rfl
  cases t with
  | work =>
      rw [Recorder.turn, hheld, Bool.and_false, if_neg Bool.false_ne_true]
      exact h.of_steady (receive_steady h.running fs)
  | timeOut =>
      rw [Recorder.turn]
      split_ifs
      · exact h.of_steady (timeOut_steady h.running fs)
      · exact h

theorem IsOpen.turns (h : r.IsOpen) (ts : List Turn) (fs : Files) :
    (r.turns ts fs).recorder.IsOpen := by
  induction ts generalizing r fs with
  | nil => exact h
  | cons t ts ih => exact ih (h.turn t fs) _

theorem IsOpen.log (h : r.IsOpen) (e : Entry) (fs : Files) : (r.log e fs).recorder.IsOpen := by
  obtain ⟨queue, hsteady, -⟩ := makeRoom_steady h.running fs
  obtain ⟨hrunning, hheld⟩ := h.of_steady hsteady
  rw [log_eq h.running]
  exact ⟨hrunning, hheld⟩

theorem Records.log (h : r.Records fs l before es) (hopen : r.IsOpen) (e : Entry) :
    (r.log e fs).Records l before (es ++ [e]) := by
  have hroom : (r.makeRoom fs).Records l before es := by
    unfold makeRoom
    split_ifs
    · exact h
    · exact h.receive
  obtain ⟨htarget, ⟨done, kept, hsplit, hes⟩, hclean⟩ := hroom
  rw [log_eq hopen.running]
  refine ⟨htarget, ⟨done, kept, hsplit, ?_⟩, hclean⟩
  rw [← hes, List.append_assoc _ _ [e]]

theorem IsOpen.logPaced (h : r.IsOpen) (gaps : ℕ → List Turn) (es : List Entry) (fs : Files) :
    (r.logPaced gaps es fs).recorder.IsOpen := by
  induction es generalizing r fs gaps with
  | nil => exact h.turns _ fs
  | cons e es ih => exact ih ((h.turns _ fs).log e _) _ _

theorem Records.logPaced {es' : List Entry} (h : r.Records fs l before es) (hopen : r.IsOpen)
    (gaps : ℕ → List Turn) : (r.logPaced gaps es' fs).Records l before (es ++ es') := by
  induction es' generalizing r fs es gaps with
  | nil =>
      rw [List.append_nil]
      exact h.turns _
  | cons e es' ih =>
      have hlogged := (h.turns (gaps 0)).log (hopen.turns _ fs) e
      have hrest := ih hlogged ((hopen.turns _ fs).log e _) fun i => gaps (i + 1)
      rw [List.append_assoc, List.singleton_append] at hrest
      exact hrest

/-! ## The file -/

/-- The file ends behind the line of one of the entries, or where it ended before. -/
theorem Records.file (h : r.Records fs l before es) : ∃ n ≤ es.length,
    fs.item? l = some (.file (before ++ (es.take n).flatMap Writer.lineBytes)) := by
  obtain ⟨rfl, ⟨done, kept, hsplit, rfl⟩, -⟩ := h
  refine ⟨done.length, ?_, ?_⟩
  · rw [List.append_assoc, List.length_append]
    exact Nat.le_add_right _ _
  · rw [List.append_assoc, List.take_left]
    exact hsplit.stands.file

theorem Records.complete_iff (h : r.Records fs l before es) :
    fs.item? l = some (.file (before ++ es.flatMap Writer.lineBytes)) ↔
      r.writer.collected = [] ∧ r.queue = [] := by
  obtain ⟨rfl, ⟨done, kept, hsplit, rfl⟩, -⟩ := h
  rw [hsplit.stands.file, Option.some.injEq, Files.Item.file.injEq, List.append_cancel_left_eq,
    List.flatMap_append, List.flatMap_append, List.append_assoc, List.self_eq_append_right,
    List.append_eq_nil_iff, hsplit.collected]
  constructor
  · rintro ⟨hkept, hqueue⟩
    exact ⟨hkept, Writer.eq_nil_of_lines hqueue⟩
  · rintro ⟨hkept, hqueue⟩
    exact ⟨hkept, by rw [hqueue, List.flatMap_nil]⟩

/-! ## The end of the task -/

theorem After.andThen_start (r : Recorder) (fs : Files) (step : Recorder → Files → After) :
    After.andThen ⟨r, fs, []⟩ step = step r fs := by
  simp only [After.andThen, List.nil_append]

theorem After.andThen_done (a : After) : (a.andThen fun r fs => ⟨r, fs, []⟩) = a := by
  simp only [After.andThen, List.append_nil]

theorem After.andThen_andThen (a : After) (f g : Recorder → Files → After) :
    (a.andThen f).andThen g = a.andThen fun r fs => (f r fs).andThen g := by
  simp only [After.andThen, List.append_assoc]

/-- Without a handle all that the task can do is a turn for each entry and one to end with. -/
theorem settle_eq_turns (hrun : r.task.IsRunning) (hhandles : r.handles = 0) (fs : Files) :
    r.settle fs = r.turns (List.replicate (r.queue.length + 1) .work) fs := by
  induction hqueue : r.queue generalizing r fs with
  | nil =>
      have hturn : r.turn .work fs = r.finish fs := by simp [turn, hqueue, hhandles]
      have hturns : r.turns [.work] fs = r.finish fs := by
        rw [turns, hturn]
        exact After.andThen_done _
      rw [settle, hqueue, if_pos hhandles, List.length_nil, Nat.zero_add, List.replicate_one, hturns]
      exact After.andThen_start r fs finish
  | cons e queue ih =>
      have hturn : r.turn .work fs = r.receive fs := by simp [turn, hqueue]
      have hsteady := receive_steady hrun fs
      have hleft : (r.receive fs).recorder.queue = queue := by
        rw [hsteady.queue, hqueue, List.tail_cons]
      have hsettle := ih hsteady.running (hsteady.handles.trans hhandles) (r.receive fs).files hleft
      rw [settle, hleft, if_pos (hsteady.handles.trans hhandles)] at hsettle
      rw [settle, hqueue, if_pos hhandles, List.length_cons, List.replicate_succ, turns, hturn,
        receiveUpTo, After.andThen_andThen]
      simp only [After.andThen] at hsettle ⊢
      rw [← hsettle]

theorem receiveUpTo_length (hrun : r.task.IsRunning) (fs : Files) :
    (receiveUpTo r.queue.length r fs).recorder.task.IsRunning ∧
      (receiveUpTo r.queue.length r fs).recorder.queue = [] := by
  induction hqueue : r.queue generalizing r fs with
  | nil => exact ⟨hrun, hqueue⟩
  | cons e queue ih =>
      have hsteady := receive_steady hrun fs
      have hleft : (r.receive fs).recorder.queue = queue := by
        rw [hsteady.queue, hqueue, List.tail_cons]
      exact ih hsteady.running (r.receive fs).files hleft

theorem settle_ends (hrun : r.task.IsRunning) (hhandles : r.handles = 0) (fs : Files) :
    (r.settle fs).recorder.task = .ended ∧ (r.settle fs).recorder.queue = [] := by
  obtain ⟨hrunning, hqueue⟩ := receiveUpTo_length hrun fs
  obtain ⟨hended, -, hleft, -⟩ := finish_spec hrunning (receiveUpTo r.queue.length r fs).files
  rw [settle, if_pos hhandles]
  exact ⟨hended, hleft.trans hqueue⟩

/-- A recorder that is closed leaves all its entries in the file. -/
theorem Records.close (h : r.Records fs l before es) (hopen : r.IsOpen) :
    (r.close fs).files.item? l = some (.file (before ++ es.flatMap Writer.lineBytes)) := by
  have hrunning : ({ r with handles := 0 } : Recorder).task.IsRunning := hopen.running
  have hgiven : ({ r with handles := 0 } : Recorder).Records fs l before es :=
    ⟨h.target, h.split, h.clean⟩
  obtain ⟨hended, hqueue⟩ := settle_ends hrunning rfl fs
  have hrecords := hgiven.turns (List.replicate (r.queue.length + 1) .work)
  rw [After.Records, ← settle_eq_turns hrunning rfl] at hrecords
  refine hrecords.complete_iff.mpr ⟨?_, hqueue⟩
  rcases hrecords.clean with hdirty | hempty
  · rw [hended] at hdirty
    cases hdirty
  · exact hempty

end Recorder

end RequestAudit.Log
