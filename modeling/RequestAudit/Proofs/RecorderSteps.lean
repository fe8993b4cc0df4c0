import RequestAudit.Log.Recorder
import RequestAudit.Proofs.LogWriter

/-!
# Single steps of a recorder

What a step does to the queue, the handles and the task does not depend on the files. What it
does to the bytes of the log does: as long as the log is a file, all bytes stay somewhere between
the file and the queue.
-/

namespace RequestAudit

namespace Log

/-- The task is at work. -/
def Task.IsRunning (t : Task) : Prop := ∃ dirty, t = .running dirty

namespace Recorder

variable {r : Recorder} {fs : Files} {e : Entry} {queue : List Entry}

/-! ## The queue and the task -/

/-- After the step the task is at work, with this queue and as many handles as before. -/
structure Steady (r : Recorder) (queue : List Entry) (a : After) : Prop where
  running : a.recorder.task.IsRunning
  handles : a.recorder.handles = r.handles
  queue : a.recorder.queue = queue
  faults : ∀ n ∈ a.notices, n.severity = .error

theorem Steady.initial (hrun : r.task.IsRunning) (fs : Files) :
    Steady r r.queue ⟨r, fs, []⟩ := ⟨hrun, rfl, rfl, by simp⟩

theorem severity_faultNotice {message : String} {f : Fault} {n : Notice}
    (hn : n ∈ [faultNotice message f]) : n.severity = .error := by
  rw [List.mem_singleton] at hn
  rw [hn, faultNotice]

theorem record_steady (r : Recorder) (dirty : Bool) (e : Entry) (fs : Files) :
    Steady r r.queue (r.record dirty e fs) := by
  unfold record
  split
  · exact ⟨⟨true, rfl⟩, rfl, rfl, by simp⟩
  · exact ⟨⟨dirty, rfl⟩, rfl, rfl, fun _ => severity_faultNotice⟩

theorem receive_steady (hrun : r.task.IsRunning) (fs : Files) :
    Steady r r.queue.tail (r.receive fs) := by
  obtain ⟨dirty, hdirty⟩ := hrun
  cases hqueue : r.queue with
  | nil =>
      have hreceive : r.receive fs = ⟨r, fs, []⟩ := by
        simp only [receive, hdirty, hqueue]
      rw [hreceive, List.tail_nil, ← hqueue]
      exact .initial ⟨dirty, hdirty⟩ fs
  | cons e queue =>
      have hreceive : r.receive fs = { r with queue }.record dirty e fs := by
        simp only [receive, hdirty, hqueue]
      obtain ⟨hrunning, hhandles, hleft, hfaults⟩ := record_steady { r with queue } dirty e fs
      rw [hreceive, List.tail_cons]
      exact ⟨hrunning, hhandles, hleft, hfaults⟩

theorem timeOut_steady (hrun : r.task.IsRunning) (fs : Files) :
    Steady r r.queue (r.timeOut fs) := by
  unfold timeOut
  split
  · rename_i hdirty
    split
    · exact ⟨⟨false, rfl⟩, rfl, rfl, by simp⟩
    · exact ⟨⟨true, hdirty⟩, rfl, rfl, fun _ => severity_faultNotice⟩
  · exact .initial hrun fs

/-- The recorder and the store when the queue has room for an entry: with a full queue the task
takes one first. -/
def makeRoom (r : Recorder) (fs : Files) : After :=
  if r.queue.length < capacity then ⟨r, fs, []⟩ else r.receive fs

theorem makeRoom_steady (hrun : r.task.IsRunning) (fs : Files) :
    ∃ queue, Steady r queue (r.makeRoom fs) ∧
      (r.queue.length ≤ capacity → queue.length < capacity) := by
  unfold makeRoom
  by_cases hroom : r.queue.length < capacity
  · rw [if_pos hroom]
    exact ⟨_, .initial hrun fs, fun _ => hroom⟩
  · rw [if_neg hroom]
    refine ⟨_, receive_steady hrun fs, fun hfull => ?_⟩
    have hpos : 0 < capacity := by decide
    rw [List.length_tail]
    omega

theorem log_eq (hrun : r.task.IsRunning) (e : Entry) (fs : Files) :
    r.log e fs =
      ⟨{ (r.makeRoom fs).recorder with queue := (r.makeRoom fs).recorder.queue ++ [e] },
        (r.makeRoom fs).files, (r.makeRoom fs).notices⟩ := by
  obtain ⟨dirty, hdirty⟩ := hrun
  simp only [log, hdirty]
  rfl

theorem log_steady (hrun : r.task.IsRunning) (hfull : r.queue.length ≤ capacity) (e : Entry)
    (fs : Files) : ∃ queue, Steady r queue (r.log e fs) ∧ queue.length ≤ capacity := by
  obtain ⟨queue, ⟨hrunning, hhandles, hleft, hfaults⟩, hroom⟩ := makeRoom_steady hrun fs
  refine ⟨queue ++ [e], ?_, ?_⟩
  · rw [log_eq hrun]
    exact ⟨hrunning, hhandles, by rw [hleft], hfaults⟩
  · rw [List.length_append, List.length_singleton]
    exact hroom hfull

theorem finish_clean (hclean : r.task = .running false) (fs : Files) :
    r.finish fs = ⟨{ r with task := .ended }, fs, []⟩ := by
  simp only [finish, hclean]

/-- The last step of a task at work. -/
theorem finish_spec (hrun : r.task.IsRunning) (fs : Files) :
    (r.finish fs).recorder.task = .ended ∧ (r.finish fs).recorder.handles = r.handles ∧
      (r.finish fs).recorder.queue = r.queue ∧
      ∀ n ∈ (r.finish fs).notices, n.severity = .error := by
  obtain ⟨dirty, hdirty⟩ := hrun
  cases dirty with
  | false =>
      rw [finish_clean hdirty]
      exact ⟨rfl, rfl, rfl, by simp⟩
  | true =>
      simp only [finish, hdirty]
      split
      · exact ⟨rfl, rfl, rfl, by simp⟩
      · exact ⟨rfl, rfl, rfl, fun _ => severity_faultNotice⟩

/-! ## The bytes of the log -/

variable {l : Location} {bytes : List UInt8}

/-- The file at a location, the writer and the queue hold these bytes, in this order. What the
task counts as clean has nothing collected. -/
structure Holds (r : Recorder) (fs : Files) (l : Location) (bytes : List UInt8) : Prop where
  target : r.writer.target = l
  text : ∃ content, r.writer.Stands fs content ∧
    content ++ r.writer.collected ++ r.queue.flatMap Writer.lineBytes = bytes
  clean : r.task = .running true ∨ r.writer.collected = []

theorem Holds.collected_eq (h : r.Holds fs l bytes) (hclean : r.task ≠ .running true) :
    r.writer.collected = [] := by
  rcases h.clean with hdirty | hempty
  · exact absurd hdirty hclean
  · exact hempty

/-- After the step the bytes are held, and nothing was reported. -/
structure Keeps (l : Location) (bytes : List UInt8) (a : After) : Prop where
  holds : a.recorder.Holds a.files l bytes
  silent : a.notices = []

theorem record_keeps {content : List UInt8} (hstands : r.writer.Stands fs content)
    (dirty : Bool) (e : Entry) :
    Keeps r.writer.target (content ++ r.writer.collected ++ (e :: r.queue).flatMap Writer.lineBytes)
      (r.record dirty e fs) := by
  obtain ⟨w, fs', content', hwrite, htarget, hstands', htext⟩ := Writer.write_spec hstands e
  have hrecord : r.record dirty e fs =
      ⟨{ r with writer := w, task := .running true, waited := 0 }, fs', []⟩ := by
    unfold record
    rw [hwrite]
  rw [hrecord]
  refine ⟨⟨htarget, ⟨content', hstands', ?_⟩, .inl rfl⟩, rfl⟩
  rw [List.flatMap_cons, ← List.append_assoc, ← htext]

theorem receive_keeps (h : r.Holds fs l bytes) : Keeps l bytes (r.receive fs) := by
  obtain ⟨htarget, ⟨content, hstands, htext⟩, hclean⟩ := h
  unfold receive
  split
  · rename_i dirty e queue hdirty hqueue
    rw [hqueue] at htext
    rw [← htext, ← htarget]
    exact record_keeps (r := { r with queue }) hstands dirty e
  · exact ⟨⟨htarget, ⟨content, hstands, htext⟩, hclean⟩, rfl⟩

/-- A flush by the task leaves all bytes in place, whatever becomes of the task. -/
theorem flush_keeps (h : r.Holds fs l bytes) (t : Task) :
    ∃ w fs', r.writer.flush fs = (none, w, fs') ∧
      Keeps l bytes ⟨{ r with writer := w, task := t }, fs', []⟩ := by
  obtain ⟨htarget, ⟨content, hstands, htext⟩, _⟩ := h
  obtain ⟨w, fs', hflush, htarget', hstands', hempty⟩ := Writer.flush_spec hstands
  refine ⟨w, fs', hflush, ⟨htarget'.trans htarget, ⟨_, hstands', ?_⟩, .inr hempty⟩, rfl⟩
  rw [hempty, List.append_nil]
  exact htext

theorem timeOut_keeps (h : r.Holds fs l bytes) : Keeps l bytes (r.timeOut fs) := by
  unfold timeOut
  split
  · obtain ⟨w, fs', hflush, hkeeps⟩ := flush_keeps h (.running false)
    rw [hflush]
    exact hkeeps
  · exact ⟨h, rfl⟩

theorem finish_keeps (h : r.Holds fs l bytes) (hrun : r.task.IsRunning) :
    Keeps l bytes (r.finish fs) := by
  obtain ⟨dirty, hdirty⟩ := hrun
  cases dirty with
  | false =>
      have hempty : r.writer.collected = [] := h.collected_eq (by simp [hdirty])
      rw [finish_clean hdirty]
      exact ⟨⟨h.target, h.text, .inr hempty⟩, rfl⟩
  | true =>
      obtain ⟨w, fs', hflush, hkeeps⟩ := flush_keeps h .ended
      simp only [finish, hdirty, hflush]
      exact hkeeps

theorem log_keeps (h : r.Holds fs l bytes) (hrun : r.task.IsRunning) (e : Entry) :
    Keeps l (bytes ++ Writer.lineBytes e) (r.log e fs) := by
  have hroom : Keeps l bytes (r.makeRoom fs) := by
    unfold makeRoom
    split_ifs
    · exact ⟨h, rfl⟩
    · exact receive_keeps h
  obtain ⟨⟨htarget, ⟨content, hstands, htext⟩, hclean⟩, hsilent⟩ := hroom
  rw [log_eq hrun]
  refine ⟨⟨htarget, ⟨content, hstands, ?_⟩, hclean⟩, hsilent⟩
  rw [← htext, List.flatMap_append, ← List.append_assoc, List.flatMap_singleton]

/-- What is held once the task has ended is in the file. -/
theorem Holds.of_ended (h : r.Holds fs l bytes) (hended : r.task = .ended)
    (hqueue : r.queue = []) : fs.item? l = some (.file bytes) ∧ r.writer.collected = [] := by
  have hempty : r.writer.collected = [] := h.collected_eq (by simp [hended])
  obtain ⟨rfl, ⟨content, hstands, htext⟩, _⟩ := h
  rw [hempty, hqueue, List.flatMap_nil, List.append_nil, List.append_nil] at htext
  rw [← htext]
  exact ⟨hstands.file, hempty⟩

end Recorder

end Log

end RequestAudit
