import Mathlib.Data.List.Basic
import RequestAudit.Proofs.RecorderRuns
import RequestAudit.Proofs.WholeLines

/-!
# What a clean task has flushed

The task of a recorder remembers whether it has written an entry since its last flush, and flushes
only if it has. Here the task is taken apart from its writer, so that writes and flushes may fail
in any order. A written entry awaits a flush only while the task is dirty, or after it has ended
with a flush that failed. If the writer loses nothing by a failure, all other written entries have
come to the file. The writer of a recorder has nothing collected when the task is clean, whatever
its files are like.
-/

namespace RequestAudit.Log

theorem Task.IsRunning.ne_ended {t : Task} (h : t.IsRunning) : t ≠ .ended := by
  obtain ⟨dirty, rfl⟩ := h
  exact Task.noConfusion

/-- Something that entries are written to and that is flushed. Either may fail. -/
structure Medium (W : Type) where
  write : Entry → W → Option Fault × W
  flush : W → Option Fault × W

namespace Medium

/-- What the task meets with. -/
inductive Event where
  | entry (e : Entry)
  /-- No entry has come for a while. -/
  | idle
  /-- No handle and no entry is left. -/
  | closed

/-- What has come of a write or a flush. -/
inductive Outcome where
  | wrote (e : Entry)
  | refused (f : Fault)
  | flushed
  | unflushed (f : Fault)
  /-- The flush with which the task ends has failed. -/
  | leftUnflushed (f : Fault)

/-- The task at a medium, with all that has come of its writes and flushes. -/
structure Loop (W : Type) where
  task : Task := .running false
  medium : W
  outcomes : List Outcome := []

variable {W : Type} (m : Medium W)

def step (s : Loop W) : Event → Loop W
  | .entry e =>
    match s.task with
    | .running dirty => match m.write e s.medium with
      | (none, w) => ⟨.running true, w, s.outcomes ++ [.wrote e]⟩
      | (some f, w) => ⟨.running dirty, w, s.outcomes ++ [.refused f]⟩
    | _ => s
  | .idle =>
    match s.task with
    | .running true => match m.flush s.medium with
      | (none, w) => ⟨.running false, w, s.outcomes ++ [.flushed]⟩
      | (some f, w) => ⟨.running true, w, s.outcomes ++ [.unflushed f]⟩
    | _ => s
  | .closed =>
    match s.task with
    | .running true => match m.flush s.medium with
      | (none, w) => ⟨.ended, w, s.outcomes ++ [.flushed]⟩
      | (some f, w) => ⟨.ended, w, s.outcomes ++ [.leftUnflushed f]⟩
    | .running false => { s with task := .ended }
    | _ => s

def run (s : Loop W) (events : List Event) : Loop W := events.foldl m.step s

/-- All that a step can do. -/
inductive Next (s : Loop W) : Loop W → Prop
  | wrote {e : Entry} {w : W} (hrun : s.task.IsRunning) (h : m.write e s.medium = (none, w)) :
      Next s ⟨.running true, w, s.outcomes ++ [.wrote e]⟩
  | refused {e : Entry} {f : Fault} {w : W} (hrun : s.task.IsRunning)
      (h : m.write e s.medium = (some f, w)) :
      Next s ⟨s.task, w, s.outcomes ++ [.refused f]⟩
  | flushed {t : Task} {w : W} (hdirty : s.task = .running true)
      (h : m.flush s.medium = (none, w)) :
      Next s ⟨t, w, s.outcomes ++ [.flushed]⟩
  | unflushed {f : Fault} {w : W} (hdirty : s.task = .running true)
      (h : m.flush s.medium = (some f, w)) :
      Next s ⟨.running true, w, s.outcomes ++ [.unflushed f]⟩
  | leftUnflushed {f : Fault} {w : W} (hdirty : s.task = .running true)
      (h : m.flush s.medium = (some f, w)) :
      Next s ⟨.ended, w, s.outcomes ++ [.leftUnflushed f]⟩
  | ended (hclean : s.task = .running false) : Next s { s with task := .ended }
  | rest : Next s s

theorem next_step (s : Loop W) (event : Event) : m.Next s (m.step s event) := by
  cases event with
  | entry e =>
      simp only [step]
      split
      · rename_i dirty htask
        split
        · next hwrite => exact .wrote ⟨dirty, htask⟩ hwrite
        · next hwrite =>
            rw [← htask]
            exact .refused ⟨dirty, htask⟩ hwrite
      · exact .rest
  | idle =>
      simp only [step]
      split
      · next hdirty =>
          split
          · next hflush => exact .flushed hdirty hflush
          · next hflush => exact .unflushed hdirty hflush
      · exact .rest
  | closed =>
      simp only [step]
      split
      · next hdirty =>
          split
          · next hflush => exact .flushed hdirty hflush
          · next hflush => exact .leftUnflushed hdirty hflush
      · next hclean => exact .ended hclean
      · exact .rest

/-! ## Written entries and flushes -/

/-- The entries whose writes have succeeded, in order. -/
def written (os : List Outcome) : List Entry :=
  os.filterMap fun
    | .wrote e => some e
    | _ => none

/-- After some entry was written no flush has succeeded. -/
def AwaitsFlush (os : List Outcome) : Prop :=
  ∃ earlier e later, os = earlier ++ .wrote e :: later ∧ .flushed ∉ later

variable {os : List Outcome}

theorem written_concat (os : List Outcome) (o : Outcome) :
    written (os ++ [o]) = written os ++ written [o] := by
  rw [written, List.filterMap_append]
  rfl

theorem not_awaitsFlush_nil : ¬AwaitsFlush [] := by
  rintro ⟨earlier, e, later, hos, -⟩
  exact List.cons_ne_nil _ _ (List.append_eq_nil_iff.mp hos.symm).2

theorem awaitsFlush_concat {o : Outcome} :
    AwaitsFlush (os ++ [o]) ↔ (∃ e, o = .wrote e) ∨ AwaitsFlush os ∧ o ≠ .flushed := by
  constructor
  · rintro ⟨earlier, e, later, hos, hlater⟩
    rcases List.eq_nil_or_concat' later with rfl | ⟨later, o', rfl⟩
    · obtain ⟨-, ho⟩ := List.append_inj' hos rfl
      exact .inl ⟨e, List.singleton_inj.mp ho⟩
    · rw [← List.cons_append, ← List.append_assoc] at hos
      obtain ⟨rfl, ho⟩ := List.append_inj' hos rfl
      obtain rfl := List.singleton_inj.mp ho
      rw [List.mem_append, not_or, List.mem_singleton] at hlater
      exact .inr ⟨⟨earlier, e, later, rfl, hlater.1⟩, Ne.symm hlater.2⟩
  · rintro (⟨e, rfl⟩ | ⟨⟨earlier, e, later, rfl, hlater⟩, ho⟩)
    · exact ⟨os, e, [], rfl, List.not_mem_nil⟩
    · refine ⟨earlier, e, later ++ [o], by simp, ?_⟩
      rw [List.mem_append, not_or, List.mem_singleton]
      exact ⟨hlater, Ne.symm ho⟩

/-- The last flush was the one with which the task has ended, and it has failed. -/
def EndedUnflushed (s : Loop W) : Prop :=
  s.task = .ended ∧ ∃ f, s.outcomes.getLast? = some (.leftUnflushed f)

/-- Only a dirty task has written entries that await a flush, unless it has ended with a flush that
failed. -/
def Flagged (s : Loop W) : Prop :=
  AwaitsFlush s.outcomes → s.task = .running true ∨ EndedUnflushed s

variable {m} {s s' : Loop W}

theorem Flagged.next (h : Flagged s) (hs : m.Next s s') : Flagged s' := by
  intro hawaits
  cases hs with
  | wrote => exact .inl rfl
  | refused hrun =>
      rw [awaitsFlush_concat] at hawaits
      rcases hawaits with ⟨e, heq⟩ | ⟨hbefore, -⟩
      · cases heq
      rcases h hbefore with hdirty | ⟨hended, -⟩
      · exact .inl hdirty
      · exact absurd hended hrun.ne_ended
  | flushed =>
      rw [awaitsFlush_concat] at hawaits
      rcases hawaits with ⟨e, heq⟩ | ⟨-, hne⟩
      · cases heq
      · exact absurd rfl hne
  | unflushed => exact .inl rfl
  | leftUnflushed => exact .inr ⟨rfl, _, List.getLast?_concat⟩
  | ended hclean =>
      rcases h hawaits with hdirty | ⟨hended, -⟩
      · cases hclean.symm.trans hdirty
      · cases hclean.symm.trans hended
  | rest => exact h hawaits

/-! ## Entries in the file -/

/-- How a medium keeps what it is given, if a failure loses nothing: `Holds w done kept` says that
the entries `done` are in the file and `kept` are still in memory. -/
structure Keeps (m : Medium W) (Holds : W → List Entry → List Entry → Prop) : Prop where
  wrote : ∀ {w w' done kept e}, Holds w done kept → m.write e w = (none, w') →
    ∃ done' kept', Holds w' done' kept' ∧ done' ++ kept' = done ++ kept ++ [e]
  /-- A write that fails adds nothing. -/
  refused : ∀ {w w' done kept e f}, Holds w done kept → m.write e w = (some f, w') →
    Holds w' done kept
  flushed : ∀ {w w' done kept}, Holds w done kept → m.flush w = (none, w') →
    Holds w' (done ++ kept) []
  /-- A flush that fails removes nothing. -/
  unflushed : ∀ {w w' done kept f}, Holds w done kept → m.flush w = (some f, w') →
    Holds w' done kept

variable {Holds : W → List Entry → List Entry → Prop} {before : List Entry}

/-- The entries whose writes have succeeded are in the file and in memory, in order, and nothing is
in memory unless an entry awaits a flush. -/
def Accounts (Holds : W → List Entry → List Entry → Prop) (before : List Entry) (s : Loop W) :
    Prop :=
  ∃ done kept, Holds s.medium done kept ∧ done ++ kept = before ++ written s.outcomes ∧
    (kept ≠ [] → AwaitsFlush s.outcomes)

theorem Accounts.next (hm : m.Keeps Holds) (h : Accounts Holds before s) (hs : m.Next s s') :
    Accounts Holds before s' := by
  obtain ⟨done, kept, hholds, hes, hkept⟩ := h
  -- what fails changes neither the entries nor what they wait for
  have hfailed : ∀ {o : Outcome} {t : Task} {w : W}, written [o] = [] → o ≠ .flushed →
      Holds w done kept → Accounts Holds before ⟨t, w, s.outcomes ++ [o]⟩ := by
    intro o t w hnone hflushed hw
    refine ⟨done, kept, hw, ?_, fun hne => awaitsFlush_concat.mpr (.inr ⟨hkept hne, hflushed⟩)⟩
    rw [written_concat, hnone, List.append_nil, hes]
  cases hs with
  | @wrote e w _ hwrite =>
      obtain ⟨done', kept', hholds', hes'⟩ := hm.wrote hholds hwrite
      refine ⟨done', kept', hholds', ?_, fun _ => awaitsFlush_concat.mpr (.inl ⟨e, rfl⟩)⟩
      rw [hes', hes, written_concat, List.append_assoc]
      rfl
  | refused _ hwrite => exact hfailed rfl (by simp) (hm.refused hholds hwrite)
  | flushed _ hflush =>
      refine ⟨done ++ kept, [], hm.flushed hholds hflush, ?_, fun hne => absurd rfl hne⟩
      rw [List.append_nil, hes, written_concat]
      exact congrArg (before ++ ·) (List.append_nil _).symm
  | unflushed _ hflush => exact hfailed rfl (by simp) (hm.unflushed hholds hflush)
  | leftUnflushed _ hflush => exact hfailed rfl (by simp) (hm.unflushed hholds hflush)
  | ended => exact ⟨done, kept, hholds, hes, hkept⟩
  | rest => exact ⟨done, kept, hholds, hes, hkept⟩

theorem run_keeps {P : Loop W → Prop} (hstep : ∀ {s s'}, P s → m.Next s s' → P s') (hs : P s)
    (events : List Event) : P (m.run s events) := by
  induction events generalizing s with
  | nil => exact hs
  | cons event events ih => exact ih (hstep hs (m.next_step s event))

end Medium

open Medium (Event Outcome Loop)

/-! ## What a writer has collected -/

namespace Writer

variable {w w' : Writer} {fs fs' : Files} {f : Fault}

theorem collected_handOver (w : Writer) (bytes : List UInt8) (fs : Files) :
    (w.handOver bytes fs).writer.collected = w.collected := by
  unfold handOver
  split <;> rfl

theorem collected_drain (w : Writer) (fs : Files) :
    (w.drain fs).writer.collected = if (w.drain fs).fault?.isSome then w.collected else [] := by
  by_cases hempty : w.collected = []
  · simp [drain, hempty]
  · simp only [drain, List.isEmpty_iff, hempty, if_false]
    split
    · rename_i hfault
      simp [hfault, collected_handOver]
    · rename_i hfault
      simp [hfault]

/-- A write that fails adds nothing to what is collected. -/
theorem collected_of_write_fault {e : Entry} (h : w.write e fs = (some f, w', fs'))
    (hempty : w.collected = []) : w'.collected = [] := by
  have hdrain : w.drain fs = ⟨none, w, fs⟩ := by simp [drain, hempty]
  simp only [write, take, hdrain, ite_self] at h
  split_ifs at h
  · obtain ⟨-, hw⟩ := Prod.mk.inj h
    rw [← (Prod.mk.inj hw).1, collected_handOver, hempty]
  · simp at h

theorem collected_of_flush (h : w.flush fs = (none, w', fs')) : w'.collected = [] := by
  have hdrain := collected_drain w fs
  simp only [flush] at h
  split at h
  · simp at h
  · rename_i hfault
    rw [hfault] at hdrain
    obtain ⟨-, hw⟩ := Prod.mk.inj h
    rw [← (Prod.mk.inj hw).1]
    exact hdrain

end Writer

namespace Recorder

variable {r : Recorder} {fs : Files}

/-- The writer of a recorder and its files. -/
def medium : Medium (Writer × Files) where
  write e p := p.1.write e p.2
  flush p := p.1.flush p.2

/-- What a recorder does when its task meets with an event. -/
def meet (r : Recorder) (fs : Files) : Event → After
  | .entry e => { r with queue := e :: r.queue }.receive fs
  | .idle => r.timeOut fs
  | .closed => r.finish fs

/-- What a recorder reports of an outcome. -/
def noticesOf : Outcome → List Notice
  | .wrote _ => []
  | .refused f => [faultNotice "failed to write decision entry" f]
  | .flushed => []
  | .unflushed f => [faultNotice "periodic decision log flush failed" f]
  | .leftUnflushed f => [faultNotice "failed to flush decision log on shutdown" f]

structure After.Follows (a : After) (s : Loop (Writer × Files)) : Prop where
  task : a.recorder.task = s.task
  medium : (a.recorder.writer, a.files) = s.medium
  notices : a.notices = s.outcomes.flatMap noticesOf

/-- The task of a recorder is the task at its writer and its files. -/
theorem meet_follows (r : Recorder) (fs : Files) (event : Event) :
    (r.meet fs event).Follows (medium.step ⟨r.task, (r.writer, fs), []⟩ event) := by
  obtain ⟨writer, queue, handles, task, waited⟩ := r
  cases event with
  | entry e =>
      cases task with
      | running dirty =>
          simp only [meet, receive, Medium.step, medium]
          unfold record
          rcases writer.write e fs with ⟨_ | f, w, fs'⟩
          · exact ⟨rfl, rfl, rfl⟩
          · exact ⟨rfl, rfl, rfl⟩
      | ended => exact ⟨rfl, rfl, rfl⟩
      | stopped => exact ⟨rfl, rfl, rfl⟩
  | idle =>
      cases task with
      | running dirty =>
          cases dirty with
          | true =>
              simp only [meet, timeOut, Medium.step, medium]
              rcases writer.flush fs with ⟨_ | f, w, fs'⟩
              · exact ⟨rfl, rfl, rfl⟩
              · exact ⟨rfl, rfl, rfl⟩
          | false => exact ⟨rfl, rfl, rfl⟩
      | ended => exact ⟨rfl, rfl, rfl⟩
      | stopped => exact ⟨rfl, rfl, rfl⟩
  | closed =>
      cases task with
      | running dirty =>
          cases dirty with
          | true =>
              simp only [meet, finish, Medium.step, medium]
              rcases writer.flush fs with ⟨_ | f, w, fs'⟩
              · exact ⟨rfl, rfl, rfl⟩
              · exact ⟨rfl, rfl, rfl⟩
          | false => exact ⟨rfl, rfl, rfl⟩
      | ended => exact ⟨rfl, rfl, rfl⟩
      | stopped => exact ⟨rfl, rfl, rfl⟩

/-- The log is a file, with these entries in it and collected for it. -/
def FileHolds (l : Location) (content : List UInt8) (p : Writer × Files) (done kept : List Entry) :
    Prop :=
  p.1.target = l ∧ p.1.Splits p.2 content done kept

theorem medium_keeps (l : Location) (content : List UInt8) :
    medium.Keeps (FileHolds l content) where
  wrote := by
    intro (w, fs) p done kept e ⟨htarget, hsplit⟩ hwrite
    obtain ⟨w', fs', done', kept', hwrite', htarget', hsplit', hes⟩ := hsplit.write e
    obtain ⟨-, rfl⟩ := Prod.mk.inj (hwrite'.symm.trans hwrite)
    exact ⟨done', kept', ⟨htarget'.trans htarget, hsplit'⟩, hes⟩
  refused := by
    intro (w, fs) p done kept e f ⟨_, hsplit⟩ hwrite
    obtain ⟨w', fs', -, -, hwrite', -⟩ := hsplit.write e
    cases (hwrite'.symm.trans hwrite)
  flushed := by
    intro (w, fs) p done kept ⟨htarget, hsplit⟩ hflush
    obtain ⟨w', fs', hflush', htarget', hsplit'⟩ := hsplit.flush
    obtain ⟨-, rfl⟩ := Prod.mk.inj (hflush'.symm.trans hflush)
    exact ⟨htarget'.trans htarget, hsplit'⟩
  unflushed := by
    intro (w, fs) p done kept f ⟨_, hsplit⟩ hflush
    obtain ⟨w', fs', hflush', -⟩ := hsplit.flush
    cases (hflush'.symm.trans hflush)

/-! ## A recorder whose files may be anything -/

/-- A recorder meets with an event, with the files as they are then. The notices are all that it
has reported. -/
def meetNext (s : Recorder × List Notice) (x : Event × Files) : Recorder × List Notice :=
  let a := s.1.meet x.2 x.1
  (a.recorder, s.2 ++ a.notices)

/-- Only a dirty task has a writer with something collected, unless it has ended with a flush that
failed, and has reported it. -/
def Flagged (s : Recorder × List Notice) : Prop :=
  s.1.writer.collected ≠ [] → s.1.task = .running true ∨ s.1.task = .ended ∧
    ∃ f, s.2.getLast? = some (faultNotice "failed to flush decision log on shutdown" f)

theorem Flagged.meetNext {s : Recorder × List Notice} (h : Flagged s) (x : Event × Files) :
    Flagged (meetNext s x) := by
  obtain ⟨r, notices⟩ := s
  obtain ⟨event, fs⟩ := x
  have hfollows := meet_follows r fs event
  have hnext := medium.next_step ⟨r.task, (r.writer, fs), []⟩ event
  generalize medium.step ⟨r.task, (r.writer, fs), []⟩ event = s' at hfollows hnext
  obtain ⟨htask, hmedium, hnotices⟩ := hfollows
  intro hcollected
  change (r.meet fs event).recorder.writer.collected ≠ [] at hcollected
  change (r.meet fs event).recorder.task = _ ∨ (r.meet fs event).recorder.task = _ ∧
    ∃ f, (notices ++ (r.meet fs event).notices).getLast? = _
  rw [htask, hnotices]
  have hwriter : (r.meet fs event).recorder.writer = s'.medium.1 := congrArg Prod.fst hmedium
  rw [hwriter] at hcollected
  cases hnext with
  | wrote => exact .inl rfl
  | @refused e f p hrun hwrite =>
      have hbefore : r.writer.collected ≠ [] := fun hempty =>
        hcollected (Writer.collected_of_write_fault hwrite hempty)
      rcases h hbefore with hdirty | ⟨hended, -⟩
      · exact .inl hdirty
      · exact absurd hended hrun.ne_ended
  | flushed _ hflush => exact absurd (Writer.collected_of_flush hflush) hcollected
  | unflushed => exact .inl rfl
  | leftUnflushed => exact .inr ⟨rfl, _, List.getLast?_concat⟩
  | ended hclean =>
      rcases h hcollected with hdirty | ⟨hended, -⟩
      · cases hclean.symm.trans hdirty
      · cases hclean.symm.trans hended
  | rest =>
      rw [List.flatMap_nil, List.append_nil]
      exact h hcollected

end Recorder

/-! ## Runs -/

/-- Whatever becomes of its writes and flushes, a task that is clean has no written entry that
awaits a flush, and one that has ended has none unless the last flush has failed. At a medium that
loses nothing by a failure all other entries that were written are in the file, and a log that is a
file is such a medium. The task of a recorder is this task, and it leaves nothing in the memory of
its writer but when it is dirty or has reported that the last flush has failed, whatever its files
are. -/
theorem clean_task_is_flushed :
    (∀ (W : Type) (m : Medium W) (Holds : W → List Entry → List Entry → Prop) (w : W)
      (before : List Entry), m.Keeps Holds → Holds w before [] → ∀ events : List Event,
      let s := m.run { medium := w } events
      ∃ done kept, Holds s.medium done kept ∧ done ++ kept = before ++ Medium.written s.outcomes ∧
        (s.task = .running false → ¬Medium.AwaitsFlush s.outcomes ∧ kept = []) ∧
        (s.task = .ended → Medium.AwaitsFlush s.outcomes ∨ kept ≠ [] →
          ∃ f, s.outcomes.getLast? = some (.leftUnflushed f))) ∧
    (∀ l content, Recorder.medium.Keeps (Recorder.FileHolds l content)) ∧
    (∀ r fs event, (Recorder.meet r fs event).Follows
      (Recorder.medium.step ⟨r.task, (r.writer, fs), []⟩ event)) ∧
    ∀ (r : Recorder) (xs : List (Event × Files)), r.writer.collected = [] →
      Recorder.Flagged (xs.foldl Recorder.meetNext (r, [])) := by
  refine ⟨fun W m Holds w before hm hw events => ?_, Recorder.medium_keeps, Recorder.meet_follows,
    fun r xs hempty => ?_⟩
  · have haccounts : Medium.Accounts Holds before (m.run { medium := w } events) :=
      Medium.run_keeps (Medium.Accounts.next hm) ⟨before, [], hw, rfl, fun hne => absurd rfl hne⟩
        events
    have hflagged : Medium.Flagged (m.run { medium := w } events) :=
      Medium.run_keeps Medium.Flagged.next (fun hawaits => absurd hawaits Medium.not_awaitsFlush_nil)
        events
    obtain ⟨done, kept, hholds, hes, hkept⟩ := haccounts
    refine ⟨done, kept, hholds, hes, fun hclean => ?_, fun hended hleft => ?_⟩
    · have hnone : ¬Medium.AwaitsFlush (m.run { medium := w } events).outcomes := by
        intro hawaits
        rcases hflagged hawaits with hdirty | ⟨hended, -⟩
        · cases hclean.symm.trans hdirty
        · cases hclean.symm.trans hended
      exact ⟨hnone, not_not.mp fun hne => hnone (hkept hne)⟩
    · rcases hflagged (hleft.elim id hkept) with hdirty | ⟨-, hlast⟩
      · cases hended.symm.trans hdirty
      · exact hlast
  · exact List.foldlRecOn xs _ (fun hne => absurd hempty hne) fun _ hs x _ => hs.meetNext x

/-- A medium whose writes and flushes succeed and fail as it is told beforehand. -/
def scripted : Medium (List Entry × List Entry × List Bool) where
  write e
    | (done, kept, true :: script) => (none, done, kept ++ [e], script)
    | (done, kept, script) => (some (.write .noSpace), done, kept, script.tail)
  flush
    | (done, kept, true :: script) => (none, done ++ kept, [], script)
    | (done, kept, script) => (some (.flush .noSpace), done, kept, script.tail)

theorem scripted_keeps : scripted.Keeps fun w done kept => w.1 = done ∧ w.2.1 = kept where
  wrote := by
    rintro ⟨done, kept, _ | ⟨_ | _, script⟩⟩ w' _ _ e ⟨rfl, rfl⟩ hwrite
    all_goals cases hwrite
    exact ⟨done, kept ++ [e], ⟨rfl, rfl⟩, by simp⟩
  refused := by
    rintro ⟨done, kept, _ | ⟨_ | _, script⟩⟩ w' _ _ e f ⟨rfl, rfl⟩ hwrite
    all_goals cases hwrite
    all_goals exact ⟨rfl, rfl⟩
  flushed := by
    rintro ⟨done, kept, _ | ⟨_ | _, script⟩⟩ w' _ _ ⟨rfl, rfl⟩ hflush
    all_goals cases hflush
    exact ⟨rfl, rfl⟩
  unflushed := by
    rintro ⟨done, kept, _ | ⟨_ | _, script⟩⟩ w' _ _ f ⟨rfl, rfl⟩ hflush
    all_goals cases hflush
    all_goals exact ⟨rfl, rfl⟩

def scriptedRun : Loop (List Entry × List Entry × List Bool) :=
  scripted.run { medium := ([], [], [true, false, false, true]) }
    [.entry System.probe, .idle, .entry System.probe, .idle, .closed]

theorem Medium.run_entry_idle {W : Type} {m : Medium W} {w w' w'' : W} {e : Entry}
    (hwrite : m.write e w = (none, w')) (hflush : m.flush w' = (none, w'')) :
    m.run { medium := w } [.entry e, .idle] = ⟨.running false, w'', [.wrote e, .flushed]⟩ := by
  simp only [run, List.foldl_cons, List.foldl_nil, step, hwrite, hflush, List.nil_append,
    List.singleton_append]

/-- A writer before an empty log. -/
def fresh : Writer × Files :=
  ({ target := ["home", "log"] }, Files.empty.put ["home", "log"] (.file []))

theorem clean_task_is_flushed_scripted :
    (scriptedRun.task = .ended ∧ scriptedRun.medium.1 = [System.probe] ∧
      scriptedRun.medium.2.1 = []) ∧
    (∃ w fs, Recorder.medium.run { medium := fresh } [.entry System.probe, .idle] =
        ⟨.running false, (w, fs), [.wrote System.probe, .flushed]⟩ ∧
      fs.item? ["home", "log"] = some (.file (Writer.lineBytes System.probe))) ∧
    Recorder.Flagged ([(.entry System.probe, fresh.2), (.idle, Files.empty)].foldl
      Recorder.meetNext ({ writer := fresh.1 }, [])) := by
  obtain ⟨hruns, hfile, -, hrecorder⟩ := clean_task_is_flushed
  refine ⟨?_, ?_, hrecorder { writer := fresh.1 } _ rfl⟩
  · obtain ⟨done, kept, ⟨hdone, hkept⟩, hes, -, hended⟩ :=
      hruns _ scripted _ ([], [], [true, false, false, true]) [] scripted_keeps ⟨rfl, rfl⟩
        [.entry System.probe, .idle, .entry System.probe, .idle, .closed]
    obtain rfl : kept = [] := by
      by_contra hne
      obtain ⟨f, hf⟩ := hended rfl (.inr hne)
      cases hf
    rw [List.append_nil] at hes
    exact ⟨rfl, hdone.trans hes, hkept⟩
  · have hbegins : Recorder.FileHolds ["home", "log"] [] fresh [] [] :=
      ⟨rfl, ⟨Files.item?_put_self (List.cons_ne_nil _ _) _, rfl⟩, rfl⟩
    obtain ⟨w, fs, _, _, hwrite, -, hsplit, -⟩ := hbegins.2.write System.probe
    obtain ⟨w', fs', hflush, -, -⟩ := hsplit.flush
    have hrun : Recorder.medium.run { medium := fresh } [.entry System.probe, .idle] =
        ⟨.running false, (w', fs'), [.wrote System.probe, .flushed]⟩ :=
      Medium.run_entry_idle hwrite hflush
    obtain ⟨done, kept, ⟨htarget, hholds⟩, hes, hclean, -⟩ :=
      hruns _ Recorder.medium _ fresh [] (hfile _ _) hbegins [.entry System.probe, .idle]
    rw [hrun] at htarget hholds hes hclean
    obtain ⟨-, rfl⟩ := hclean rfl
    obtain rfl : done = [System.probe] := (List.append_nil done).symm.trans hes
    have hstands := hholds.stands.file
    rw [htarget, List.nil_append, List.flatMap_singleton] at hstands
    exact ⟨w', fs', hrun, hstands⟩

end RequestAudit.Log
