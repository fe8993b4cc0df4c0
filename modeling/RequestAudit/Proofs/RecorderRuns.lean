import Mathlib.Data.List.Perm.Basic
import Mathlib.Logic.Relation
import RequestAudit.Proofs.RecorderSteps

/-!
# Runs of a recorder

Those who hold handles and the task take their steps in any order. Two invariants carry every
run: one of the handles and the calls, whatever becomes of the files, and one of the bytes of the
log, as long as it is a file.
-/

namespace RequestAudit

namespace Log

open Recorder (capacity dropNotice)

/-- A recorder among those who hold its handles, with what has happened so far. -/
structure System where
  recorder : Recorder
  files : Files
  /-- The handles that are not given up. -/
  alive : List ℕ
  /-- The handle that the next copy will be. -/
  fresh : ℕ
  /-- The calls that wait for the queue, in the order in which they were made. -/
  waiting : List (ℕ × Entry) := []
  /-- All calls, with their handles. -/
  calls : List (ℕ × Entry) := []
  /-- The calls that have come back, in the order in which they did. -/
  logged : List (ℕ × Entry) := []
  notices : List Notice := []

namespace System

/-- A recorder that has just been started. -/
def initial (r : Recorder) (fs : Files) : System where
  recorder := r
  files := fs
  alive := [0]
  fresh := 1

def after (s : System) (a : Recorder.After) : System :=
  { s with recorder := a.recorder, files := a.files, notices := s.notices ++ a.notices }

/-- The calls by a handle. -/
def callsBy (h : ℕ) (cs : List (ℕ × Entry)) : List (ℕ × Entry) := cs.filter (·.1 = h)

/-- A step of someone who holds a handle, or of the task. A handle may be given up when none of
its calls waits, and calls by one handle get on in order; one that meets a full queue gets on
once the task has taken an entry. The task ends when it finds neither a handle nor an entry. -/
inductive Step (s : System) : System → Prop
  | clone {h : ℕ} (hh : h ∈ s.alive) :
      Step s { s with
        recorder := s.recorder.clone
        alive := s.alive ++ [s.fresh]
        fresh := s.fresh + 1 }
  | call {h : ℕ} (e : Entry) (hh : h ∈ s.alive) :
      Step s { s with waiting := s.waiting ++ [(h, e)], calls := s.calls ++ [(h, e)] }
  | log {h : ℕ} {e : Entry} {earlier later : List (ℕ × Entry)}
      (hwaiting : s.waiting = earlier ++ (h, e) :: later) (hfirst : callsBy h earlier = []) :
      Step s { s.after (s.recorder.log e s.files) with
        waiting := earlier ++ later
        logged := s.logged ++ [(h, e)] }
  | drop {h : ℕ} (hh : h ∈ s.alive) (hidle : callsBy h s.waiting = []) :
      Step s { s with recorder := s.recorder.drop, alive := s.alive.erase h }
  | receive (hrun : s.recorder.task.IsRunning) :
      Step s (s.after (s.recorder.receive s.files))
  | timeOut (hrun : s.recorder.task.IsRunning) :
      Step s (s.after (s.recorder.timeOut s.files))
  | finish (hrun : s.recorder.task.IsRunning) (hhandles : s.recorder.handles = 0)
      (hqueue : s.recorder.queue = []) :
      Step s (s.after (s.recorder.finish s.files))

abbrev Run := Relation.ReflTransGen Step

variable {s s' : System} {r : Recorder} {fs fs' : Files}

/-! ## Handles and calls -/

theorem callsBy_append (h : ℕ) (cs cs' : List (ℕ × Entry)) :
    callsBy h (cs ++ cs') = callsBy h cs ++ callsBy h cs' := List.filter_append ..

theorem callsBy_cons (h k : ℕ) (e : Entry) (cs : List (ℕ × Entry)) :
    callsBy k ((h, e) :: cs) = callsBy k [(h, e)] ++ callsBy k cs :=
  callsBy_append k [(h, e)] cs

theorem callsBy_of_ne {h k : ℕ} (hk : h ≠ k) (e : Entry) : callsBy k [(h, e)] = [] := by
  simp [callsBy, hk]

/-- To take the first call by a handle leaves the order of calls by every handle. -/
theorem callsBy_take {h : ℕ} {e : Entry} {earlier later : List (ℕ × Entry)}
    (hfirst : callsBy h earlier = []) (k : ℕ) :
    callsBy k (earlier ++ (h, e) :: later) =
      callsBy k [(h, e)] ++ callsBy k (earlier ++ later) := by
  rw [callsBy_append, callsBy_append, callsBy_cons]
  by_cases hk : h = k
  · subst hk
    rw [hfirst, List.nil_append, List.nil_append]
  · rw [callsBy_of_ne hk, List.nil_append, List.nil_append]

theorem perm_of_callsBy {cs cs' : List (ℕ × Entry)} (h : ∀ k, callsBy k cs = callsBy k cs') :
    cs.Perm cs' := by
  rw [List.perm_iff_count]
  rintro ⟨k, e⟩
  have hcount : ∀ l, List.count (k, e) l = List.count (k, e) (callsBy k l) := by
    intro l
    exact (List.count_filter (by simp)).symm
  rw [hcount cs, hcount cs', h k]

/-- The bookkeeping of a recorder and of those who hold its handles. -/
structure Orderly (s : System) : Prop where
  handles : s.recorder.handles = s.alive.length
  task : s.recorder.task.IsRunning ∨
    s.recorder.task = .ended ∧ s.alive = [] ∧ s.recorder.queue = []
  room : s.recorder.queue.length ≤ capacity
  waiting : ∀ c ∈ s.waiting, c.1 ∈ s.alive
  calls : ∀ h, callsBy h s.logged ++ callsBy h s.waiting = callsBy h s.calls
  faults : ∀ n ∈ s.notices, n.severity = .error

theorem Orderly.isRunning {h : ℕ} (ho : Orderly s) (hh : h ∈ s.alive) :
    s.recorder.task.IsRunning := by
  rcases ho.task with hrun | ⟨_, halive, _⟩
  · exact hrun
  · rw [halive] at hh
    cases hh

theorem Orderly.faults_append (ho : Orderly s) {ns : List Notice}
    (hns : ∀ n ∈ ns, n.severity = .error) : ∀ n ∈ s.notices ++ ns, n.severity = .error := by
  intro n hn
  rcases List.mem_append.mp hn with hold | hnew
  · exact ho.faults n hold
  · exact hns n hnew

theorem Orderly.after (ho : Orderly s) {queue : List Entry} {a : Recorder.After}
    (ha : s.recorder.Steady queue a) (hroom : queue.length ≤ capacity) :
    Orderly (s.after a) where
  handles := ha.handles.trans ho.handles
  task := .inl ha.running
  room := by
    rw [System.after, ha.queue]
    exact hroom
  waiting := ho.waiting
  calls := ho.calls
  faults := ho.faults_append ha.faults

theorem Orderly.log (ho : Orderly s) {h : ℕ} {e : Entry} {earlier later : List (ℕ × Entry)}
    (hwaiting : s.waiting = earlier ++ (h, e) :: later) (hfirst : callsBy h earlier = []) :
    Orderly { s.after (s.recorder.log e s.files) with
      waiting := earlier ++ later
      logged := s.logged ++ [(h, e)] } := by
  have hmem : ∀ c, c ∈ s.waiting ↔ c = (h, e) ∨ c ∈ earlier ++ later := by
    intro c
    rw [hwaiting]
    exact List.perm_middle.mem_iff.trans List.mem_cons
  have hrun := ho.isRunning (ho.waiting (h, e) ((hmem _).mpr (.inl rfl)))
  obtain ⟨queue, hsteady, hroom⟩ := Recorder.log_steady hrun ho.room e s.files
  have hafter := ho.after hsteady hroom
  refine ⟨hafter.handles, hafter.task, hafter.room, ?_, ?_, hafter.faults⟩
  · intro c hc
    exact ho.waiting c ((hmem c).mpr (.inr hc))
  · intro k
    rw [callsBy_append, List.append_assoc, ← callsBy_take hfirst, ← hwaiting]
    exact ho.calls k

/-- A handle that is given up leaves the handles of all calls that wait. -/
theorem Orderly.drop (ho : Orderly s) {h : ℕ} (hh : h ∈ s.alive)
    (hidle : callsBy h s.waiting = []) :
    Orderly { s with recorder := s.recorder.drop, alive := s.alive.erase h } := by
  refine ⟨?_, .inl (ho.isRunning hh), ho.room, ?_, ho.calls, ho.faults⟩
  · rw [Recorder.drop, ho.handles, List.length_erase_of_mem hh]
  · intro c hc
    have hne : c.1 ≠ h := by
      intro hch
      have : c ∈ callsBy h s.waiting := List.mem_filter.mpr ⟨hc, by simpa using hch⟩
      rw [hidle] at this
      cases this
    exact (List.mem_erase_of_ne hne).mpr (ho.waiting c hc)

theorem Orderly.finish (ho : Orderly s) (hrun : s.recorder.task.IsRunning)
    (hhandles : s.recorder.handles = 0) (hqueue : s.recorder.queue = []) :
    Orderly (s.after (s.recorder.finish s.files)) := by
  obtain ⟨hended, hsame, hleft, hfaults⟩ := Recorder.finish_spec hrun s.files
  have halive : s.alive = [] := List.length_eq_zero_iff.mp (ho.handles.symm.trans hhandles)
  refine ⟨hsame.trans ho.handles, .inr ⟨hended, halive, hleft.trans hqueue⟩, ?_, ho.waiting,
    ho.calls, ho.faults_append hfaults⟩
  rw [System.after, hleft]
  exact ho.room

theorem Orderly.step (ho : Orderly s) (hs : Step s s') : Orderly s' := by
  cases hs with
  | clone hh =>
      refine ⟨?_, .inl (ho.isRunning hh), ho.room, ?_, ho.calls, ho.faults⟩
      · rw [Recorder.clone, ho.handles, List.length_append, List.length_singleton]
      · intro c hc
        exact List.mem_append_left _ (ho.waiting c hc)
  | call e hh =>
      refine ⟨ho.handles, ho.task, ho.room, ?_, ?_, ho.faults⟩
      · intro c hc
        rcases List.mem_append.mp hc with hold | hnew
        · exact ho.waiting c hold
        · rw [List.mem_singleton.mp hnew]
          exact hh
      · intro k
        rw [callsBy_append, callsBy_append, ← List.append_assoc, ho.calls k]
  | log hwaiting hfirst => exact ho.log hwaiting hfirst
  | drop hh hidle => exact ho.drop hh hidle
  | receive hrun =>
      refine ho.after (Recorder.receive_steady hrun s.files) ?_
      rw [List.length_tail]
      exact Nat.le_trans (Nat.sub_le _ _) ho.room
  | timeOut hrun => exact ho.after (Recorder.timeOut_steady hrun s.files) ho.room
  | finish hrun hhandles hqueue => exact ho.finish hrun hhandles hqueue

theorem Orderly.initial (hhandles : r.handles = 1) (htask : r.task.IsRunning)
    (hqueue : r.queue = []) (fs : Files) : Orderly (initial r fs) where
  handles := hhandles
  task := .inl htask
  room := by
    rw [System.initial, hqueue]
    exact Nat.zero_le _
  waiting := by simp [System.initial]
  calls := fun _ => rfl
  faults := by simp [System.initial]

/-! ## Every run can come to its end -/

theorem exists_run_waiting (ho : Orderly s) :
    ∃ s', Run s s' ∧ Orderly s' ∧ s'.calls = s.calls ∧ s'.logged = s.logged ++ s.waiting ∧
      s'.waiting = [] := by
  induction hwaiting : s.waiting generalizing s with
  | nil => exact ⟨s, .refl, ho, rfl, (List.append_nil _).symm, hwaiting⟩
  | cons c later ih =>
      have hs := @Step.log s c.1 c.2 [] later hwaiting rfl
      obtain ⟨s', hrun, ho', hcalls, hlogged, hdone⟩ := ih (ho.step hs) rfl
      refine ⟨s', hrun.head hs, ho', hcalls, ?_, hdone⟩
      rw [hlogged, List.append_assoc, List.singleton_append]

theorem exists_run_alive (ho : Orderly s) (hwaiting : s.waiting = []) :
    ∃ s', Run s s' ∧ Orderly s' ∧ s'.calls = s.calls ∧ s'.logged = s.logged ∧ s'.alive = [] := by
  induction halive : s.alive generalizing s with
  | nil => exact ⟨s, .refl, ho, rfl, rfl, halive⟩
  | cons h others ih =>
      have hh : h ∈ s.alive := by
        rw [halive]
        exact List.mem_cons_self
      have hs := Step.drop hh (by rw [hwaiting]; rfl)
      have hothers : s.alive.erase h = others := by
        rw [halive, List.erase_cons_head]
      obtain ⟨s', hrun, ho', hcalls, hlogged, hdone⟩ := ih (ho.step hs) hwaiting hothers
      exact ⟨s', hrun.head hs, ho', hcalls, hlogged, hdone⟩

theorem exists_run_queue (ho : Orderly s) (hrunning : s.recorder.task.IsRunning)
    (halive : s.alive = []) :
    ∃ s', Run s s' ∧ s'.calls = s.calls ∧ s'.logged = s.logged ∧ s'.recorder.task = .ended := by
  induction hqueue : s.recorder.queue generalizing s with
  | nil =>
      have hhandles : s.recorder.handles = 0 := by
        rw [ho.handles, halive, List.length_nil]
      exact ⟨_, .single (.finish hrunning hhandles hqueue), rfl, rfl,
        (Recorder.finish_spec hrunning s.files).1⟩
  | cons e queue ih =>
      have hs : Step s (s.after (s.recorder.receive s.files)) := .receive hrunning
      have hsteady := Recorder.receive_steady hrunning s.files
      have hleft : (s.recorder.receive s.files).recorder.queue = queue := by
        rw [hsteady.queue, hqueue, List.tail_cons]
      obtain ⟨s', hrun, hcalls, hlogged, hended⟩ := ih (ho.step hs) hsteady.running halive hleft
      exact ⟨s', hrun.head hs, hcalls, hlogged, hended⟩

/-- From every state the calls that wait can get on in their order, the handles be given up and the
task end. -/
theorem exists_run_to_end (ho : Orderly s) :
    ∃ s', Run s s' ∧ s'.calls = s.calls ∧ s'.logged = s.logged ++ s.waiting ∧
      s'.recorder.task = .ended := by
  obtain ⟨s₁, hrun₁, ho₁, hcalls₁, hlogged₁, hwaiting⟩ := exists_run_waiting ho
  obtain ⟨s₂, hrun₂, ho₂, hcalls₂, hlogged₂, halive⟩ := exists_run_alive ho₁ hwaiting
  have hcalls := hcalls₂.trans hcalls₁
  have hlogged := hlogged₂.trans hlogged₁
  rcases ho₂.task with hrunning | ⟨hended, _⟩
  · obtain ⟨s₃, hrun₃, hcalls₃, hlogged₃, hended⟩ := exists_run_queue ho₂ hrunning halive
    exact ⟨s₃, (hrun₁.trans hrun₂).trans hrun₃, hcalls₃.trans hcalls, hlogged₃.trans hlogged,
      hended⟩
  · exact ⟨s₂, hrun₁.trans hrun₂, hcalls, hlogged, hended⟩

/-! ## The bytes of the log -/

/-- The lines of entries, one after another. -/
def lines (cs : List (ℕ × Entry)) : List UInt8 := cs.flatMap fun c => Writer.lineBytes c.2

/-- The log holds what stood there before and then a line for every call that has come back. -/
def Tells (l : Location) (before : List UInt8) (s : System) : Prop :=
  s.recorder.Holds s.files l (before ++ lines s.logged) ∧ s.notices = []

variable {l : Location} {before : List UInt8}

theorem Tells.after (ht : Tells l before s) {a : Recorder.After}
    (ha : Recorder.Keeps l (before ++ lines s.logged) a) : Tells l before (s.after a) := by
  refine ⟨ha.holds, ?_⟩
  rw [System.after, ha.silent, ht.2]
  rfl

theorem Tells.step (ht : Tells l before s) (ho : Orderly s) (hs : Step s s') :
    Tells l before s' := by
  obtain ⟨hholds, hsilent⟩ := ht
  cases hs with
  | clone hh => exact ⟨⟨hholds.target, hholds.text, hholds.clean⟩, hsilent⟩
  | call e hh => exact ⟨hholds, hsilent⟩
  | @log h e earlier later hwaiting hfirst =>
      have hrun : s.recorder.task.IsRunning := by
        refine ho.isRunning (ho.waiting (h, e) ?_)
        simp [hwaiting]
      obtain ⟨hkept, hquiet⟩ := Recorder.log_keeps hholds hrun e
      refine ⟨?_, ?_⟩
      · rw [List.append_assoc] at hkept
        simpa [lines, System.after] using hkept
      · simp [System.after, hquiet, hsilent]
  | drop hh hidle => exact ⟨⟨hholds.target, hholds.text, hholds.clean⟩, hsilent⟩
  | receive hrun => exact Tells.after ⟨hholds, hsilent⟩ (Recorder.receive_keeps hholds)
  | timeOut hrun => exact Tells.after ⟨hholds, hsilent⟩ (Recorder.timeOut_keeps hholds)
  | finish hrun hhandles hqueue =>
      exact Tells.after ⟨hholds, hsilent⟩ (Recorder.finish_keeps hholds hrun)

/-! ## Whole runs -/

theorem Orderly.run (ho : Orderly s) (hrun : Run s s') : Orderly s' := by
  induction hrun with
  | refl => exact ho
  | tail _ hs ih => exact ih.step hs

theorem Tells.run (ht : Tells l before s) (ho : Orderly s) (hrun : Run s s') :
    Tells l before s' := by
  induction hrun with
  | refl => exact ht
  | tail hsofar hs ih => exact ih.step (ho.run hsofar) hs

theorem recorder_of_start {path : String} (h : Recorder.start fs path = (.ok r, fs')) :
    ∃ w, Writer.start fs path = (.ok w, fs') ∧ r = { writer := w } := by
  unfold Recorder.start at h
  split at h
  · cases h
  · rename_i w gs hwriter
    cases h
    exact ⟨w, hwriter, rfl⟩

theorem orderly_of_start {path : String} (h : Recorder.start fs path = (.ok r, fs')) :
    Orderly (initial r fs') := by
  obtain ⟨w, _, rfl⟩ := recorder_of_start h
  exact .initial rfl ⟨false, rfl⟩ rfl fs'

theorem tells_of_start {path : String} (h : Recorder.start fs path = (.ok r, fs'))
    (hbefore : fs.BeginsWith r.writer.target before) :
    Tells r.writer.target before (initial r fs') := by
  obtain ⟨w, hwriter, rfl⟩ := recorder_of_start h
  obtain ⟨_, _, _, hempty, _⟩ := Writer.openEnd_of_start hwriter
  refine ⟨⟨rfl, ⟨before, Writer.stands_of_start hwriter hbefore, ?_⟩, .inr hempty⟩, rfl⟩
  change before ++ w.collected ++ [] = before ++ []
  rw [hempty, List.append_nil]

theorem dropNotice_notMem (ho : Orderly s) (e : Entry) : dropNotice e ∉ s.notices := by
  intro hmem
  have := ho.faults _ hmem
  cases this

/-- The log is what stood there before and then every call's line, once and in the order in which
the queue has accepted them. Calls by one handle are in the order in which they were made. -/
structure Complete (l : Location) (before : List UInt8) (s : System) : Prop where
  file : s.files.item? l = some (.file (before ++ lines s.logged))
  once : s.logged.Perm s.calls
  ordered : ∀ h, callsBy h s.logged = callsBy h s.calls
  queue : s.recorder.queue = []
  collected : s.recorder.writer.collected = []

theorem complete_of_ended (ho : Orderly s) (ht : Tells l before s)
    (hended : s.recorder.task = .ended) : Complete l before s := by
  have hidle : s.alive = [] ∧ s.recorder.queue = [] := by
    rcases ho.task with ⟨dirty, hdirty⟩ | ⟨_, hidle⟩
    · rw [hended] at hdirty
      cases hdirty
    · exact hidle
  obtain ⟨halive, hqueue⟩ := hidle
  have hwaiting : s.waiting = [] := by
    refine List.eq_nil_iff_forall_not_mem.mpr fun c hc => ?_
    have := ho.waiting c hc
    rw [halive] at this
    cases this
  have hordered : ∀ h, callsBy h s.logged = callsBy h s.calls := by
    intro h
    have := ho.calls h
    rwa [hwaiting, show callsBy h [] = [] from rfl, List.append_nil] at this
  obtain ⟨hfile, hempty⟩ := ht.1.of_ended hended hqueue
  exact ⟨hfile, perm_of_callsBy hordered, hordered, hqueue, hempty⟩

/-- In every run the task is at work as long as a handle is alive, so that no entry is dropped for
want of it; and if the log is a file, a task that has ended leaves it complete. -/
theorem run_complete {path : String} (hstart : Recorder.start fs path = (.ok r, fs'))
    (hrun : Run (initial r fs') s) :
    (s.alive ≠ [] → s.recorder.task.IsRunning) ∧ s.recorder.queue.length ≤ capacity ∧
      (∀ e, dropNotice e ∉ s.notices) ∧
      ∀ before, fs.BeginsWith r.writer.target before →
        s.notices = [] ∧
          (s.recorder.task = .ended → Complete r.writer.target before s) := by
  have hinitial := orderly_of_start hstart
  have ho := hinitial.run hrun
  refine ⟨fun halive => ?_, ho.room, dropNotice_notMem ho, fun before hbefore => ?_⟩
  · obtain ⟨h, hh⟩ := List.exists_mem_of_ne_nil _ halive
    exact ho.isRunning hh
  · have ht := (tells_of_start hstart hbefore).run hinitial hrun
    exact ⟨ht.2, complete_of_ended ho ht⟩

/-! ## Two handles and a time-out -/

def probe : Entry := ⟨.zero, ⟨none, "get", .path "/healthz"⟩, ⟨.metadata, [], false⟩, none⟩

def change : Entry :=
  ⟨.zero, ⟨"ann", "update", .resource { type := "pods" }⟩, ⟨.request, [.panic], true⟩, some 2⟩

def removal : Entry :=
  ⟨.zero, ⟨"ann", "delete", .resource { type := "pods" }⟩, ⟨.metadata, [], false⟩, some 0⟩

/-- A recorder whose log is not empty when it is started. -/
def begun : System :=
  initial { writer := { target := ["home", "log"] } }
    (Files.empty.put ["home", "log"] (.file [0x78, 0x0a]))

/-- There is a second handle, and calls by both of them wait. -/
def called : System :=
  let calls := [(0, probe), (1, change), (0, removal)]
  { begun with
    recorder := begun.recorder.clone
    alive := [0, 1]
    fresh := 2
    waiting := calls
    calls }

theorem run_called : Run begun called :=
  (((Relation.ReflTransGen.single (.clone (h := 0) (by decide))).tail
    (.call (h := 0) probe (by decide))).tail
    (.call (h := 1) change (by decide))).tail
    (.call (h := 0) removal (by decide))

theorem exists_run_overtaken :
    ∃ s, Run begun s ∧ s.alive = [0, 1] ∧ s.recorder.queue = [change] ∧ s.calls = called.calls ∧
      s.logged = [(1, change)] ∧ s.waiting = [(0, probe), (0, removal)] := by
  have hwaiting : called.waiting = [(0, probe)] ++ (1, change) :: [(0, removal)] := rfl
  exact ⟨_, run_called.tail (.log hwaiting rfl), rfl, rfl, rfl, rfl, rfl⟩

/-- The call by the second handle overtakes those by the first one, and the task waits in vain
before these get on. -/
theorem run_complete_probe :
    ∃ s s', Run begun s ∧ s.alive = [0, 1] ∧ s.recorder.queue = [] ∧ s.calls = called.calls ∧
      s.logged = [(1, change)] ∧ s.recorder.task.IsRunning ∧
      Run (s.after (s.recorder.timeOut s.files)) s' ∧ s'.recorder.task = .ended ∧
      s'.calls = called.calls ∧ s'.logged = [(1, change), (0, probe), (0, removal)] ∧
      s'.files.item? ["home", "log"] = some (.file ([0x78, 0x0a] ++ (Writer.lineBytes change ++
        (Writer.lineBytes probe ++ Writer.lineBytes removal)))) ∧ s'.notices = [] := by
  have hstart : Recorder.start begun.files "log" = (.ok begun.recorder, begun.files) := rfl
  have ho := orderly_of_start hstart
  obtain ⟨s, hrun, halive, hqueue, hcalls, hlogged, hwaiting⟩ := exists_run_overtaken
  have hworking := (run_complete hstart hrun).1 (by simp [halive])
  have hreceived := hrun.tail (.receive hworking)
  have hempty := (Recorder.receive_steady hworking s.files).queue
  rw [hqueue, List.tail_cons] at hempty
  have hwaits := (run_complete hstart hreceived).1 (by simp [System.after, halive])
  have htimedOut := hreceived.tail (.timeOut hwaits)
  obtain ⟨s', hrest, hcalls', hlogged', hended⟩ := exists_run_to_end (ho.run htimedOut)
  have horder : s'.logged = [(1, change), (0, probe), (0, removal)] := by
    simp [hlogged', System.after, hlogged, hwaiting]
  obtain ⟨-, -, -, hbytes⟩ := run_complete hstart (htimedOut.trans hrest)
  obtain ⟨hnotices, hcomplete⟩ := hbytes [0x78, 0x0a] (.inl rfl)
  have hfile : s'.files.item? ["home", "log"] = some (.file ([0x78, 0x0a] ++ lines s'.logged)) :=
    (hcomplete hended).file
  refine ⟨_, s', hreceived, halive, hempty, hcalls, hlogged, hwaits, hrest, hended,
    hcalls'.trans hcalls, horder, ?_, hnotices⟩
  simpa [horder, lines] using hfile

end System

end Log

end RequestAudit
