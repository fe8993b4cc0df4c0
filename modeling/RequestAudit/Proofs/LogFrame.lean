import Mathlib.Data.List.Basic
import RequestAudit.Program
import RequestAudit.Proofs.GrowingFiles
import RequestAudit.Proofs.InterruptedRuns
import RequestAudit.Proofs.Results

/-!
# What a run may change

A run that ends before it comes to the log leaves every file and folder as it was. All other runs
change nothing but the log, which only grows, and make folders where nothing stood. This holds of
every pace of the recorder, and also if the log cannot be opened or written.
-/

namespace RequestAudit

open Files

namespace Log.Recorder

variable {P : Writer → Files → Prop}

def After.Satisfies (P : Writer → Files → Prop) (a : After) : Prop := P a.recorder.writer a.files

/-- A step of the recorder or of those who hold it keeps a property of its writer. -/
def Lasts (P : Writer → Files → Prop) (step : Recorder → Files → After) : Prop :=
  ∀ r fs, P r.writer fs → (step r fs).Satisfies P

namespace Lasts

variable {f g : Recorder → Files → After}

theorem andThen (hf : Lasts P f) (hg : Lasts P g) : Lasts P fun r fs => (f r fs).andThen g :=
  fun r fs h => hg _ _ (hf r fs h)

theorem done : Lasts P fun r fs => ⟨r, fs, []⟩ := fun _ _ h => h

variable (hwrite : ∀ w fs e, P w fs → P (w.write e fs).2.1 (w.write e fs).2.2)
  (hflush : ∀ w fs, P w fs → P (w.flush fs).2.1 (w.flush fs).2.2)

include hwrite in
theorem record {r : Recorder} {fs : Files} (h : P r.writer fs) (dirty : Bool) (e : Entry) :
    (r.record dirty e fs).Satisfies P := by
  have hwritten := hwrite _ _ e h
  unfold Recorder.record
  split
  · rename_i hw
    rw [hw] at hwritten
    exact hwritten
  · rename_i hw
    rw [hw] at hwritten
    exact hwritten

include hwrite in
theorem receive : Lasts P Recorder.receive := by
  intro r fs h
  unfold Recorder.receive
  split
  · next dirty e queue _ _ => exact record hwrite (r := { r with queue }) h dirty e
  · exact h

include hflush in
theorem timeOut : Lasts P Recorder.timeOut := by
  intro r fs h
  have hflushed := hflush _ _ h
  unfold Recorder.timeOut
  split
  · split
    · rename_i hw
      rw [hw] at hflushed
      exact hflushed
    · rename_i hw
      rw [hw] at hflushed
      exact hflushed
  · exact h

include hflush in
theorem finish : Lasts P Recorder.finish := by
  intro r fs h
  have hflushed := hflush _ _ h
  unfold Recorder.finish
  split
  · split
    · rename_i hw
      rw [hw] at hflushed
      exact hflushed
    · rename_i hw
      rw [hw] at hflushed
      exact hflushed
  · exact h
  · exact h

include hwrite hflush

theorem turn (t : Turn) : Lasts P (Recorder.turn t) := by
  intro r fs h
  cases t with
  | work =>
      rw [Recorder.turn]
      split_ifs
      · exact finish hflush r fs h
      · exact receive hwrite r fs h
  | timeOut =>
      rw [Recorder.turn]
      split_ifs
      · exact timeOut hflush r fs h
      · exact h

theorem turns (ts : List Turn) : Lasts P (Recorder.turns ts) := by
  induction ts with
  | nil => exact done
  | cons t ts ih => exact (turn hwrite hflush t).andThen ih

omit hflush in
theorem log (e : Entry) : Lasts P (Recorder.log e) := by
  intro r fs h
  simp only [Recorder.log]
  split
  · split_ifs
    · exact h
    · exact receive hwrite r fs h
  · exact h

theorem logPaced (gaps : ℕ → List Turn) (es : List Entry) :
    Lasts P (Recorder.logPaced gaps es) := by
  induction es generalizing gaps with
  | nil => exact turns hwrite hflush (gaps 0)
  | cons e es ih =>
      have hlogged := (turns hwrite hflush (gaps 0)).andThen (log hwrite e)
      exact hlogged.andThen (ih fun i => gaps (i + 1))

omit hflush in
theorem receiveUpTo (n : ℕ) : Lasts P (Recorder.receiveUpTo n) := by
  induction n with
  | zero => exact done
  | succ n ih => exact (receive hwrite).andThen ih

theorem settle : Lasts P Recorder.settle := by
  intro r fs h
  have hreceived := receiveUpTo hwrite r.queue.length r fs h
  simp only [Recorder.settle]
  split_ifs
  · exact finish hflush _ _ hreceived
  · exact hreceived

theorem close : Lasts P Recorder.close :=
  fun r fs h => settle hwrite hflush { r with handles := 0 } fs h

end Lasts

end Log.Recorder

namespace Program

/-- What ends a run before it comes to the log. -/
inductive EndsEarly (args : List String) (fs : Files) (input : List UInt8) : Prop
  | arguments {r : CommandLine.Refusal} (h : CommandLine.parse args = .error r)
  | settings {options : CommandLine} {r : Settings.Refusal}
      (hparse : CommandLine.parse args = .ok options)
      (h : Settings.load fs options.settings = .error r)
  | policy {options : CommandLine} {settings : Settings} {notices : List Notice}
      {r : Policy.FileRefusal} (hparse : CommandLine.parse args = .ok options)
      (hload : Settings.load fs options.settings = .ok (settings, notices))
      (h : Policy.load fs (options.policy?.getD settings.policy) = .error r)
  | dump {options : CommandLine} (hparse : CommandLine.parse args = .ok options)
      (h : options.dumpRules = true)
  | requests {options : CommandLine} {path : String} {f : Files.Fault}
      (hparse : CommandLine.parse args = .ok options) (hpath : options.requests? = some path)
      (h : openRequests fs input path = .error f)

/-- The second store differs from the first one by a log that is longer, if the path leads to one,
and by folders where nothing stood. -/
structure OnlyLogs (path : String) (fs fs' : Files) : Prop where
  log : ∀ content, fs.read path = .ok content → ∃ more, fs'.read path = .ok (content ++ more)
  kept : ∀ l i, fs.item? l = some i → ∃ i', fs'.item? l = some i' ∧ i.Grows i'
  others : ∀ l, fs'.locate path ≠ .ok l →
    fs'.item? l = fs.item? l ∨ fs.item? l = none ∧ fs'.item? l = some .folder

variable {args : List String} {fs fs' : Files} {input : List UInt8} {path : String} {l : Location}

theorem OnlyLogs.of_grows (h : GrowsAt l fs fs') (hl : fs'.locate path = .ok l) :
    OnlyLogs path fs fs' where
  log := fun _ hread => h.read hread
  kept := fun _ _ hi => h.item? hi
  others := by
    intro k hk
    apply h.elsewhere
    rintro rfl
    exact hk hl

theorem OnlyLogs.of_makeParent (fs : Files) (path : String) :
    OnlyLogs path fs (fs.makeParent path).2 where
  log := fun _ hread => (GrowsAt.makeParent [] fs path).read hread
  kept := fun _ _ hi => (GrowsAt.makeParent [] fs path).item? hi
  others := fun l _ => moreFolders_makeParent fs path l

theorem files_of_endsEarly (h : EndsEarly args fs input) (stamps : ℕ → Stamp) (pace : Pace) :
    (run args stamps pace fs input).files = fs := by
  cases h with
  | arguments h => simp only [run, h]
  | settings hparse h => simp only [run, hparse, runWith, h]
  | policy hparse hload h => simp only [run, hparse, runWith, hload, Plan.follow, Plan.of, h]
  | dump hparse h =>
      simp only [run, hparse, runWith, Plan.follow, Plan.of, h, if_true]
      split
      · rfl
      · split <;> rfl
  | requests hparse hpath h =>
      simp only [run, hparse, runWith, Plan.follow, Plan.of, hpath, h]
      split
      · rfl
      · split
        · rfl
        · split_ifs <;> rfl

/-- Whatever becomes of the requests, the store only grows at the log. -/
theorem replay_grows (e : Evaluator) (stamps : ℕ → Stamp) (pace : Pace) (log : Log.Recorder)
    (fs : Files) (stream : Stream) :
    GrowsAt log.writer.target fs (replay e stamps pace log fs stream).files := by
  let P : Log.Writer → Files → Prop :=
    fun w gs => w.target = log.writer.target ∧ GrowsAt log.writer.target fs gs
  have hwrite : ∀ w gs e, P w gs → P (w.write e gs).2.1 (w.write e gs).2.2 :=
    fun w gs e hw => Log.Writer.write_extends hw.1 hw.2 e
  have hflush : ∀ w gs, P w gs → P (w.flush gs).2.1 (w.flush gs).2.2 :=
    fun w gs hw => Log.Writer.flush_extends hw.1 hw.2
  have hlogged := fun es =>
    Log.Recorder.Lasts.logPaced hwrite hflush pace.gaps es log fs ⟨rfl, .refl _ fs⟩
  have hleave : Log.Recorder.Lasts P (leave pace) :=
    fun r gs hr => Log.Recorder.Lasts.turns hwrite hflush pace.rest r.drop gs hr
  cases stream with
  | unreadable f => exact (hleave _ _ (hlogged [])).2
  | bytes bs =>
      have hentries := hlogged (Replay.run e stamps bs).entries
      simp only [replay]
      split
      · exact (hleave _ _ hentries).2
      · exact (Log.Recorder.Lasts.close hwrite hflush _ _ hentries).2

theorem onlyLogs_of_start_error {f : Log.Fault}
    (h : Log.Recorder.start fs path = (.error f, fs')) : OnlyLogs path fs fs' := by
  unfold Log.Recorder.start at h
  split at h
  · rename_i f gs hstart
    cases h
    rw [Log.Writer.files_of_start_error hstart]
    exact .of_makeParent fs path
  · cases h

theorem onlyLogs_of_not_endsEarly (h : ¬EndsEarly args fs input) (stamps : ℕ → Stamp)
    (pace : Pace) : ∃ options settings notices, CommandLine.parse args = .ok options ∧
      Settings.load fs options.settings = .ok (settings, notices) ∧
      OnlyLogs (options.output?.getD settings.logging.decisions) fs
        (run args stamps pace fs input).files := by
  obtain ⟨options, hparse⟩ := exists_ok fun r hr => h (.arguments hr)
  obtain ⟨⟨settings, notices⟩, hload⟩ := exists_ok fun r hr => h (.settings hparse hr)
  obtain ⟨p, hpolicy⟩ := exists_ok fun r hr => h (.policy hparse hload hr)
  have hdump : options.dumpRules = false := by
    apply Bool.eq_false_iff.mpr
    exact fun hdump => h (.dump hparse hdump)
  obtain ⟨requests, hrequests⟩ := CommandLine.exists_requests hparse hdump
  obtain ⟨stream, hopen⟩ := exists_ok fun f hf => h (.requests hparse hrequests hf)
  refine ⟨options, settings, notices, hparse, hload, ?_⟩
  generalize hpath : options.output?.getD settings.logging.decisions = path
  simp only [run, hparse, runWith, hload, Plan.follow, Plan.of, hpolicy, hdump, Bool.false_eq_true,
    if_false, hrequests, hopen, hpath]
  cases hstart : Log.Recorder.start fs path with
  | mk log opened =>
      cases log with
      | error f => exact onlyLogs_of_start_error hstart
      | ok r =>
          obtain ⟨w, hwriter, rfl⟩ := Log.System.recorder_of_start hstart
          have hopened := Log.Writer.start_extends hwriter
          have hsince := replay_grows (.ofPolicy p) stamps pace { writer := w } opened stream
          exact .of_grows (hopened.trans hsince)
            (hsince.locate (Log.Writer.locate_of_start hwriter))

/-- A run that ends early leaves the store as it was. Every other run only extends its log, which
may be named by the arguments, by the settings or by neither. -/
theorem run_only_logs (args : List String) (fs : Files) (input : List UInt8)
    (stamps : ℕ → Stamp) (pace : Pace) :
    (EndsEarly args fs input → (run args stamps pace fs input).files = fs) ∧
    (¬EndsEarly args fs input → ∃ options settings notices,
      CommandLine.parse args = .ok options ∧
      Settings.load fs options.settings = .ok (settings, notices) ∧
      OnlyLogs (options.output?.getD settings.logging.decisions) fs
        (run args stamps pace fs input).files) :=
  ⟨fun h => files_of_endsEarly h stamps pace, fun h => onlyLogs_of_not_endsEarly h stamps pace⟩

/-! ## A log that stands there before -/

def loggedFiles : Files :=
  Interruption.brokenFiles.put ["home", "decisions.jsonl"] (.file [0x78, 0x0a])

theorem parse_requests :
    CommandLine.parse ["-r", "requests"] = .ok { requests? := some "requests" } := rfl

theorem load_settings_loggedFiles : Settings.load loggedFiles "config.yaml" =
    .ok ({}, [Settings.missingNotice "config.yaml"]) := rfl

theorem not_endsEarly_loggedFiles : ¬EndsEarly ["-r", "requests"] loggedFiles [] := by
  intro h
  cases h with
  | arguments h =>
      rw [parse_requests] at h
      cases h
  | settings hparse h =>
      cases parse_requests.symm.trans hparse
      rw [load_settings_loggedFiles] at h
      cases h
  | policy hparse hload h =>
      cases parse_requests.symm.trans hparse
      cases load_settings_loggedFiles.symm.trans hload
      rw [Interruption.load_empty rfl] at h
      cases h
  | dump hparse h =>
      cases parse_requests.symm.trans hparse
      cases h
  | requests hparse hpath h =>
      cases parse_requests.symm.trans hparse
      cases hpath
      cases h

theorem run_only_logs_requests :
    (run ["-r", "absent"] (fun _ => .zero) .settled loggedFiles []).files = loggedFiles ∧
    ∃ more, (run ["-r", "requests"] (fun _ => .zero) .settled loggedFiles []).files.read
      "decisions.jsonl" = .ok ([0x78, 0x0a] ++ more) := by
  constructor
  · have habsent : openRequests loggedFiles [] "absent" = .error .notFound := rfl
    have hearly : EndsEarly ["-r", "absent"] loggedFiles [] := .requests rfl rfl habsent
    exact (run_only_logs _ _ _ (fun _ => .zero) .settled).1 hearly
  · obtain ⟨options, settings, notices, hparse, hload, honly⟩ :=
      (run_only_logs _ _ _ (fun _ => .zero) .settled).2 not_endsEarly_loggedFiles
    cases parse_requests.symm.trans hparse
    cases load_settings_loggedFiles.symm.trans hload
    exact honly.log _ rfl

end Program

end RequestAudit
