import Mathlib
import RequestAudit.Program
import RequestAudit.Proofs.ArgumentLists
import RequestAudit.Proofs.JoinedReplays
import RequestAudit.Proofs.RecorderRuns
import RequestAudit.Proofs.WholeLines

/-!
# Runs that are interrupted

A run that comes upon bytes that are no text fails, and it does not wait for the recorder. Its log
then has the lines of the first entries, how many depends on when the recorder gets its turns. The
log is complete in every case only if there was nothing to log.
-/

namespace RequestAudit

namespace Replay

open Text

/-- A replay takes the texts before the first line that is no text. -/
theorem run_of_broken (e : Evaluator) (stamps : ℕ → Stamp) {recording line : List UInt8}
    {earlier : List (List Char)} {later : List (List UInt8)} {f : Utf8.Fault}
    (hlines : split recording = earlier.map Utf8.encode ++ line :: later)
    (hline : Utf8.decode line = .error f) :
    (run e stamps recording).fault? = some f ∧
      (run e stamps recording).entries = entriesOf e stamps (requests (earlier.map parse)) := by
  have htexts : texts (split recording) = (earlier, some f) := by
    rw [hlines, texts_append_of_none (by rw [texts_map_encode]), texts_map_encode, texts, hline]
    simp
  rw [run_eq, htexts]
  exact ⟨rfl, (follows_foldl e stamps earlier).entries⟩

end Replay

namespace Log.Recorder

theorem isOpen_of_start {r : Recorder} {fs fs' : Files} {path : String}
    (h : start fs path = (.ok r, fs')) : r.IsOpen := by
  obtain ⟨w, -, rfl⟩ := System.recorder_of_start h
  exact ⟨⟨false, rfl⟩, rfl⟩

theorem records_of_start {r : Recorder} {fs fs' : Files} {path : String} {before : List UInt8}
    (h : start fs path = (.ok r, fs')) (hbefore : fs.BeginsWith r.writer.target before) :
    r.Records fs' r.writer.target before [] := by
  obtain ⟨w, hwriter, rfl⟩ := System.recorder_of_start h
  obtain ⟨_, _, _, hempty, _⟩ := Writer.openEnd_of_start hwriter
  have hstands := Writer.stands_of_start hwriter hbefore
  refine ⟨rfl, ⟨[], [], ⟨?_, hempty⟩, rfl⟩, .inr hempty⟩
  rw [List.flatMap_nil, List.append_nil]
  exact hstands

theorem logPaced_eq_logAll (es : List Entry) (r : Recorder) (fs : Files) :
    r.logPaced (fun _ => []) es fs = r.logAll es fs := by
  induction es generalizing r fs with
  | nil => rfl
  | cons e es ih =>
      have hrest : logPaced (fun _ => []) es = logAll es := funext fun r => funext fun fs => ih r fs
      rw [logPaced, turns, After.andThen_start, hrest, logAll]

/-- The entry that was logged last waits in the queue. -/
theorem queue_logAll_ne_nil {r : Recorder} {es : List Entry} (h : r.IsOpen) (hes : es ≠ [])
    (fs : Files) : (r.logAll es fs).recorder.queue ≠ [] := by
  induction es generalizing r fs with
  | nil => exact absurd rfl hes
  | cons e es ih =>
      change ((r.log e fs).recorder.logAll es (r.log e fs).files).recorder.queue ≠ []
      cases es with
      | nil =>
          rw [log_eq h.running]
          exact List.concat_ne_nil _ _
      | cons e' es => exact ih (h.log e fs) (List.cons_ne_nil _ _) _

end Log.Recorder

namespace Program

open Text

/-- A replay of texts waits for the recorder, so that its log is complete however the recorder gets
its turns. -/
theorem replay_finished {e : Evaluator} {stamps : ℕ → Stamp} {log : Log.Recorder}
    {fs opened : Files} {path : String} {before bs : List UInt8}
    (hstart : Log.Recorder.start fs path = (.ok log, opened))
    (hbefore : fs.BeginsWith log.writer.target before)
    (h : (Replay.run e stamps bs).fault? = none) (pace : Pace) :
    (replay e stamps pace log opened (.bytes bs)).exit = 0 ∧
      (replay e stamps pace log opened (.bytes bs)).files.item? log.writer.target =
        some (.file (before ++ (Replay.run e stamps bs).entries.flatMap Log.Writer.lineBytes)) := by
  have hopen := Log.Recorder.isOpen_of_start hstart
  have hrecords := Log.Recorder.records_of_start hstart hbefore
  simp only [replay, h, true_and]
  exact (hrecords.logPaced hopen pace.gaps).close (hopen.logPaced _ _ _)

/-- A run that comes to the requests and opens a log that is a file of its own. -/
structure Opening (args : List String) (fs : Files) (input : List UInt8) where
  options : CommandLine
  settings : Settings
  notices : List Notice
  policy : Policy
  recording : List UInt8
  log : Log.Recorder
  opened : Files
  before : List UInt8
  parses : CommandLine.parse args = .ok options
  replays : options.dumpRules = false
  loads : Settings.load fs options.settings = .ok (settings, notices)
  decides : Policy.load fs (options.policy?.getD settings.policy) = .ok policy
  opens : openRequests fs input (options.requests?.getD "") = .ok (.bytes recording)
  starts : Log.Recorder.start fs (options.output?.getD settings.logging.decisions) =
    (.ok log, opened)
  begins : fs.BeginsWith log.writer.target before
  /-- The requests are read line by line while the log grows, so a log that is the file of the
  requests would be read as requests too. -/
  apart : meansInput (options.requests?.getD "") = false →
    fs.locate (options.requests?.getD "") ≠ .ok log.writer.target

/-- A run that finds lines that are texts before one that is none. -/
structure Interruption (args : List String) (fs : Files) (input : List UInt8) extends
    Opening args fs input where
  earlier : List (List Char)
  line : List UInt8
  later : List (List UInt8)
  fault : Utf8.Fault
  lines : Replay.split recording = earlier.map Utf8.encode ++ line :: later
  broken : Utf8.decode line = .error fault

variable {args : List String} {fs : Files} {input : List UInt8}

namespace Opening

variable (i : Opening args fs input) (stamps : ℕ → Stamp) (pace : Pace)

/-- What comes of the requests. -/
def replay (i : Opening args fs input) (stamps : ℕ → Stamp) : Replay :=
  Replay.run (Evaluator.ofPolicy i.policy) stamps i.recording

/-- The recorder when the program gives up its handle. -/
def logged (i : Opening args fs input) (stamps : ℕ → Stamp) (pace : Pace) : Log.Recorder.After :=
  i.log.logPaced pace.gaps (i.replay stamps).entries i.opened

/-- The log is what stood there before and then the lines of the entries. -/
def Logs (i : Opening args fs input) (es : List Entry) (o : Outcome) : Prop :=
  o.files.item? i.log.writer.target =
    some (.file (i.before ++ es.flatMap Log.Writer.lineBytes))

theorem run_eq : run args stamps pace fs input =
    Program.replay (Evaluator.ofPolicy i.policy) stamps pace i.log i.opened (.bytes i.recording) := by
  obtain ⟨path, hpath⟩ := CommandLine.exists_requests i.parses i.replays
  have hopens := i.opens
  rw [hpath, Option.getD_some] at hopens
  simp only [run, i.parses, runWith, i.loads, Plan.follow, Plan.of, i.decides, i.replays,
    Bool.false_eq_true, if_false, hpath, hopens, i.starts]

theorem isOpen_logged : (i.logged stamps pace).recorder.IsOpen :=
  (Log.Recorder.isOpen_of_start i.starts).logPaced _ _ _

theorem records_logged : (i.logged stamps pace).Records i.log.writer.target i.before
    (i.replay stamps).entries := by
  have hstart := Log.Recorder.records_of_start i.starts i.begins
  exact hstart.logPaced (Log.Recorder.isOpen_of_start i.starts) pace.gaps

/-- A run whose requests are all texts waits for the recorder, so that its log is complete however
the recorder gets its turns. -/
theorem run_finished (h : (i.replay stamps).fault? = none) :
    (run args stamps pace fs input).exit = 0 ∧
      i.Logs (i.replay stamps).entries (run args stamps pace fs input) := by
  rw [Logs, i.run_eq]
  exact replay_finished i.starts i.begins h pace

end Opening

namespace Interruption

/-- The requests on the lines before the broken one. -/
def requests (i : Interruption args fs input) : List Request :=
  Replay.requests (i.earlier.map Replay.parse)

/-- The decisions on these requests. -/
def entries (i : Interruption args fs input) (stamps : ℕ → Stamp) : List Entry :=
  Replay.entriesOf (Evaluator.ofPolicy i.policy) stamps i.requests

/-- The recorder at the end of the process. -/
def left (i : Interruption args fs input) (stamps : ℕ → Stamp) (pace : Pace) :
    Log.Recorder.After :=
  leave pace (i.logged stamps pace).recorder (i.logged stamps pace).files

variable (i : Interruption args fs input) (stamps : ℕ → Stamp) (pace : Pace)

theorem replay_eq : (i.replay stamps).fault? = some i.fault ∧
    (i.replay stamps).entries = i.entries stamps :=
  Replay.run_of_broken _ stamps i.lines i.broken

theorem run_eq : run args stamps pace fs input =
    ⟨1, "", some (.input i.fault), (i.left stamps pace).files⟩ := by
  obtain ⟨hfault, -⟩ := i.replay_eq stamps
  rw [Opening.replay] at hfault
  simp only [i.toOpening.run_eq, Program.replay, hfault]
  rfl

theorem records_left :
    (i.left stamps pace).Records i.log.writer.target i.before (i.entries stamps) := by
  have hlogged := i.records_logged stamps pace
  rw [(i.replay_eq stamps).2] at hlogged
  exact hlogged.drop.turns _

/-- The log is complete exactly if nothing is left over at the end of the process. -/
theorem logs_iff : i.Logs (i.entries stamps) (run args stamps pace fs input) ↔
    (i.left stamps pace).recorder.writer.collected = [] ∧
      (i.left stamps pace).recorder.queue = [] := by
  rw [Opening.Logs, i.run_eq]
  exact (i.records_left stamps pace).complete_iff

theorem logs_take : ∃ n ≤ (i.entries stamps).length,
    i.Logs ((i.entries stamps).take n) (run args stamps pace fs input) := by
  rw [i.run_eq stamps pace]
  exact (i.records_left stamps pace).file

/-- If the task comes to its end before the process does, the log is complete. -/
theorem exists_logs :
    ∃ pace, i.Logs (i.entries stamps) (run args stamps pace fs input) := by
  let a := i.logged stamps .settled
  let pace : Pace := { rest := List.replicate (a.recorder.queue.length + 1) .work }
  have hopen : a.recorder.IsOpen := i.isOpen_logged stamps .settled
  have hrunning : a.recorder.drop.task.IsRunning := hopen.running
  have hhandles : a.recorder.drop.handles = 0 := by
    change a.recorder.handles - 1 = 0
    rw [hopen.held]
  have hleft : i.left stamps pace = a.recorder.drop.settle a.files :=
    (Log.Recorder.settle_eq_turns hrunning hhandles a.files).symm
  obtain ⟨hended, hqueue⟩ := Log.Recorder.settle_ends hrunning hhandles a.files
  refine ⟨pace, (i.logs_iff stamps pace).mpr ?_⟩
  have hclean := (i.records_left stamps pace).clean
  rw [hleft, hended] at hclean
  rw [hleft]
  exact ⟨hclean.resolve_left (by simp), hqueue⟩

theorem entries_eq_nil_iff : i.entries stamps = [] ↔ i.requests = [] := by
  rw [entries, Replay.entriesOf, List.mapIdx_eq_nil_iff]

theorem not_logs_settled (h : i.requests ≠ []) :
    ¬i.Logs (i.entries stamps) (run args stamps .settled fs input) := by
  have hlogged : i.logged stamps .settled = i.log.logAll (i.entries stamps) i.opened := by
    rw [← (i.replay_eq stamps).2]
    exact Log.Recorder.logPaced_eq_logAll _ _ _
  have hes : i.entries stamps ≠ [] := (i.entries_eq_nil_iff stamps).not.mpr h
  rw [logs_iff]
  rintro ⟨-, hqueue⟩
  change (i.logged stamps .settled).recorder.queue = [] at hqueue
  rw [hlogged] at hqueue
  exact Log.Recorder.queue_logAll_ne_nil (Log.Recorder.isOpen_of_start i.starts) hes _ hqueue

/-- However the recorder gets its turns, an interrupted run fails and its log ends behind a whole
line. The log is complete exactly if neither the writer nor the queue holds an entry at the end of
the process. So it is in some order, but it is in every order only if there was nothing to log. -/
theorem run_interrupted (i : Interruption args fs input) (stamps : ℕ → Stamp) :
    (∀ pace, (run args stamps pace fs input).exit = 1 ∧
      (run args stamps pace fs input).output = "" ∧
      (run args stamps pace fs input).failure? = some (.input i.fault) ∧
      ∃ n ≤ (i.entries stamps).length,
        i.Logs ((i.entries stamps).take n) (run args stamps pace fs input)) ∧
    (∀ pace, i.Logs (i.entries stamps) (run args stamps pace fs input) ↔
      (i.left stamps pace).recorder.writer.collected = [] ∧
        (i.left stamps pace).recorder.queue = []) ∧
    (∃ pace, i.Logs (i.entries stamps) (run args stamps pace fs input)) ∧
    ((∀ pace, i.Logs (i.entries stamps) (run args stamps pace fs input)) ↔ i.requests = []) := by
  refine ⟨fun pace => ?_, i.logs_iff stamps, i.exists_logs stamps, fun h => ?_, fun h pace => ?_⟩
  · have hlog := i.logs_take stamps pace
    rw [i.run_eq] at hlog ⊢
    exact ⟨rfl, rfl, rfl, hlog⟩
  · by_contra hrequests
    exact i.not_logs_settled stamps hrequests (h .settled)
  · obtain ⟨n, -, hlog⟩ := i.logs_take stamps pace
    rw [(i.entries_eq_nil_iff stamps).mpr h, List.take_nil] at hlog
    rw [(i.entries_eq_nil_iff stamps).mpr h]
    exact hlog

/-! ## One request before the broken line -/

def brokenFiles : Files :=
  (Files.empty.put ["home", "policy.yaml"] (.file [])).put ["home", "requests"]
    (.file (Utf8.encode "\x7b\"verb\":\"get\"\x7d\n".toList ++ [0xff, 0x0a]))

theorem decodeText_empty : Yaml.decodeText Policy.read "" = .ok {} := by cbv

/-- An empty text is a policy without rules. -/
theorem load_empty {path : String} (hread : fs.read path = .ok []) :
    Policy.load fs path = .ok {} := by
  have htext : fs.readText path = .ok "" := by
    simp only [Files.readText, hread, bind, Except.bind, Utf8.decode_nil]
  have haccepts : Policy.ofYaml "" = .ok {} := by
    rw [Policy.ofYaml, decodeText_empty]
    rfl
  simp only [Policy.load, htext, haccepts]

def brokenRun : Interruption ["-r", "requests"] brokenFiles [] where
  options := { requests? := some "requests" }
  settings := {}
  notices := [Settings.missingNotice "config.yaml"]
  policy := {}
  recording := Utf8.encode "\x7b\"verb\":\"get\"\x7d\n".toList ++ [0xff, 0x0a]
  log := { writer := { target := ["home", "decisions.jsonl"] } }
  opened := brokenFiles.put ["home", "decisions.jsonl"] (.file [])
  before := []
  earlier := ["\x7b\"verb\":\"get\"\x7d\n".toList]
  line := [0xff, 0x0a]
  later := []
  fault := .invalid 1 0
  parses := rfl
  replays := rfl
  loads := rfl
  decides := load_empty rfl
  opens := rfl
  starts := rfl
  begins := .inr ⟨rfl, rfl⟩
  apart := fun _ => by decide
  lines := by cbv
  broken := by cbv

theorem requests_brokenRun : brokenRun.requests = [⟨none, "get", none, ""⟩] := by cbv

theorem run_interrupted_broken :
    let es := brokenRun.entries fun _ => .zero
    (∃ n ≤ es.length, brokenRun.Logs (es.take n)
      (run ["-r", "requests"] (fun _ => .zero) .settled brokenFiles [])) ∧
    (∃ pace, brokenRun.Logs es (run ["-r", "requests"] (fun _ => .zero) pace brokenFiles [])) ∧
    ¬∀ pace, brokenRun.Logs es (run ["-r", "requests"] (fun _ => .zero) pace brokenFiles []) := by
  obtain ⟨hfails, -, hsome, hall⟩ := run_interrupted brokenRun fun _ => .zero
  refine ⟨(hfails .settled).2.2.2, hsome, fun h => ?_⟩
  have hrequests := hall.mp h
  rw [requests_brokenRun] at hrequests
  cases hrequests

/-- The log of an interrupted run does not have its entries in every order of the steps: it stays
empty behind a request if the process ends before the recorder gets a turn. -/
theorem not_every_interruption_logs :
    (run ["-r", "requests"] (fun _ => .zero) .settled brokenFiles []).files.item?
      ["home", "decisions.jsonl"] = some (.file []) ∧
    ¬∀ (args : List String) (fs : Files) (input : List UInt8) (i : Interruption args fs input)
      (stamps : ℕ → Stamp) (pace : Pace),
      i.Logs (i.entries stamps) (run args stamps pace fs input) := by
  constructor
  · rw [brokenRun.run_eq, left, Opening.logged, (brokenRun.replay_eq _).2, entries,
      requests_brokenRun]
    rfl
  · intro h
    have hrequests : brokenRun.requests ≠ [] := by
      rw [requests_brokenRun]
      exact List.cons_ne_nil _ _
    exact brokenRun.not_logs_settled (fun _ => .zero) hrequests (h _ _ _ brokenRun _ .settled)

end Interruption

end Program

end RequestAudit
