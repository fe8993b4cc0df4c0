import RequestAudit.Log.Writer
import RequestAudit.Notice

/-!
# The recorder

Entries are not written by those who make them: they put them into a queue by handles that can be
copied, and a task in the background takes them from there to a writer. The task flushes the
writer when nothing has come for a while, and once more when the last handle is gone, after which
it ends. The steps of both sides are functions here, in whatever order they may happen.
-/

namespace RequestAudit.Log

/-- The state of the background task. -/
inductive Task where
  /-- At work; `dirty` tells whether something was written since the last flush. -/
  | running (dirty : Bool)
  /-- Ended of itself. -/
  | ended
  /-- Stopped from outside. -/
  | stopped
  deriving DecidableEq, Repr

/-- A recorder. -/
structure Recorder where
  /-- What writes the entries. -/
  writer : Writer
  /-- The entries that are not yet taken from the queue. -/
  queue : List Entry := []
  /-- How many handles there are. -/
  handles : Nat := 1
  /-- The background task. -/
  task : Task := .running false
  /-- For how many milliseconds the task has waited for an entry. -/
  waited : Nat := 0
  deriving Repr

/-- A recorder and a store after a step, with what was reported in between. -/
structure Recorder.After where
  recorder : Recorder
  files : Files
  notices : List Notice := []

namespace Recorder

/-- How many entries the queue holds at most. -/
def capacity : Nat := 1024

/-- After how many milliseconds without an entry the task flushes. -/
def patience : Nat := 1000

/-- A recorder with one handle, for the log at a path. -/
def start (fs : Files) (path : String) : Except Fault Recorder × Files :=
  match Writer.start fs path with
  | (.error f, fs) => (.error f, fs)
  | (.ok w, fs) => (.ok { writer := w }, fs)

/-- The report of a fault. -/
def faultNotice (message : String) (f : Fault) : Notice :=
  ⟨.error, message, [("err", .text f.message)]⟩

/-- The report of an entry that nobody takes. -/
def dropNotice (e : Entry) : Notice :=
  ⟨.warn, "decision sink channel closed; entry dropped",
    [("level", .text e.verdict.level.name)]⟩

/-! ## Steps of the task -/

/-- Writes an entry that was taken from the queue. -/
def record (r : Recorder) (dirty : Bool) (e : Entry) (fs : Files) : After :=
  match r.writer.write e fs with
  | (none, w, fs) => ⟨{ r with writer := w, task := .running true, waited := 0 }, fs, []⟩
  | (some f, w, fs) => ⟨{ r with writer := w, task := .running dirty, waited := 0 }, fs,
      [faultNotice "failed to write decision entry" f]⟩

/-- Takes an entry from the queue and writes it. -/
def receive (r : Recorder) (fs : Files) : After :=
  match r.task, r.queue with
  | .running dirty, e :: queue => { r with queue }.record dirty e fs
  | _, _ => ⟨r, fs, []⟩

/-- Flushes after a time without entries. -/
def timeOut (r : Recorder) (fs : Files) : After :=
  match r.task with
  | .running true => match r.writer.flush fs with
    | (none, w, fs) => ⟨{ r with writer := w, task := .running false }, fs, []⟩
    | (some f, w, fs) => ⟨{ r with writer := w }, fs,
        [faultNotice "periodic decision log flush failed" f]⟩
  | _ => ⟨r, fs, []⟩

/-- Ends, after a last flush, once no handle and no entry is left. -/
def finish (r : Recorder) (fs : Files) : After :=
  match r.task with
  | .running true => match r.writer.flush fs with
    | (none, w, fs) => ⟨{ r with writer := w, task := .ended }, fs, []⟩
    | (some f, w, fs) => ⟨{ r with writer := w, task := .ended }, fs,
        [faultNotice "failed to flush decision log on shutdown" f]⟩
  | .running false => ⟨{ r with task := .ended }, fs, []⟩
  | _ => ⟨r, fs, []⟩

/-- Does one step after another. -/
def After.andThen (a : After) (step : Recorder → Files → After) : After :=
  let b := step a.recorder a.files
  ⟨b.recorder, b.files, a.notices ++ b.notices⟩

/-- Takes up to `n` entries from the queue. -/
def receiveUpTo : Nat → Recorder → Files → After
  | 0, r, fs => ⟨r, fs, []⟩
  | n + 1, r, fs => (r.receive fs).andThen (receiveUpTo n)

/-- All that the task can do without waiting. -/
def settle (r : Recorder) (fs : Files) : After :=
  let a := receiveUpTo r.queue.length r fs
  if r.handles = 0 then a.andThen finish else a

/-- Lets the task wait in vain so many times. -/
def timeOuts : Nat → Recorder → Files → After
  | 0, r, fs => ⟨r, fs, []⟩
  | n + 1, r, fs => (r.timeOut fs).andThen (timeOuts n)

/-- Lets the task do what it can and then wait for so many milliseconds. -/
def idle (ms : Nat) (r : Recorder) (fs : Files) : After :=
  (r.settle fs).andThen fun r fs =>
    let total := r.waited + ms
    timeOuts (total / patience) { r with waited := total % patience } fs

/-- What the task may do next. -/
inductive Turn where
  /-- It goes on with what the queue gives it. -/
  | work
  /-- It has waited for long enough. -/
  | timeOut
  deriving DecidableEq, Repr

/-- A turn of the task. The queue gives an entry, or the news that none can come any more; only
where it gives neither is there anything to wait for. -/
def turn (t : Turn) (r : Recorder) (fs : Files) : After :=
  match t with
  | .work => if r.queue.isEmpty && r.handles == 0 then r.finish fs else r.receive fs
  | .timeOut => if r.queue.isEmpty && r.handles != 0 then r.timeOut fs else ⟨r, fs, []⟩

/-- Turns of the task, one after another. -/
def turns : List Turn → Recorder → Files → After
  | [], r, fs => ⟨r, fs, []⟩
  | t :: ts, r, fs => (r.turn t fs).andThen (turns ts)

/-! ## Steps of those who hold a handle -/

/-- Puts an entry into the queue. If that is full the task takes one from it first; if there is
no task any more the entry is dropped, which is reported. -/
def log (e : Entry) (r : Recorder) (fs : Files) : After :=
  match r.task with
  | .running _ =>
    let a : After := if r.queue.length < capacity then ⟨r, fs, []⟩ else r.receive fs
    { a with recorder := { a.recorder with queue := a.recorder.queue ++ [e] } }
  | _ => ⟨r, fs, [dropNotice e]⟩

/-- Copies a handle. -/
def clone (r : Recorder) : Recorder := { r with handles := r.handles + 1 }

/-- Gives up a handle. -/
def drop (r : Recorder) : Recorder := { r with handles := r.handles - 1 }

/-- Gives up all handles and waits for the task to end. -/
def close (r : Recorder) (fs : Files) : After := { r with handles := 0 }.settle fs

/-- Stops the task; what it has not handed over is lost. -/
def stop (r : Recorder) : Recorder :=
  match r.task with
  | .running _ => { r with task := .stopped, queue := [] }
  | _ => r

/-- Logs entries in order. -/
def logAll : List Entry → Recorder → Files → After
  | [], r, fs => ⟨r, fs, []⟩
  | e :: es, r, fs => (r.log e fs).andThen (logAll es)

/-- Logs entries in order, while the task takes its turns: those of a place before the entry there
is logged, and those of the next place after the last entry. -/
def logPaced (gaps : Nat → List Turn) : List Entry → Recorder → Files → After
  | [], r, fs => r.turns (gaps 0) fs
  | e :: es, r, fs =>
    ((r.turns (gaps 0) fs).andThen (log e)).andThen (logPaced (fun i => gaps (i + 1)) es)

end Recorder

end RequestAudit.Log
