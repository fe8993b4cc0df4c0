import RequestAudit.Decision.Document
import RequestAudit.Files

/-!
# Writers of the decision log

A writer adds entries to the end of a log, one line each. Lines are collected and handed over to
the file when they would exceed the writer's capacity, or when the writer is flushed. Whether a
hand-over has succeeded is known, and reported, only when the writer turns to the file again.
-/

namespace RequestAudit.Log

/-- Why an entry is not written. -/
inductive Fault where
  | makeFolder (f : Files.Fault)
  | openFile (f : Files.Fault)
  | write (f : Files.Fault)
  | flush (f : Files.Fault)
  deriving DecidableEq, Repr

/-- How the fault is worded. -/
def Fault.message : Fault → String
  | makeFolder f => "failed to create parent directories: " ++ f.message
  | openFile f => "failed to open decision log file: " ++ f.message
  | write f => "failed to write to decision log: " ++ f.message
  | flush f => "failed to flush decision log: " ++ f.message

/-- A writer with what it has not yet handed over. -/
structure Writer where
  /-- Where the log stands. -/
  target : Location
  /-- The bytes that are collected. -/
  collected : List UInt8 := []
  /-- Why the last hand-over has failed, as long as that is not reported. -/
  failure? : Option Files.Fault := none
  deriving DecidableEq, Repr

/-- A writer and a store after a step, with the fault that the step reports. -/
structure Writer.After where
  fault? : Option Files.Fault
  writer : Writer
  files : Files

namespace Writer

/-- How many bytes are collected at most. -/
def capacity : Nat := 8192

/-- Opens the log at a path, which is made, with the folders above it, if it is missing. -/
def start (fs : Files) (path : String) : Except Fault Writer × Files :=
  match fs.makeParent path with
  | (some f, fs) => (.error (.makeFolder f), fs)
  | (none, fs) => match fs.openEnd path with
    | .error f => (.error (.openFile f), fs)
    | .ok (l, fs) => (.ok { target := l }, fs)

/-- Hands bytes over to the file, unless a failure is still to be reported. -/
def handOver (w : Writer) (bytes : List UInt8) (fs : Files) : After :=
  match w.failure? with
  | some f => ⟨some f, { w with failure? := none }, fs⟩
  | none =>
    let (f?, fs) := fs.extend w.target bytes
    ⟨none, { w with failure? := f? }, fs⟩

/-- Hands over what is collected. -/
def drain (w : Writer) (fs : Files) : After :=
  if w.collected.isEmpty then ⟨none, w, fs⟩
  else
    let a := w.handOver w.collected fs
    match a.fault? with
    | some _ => a
    | none => { a with writer := { a.writer with collected := [] } }

/-- Takes bytes: they are collected, after what would exceed the capacity with them is handed
over, or handed over themselves if they reach the capacity alone. -/
def take (w : Writer) (bytes : List UInt8) (fs : Files) : After :=
  let a := if capacity < w.collected.length + bytes.length then w.drain fs else ⟨none, w, fs⟩
  match a.fault? with
  | some _ => a
  | none =>
    if capacity ≤ bytes.length then a.writer.handOver bytes a.files
    else { a with writer := { a.writer with collected := a.writer.collected ++ bytes } }

/-- The bytes of an entry's line. -/
def lineBytes (e : Entry) : List UInt8 := Text.Utf8.encode (e.line.toList ++ ['\n'])

/-- Writes an entry. -/
def write (w : Writer) (e : Entry) (fs : Files) : Option Fault × Writer × Files :=
  let a := w.take (lineBytes e) fs
  (a.fault?.map .write, a.writer, a.files)

/-- Hands over what is collected and waits until it is known whether that has succeeded. -/
def flush (w : Writer) (fs : Files) : Option Fault × Writer × Files :=
  let a := w.drain fs
  match a.fault? with
  | some f => (some (.flush f), a.writer, a.files)
  | none => (a.writer.failure?.map .flush, { a.writer with failure? := none }, a.files)

end Writer

end RequestAudit.Log
