import RequestAudit.Program
import Std.Time.DateTime.Timestamp

/-!
# The command

The outer layer of the program. It shows the program those parts of the real files that the
program may turn to, and carries out what the program has changed in them.
-/

namespace RequestAudit.Main

/-- The path of a location. -/
def pathOf (l : Location) : String := "/" ++ "/".intercalate l

/-- The number of the system's fault for a file that turns out to be a folder. -/
def folderCode : UInt32 := 21

/-- What really stands at a location. -/
def itemAt (l : Location) : IO (Option Files.Item) := do
  match ← (IO.FS.readBinFile (pathOf l)).toBaseIO with
  | .ok bytes => return some (.file bytes.toList)
  | .error (.inappropriateType _ code _) =>
    return if code == folderCode then some .folder else none
  | .error _ => return none

/-- Adds what stands at a location to a store, unless the store has something there. -/
def look (fs : Files) (l : Location) : IO Files := do
  if (fs.item? l).isSome then return fs
  match ← itemAt l with
  | some i => return fs.put l i
  | none => return fs

/-- Adds what stands along a path to a store. -/
def follow (fs : Files) (path : String) : IO Files :=
  let p := Files.Path.ofText path
  (Files.stations (fs.start p) p.names).foldlM look fs

/-- A store with the real working folder. -/
def openHome : IO Files := do
  let home := (Files.Path.ofText (← IO.currentDir).toString).names
  return { (Files.empty.makeFolders [] home.reverse).2 with home }

/-- A store with all that a run for these options may turn to. -/
def gather (options : CommandLine) : IO Files := do
  let fs ← follow (← openHome) options.settings
  match Settings.load fs options.settings with
  | .error _ => return fs
  | .ok (settings, _) =>
    let plan := Program.Plan.of options settings
    let paths := [plan.policy, plan.log]
    (paths ++ options.requests?.toList.filter (!Program.meansInput ·)).foldlM follow fs

/-- The input, if these options ask for it. -/
def gatherInput (options : CommandLine) : IO (List UInt8) := do
  if options.requests?.any Program.meansInput then
    return (← (← IO.getStdin).readBinToEnd).toList
  else return []

/-- Random bits. -/
def randomBits : IO (BitVec 128) := do
  let bytes ← IO.getRandomBytes 16
  return BitVec.ofNat 128 (bytes.toList.foldl (fun n b => 256 * n + b.toNat) 0)

/-- New stamps with the present time. -/
def newStamps (count : Nat) : IO (Nat → Stamp) := do
  let now := (← Std.Time.Timestamp.now).toNanosecondsSinceUnixEpoch.val.toNat
  let time := Timestamp.ofSeconds (now / 1000000000) (now % 1000000000)
  let stamps ← (Array.range count).mapM fun _ => return ⟨.ofRandom (← randomBits), time⟩
  return fun i => stamps.getD i ⟨.zero, time⟩

/-- The bytes of the recorded requests. -/
def recording (options : CommandLine) (fs : Files) (input : List UInt8) : List UInt8 :=
  match Program.openRequests fs input (options.requests?.getD "") with
  | .ok (.bytes bs) => bs
  | _ => []

/-- Adds bytes at the end of a real file, which is made if it is missing. -/
def append (l : Location) (bytes : List UInt8) : IO Unit := do
  let handle ← IO.FS.Handle.mk (pathOf l) .append
  handle.write ⟨bytes.toArray⟩

/-- Carries out on the real files what a run has changed: it makes folders, and makes and
extends files. -/
def carryOut (before after : Files) : IO Unit :=
  after.items.forM fun (l, item) => match item, before.item? l with
    | .folder, none => IO.FS.createDirAll (pathOf l)
    | .file new, none => append l new
    | .file new, some (.file old) =>
      if new.length = old.length then pure () else append l (new.drop old.length)
    | _, _ => pure ()

/-- Reports a failure. -/
def report (f : Program.Failure) : IO Unit := do
  IO.eprintln ("Error: " ++ f.headline)
  match f.cause? with
  | some cause => IO.eprintln ("\nCaused by:\n    " ++ cause)
  | none => pure ()

/-- Runs the program for options that were accepted. -/
def runWith (options : CommandLine) : IO UInt32 := do
  let files ← gather options
  let input ← gatherInput options
  let stamps ← newStamps (Replay.split (recording options files input)).length
  let outcome := Program.runWith options stamps .settled files input
  carryOut files outcome.files
  IO.print outcome.output
  outcome.failure?.forM report
  return outcome.exit.toUInt32

/-- Runs the program. -/
def run (args : List String) : IO UInt32 := do
  match CommandLine.parse args with
  | .ok options => runWith options
  | .error r =>
    IO.print (Program.refusalText r)
    if r.exit != 0 then IO.eprintln ("error: " ++ r.name)
    return r.exit.toUInt32

end RequestAudit.Main

/-- The entry of the program. -/
def main (args : List String) : IO UInt32 := RequestAudit.Main.run args
