import RequestAudit.CommandLine
import RequestAudit.Log.Recorder
import RequestAudit.Policy.Loading
import RequestAudit.Replay
import RequestAudit.Settings

/-!
# The program

The program as a function of its arguments, the files and its input. It reads the settings, the
policy and the recorded requests before it touches the decision log. The recorder works beside the
program, so a run takes as a parameter when it gets its turns. If the requests turn out to be
unreadable midway the program ends without waiting for the recorder, and how much of the log is
then written depends on these turns.
-/

namespace RequestAudit

/-- Why the program ends with a failure. -/
inductive Program.Failure where
  | settings (r : Settings.Refusal)
  | policy (r : Policy.FileRefusal)
  /-- Neither are there requests to judge nor are the rules to be shown. -/
  | missingRequests
  | requests (path : String) (f : Files.Fault)
  | log (f : Log.Fault)
  /-- Bytes among the requests that are no text. -/
  | input (f : Text.Utf8.Fault)
  /-- Requests that cannot be read at all. -/
  | stream (f : Files.Fault)

namespace Program

/-- What the failure is called. -/
def Failure.headline : Failure → String
  | settings r => r.headline
  | policy _ => "failed to load policy file"
  | missingRequests => "--requests is required unless --dump-rules is given"
  | requests path _ => "failed to open requests file: " ++ path
  | log _ => "failed to start decision log"
  | input _ => "failed to read requests"
  | stream _ => "failed to read requests"

/-- What the failure is caused by, if that has a wording. -/
def Failure.cause? : Failure → Option String
  | settings r => r.cause?
  | policy r => some r.message
  | missingRequests => none
  | requests _ f => some f.message
  | log f => some f.message
  | input f => some f.message
  | stream f => some f.message

/-- What a run of the program leaves behind. -/
structure Outcome where
  /-- The status with which it ends. -/
  exit : Nat
  /-- What it writes to its output. -/
  output : String := ""
  /-- Why it fails, if it does. -/
  failure? : Option Failure := none
  /-- The files after it. -/
  files : Files

/-- What the requests come from. -/
inductive Stream where
  | bytes (bs : List UInt8)
  /-- Something that can be opened but not read. -/
  | unreadable (f : Files.Fault)

/-- How the turns of the recorder's task fall between the steps of the program. -/
structure Pace where
  /-- The turns before the entry at each place is logged, and after the last one as long as the
  program holds its handle. -/
  gaps : Nat → List Log.Recorder.Turn := fun _ => []
  /-- The turns between then and the end of the process, if nobody waits for the task. -/
  rest : List Log.Recorder.Turn := []

/-- The pace that a command settles for: its process ends as soon as it has nothing left to do. -/
def Pace.settled : Pace := {}

/-- Whether a path stands for the input: it does if it is a hyphen. -/
def meansInput (path : String) : Bool := (Files.Path.ofText path).normal == ⟨false, ["-"]⟩

/-- Opens the recorded requests. -/
def openRequests (fs : Files) (input : List UInt8) (path : String) :
    Except Files.Fault Stream :=
  if meansInput path then .ok (.bytes input)
  else match fs.find path with
    | .error f => .error f
    | .ok item => match item.bytes with
      | .ok bs => .ok (.bytes bs)
      | .error f => .ok (.unreadable f)

/-- The recorder at the end of the process if the program gives up its handle and does not wait
for the task. -/
def leave (pace : Pace) (r : Log.Recorder) (fs : Files) : Log.Recorder.After :=
  r.drop.turns pace.rest fs

/-- Judges the requests of an opened stream and logs the decisions. -/
def replay (e : Evaluator) (stamps : Nat → Stamp) (pace : Pace) (log : Log.Recorder)
    (fs : Files) : Stream → Outcome
  | .unreadable f =>
    let a := log.logPaced pace.gaps [] fs
    ⟨1, "", some (.stream f), (leave pace a.recorder a.files).files⟩
  | .bytes bs =>
    let r := Replay.run e stamps bs
    let a := log.logPaced pace.gaps r.entries fs
    match r.fault? with
    | some f => ⟨1, "", some (.input f), (leave pace a.recorder a.files).files⟩
    | none => ⟨0, r.tally.report ++ "\n", none, (a.recorder.close a.files).files⟩

/-- What a run turns to, once its arguments and its settings are read. -/
structure Plan where
  /-- The path of the policy. -/
  policy : String
  /-- The path of the decision log. -/
  log : String
  /-- The path of the recorded requests. -/
  requests? : Option String
  /-- Whether only the rules are to be shown. -/
  dumpRules : Bool
  deriving DecidableEq, Repr

/-- Paths among the options take the place of those in the settings. -/
def Plan.of (options : CommandLine) (settings : Settings) : Plan where
  policy := options.policy?.getD settings.policy
  log := options.output?.getD settings.logging.decisions
  requests? := options.requests?
  dumpRules := options.dumpRules

/-- The run from the policy on. -/
def Plan.follow (plan : Plan) (stamps : Nat → Stamp) (pace : Pace) (fs : Files)
    (input : List UInt8) : Outcome :=
  let failed (f : Failure) (fs : Files) : Outcome := ⟨1, "", some f, fs⟩
  match Policy.load fs plan.policy with
  | .error r => failed (.policy r) fs
  | .ok p =>
    let e := Evaluator.ofPolicy p
    if plan.dumpRules then ⟨0, Policy.rulesToYaml e.rules, none, fs⟩
    else
      match plan.requests? with
      | none => failed .missingRequests fs
      | some path =>
        match openRequests fs input path with
        | .error f => failed (.requests path f) fs
        | .ok stream =>
          match Log.Recorder.start fs plan.log with
          | (.error f, fs) => failed (.log f) fs
          | (.ok log, fs) => replay e stamps pace log fs stream

/-- The run for options that were accepted. -/
def runWith (options : CommandLine) (stamps : Nat → Stamp) (pace : Pace) (fs : Files)
    (input : List UInt8) : Outcome :=
  match Settings.load fs options.settings with
  | .error r => ⟨1, "", some (.settings r), fs⟩
  | .ok (settings, _) => (Plan.of options settings).follow stamps pace fs input

/-- What is written for a list of arguments that does not start the program. -/
def refusalText : CommandLine.Refusal → String
  | .help => CommandLine.helpText
  | .version => CommandLine.versionText
  | _ => ""

/-- A run of the program. -/
def run (args : List String) (stamps : Nat → Stamp) (pace : Pace) (fs : Files)
    (input : List UInt8) : Outcome :=
  match CommandLine.parse args with
  | .error r => ⟨r.exit, refusalText r, none, fs⟩
  | .ok options => runWith options stamps pace fs input

end Program

end RequestAudit
