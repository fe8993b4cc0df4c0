import RequestAudit.Files
import RequestAudit.Notice
import RequestAudit.Yaml.Places

/-!
# Settings

What the program may be told in a settings file, all of which may be left out, like the file.
-/

namespace RequestAudit

open Document

/-- The settings for what the program reports and logs. -/
structure Settings.Logging where
  /-- How grave a notice must be to be reported, in the words of the reporting. -/
  level : String := "info"
  /-- The path of the decision log. -/
  decisions : String := "decisions.jsonl"
  deriving DecidableEq, Repr

/-- The settings of the program. -/
structure Settings where
  /-- The path of the policy. -/
  policy : String := "policy.yaml"
  logging : Settings.Logging := {}
  deriving DecidableEq, Repr

namespace Settings

variable {V : Type} {m : Type → Type} [Monad m] [Source V m]

/-- A path. -/
def readPath (place : V) : m String := Source.text "path string" place

/-- The fields for reports and logs. -/
def Logging.fields : List (Field V m Logging) :=
  [field "level" .defaulted readText fun x s => { s with level := x },
    field "decision_log_path" .defaulted readPath fun x s => { s with decisions := x }]

/-- The fields of the settings. -/
def fields : List (Field V m Settings) :=
  [field "policy_file" .defaulted readPath fun x s => { s with policy := x },
    field "logging" .defaulted (readRecord "struct LoggingConfig" {} Logging.fields) fun x s =>
      { s with logging := x }]

/-- Settings. -/
def read : V → m Settings := readRecord "struct Config" {} fields

/-- Why a settings file cannot be used. -/
inductive Refusal where
  | unread (path : String) (f : Files.Fault)
  | unreadable (path : String) (p : Yaml.Problem)

/-- How the refusal is worded, up to the name of the file. -/
def Refusal.headline : Refusal → String
  | unread path _ => "failed to read config file " ++ path
  | unreadable path _ => "failed to parse config file " ++ path

/-- What the refusal is caused by, if that has a wording. -/
def Refusal.cause? : Refusal → Option String
  | unread _ f => some f.message
  | unreadable _ p => p.message?

/-- The report that a settings file is missing. -/
def missingNotice (path : String) : Notice :=
  ⟨.warn, "configuration file not found; using defaults", [("path", .text path)]⟩

/-- The settings of the file at a path; without one, the defaults and a report. -/
def load (fs : Files) (path : String) : Except Refusal (Settings × List Notice) :=
  if fs.has path then
    match fs.readText path with
    | .error f => .error (.unread path f)
    | .ok s => match Yaml.decodeText Settings.read s with
      | .error p => .error (.unreadable path p)
      | .ok settings => .ok (settings, [])
  else .ok ({}, [missingNotice path])

end Settings

end RequestAudit
