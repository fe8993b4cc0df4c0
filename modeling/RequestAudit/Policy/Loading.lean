import RequestAudit.Files
import RequestAudit.Policy.Document
import RequestAudit.Policy.Offence
import RequestAudit.Yaml.Places
import RequestAudit.Yaml.Writer

/-!
# Loading policies

A policy is loaded from YAML text: the text has to be readable, to say what a policy says, and to
obey the rules for policies.
-/

namespace RequestAudit.Policy

/-- Why a text gives no policy. -/
inductive Refusal where
  /-- The text does not say what a policy says. -/
  | unreadable (problem : Yaml.Problem)
  /-- The policy breaks a rule for policies. -/
  | offence (o : Offence)

/-- How the refusal is worded. -/
def Refusal.message : Refusal → String
  | unreadable _ => "YAML deserialization failed"
  | offence o => o.message

/-- The policy of a YAML text. -/
def ofYaml (s : String) : Except Refusal Policy :=
  match Yaml.decodeText read s with
  | .error problem => .error (.unreadable problem)
  | .ok p => match p.offence? with
    | some o => .error (.offence o)
    | none => .ok p

/-- Why a file gives no policy. -/
inductive FileRefusal where
  | unread (path : String) (f : Files.Fault)
  | refused (path : String) (r : Refusal)

/-- How the refusal is worded. -/
def FileRefusal.message : FileRefusal → String
  | unread path f => "failed to read policy file: " ++ path ++ ": " ++ f.message
  | refused path r => "failed to parse policy file: " ++ path ++ ": " ++ r.message

/-- The policy of the file at a path. -/
def load (fs : Files) (path : String) : Except FileRefusal Policy :=
  match fs.readText path with
  | .error f => .error (.unread path f)
  | .ok s => match ofYaml s with
    | .error r => .error (.refused path r)
    | .ok p => .ok p

/-- The YAML text of a policy. -/
def toYaml (p : Policy) : String := Yaml.render p.datum

/-- The YAML text of rules. -/
def rulesToYaml (rs : List Rule) : String := Yaml.render (Rule.data rs)

end RequestAudit.Policy
