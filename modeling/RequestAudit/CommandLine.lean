/-!
# The command line

The options that the program takes, and how lists of arguments are read. Long options may have
their values after an equals sign, and short ones right behind them; otherwise the next argument
is the value, unless it is itself an option. A value is taken up only when the next option or the
end of the arguments is reached.
-/

namespace RequestAudit

/-- What the program is told. -/
structure CommandLine where
  /-- The path of the settings file. -/
  settings : String := "config.yaml"
  /-- The path of the policy, instead of the one in the settings. -/
  policy? : Option String := none
  /-- The path of the recorded requests. -/
  requests? : Option String := none
  /-- The path of the decision log, instead of the one in the settings. -/
  output? : Option String := none
  /-- Whether only the rules are to be shown. -/
  dumpRules : Bool := false
  deriving DecidableEq, Repr

namespace CommandLine

/-- Why a list of arguments does not start the program. -/
inductive Refusal where
  | missingRequired
  | unknownArgument
  | invalidValue
  | conflict
  | tooManyValues
  /-- The help is asked for. -/
  | help
  /-- The version is asked for. -/
  | version
  deriving DecidableEq, Repr

namespace Refusal

/-- The name of the refusal. -/
def name : Refusal → String
  | missingRequired => "MissingRequiredArgument"
  | unknownArgument => "UnknownArgument"
  | invalidValue => "InvalidValue"
  | conflict => "ArgumentConflict"
  | tooManyValues => "TooManyValues"
  | help => "DisplayHelp"
  | version => "DisplayVersion"

/-- The status with which the program ends. -/
def exit : Refusal → Nat
  | help => 0
  | version => 0
  | _ => 2

end Refusal

/-- An option with a value. -/
inductive Key where
  | settings
  | policy
  | requests
  | output
  deriving DecidableEq, Repr

/-- What an option is. -/
inductive Switch where
  | valued (k : Key)
  | dumpRules
  | help
  | version
  deriving DecidableEq, Repr

/-- The option of a long name. -/
def long? : String → Option Switch
  | "config" => some (.valued .settings)
  | "policy" => some (.valued .policy)
  | "requests" => some (.valued .requests)
  | "output" => some (.valued .output)
  | "dump-rules" => some .dumpRules
  | "help" => some .help
  | "version" => some .version
  | _ => none

/-- The option of a letter. -/
def short? : Char → Option Switch
  | 'c' => some (.valued .settings)
  | 'p' => some (.valued .policy)
  | 'r' => some (.valued .requests)
  | 'o' => some (.valued .output)
  | 'h' => some .help
  | 'V' => some .version
  | _ => none

/-- What has been read so far. -/
structure State where
  /-- The values that are taken up. -/
  values : List (Key × String) := []
  /-- Whether only the rules are to be shown. -/
  dumpRules : Bool := false
  /-- The last option with its value, if it has one already, as long as that is not taken up. -/
  pending? : Option (Key × Option String) := none

namespace State

/-- Takes up a value. -/
def set (s : State) (k : Key) (v : String) : Except Refusal State :=
  if (s.values.lookup k).isSome then .error .conflict
  else if v.isEmpty then .error .invalidValue
  else .ok { s with values := (k, v) :: s.values }

/-- Takes up the value of the last option. -/
def resolve (s : State) : Except Refusal State :=
  match s.pending? with
  | none => .ok s
  | some (_, none) => .error .invalidValue
  | some (k, some v) => { s with pending? := none }.set k v

/-- Takes an option that is there without a value attached to it. -/
def take (s : State) : Switch → Except Refusal State
  | .valued k => do
    let s ← s.resolve
    pure { s with pending? := some (k, none) }
  | .dumpRules => do
    let s ← s.resolve
    if s.dumpRules then throw .conflict else pure { s with dumpRules := true }
  | .help => do
    let _ ← s.resolve
    throw .help
  | .version => do
    let _ ← s.resolve
    throw .version

/-- Takes an option with a value attached to it. -/
def takeWith (s : State) (v : String) : Switch → Except Refusal State
  | .valued k => do (← s.resolve).set k v
  | _ => .error .tooManyValues

/-- Takes the letters of an argument that begins with one hyphen. -/
def takeLetters (s : State) : List Char → Except Refusal State
  | [] => .ok s
  | c :: cs => match short? c with
    | none => .error .unknownArgument
    | some (.valued k) => match cs with
      | [] => s.take (.valued k)
      | '=' :: v => s.takeWith (String.ofList v) (.valued k)
      | v => s.takeWith (String.ofList v) (.valued k)
    | some switch => do (← s.take switch).takeLetters cs

/-- Takes an argument that begins with two hyphens, without these. -/
def takeLong (s : State) (cs : List Char) : Except Refusal State :=
  let name := String.ofList (cs.takeWhile (· != '='))
  match long? name, cs.dropWhile (· != '=') with
  | none, _ => .error .unknownArgument
  | some switch, [] => s.take switch
  | some switch, _ :: v => s.takeWith (String.ofList v) switch

/-- Takes an argument that is no option: the value of the last option, if that lacks one. -/
def takeValue (s : State) (v : String) : Except Refusal State :=
  match s.pending? with
  | some (k, none) => .ok { s with pending? := some (k, some v) }
  | _ => .error .unknownArgument

/-- Takes arguments in order. Two hyphens end the options, and the program takes nothing else. -/
def takeAll (s : State) : List String → Except Refusal State
  | [] => .ok s
  | arg :: args => match arg.toList with
    | ['-', '-'] => if args.isEmpty then .ok s else .error .unknownArgument
    | '-' :: '-' :: cs => do (← s.takeLong cs).takeAll args
    | '-' :: c :: cs => do (← s.takeLetters (c :: cs)).takeAll args
    | _ => do (← s.takeValue arg).takeAll args

end State

/-- Reads a list of arguments. -/
def parse (args : List String) : Except Refusal CommandLine := do
  let s ← (← ({} : State).takeAll args).resolve
  let requests? := s.values.lookup .requests
  if requests?.isNone && !s.dumpRules then throw .missingRequired
  pure {
    settings := (s.values.lookup .settings).getD "config.yaml"
    policy? := s.values.lookup .policy
    requests?
    output? := s.values.lookup .output
    dumpRules := s.dumpRules }

/-- The name of the program and its version. -/
def versionText : String := "audit-policy-check 0.1.0\n"

/-- The help. -/
def helpText : String :=
  "Evaluate recorded requests against an audit policy\n\n"
  ++ "Usage: audit-policy-check [OPTIONS]\n\n"
  ++ "Options:\n"
  ++ "  -c, --config <CONFIG>      Path to the configuration file [default: config.yaml]\n"
  ++ "  -p, --policy <POLICY>      Path to the audit policy file (overrides config file setting)\n"
  ++ "  -r, --requests <REQUESTS>  JSON-lines file of request attributes, or `-` for stdin\n"
  ++ "  -o, --output <OUTPUT>      Decision log path (overrides config file setting)\n"
  ++ "      --dump-rules           Print the normalized policy rules as YAML and exit\n"
  ++ "  -h, --help                 Print help\n"
  ++ "  -V, --version              Print version\n"

end CommandLine

end RequestAudit
