import RequestAudit.Text.Term

/-!
# Stages of request handling

The phases for which an audit event may be recorded. A policy may name stages that are not
among the known ones; they are kept under their names. `Stage.union` merges lists of stages
without repeating any.
-/

namespace RequestAudit

/-- A phase of request handling. -/
inductive Stage where
  /-- The handler has received the request. -/
  | requestReceived
  /-- The headers of the response are sent; only for requests that run long. -/
  | responseStarted
  /-- The body of the response is complete. -/
  | responseComplete
  /-- The handler has failed. -/
  | panic
  /-- A stage known only by its name. -/
  | other (name : String)
  deriving DecidableEq, Repr

namespace Stage

/-- The name of a stage. -/
def name : Stage → String
  | requestReceived => "RequestReceived"
  | responseStarted => "ResponseStarted"
  | responseComplete => "ResponseComplete"
  | panic => "Panic"
  | other s => s

/-- The stage of a name: the known one, if the name is known. -/
def ofName (s : String) : Stage :=
  if s = "RequestReceived" then requestReceived
  else if s = "ResponseStarted" then responseStarted
  else if s = "ResponseComplete" then responseComplete
  else if s = "Panic" then panic
  else other s

instance : ToString Stage := ⟨name⟩

instance : Text.ToTerm Stage where
  term
    | other s => .tuple "Other" [.text s]
    | known => .word known.name

@[simp] theorem name_ofName (s : String) : (ofName s).name = s := by
  grind [ofName, name]

/-- The stages of `xs` that are not in `seen`, each once, in the order in which they appear. -/
def firsts (seen : List Stage) : List Stage → List Stage
  | [] => []
  | s :: xs => if s ∈ seen then firsts seen xs else s :: firsts (s :: seen) xs

/-- The stages of several lists, each once, in the order in which they first appear. -/
def union (lists : List (List Stage)) : List Stage :=
  firsts [] lists.flatten

@[simp] theorem union_nil : union [] = [] := rfl

end Stage

end RequestAudit
