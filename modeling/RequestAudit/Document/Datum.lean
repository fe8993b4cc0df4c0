/-!
# Data to be written

What the library writes, before a notation is chosen: truth values, counts, texts, lists, and
records with their fields in order.
-/

namespace RequestAudit.Document

/-- Data of any notation. -/
inductive Datum where
  | flag (b : Bool)
  | number (n : Nat)
  | text (s : String)
  | list (items : List Datum)
  | record (fields : List (String × Datum))
  deriving Repr, Inhabited

namespace Datum

/-- A list of texts. -/
def texts (ss : List String) : Datum := list (ss.map text)

/-- A field that is always written. -/
def always (name : String) (d : Datum) : List (String × Datum) := [(name, d)]

/-- A field that is written only for a list with elements. -/
def unlessEmpty {α : Type} (name : String) (xs : List α) (f : List α → Datum) :
    List (String × Datum) :=
  if xs.isEmpty then [] else [(name, f xs)]

/-- A field that is written only for a text that is not empty. -/
def unlessBlank (name : String) (s : String) : List (String × Datum) :=
  if s.isEmpty then [] else [(name, text s)]

/-- A field that is written only if it has a value. -/
def ifSome {α : Type} (name : String) (x : Option α) (f : α → Datum) : List (String × Datum) :=
  match x with
  | none => []
  | some a => [(name, f a)]

end Datum

end RequestAudit.Document
