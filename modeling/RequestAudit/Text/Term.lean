import RequestAudit.Text.Quoted

/-!
# Structured text of values

Diagnostics show a value by its structure: the name of its kind, its fields with their names,
and quoted texts at the leaves. A `Term` is that structure and `Term.render` its one-line text.
-/

namespace RequestAudit.Text

/-- A value as diagnostics show it. -/
inductive Term where
  /-- A number, a truth value or a name, shown as it stands. -/
  | word (w : String)
  /-- A text, shown quoted. -/
  | text (s : String)
  /-- A sequence of values in brackets. -/
  | list (items : List Term)
  /-- Values in parentheses, after a name that may be empty. -/
  | tuple (name : String) (items : List Term)
  /-- Named fields in braces, after the name of the record. -/
  | record (name : String) (fields : List (String × Term))
  deriving Repr

namespace Term

/-- An optional value. -/
def option : Option Term → Term
  | none => word "None"
  | some t => tuple "Some" [t]

/-- A truth value. -/
def flag (b : Bool) : Term := word (toString b)

/-- A count. -/
def number (n : Nat) : Term := word (toString n)

/-- A sequence of texts. -/
def texts (ss : List String) : Term := list (ss.map text)

mutual

/-- The text of a value, on one line. -/
def render : Term → String
  | word w => w
  | text s => quote s
  | list items => "[" ++ ", ".intercalate (renderAll items) ++ "]"
  | tuple name items => name ++ "(" ++ ", ".intercalate (renderAll items) ++ ")"
  | record name fields =>
    name ++ " \x7b " ++ ", ".intercalate (renderFields fields) ++ " \x7d"

/-- The texts of values in order. -/
def renderAll : List Term → List String
  | [] => []
  | t :: ts => t.render :: renderAll ts

/-- The texts of fields in order. -/
def renderFields : List (String × Term) → List String
  | [] => []
  | (name, t) :: fields => (name ++ ": " ++ t.render) :: renderFields fields

end

end Term

/-- Values that diagnostics can show. -/
class ToTerm (α : Type) where
  /-- The structure that is shown. -/
  term : α → Term

export ToTerm (term)

instance : ToTerm String := ⟨.text⟩
instance : ToTerm Bool := ⟨.flag⟩
instance : ToTerm Nat := ⟨.number⟩
instance {α : Type} [ToTerm α] : ToTerm (List α) := ⟨fun xs => .list (xs.map term)⟩
instance {α : Type} [ToTerm α] : ToTerm (Option α) := ⟨fun x => .option (x.map term)⟩

/-- The one-line text of a value in diagnostics. -/
def describe {α : Type} [ToTerm α] (x : α) : String := (term x).render

end RequestAudit.Text
