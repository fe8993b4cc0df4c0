import RequestAudit.Text.Quoted

/-!
# Faults in documents

Why a document does not say what it should, told in terms of what was found and what was
expected, whatever the notation of the document.
-/

namespace RequestAudit.Document

/-- What stands where something else is expected. -/
inductive Found where
  /-- The null of a notation that has one. -/
  | null
  /-- Nothing at all. -/
  | nothing
  | flag (b : Bool)
  | integer (n : Int)
  /-- An integer beyond 64 bits, with the word for its width. -/
  | wide (n : Int) (width : String)
  /-- A number with a fraction, as it is shown. -/
  | real (digits : String)
  | text (s : String)
  | list
  | record
  deriving DecidableEq, Repr

/-- How it is named in a message. -/
def Found.message : Found → String
  | null => "null"
  | nothing => "unit value"
  | flag b => "boolean `" ++ toString b ++ "`"
  | integer n => "integer `" ++ toString n ++ "`"
  | wide n width => "integer `" ++ toString n ++ "` as " ++ width
  | real digits => "floating point `" ++ digits ++ "`"
  | text s => "string " ++ Text.quote s
  | list => "sequence"
  | record => "map"

/-- Why a document does not say what it should. -/
inductive Fault where
  /-- Something of the wrong kind. -/
  | wrongType (found : Found) (expected : String)
  /-- Something of the right kind that cannot be accepted. -/
  | wrongValue (found : Found) (expected : String)
  /-- The wrong number of elements. -/
  | wrongLength (count : Nat) (expected : String)
  /-- A name that is none of those possible here. -/
  | unknownVariant (name : String) (known : List String)
  /-- A field that must be given and is not. -/
  | missing (field : String)
  /-- A field that is given twice. -/
  | duplicate (field : String)
  /-- The notation itself is violated, or a text is none of the form it should have. -/
  | unreadable
  deriving DecidableEq, Repr

/-- The list of the possible names. -/
def alternatives : List String → String
  | [] => "there are no variants"
  | [a] => "expected `" ++ a ++ "`"
  | [a, b] => "expected `" ++ a ++ "` or `" ++ b ++ "`"
  | names => "expected one of " ++ ", ".intercalate (names.map fun n => "`" ++ n ++ "`")

/-- How the fault is worded; violations of the notation have no wording here. -/
def Fault.message? : Fault → Option String
  | wrongType found expected =>
    some ("invalid type: " ++ found.message ++ ", expected " ++ expected)
  | wrongValue found expected =>
    some ("invalid value: " ++ found.message ++ ", expected " ++ expected)
  | wrongLength count expected =>
    some ("invalid length " ++ toString count ++ ", expected " ++ expected)
  | unknownVariant name known =>
    some ("unknown variant `" ++ name ++ "`, " ++ alternatives known)
  | missing field => some ("missing field `" ++ field ++ "`")
  | duplicate field => some ("duplicate field `" ++ field ++ "`")
  | unreadable => none

end RequestAudit.Document
