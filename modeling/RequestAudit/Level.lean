import RequestAudit.Text.Term

/-!
# Audit levels

How much of a request is recorded, from nothing to both bodies. The levels are ordered by how
much they record.
-/

namespace RequestAudit

/-- How much of a request is recorded. -/
inductive Level where
  /-- Nothing. -/
  | none
  /-- Who asked for what, and when. -/
  | metadata
  /-- The metadata and the body of the request. -/
  | request
  /-- The metadata and the bodies of the request and of the response. -/
  | requestResponse
  deriving DecidableEq, Repr

namespace Level

instance : Inhabited Level := ⟨none⟩

/-- All levels, from the least to the most verbose. -/
def all : List Level := [none, metadata, request, requestResponse]

/-- The place of a level in that order. -/
def rank : Level → Nat
  | none => 0
  | metadata => 1
  | request => 2
  | requestResponse => 3

instance : LT Level := ⟨fun a b => a.rank < b.rank⟩
instance : LE Level := ⟨fun a b => a.rank ≤ b.rank⟩
instance (a b : Level) : Decidable (a < b) := inferInstanceAs (Decidable (a.rank < b.rank))
instance (a b : Level) : Decidable (a ≤ b) := inferInstanceAs (Decidable (a.rank ≤ b.rank))
instance : Max Level := ⟨fun a b => if a ≤ b then b else a⟩
instance : Ord Level := ⟨fun a b => compare a.rank b.rank⟩

/-- The name under which policies and logs know a level. -/
def name : Level → String
  | none => "None"
  | metadata => "Metadata"
  | request => "Request"
  | requestResponse => "RequestResponse"

/-- The level of a name. -/
def ofName? (s : String) : Option Level :=
  all.find? (·.name == s)

instance : ToString Level := ⟨name⟩
instance : Text.ToTerm Level := ⟨fun l => .word l.name⟩

@[simp] theorem ofName?_name (l : Level) : ofName? l.name = some l := by
  cases l <;> decide

theorem mem_all (l : Level) : l ∈ all := by
  cases l <;> decide

end Level

end RequestAudit
