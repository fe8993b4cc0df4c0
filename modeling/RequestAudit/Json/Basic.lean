import RequestAudit.Decimal.Shortest

/-!
# JSON values

A JSON text as a tree. Where the text violates the notation the tree has a `broken` leaf and
nothing after it, so that what comes before the violation can still be looked at.
-/

namespace RequestAudit

namespace Json

/-- A number as it is written, up to what cannot matter. -/
inductive Numeral where
  /-- A natural number of 64 bits. -/
  | natural (n : Nat)
  /-- The negative of `n`, of 64 bits. -/
  | negative (n : Nat)
  /-- The number `significand * 10 ^ power`, negated if `minus`. -/
  | real (minus : Bool) (significand : Nat) (power : Int)
  deriving DecidableEq, Repr

end Json

/-- A JSON value. -/
inductive Json where
  | null
  | bool (b : Bool)
  | number (n : Json.Numeral)
  | string (s : String)
  /-- A string with half of a surrogate pair, which is no text. -/
  | halfString
  | array (items : List Json)
  | object (entries : List (Json × Json))
  /-- The place from which the text cannot be read. -/
  | broken
  deriving Repr, Inhabited

namespace Json

namespace Numeral

open Decimal

/-- The double `10 ^ k`, for `k` up to 308. -/
def tenTo (k : Nat) : Double := (Double.ofQuotient? (Nat.pow 10 k) 1).getD ⟨0, -1074⟩

/-- The double `x * 10 ^ power`, reached by rounding steps of at most 308 powers each; none if it
is too large. -/
def scale? : Nat → Double → Int → Option Double
  | 0, _, _ => none
  | steps + 1, x, power =>
    if power.natAbs ≤ 308 then
      if 0 ≤ power then x.mul? (tenTo power.natAbs) else x.div? (tenTo power.natAbs)
    else if x.significand = 0 then some x
    else if 0 ≤ power then none
    else (x.div? (tenTo 308)).bind fun y => scale? steps y (power + 308)

/-- The magnitude of a number with a fraction; none if it is too large. -/
def magnitude? (significand : Nat) (power : Int) : Option Double :=
  (Double.ofQuotient? significand 1).bind fun x => scale? 5 x power

/-- The text of such a number in messages: without an exponent from `1e-5` up to `1e16`. -/
def realText? (minus : Bool) (significand : Nat) (power : Int) : Option String :=
  (magnitude? significand power).map fun x =>
    String.ofList ((if minus then ['-'] else []) ++ x.shortest.within (-5) 15)

end Numeral

mutual

/-- How deeply arrays and objects are nested. -/
def depth : Json → Nat
  | array items => depthAll items + 1
  | object entries => depthEntries entries + 1
  | _ => 0

/-- The greatest depth of several values. -/
def depthAll : List Json → Nat
  | [] => 0
  | v :: vs => max v.depth (depthAll vs)

/-- The greatest depth of several entries. -/
def depthEntries : List (Json × Json) → Nat
  | [] => 0
  | (_, v) :: es => max v.depth (depthEntries es)

end

mutual

/-- Whether the value is read to its end, whatever its numbers and strings stand for. -/
def isWhole : Json → Bool
  | broken => false
  | array items => allWhole items
  | object entries => entriesWhole entries
  | _ => true

/-- Whether all values are read to their ends. -/
def allWhole : List Json → Bool
  | [] => true
  | v :: vs => v.isWhole && allWhole vs

/-- Whether all entries are read to their ends, under keys that are strings. -/
def entriesWhole : List (Json × Json) → Bool
  | [] => true
  | (string _, v) :: es => v.isWhole && entriesWhole es
  | (halfString, v) :: es => v.isWhole && entriesWhole es
  | _ :: _ => false

end

mutual

/-- Whether moreover every number is in range and every string a text. -/
def isSound : Json → Bool
  | broken => false
  | halfString => false
  | number (.real minus s p) => (Numeral.realText? minus s p).isSome
  | array items => allSound items
  | object entries => entriesSound entries
  | _ => true

/-- Whether all values are sound. -/
def allSound : List Json → Bool
  | [] => true
  | v :: vs => v.isSound && allSound vs

/-- Whether all entries are sound. -/
def entriesSound : List (Json × Json) → Bool
  | [] => true
  | (string _, v) :: es => v.isSound && entriesSound es
  | _ :: _ => false

end

/-- Puts an entry in its place in entries ordered by key, instead of any with the same key. -/
def insertEntry (k : String) (v : Json) : List (Json × Json) → List (Json × Json)
  | (string k', v') :: es =>
    if k = k' then (string k, v) :: es
    else if k < k' then (string k, v) :: (string k', v') :: es
    else (string k', v') :: insertEntry k v es
  | es => (string k, v) :: es

mutual

/-- The value with the entries of all objects ordered by key, the last of each key. -/
def settled : Json → Json
  | array items => array (settledAll items)
  | object entries => object (settledEntries entries [])
  | v => v

/-- Settles values in order. -/
def settledAll : List Json → List Json
  | [] => []
  | v :: vs => v.settled :: settledAll vs

/-- Settles entries on top of those that are already settled. -/
def settledEntries : List (Json × Json) → List (Json × Json) → List (Json × Json)
  | [], done => done
  | (string k, v) :: es, done => settledEntries es (insertEntry k v.settled done)
  | _ :: es, done => settledEntries es done

end

/-- The value under a key of an object. -/
def get? (v : Json) (k : String) : Option Json :=
  match v with
  | object entries => (entries.find? fun e => match e.1 with
      | string k' => k' == k
      | _ => false).map (·.2)
  | _ => none

end Json

end RequestAudit
