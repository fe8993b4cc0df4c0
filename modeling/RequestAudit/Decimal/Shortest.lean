import RequestAudit.Decimal.Double

/-!
# Shortest decimal text

The fewest decimal digits that read back as a given double, and their layout as a text. On each
grid of decimals the two neighbours of the value are tried, and the first grid on which one of
them lies in the interval of numbers that round to the value gives the digits.
-/

namespace RequestAudit.Decimal

/-- The decimal `0.d₁d₂… * 10 ^ point` with the digits given as a natural number. -/
structure Digits where
  /-- The digits, without leading zeros. -/
  digits : List Char
  /-- How many of the digits stand before the point; it may be negative or exceed their number. -/
  point : Int
  deriving DecidableEq, Repr

namespace Double

/-- Whether `num / den` lies among the numbers that round to `x`, the ends being included if the
significand is even. -/
def holds (x : Double) (num den : Nat) : Bool :=
  let m := x.significand
  -- in quarters of the unit `2 ^ power`: the lower gap is halved at a power of two
  let low := if m = Nat.pow 2 52 ∧ -1074 < x.power then 4 * m - 1 else 4 * m - 2
  let high := 4 * m + 2
  let (n, d) := scaled (4 * num) den x.power
  if m % 2 = 0 then low * d ≤ n && n ≤ high * d else low * d < n && n < high * d

/-- The power of ten just above the value: the least `k` with `value < 10 ^ k`. -/
def pointOf (x : Double) : Int :=
  let (num, den) := x.quotient
  if den ≤ num then (Nat.toDigits 10 (num / den)).length
  else
    -- the number of zeros after the point, from the digits of the reciprocal
    let inv := den / num
    let k := (Nat.toDigits 10 inv).length
    if num * Nat.pow 10 k < den * 10 then (1 : Int) - k else (2 : Int) - k

/-- The neighbours of the value on the grid with `n` digits, the nearer one first. -/
def neighbours (x : Double) (n : Nat) : List (Nat × Int) :=
  let (num, den) := x.quotient
  let unit := x.pointOf - n
  let (a, b) := if 0 ≤ unit then (num, den * Nat.pow 10 unit.toNat)
    else (num * Nat.pow 10 (-unit).toNat, den)
  let q := a / b
  if 2 * (a % b) ≤ b then [(q, unit), (q + 1, unit)] else [(q + 1, unit), (q, unit)]

/-- Whether a decimal rounds to the value. -/
def reads (x : Double) (d : Nat × Int) : Bool :=
  if 0 ≤ d.2 then x.holds (d.1 * Nat.pow 10 d.2.toNat) 1
  else x.holds d.1 (Nat.pow 10 (-d.2).toNat)

/-- The fewest digits that read back, and of those the nearest. -/
def shortest (x : Double) : Digits :=
  if x.significand = 0 then ⟨['0'], 1⟩
  else
    let hit := (List.range 17).findSome? fun i => (x.neighbours (i + 1)).find? x.reads
    match hit with
    | some (d, unit) =>
      let ds := Nat.toDigits 10 d
      let kept := (ds.reverse.dropWhile (· == '0')).reverse
      ⟨kept, unit + ds.length⟩
    | none => ⟨['0'], 1⟩

end Double

namespace Digits

/-- The number without an exponent, always with a point. -/
def positional (d : Digits) : List Char :=
  if d.point ≤ 0 then ['0', '.'] ++ List.replicate (-d.point).toNat '0' ++ d.digits
  else
    let k := d.point.toNat
    if d.digits.length ≤ k then
      d.digits ++ List.replicate (k - d.digits.length) '0' ++ ['.', '0']
    else d.digits.take k ++ '.' :: d.digits.drop k

/-- The number with an exponent that always has a sign, and with a point only if needed. -/
def scientific (d : Digits) : List Char :=
  let lead := match d.digits with
    | [] => []
    | [c] => [c]
    | c :: cs => c :: '.' :: cs
  let e := d.point - 1
  lead ++ 'e' :: (if e < 0 then '-' else '+') :: Nat.toDigits 10 e.natAbs

/-- The number without an exponent where `low ≤ exponent ≤ high`, and with one elsewhere. -/
def within (low high : Int) (d : Digits) : List Char :=
  if low ≤ d.point - 1 ∧ d.point - 1 ≤ high then d.positional else d.scientific

end Digits

end RequestAudit.Decimal
