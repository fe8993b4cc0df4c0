/-!
# Double-precision numbers

Magnitudes of the binary format with 53 significant bits, as a significand and a power of two,
with the rounding of a quotient to the nearest of them.
-/

namespace RequestAudit.Decimal

/-- The magnitude `significand * 2 ^ power`. -/
structure Double where
  /-- The significand, below `2 ^ 53`. -/
  significand : Nat
  /-- The power of two, at least `-1074`. -/
  power : Int
  deriving DecidableEq, Repr

namespace Double

/-- The quotient rounded to the nearest natural number, a tie to the even one. -/
def roundDiv (num den : Nat) : Nat :=
  let q := num / den
  let r := num % den
  if 2 * r < den then q
  else if den < 2 * r then q + 1
  else if q % 2 = 0 then q else q + 1

/-- The number `num / den / 2 ^ power` as a quotient. -/
def scaled (num den : Nat) (power : Int) : Nat × Nat :=
  if 0 ≤ power then (num, den * Nat.pow 2 power.toNat) else (num * Nat.pow 2 (-power).toNat, den)

/-- The double nearest to the quotient; none if that is beyond the largest. -/
def ofQuotient? (num den : Nat) : Option Double :=
  let guess : Int := (num.log2 : Int) - den.log2 - 53
  let (n, d) := scaled num den guess
  let power := max (if n / d < Nat.pow 2 53 then guess else guess + 1) (-1074)
  let (n, d) := scaled num den power
  let m := roundDiv n d
  let (m, power) := if m = Nat.pow 2 53 then (Nat.pow 2 52, power + 1) else (m, power)
  if m = 0 then some ⟨0, -1074⟩ else if 971 < power then none else some ⟨m, power⟩

/-- The value as a quotient of natural numbers. -/
def quotient (x : Double) : Nat × Nat :=
  if 0 ≤ x.power then (x.significand * Nat.pow 2 x.power.toNat, 1)
  else (x.significand, Nat.pow 2 (-x.power).toNat)

/-- The product, rounded; none if it is too large. -/
def mul? (x y : Double) : Option Double :=
  ofQuotient? (x.quotient.1 * y.quotient.1) (x.quotient.2 * y.quotient.2)

/-- The quotient, rounded; none if it is too large. -/
def div? (x y : Double) : Option Double :=
  ofQuotient? (x.quotient.1 * y.quotient.2) (x.quotient.2 * y.quotient.1)

/-- The double nearest to `significand * 10 ^ power`; none if it is too large. Powers far outside
the range are decided without being computed. -/
def ofDecimal? (significand : Nat) (power : Int) : Option Double :=
  if significand = 0 then some ⟨0, -1074⟩
  else
    let size : Int := (Nat.toDigits 10 significand).length + power
    if 400 < size then none
    else if size < -400 then some ⟨0, -1074⟩
    else if 0 ≤ power then ofQuotient? (significand * Nat.pow 10 power.toNat) 1
    else ofQuotient? significand (Nat.pow 10 (-power).toNat)

end Double

end RequestAudit.Decimal
