import HawDB.Decimal

/-!
# Decimal arithmetic

Sums, differences, products and remainders of decimals are exact or fail: trailing zeros of a result
that is too long are dropped (`exact`). A quotient is rounded once, to the nearest value and away
from zero at the midpoint, at the largest scale that fits.
-/

namespace HawDB

namespace Decimal

/-- The digit loop of `precision`. -/
def precisionLoop (value digits : ℕ) : ℕ :=
  if 10 ≤ value then precisionLoop (value / 10) (digits + 1) else digits
termination_by value
decreasing_by omega

/-- The number of digits of the coefficient. -/
def precision (d : Decimal) : ℕ := precisionLoop d.coefficient.natAbs 1

def checkedNeg (d : Decimal) : Decimal :=
  ⟨-d.coefficient, d.scale, by rw [Int.natAbs_neg]; exact d.coefficient_le, d.scale_le⟩

/-- A result that is exact once its trailing zeros are dropped. -/
def exact : ℤ → ℕ → Except DecimalError Decimal
  | coefficient, 0 => new coefficient 0
  | coefficient, scale + 1 =>
    if 38 < scale + 1 ∨ maxCoefficient < coefficient.natAbs then
      if coefficient.tmod 10 ≠ 0 then .error .overflow else exact (coefficient.tdiv 10) scale
    else new coefficient (scale + 1)

/-- The coefficients of two decimals at their larger scale. -/
def aligned (a b : Decimal) : ℤ × ℤ × ℕ :=
  let scale := max a.scale b.scale
  (a.coefficient * 10 ^ (scale - a.scale), b.coefficient * 10 ^ (scale - b.scale), scale)

def checkedAdd (a b : Decimal) : Except DecimalError Decimal :=
  let (left, right, scale) := a.aligned b
  exact (left + right) scale

def checkedSub (a b : Decimal) : Except DecimalError Decimal := a.checkedAdd b.checkedNeg

def checkedMul (a b : Decimal) : Except DecimalError Decimal :=
  exact (a.coefficient * b.coefficient) (a.scale + b.scale)

def checkedRem (a b : Decimal) : Except DecimalError Decimal :=
  if b.coefficient = 0 then .error .divisionByZero
  else
    let (left, right, scale) := a.aligned b
    exact (left.tmod right) scale

def roundedQuotient (numerator denominator : ℤ) (scale : ℕ) : ℤ :=
  let scaled := numerator * 10 ^ scale
  let quotient := scaled.tdiv denominator
  if denominator.natAbs ≤ (scaled.tmod denominator).natAbs * 2 then
    quotient + if scaled.sign = denominator.sign then 1 else -1
  else quotient

/-- The loop of `checked_div` over the scales that are left. -/
def divLoop (numerator denominator : ℤ) : ℕ → Except DecimalError Decimal
  | 0 =>
    let quotient := roundedQuotient numerator denominator 0
    if quotient.natAbs ≤ maxCoefficient then new quotient 0 else .error .overflow
  | scale + 1 =>
    let quotient := roundedQuotient numerator denominator (scale + 1)
    if quotient.natAbs ≤ maxCoefficient then new quotient (scale + 1)
    else divLoop numerator denominator scale

def checkedDiv (a b : Decimal) : Except DecimalError Decimal :=
  if b.coefficient = 0 then .error .divisionByZero
  else
    let numerator := a.coefficient * 10 ^ b.scale
    let denominator := b.coefficient * 10 ^ a.scale
    let integral := (numerator.tdiv denominator).natAbs
    let digits := if integral = 0 then 0 else (Nat.toDigits 10 integral).length
    if 38 < digits then .error .overflow else divLoop numerator denominator (38 - digits)

def rescale (d : Decimal) (scale : ℕ) : Except DecimalError Decimal :=
  if 38 < scale then .error .overflow
  else if d.scale ≤ scale then new (d.coefficient * 10 ^ (scale - d.scale)) scale
  else
    let divisor := 10 ^ (d.scale - scale)
    let quotient := d.coefficient.tdiv divisor
    let quotient := if divisor / 2 ≤ (d.coefficient.tmod divisor).natAbs then
      quotient + d.coefficient.sign else quotient
    new quotient scale

/-- The loop of `next_up`, from a scale down. -/
def nextUpLoop : ℕ → ℤ → Option Decimal
  | 0, scaled =>
    if (scaled + 1).natAbs ≤ maxCoefficient then (new (scaled + 1) 0).toOption else none
  | scale + 1, scaled =>
    if (scaled + 1).natAbs ≤ maxCoefficient then (new (scaled + 1) (scale + 1)).toOption
    else nextUpLoop scale
      (scaled.tdiv 10 - if scaled < 0 ∧ scaled.tmod 10 ≠ 0 then 1 else 0)

/-- The least value above a decimal's. -/
def nextUp (d : Decimal) : Option Decimal :=
  nextUpLoop 38 (d.coefficient * 10 ^ (38 - d.scale))

/-- Exact conversion to an integer. -/
def toI64 (d : Decimal) : Except DecimalError Int64 :=
  let divisor : ℤ := 10 ^ d.scale
  if d.coefficient.tmod divisor ≠ 0 then .error .fractional
  else
    let quotient := d.coefficient.tdiv divisor
    if -2 ^ 63 ≤ quotient ∧ quotient < 2 ^ 63 then .ok (Int64.ofInt quotient)
    else .error .integerOutOfRange

/-- `From<i64>`. -/
def ofInt64 (n : Int64) : Decimal :=
  ⟨n.toInt, 0, by have := n.toInt_lt; have := n.le_toInt; omega, zero.scale_le⟩

/-- `DecimalType::coerce`: rounds to the declared scale, then enforces the precision. -/
def coerce (precision scale : UInt8) (d : Decimal) : Except DecimalError Decimal := do
  let value ← d.rescale scale.toNat
  if precision.toNat < value.precision then .error .overflow else .ok value

/-- `DecimalType::accepts`. -/
def accepts (precision scale : UInt8) (d : Decimal) : Bool :=
  d.scale = scale.toNat ∧ d.precision ≤ precision.toNat

end Decimal

end HawDB
