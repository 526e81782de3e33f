import Mathlib

/-!
# Date parts of timestamps

The year and the month of a timestamp in nanoseconds. A step of `i64` arithmetic that leaves its
range fails, which a division by a positive constant cannot; a cast to 32 bits wraps.
-/

namespace HawDB

/-- The `i64` of a number, if there is one. -/
def i64 (z : ℤ) : Option ℤ := if -2 ^ 63 ≤ z ∧ z < 2 ^ 63 then some z else none

def divFloor (value divisor : ℤ) : Option ℤ := do
  let quotient ← if divisor = 0 then none else i64 (value.tdiv divisor)
  let remainder := value.tmod divisor
  if remainder ≠ 0 ∧ decide (remainder < 0) ≠ decide (divisor < 0) then i64 (quotient - 1)
  else some quotient

/-- `as i32`. -/
def asI32 (z : ℤ) : ℤ := z.bmod (2 ^ 32)

/-- `as u32`. -/
def asU32 (z : ℤ) : ℤ := z % 2 ^ 32

/-- `civil_from_days`: the year, the month and the day. -/
def civilFromDays (days : ℤ) : Option (ℤ × ℤ × ℤ) := do
  let days ← i64 (days + 719468)
  let era := (← i64 (if 0 ≤ days then days else days - 146096)).tdiv 146097
  let dayOfEra ← i64 (days - (← i64 (era * 146097)))
  let yearOfEra := (← i64 ((← i64 ((← i64 (dayOfEra - dayOfEra.tdiv 1460)) +
    dayOfEra.tdiv 36524)) - dayOfEra.tdiv 146096)).tdiv 365
  let year ← i64 (yearOfEra + (← i64 (era * 400)))
  let dayOfYear ← i64 (dayOfEra - (← i64 ((← i64 ((← i64 (365 * yearOfEra)) +
    yearOfEra.tdiv 4)) - yearOfEra.tdiv 100)))
  let monthPrime := (← i64 ((← i64 (5 * dayOfYear)) + 2)).tdiv 153
  let day ← i64 ((← i64 (dayOfYear - (← i64 ((← i64 (153 * monthPrime)) + 2)).tdiv 5)) + 1)
  let month ← i64 (monthPrime + if monthPrime < 10 then 3 else -9)
  let year ← i64 (year + if month ≤ 2 then 1 else 0)
  some (asI32 year, asU32 month, asU32 day)

inductive DatePart where
  | year
  | month
deriving DecidableEq, Repr

def timestampDatePart (part : DatePart) (nanos : Int64) : Option ℤ := do
  let days ← divFloor nanos.toInt 86400000000000
  let (year, month, _) ← civilFromDays days
  match part with
  | .year => some year
  | .month => some month

end HawDB
