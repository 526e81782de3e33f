import HawDB.Bytes

/-!
# Bounded decimals

A decimal is a signed coefficient of at most 38 digits and a scale from 0 to 38. Its ordered bytes
are a sign, an exponent and 38 digits, all but the sign complemented when the value is negative;
they are what decimals compare by. Equality is of the normalized pairs.
-/

namespace HawDB

inductive DecimalError where
  | invalidLiteral
  | invalidType
  | invalidEncoding
  | overflow
  | divisionByZero
  | fractional
  | integerOutOfRange
deriving DecidableEq, Repr

/-- `Display`. -/
def DecimalError.message : DecimalError → String
  | invalidLiteral => "invalid or overlong decimal literal"
  | invalidType => "decimal requires precision 1..38 and scale 0..precision"
  | invalidEncoding => "invalid decimal encoding"
  | overflow => "decimal result exceeds 38 coefficient digits or scale 38"
  | divisionByZero => "decimal division by zero"
  | fractional =>
    "decimal value has a fractional part; BIGINT requires an exact integer (HawDB does not round)"
  | integerOutOfRange => "decimal value is outside the BIGINT range"

/-- An exact signed coefficient times ten to the negative scale. -/
structure Decimal where
  coefficient : ℤ
  scale : ℕ
  coefficient_le : coefficient.natAbs ≤ 10 ^ 38 - 1
  scale_le : scale ≤ 38
deriving DecidableEq, Repr

namespace Decimal

/-- `MAX_COEFFICIENT`. -/
def maxCoefficient : ℕ := 10 ^ 38 - 1

/-- `ENCODED_LEN`. -/
def encodedLen : ℕ := 17

def zero : Decimal := ⟨0, 0, by decide, by decide⟩

def new (coefficient : ℤ) (scale : ℕ) : Except DecimalError Decimal :=
  if h : coefficient.natAbs ≤ maxCoefficient ∧ scale ≤ 38 then
    .ok ⟨coefficient, scale, h.1, h.2⟩
  else .error .overflow

def toLeBytes (d : Decimal) : Bytes := leIntBytes 16 d.coefficient ++ [UInt8.ofNat d.scale]

/-- `from_le_bytes`, of `ENCODED_LEN` bytes. -/
def fromLeBytes (bytes : Bytes) : Except DecimalError Decimal :=
  match new (leInt (bytes.take 16)) (leNat (bytes.drop 16)) with
  | .ok d => .ok d
  | .error _ => .error .invalidEncoding

/-- The digit loop of `to_ordered_bytes`, over the slots that are left. -/
def digitLoop : ℕ → ℕ → Bytes → Bytes
  | 0, _, digits => digits
  | slots + 1, value, digits =>
    if value = 0 then digits else digitLoop slots (value / 10) (UInt8.ofNat (value % 10) :: digits)

/-- The exponent and the digits of `to_ordered_bytes`, before a negative value complements them. -/
def orderedBody (d : Decimal) : Bytes :=
  let digits := digitLoop 38 d.coefficient.natAbs []
  let count := digits.length
  UInt8.ofNat (count + 38 - d.scale) :: (digits ++ List.replicate (38 - count) 0)

def toOrderedBytes (d : Decimal) : Bytes :=
  if d.coefficient = 0 then 1 :: List.replicate 39 0
  else if d.coefficient < 0 then 0 :: d.orderedBody.map (~~~ ·)
  else 2 :: d.orderedBody

/-- The loop of `from_ordered_bytes` that brings a scale above 38 down. -/
def stripLoop : ℤ → ℕ → ℤ × ℕ
  | coefficient, 0 => (coefficient, 0)
  | coefficient, scale + 1 =>
    if 38 < scale + 1 ∧ coefficient.tmod 10 = 0 then stripLoop (coefficient.tdiv 10) scale
    else (coefficient, scale + 1)

/-- `from_ordered_bytes` past the sign: the exponent and the digits, not complemented. -/
def fromOrderedBody (negative : Bool) : Bytes → Except DecimalError Decimal
  | [] => .error .invalidEncoding
  | exponent :: digits =>
    if exponent.toNat < 1 ∨ 76 < exponent.toNat ∨ digits.head? = some 0
        ∨ digits.any (fun byte => 9 < byte.toNat) then .error .invalidEncoding
    else
      let magnitude : ℤ := beValue 10 digits
      let coefficient := if negative then -magnitude else magnitude
      let (coefficient, scale) := stripLoop coefficient (76 - exponent.toNat)
      match new coefficient scale with
      | .ok d => .ok d
      | .error _ => .error .invalidEncoding

def fromOrderedBytes : Bytes → Except DecimalError Decimal
  | [] => .error .invalidEncoding
  | sign :: rest =>
    if sign = 0 then fromOrderedBody true (rest.map (~~~ ·))
    else if sign = 1 ∧ rest.all (fun byte => byte = 0) then .ok zero
    else if sign = 2 then fromOrderedBody false rest
    else .error .invalidEncoding

def normalizedLoop : ℤ → ℕ → ℤ × ℕ
  | coefficient, 0 => (coefficient, 0)
  | coefficient, scale + 1 =>
    if coefficient.tmod 10 = 0 then normalizedLoop (coefficient.tdiv 10) scale
    else (coefficient, scale + 1)

def normalized (d : Decimal) : ℤ × ℕ := normalizedLoop d.coefficient d.scale

def eq (a b : Decimal) : Bool := a.normalized = b.normalized

/-- `hash`, into the state of a hasher of pairs. -/
def hash {σ : Type} (hasher : ℤ × ℕ → σ → σ) (d : Decimal) (state : σ) : σ :=
  hasher d.normalized state

instance : Ord Decimal where
  compare a b := compare a.toOrderedBytes b.toOrderedBytes

/-- The number a decimal stands for. -/
def value (d : Decimal) : ℚ := d.coefficient / 10 ^ d.scale

end Decimal

end HawDB
