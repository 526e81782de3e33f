import HawDB.Decimal
import HawDB.Text

/-!
# Decimals as text

`Display` and `FromStr` of a decimal. A literal may have a sign, a point and an exponent; trailing
zeros behind the point are dropped only when the literal does not fit otherwise.
-/

namespace HawDB

namespace Decimal

/-- `Display`. -/
def toText (d : Decimal) : Text :=
  let magnitude := d.coefficient.natAbs
  let digits :=
    if d.scale = 0 then natText magnitude
    else natText (magnitude / 10 ^ d.scale) ++ '.' :: padText d.scale (magnitude % 10 ^ d.scale)
  if d.coefficient < 0 then '-' :: digits else digits

/-- `MAX_LITERAL_BYTES`. -/
def maxLiteralBytes : ℕ := 256

def digitValue (c : Char) : ℕ := c.toNat - '0'.toNat

/-- The mantissa loop of `from_str`: the digits so far, how many of them stand behind the point, and
whether the point has come. -/
def scanMantissa : Text → List ℕ → ℕ → Bool → Option (List ℕ × ℕ)
  | [], digits, fraction, _ => some (digits, fraction)
  | c :: mantissa, digits, fraction, point =>
    if c = '.' ∧ point = false then scanMantissa mantissa digits fraction true
    else if c.isDigit then
      scanMantissa mantissa (digits ++ [digitValue c]) (fraction + if point then 1 else 0) point
    else none

def splitExponent (unsigned : Text) : Except DecimalError (Text × ℤ) :=
  match unsigned.span fun c => c ≠ 'e' ∧ c ≠ 'E' with
  | (mantissa, []) => .ok (mantissa, 0)
  | (mantissa, _ :: exponent) =>
    match parseSigned (2 ^ 15) exponent with
    | none => .error .invalidLiteral
    | some exponent => if 1024 < exponent.natAbs then .error .overflow else .ok (mantissa, exponent)

/-- The loop that drops trailing zeros, over the digits from the last one. -/
def trimLoop : List ℕ → ℤ → List ℕ × ℤ
  | 0 :: digits, scale =>
    if 0 < scale ∧ (38 < digits.length + 1 ∨ 38 < scale) then trimLoop digits (scale - 1)
    else (0 :: digits, scale)
  | digits, scale => (digits, scale)

def digitsNat (digits : List ℕ) : ℕ := digits.foldl (fun n digit => n * 10 + digit) 0

/-- The end of `from_str`: the decimal of the digits and the scale. -/
def ofDigits (negative : Bool) (digits : List ℕ) (scale : ℤ) : Except DecimalError Decimal :=
  match digits.dropWhile (· = 0) with
  | [] => new 0 (max 0 (min scale 38)).toNat
  | digit :: significant =>
    let (trimmed, scale) := trimLoop (digit :: significant).reverse scale
    if 38 < trimmed.length ∨ 38 < scale ∨ 38 < trimmed.length - min scale 0 then .error .overflow
    else
      let coefficient := digitsNat trimmed.reverse * 10 ^ (-scale).toNat
      new (if negative then -coefficient else coefficient) scale.toNat

/-- The sign of a literal, and what follows it. -/
def splitSign : Text → Bool × Text
  | '-' :: unsigned => (true, unsigned)
  | '+' :: unsigned => (false, unsigned)
  | unsigned => (false, unsigned)

/-- `from_str`. -/
def fromText (text : Text) : Except DecimalError Decimal :=
  if text = [] ∨ maxLiteralBytes < (textBytes text).length then .error .invalidLiteral
  else do
    let (negative, unsigned) := splitSign text
    let (mantissa, exponent) ← splitExponent unsigned
    match scanMantissa mantissa [] 0 false with
    | none => .error .invalidLiteral
    | some (digits, fraction) =>
      if digits = [] then .error .invalidLiteral
      else ofDigits negative digits (fraction - exponent)

end Decimal

end HawDB
