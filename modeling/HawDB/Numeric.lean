import HawDB.DecimalArithmetic
import HawDB.DecimalText
import HawDB.GraphValue

/-!
# The numeric kernel

Arithmetic, comparison and casts of numbers, as SQL expressions use them. Integers and decimals stay
exact; a float meets integers only, and a decimal only after a cast. What the standard library does
with floats and with the text of numbers is a parameter (`NumericLibrary`).
-/

namespace HawDB

/-- An error of a query, with its message. -/
inductive QueryError where
  | semantic (message : String)
  | execution (message : String)
deriving DecidableEq, Repr

/-- The functions of the standard library on floats and the text of numbers. -/
structure NumericLibrary where
  /-- `%` of two floats. -/
  rem : Float → Float → Float
  parseFloat : String → Except String Float
  floatText : Float → String
  parseIntError : String → String

inductive LogicalType where
  | any
  | boolean
  | int64
  | float64
  | decimal
  | string
  | text
  | binary
  | uuid
  | vector (dimension : UInt32)
  | list
  | map
  | date
  | localTime
  | localDateTime
  | dateTime
  | duration
deriving DecidableEq, Repr

namespace LogicalType

def isNumeric : LogicalType → Bool
  | int64 | float64 | decimal => true
  | _ => false

def isUtf8 : LogicalType → Bool
  | string | text => true
  | _ => false

end LogicalType

/-- The dimension of a vector's payload. -/
def vectorDimension (encoded : Bytes) : UInt32 := UInt32.ofNat (leNat (encoded.take 4))

namespace Value

def logicalType : Value → Option LogicalType
  | .leaf .null => none
  | .leaf (.bool _) => some .boolean
  | .leaf (.int _) => some .int64
  | .leaf (.decimal _) => some .decimal
  | .leaf (.float _) => some .float64
  | .leaf (.string _) => some .string
  | .leaf (.binary _) => some .binary
  | .leaf (.vector v) => some (.vector (vectorDimension v.encoded))
  | .leaf (.uuid _) => some .uuid
  | .leaf (.temporal (.date _)) => some .date
  | .leaf (.temporal (.localTime _)) => some .localTime
  | .leaf (.temporal (.localDateTime _)) => some .localDateTime
  | .leaf (.temporal (.dateTime _)) => some .dateTime
  | .leaf (.temporal (.duration _)) => some .duration
  | .list _ => some .list
  | .map _ => some .map

def isNull : Value → Bool
  | .leaf .null => true
  | _ => false

end Value

inductive NumericBinaryOp where
  | add
  | subtract
  | multiply
  | divide
  | remainder
deriving DecidableEq, Repr

inductive NumericType where
  | bigInt
  | doublePrecision
  | decimal (precision scale : UInt8)
deriving DecidableEq, Repr

def NumericType.logicalType : NumericType → LogicalType
  | bigInt => .int64
  | doublePrecision => .float64
  | decimal _ _ => .decimal

namespace Numeric

variable (lib : NumericLibrary)

/-- The result of a decimal operation, with its error as an execution error. -/
def ofDecimal : Except DecimalError Decimal → Except QueryError Value
  | .ok d => .ok (.scalar (.decimal d))
  | .error e => .error (.execution e.message)

def exactDecimal : Value → Except QueryError Decimal
  | .leaf (.int value) => .ok (Decimal.ofInt64 value)
  | .leaf (.decimal value) => .ok value
  | .leaf (.float _) =>
    .error (.execution "Decimal and DOUBLE PRECISION require an explicit CAST")
  | _ => .error (.execution "arithmetic requires numeric operands")

def approximate : Value → Except QueryError Float
  | .leaf (.int value) => .ok value.toFloat
  | .leaf (.float bits) =>
    if (Float.ofBits bits).isFinite then .ok (Float.ofBits bits)
    else .error (.execution "arithmetic requires finite numeric operands")
  | _ => .error (.execution "arithmetic requires finite numeric operands")

def decimalOp : NumericBinaryOp → Decimal → Decimal → Except DecimalError Decimal
  | .add => Decimal.checkedAdd
  | .subtract => Decimal.checkedSub
  | .multiply => Decimal.checkedMul
  | .divide => Decimal.checkedDiv
  | .remainder => Decimal.checkedRem

def checkedInt (value : ℤ) : Except QueryError Value :=
  if -2 ^ 63 ≤ value ∧ value < 2 ^ 63 then .ok (.scalar (.int (Int64.ofInt value)))
  else .error (.execution "integer arithmetic overflow")

/-- The arithmetic of integers; the remainder overflows where the quotient does. -/
def integerOp (op : NumericBinaryOp) (left right : Int64) : Except QueryError Value :=
  match op with
  | .add => checkedInt (left.toInt + right.toInt)
  | .subtract => checkedInt (left.toInt - right.toInt)
  | .multiply => checkedInt (left.toInt * right.toInt)
  | .divide =>
    if right = 0 then .error (.execution "division by zero")
    else checkedInt (left.toInt.tdiv right.toInt)
  | .remainder =>
    if right = 0 then .error (.execution "division by zero")
    else do
      let _ ← checkedInt (left.toInt.tdiv right.toInt)
      checkedInt (left.toInt.tmod right.toInt)

def floatOp (op : NumericBinaryOp) (left right : Float) : Except QueryError Value :=
  if (op = .divide ∨ op = .remainder) ∧ right == 0 then .error (.execution "division by zero")
  else
    let value := match op with
      | .add => left + right
      | .subtract => left - right
      | .multiply => left * right
      | .divide => left / right
      | .remainder => lib.rem left right
    if value.isFinite then .ok (.scalar (.float value.toBits))
    else .error (.execution "non-finite arithmetic result")

def isNonNumeric (value : Value) : Bool := value.logicalType.any (!·.isNumeric)

def isDecimal : Value → Bool
  | .leaf (.decimal _) => true
  | _ => false

def evaluateNumeric (left : Value) (op : NumericBinaryOp) (right : Value) :
    Except QueryError Value :=
  if isNonNumeric left ∨ isNonNumeric right then
    .error (.execution "arithmetic requires numeric operands")
  else if left.isNull ∨ right.isNull then .ok (.scalar .null)
  else if isDecimal left ∨ isDecimal right then do
    let left ← exactDecimal left
    let right ← exactDecimal right
    ofDecimal (decimalOp op left right)
  else
    match left, right with
    | .leaf (.int left), .leaf (.int right) => integerOp op left right
    | left, right => do
      let left ← approximate left
      let right ← approximate right
      floatOp lib op left right

def negateNumeric : Value → Except QueryError Value
  | .leaf .null => .ok (.scalar .null)
  | .leaf (.decimal value) => .ok (.scalar (.decimal value.checkedNeg))
  | .leaf (.int value) => checkedInt (-value.toInt)
  | .leaf (.float bits) =>
    if (Float.ofBits bits).isFinite then .ok (.scalar (.float (-Float.ofBits bits).toBits))
    else .error (.execution "negation requires a finite numeric operand")
  | _ => .error (.execution "negation requires a finite numeric operand")

/-- `partial_cmp` of two floats that are not NaN. -/
def partialCmp (left right : Float) : Ordering :=
  if left < right then .lt else if left == right then .eq else .gt

def compareIntFloat (integer : Int64) (bits : UInt64) : Ordering :=
  let float := Float.ofBits bits
  if float.isNaN then totalCmp integer.toFloat.toBits bits
  else if float ≥ 9223372036854775808.0 then .lt
  else if float < -9223372036854775808.0 then .gt
  else
    let integral := float.toInt64
    (compare integer integral).then (partialCmp integral.toFloat float)

/-- Numeric comparison that does not convert exact values to floats. -/
def compareNumeric (left right : Value) : Except QueryError Ordering :=
  if isDecimal left ∨ isDecimal right then do
    let left ← exactDecimal left
    let right ← exactDecimal right
    .ok (compare left right)
  else
    match left, right with
    | .leaf (.int left), .leaf (.int right) => .ok (compare left right)
    | .leaf (.float left), .leaf (.float right) => .ok (totalCmp left right)
    | .leaf (.int left), .leaf (.float right) => .ok (compareIntFloat left right)
    | .leaf (.float left), .leaf (.int right) => .ok (compareIntFloat right left).swap
    | _, _ => .error (.execution "numeric comparison requires numeric operands")

def castDecimalOperand : Value → Except QueryError Decimal
  | .leaf (.int value) => .ok (Decimal.ofInt64 value)
  | .leaf (.decimal value) => .ok value
  | .leaf (.string value) => parseDecimal value.toList
  | .leaf (.float bits) =>
    if (Float.ofBits bits).isFinite then parseDecimal (lib.floatText (Float.ofBits bits)).toList
    else .error (.execution "CAST to DECIMAL requires a finite numeric value or decimal text")
  | _ => .error (.execution "CAST to DECIMAL requires a finite numeric value or decimal text")
where
  parseDecimal (text : Text) : Except QueryError Decimal :=
    match Decimal.fromText text with
    | .ok d => .ok d
    | .error e => .error (.execution e.message)

/-- `fract() == 0.0` and the range of integers. -/
def isIntegral (float : Float) : Bool :=
  float.isFinite && (if float < 0 then float.ceil else float.floor) == float &&
    decide (-9223372036854775808.0 ≤ float) && decide (float < 9223372036854775808.0)

def castBigInt : Value → Except QueryError Value
  | .leaf (.int value) => .ok (.scalar (.int value))
  | .leaf (.decimal value) =>
    match value.toI64 with
    | .ok n => .ok (.scalar (.int n))
    | .error e => .error (.execution e.message)
  | .leaf (.string value) =>
    match parseSigned (2 ^ 63) value.toList with
    | some n => .ok (.scalar (.int (Int64.ofInt n)))
    | none => .error (.execution (lib.parseIntError value))
  | .leaf (.float bits) =>
    if isIntegral (Float.ofBits bits) then .ok (.scalar (.int (Float.ofBits bits).toInt64))
    else .error (.execution "CAST to BIGINT requires an exact in-range integer")
  | _ => .error (.execution "CAST to BIGINT requires an exact in-range integer")

def castFloatOperand : Value → Except QueryError Float
  | .leaf (.decimal value) => parse (String.ofList value.toText)
  | .leaf (.string value) => parse value
  | value => approximate value
where
  parse (text : String) : Except QueryError Float :=
    match lib.parseFloat text with
    | .ok float => .ok float
    | .error message => .error (.execution message)

def castNumeric (value : Value) (target : NumericType) : Except QueryError Value :=
  if value.isNull then .ok (.scalar .null)
  else
    match target with
    | .decimal precision scale => do
      let decimal ← castDecimalOperand lib value
      ofDecimal (decimal.coerce precision scale)
    | .bigInt => castBigInt lib value
    | .doublePrecision => do
      let float ← castFloatOperand lib value
      if float.isFinite then .ok (.scalar (.float float.toBits))
      else .error (.execution "CAST produced a non-finite DOUBLE PRECISION value")

def commonNumericType (left right : Option LogicalType) :
    Except QueryError (Option LogicalType) :=
  if left.any (!·.isNumeric) ∨ right.any (!·.isNumeric) then
    .error (.execution "arithmetic requires numeric operands")
  else if (left = some .decimal ∧ right = some .float64) ∨
      (left = some .float64 ∧ right = some .decimal) then
    .error (.execution "Decimal and DOUBLE PRECISION require an explicit CAST")
  else if left = some .decimal ∨ right = some .decimal then .ok (some .decimal)
  else if left = some .float64 ∨ right = some .float64 then .ok (some .float64)
  else .ok (left.or right)

end Numeric

end HawDB
