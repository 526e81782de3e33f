import HawDB.Numeric

/-!
# SQL expressions and values

The expressions of a query, the binding of its constants and parameters, and the conversions between
the values of a query and the values of a relational row. Timestamps are microseconds since 1970;
the text of timestamps and identifiers, the clock and the matching of patterns are parameters of the
model (`SqlLibrary`).
-/

namespace HawDB

/-! ### Timestamps -/

/-- `TIMESTAMP(p)` or `TIMESTAMPTZ(p)`. -/
structure TimestampType where
  zoned : Bool
  precision : UInt8
deriving DecidableEq, Repr

inductive TimestampCast where
  | text
  | timestamp (kind : TimestampType)
deriving DecidableEq, Repr

inductive SqlLikeEscape where
  | character (c : Char)
  | disabled
deriving DecidableEq, Repr

structure SqlLibrary extends NumericLibrary where
  parseTimestamp : String → Except QueryError Int64
  parseTimestamptz : String → Except QueryError Int64
  /-- `format_timestamp` of a datetime in range. -/
  formatTimestamp : NaiveDateTime → String
  /-- `Uuid::parse_str`. -/
  parseUuid : String → Option (ByteArr 16)
  /-- The pinned clock of the statement. -/
  statementNow : ZonedDateTime
  /-- `describe`, in error texts. -/
  describe : Value → String
  /-- `sql_like_matches`. -/
  likeMatches : String → String → SqlLikeEscape → Bool → Except QueryError Bool

namespace SqlTimestamp

def postgresEpochMicros : ℤ := 946684800 * 1000000

def inRange (micros : ℤ) : Bool := minMicros ≤ micros ∧ micros ≤ maxMicros

def outOfRange : QueryError := .semantic "timestamp out of range"

def admitMicros (micros : ℤ) : Except QueryError Int64 :=
  if inRange micros then .ok (Int64.ofInt micros) else .error outOfRange

/-- `TimestampPrecision::round`: halfway values round away from 2000-01-01. -/
def round (precision : UInt8) (micros : Int64) : Except QueryError Int64 :=
  let scale : ℤ := 10 ^ (6 - precision.toNat)
  if scale = 1 then .ok micros
  else
    let relative := micros.toInt - postgresEpochMicros
    let rounded := if 0 ≤ relative then (relative + scale / 2) / scale * scale
      else -((-relative + scale / 2) / scale * scale)
    admitMicros (rounded + postgresEpochMicros)

/-- `TimestampPrecision::accepts`. -/
def accepts (precision : UInt8) (micros : Int64) : Bool :=
  inRange micros.toInt &&
    match round precision micros with
    | .ok rounded => decide (rounded = micros)
    | .error _ => false

/-- Converts a local datetime, rounding what is below a microsecond half up. -/
def fromNaive (value : NaiveDateTime) : Except QueryError Int64 :=
  admitMicros (((value.date.days - 719163) * 86400 + value.time.secs) * 1000000 +
    ((value.time.frac + 500) / 1000 : ℕ))

/-- Converts a zoned datetime to its UTC instant. -/
def fromDatetime (value : ZonedDateTime) : Except QueryError Int64 := fromNaive value.utc

lemma secs_lt (secs : ℤ) : (secs % 86400).toNat < 86400 := by omega

lemma frac_lt (micros : ℤ) : (micros % 1000000).toNat * 1000 < 2000000000 := by omega

def toNaive (micros : Int64) : Except QueryError NaiveDateTime :=
  if inRange micros.toInt then
    let secs := micros.toInt / 1000000
    match NaiveDate.ofDays (secs / 86400 + 719163) with
    | none => .error outOfRange
    | some date => .ok ⟨date, ⟨(secs % 86400).toNat, (micros.toInt % 1000000).toNat * 1000,
        secs_lt _, frac_lt _⟩⟩
  else .error outOfRange

/-- `TIMESTAMP` as a local datetime. -/
def localValue (micros : Int64) : Except QueryError Value := do
  .ok (.scalar (.temporal (.localDateTime (← toNaive micros))))

/-- `TIMESTAMPTZ` as a datetime in UTC. -/
def zonedValue (micros : Int64) : Except QueryError Value := do
  .ok (.scalar (.temporal (.dateTime ⟨← toNaive micros, 0, by decide, by decide⟩)))

def typeName (kind : TimestampType) : String := if kind.zoned then "TIMESTAMPTZ" else "TIMESTAMP"

/-- `TimestampType::convert`; nothing for a null. -/
def convert (lib : SqlLibrary) (kind : TimestampType) (value : Value) :
    Except QueryError (Option Int64) :=
  match value with
  | .leaf .null => .ok none
  | .leaf (.string text) => do
    let micros ← if kind.zoned then lib.parseTimestamptz text else lib.parseTimestamp text
    some <$> round kind.precision micros
  | .leaf (.temporal (.localDateTime value)) => do
    some <$> round kind.precision (← fromNaive value)
  | .leaf (.temporal (.dateTime value)) => do
    some <$> round kind.precision (← fromDatetime value)
  | other => .error (.semantic s!"cannot convert {lib.describe other} to {typeName kind}")

/-- `TimestampType::value`. -/
def value (kind : TimestampType) (micros : Int64) : Except QueryError Value :=
  if kind.zoned then zonedValue micros else localValue micros

/-- `current_timestamp`. -/
def currentTimestamp (lib : SqlLibrary) (kind : TimestampType) : Except QueryError Value := do
  value kind (← round kind.precision (← fromDatetime lib.statementNow))

def format (lib : SqlLibrary) (zoned : Bool) (micros : Int64) : Except QueryError Value := do
  let text := lib.formatTimestamp (← toNaive micros)
  .ok (.scalar (.string (if zoned then text ++ "+00" else text)))

/-- `TimestampCast::apply`. -/
def applyCast (lib : SqlLibrary) (target : TimestampCast) (value : Value) :
    Except QueryError Value :=
  match target with
  | .timestamp kind => do
    match ← convert lib kind value with
    | none => .ok (.scalar .null)
    | some micros => SqlTimestamp.value kind micros
  | .text =>
    match value with
    | .leaf .null => .ok (.scalar .null)
    | .leaf (.string text) => .ok (.scalar (.string text))
    | .leaf (.temporal (.localDateTime value)) => do format lib false (← fromNaive value)
    | .leaf (.temporal (.dateTime value)) => do format lib true (← fromDatetime value)
    | other => .error (.semantic ("CAST to TEXT supports TEXT, TIMESTAMP and TIMESTAMPTZ " ++
        s!"operands, not {lib.describe other}"))

end SqlTimestamp

/-! ### Expressions -/

structure SqlColumnRef where
  qualifier : Option String
  name : String
deriving DecidableEq, Repr

inductive SqlComparisonOp where
  | eq
  | notEq
  | lt
  | lte
  | gt
  | gte
deriving DecidableEq, Repr

/-- Whether an order of the operands meets the comparison. -/
def SqlComparisonOp.holds : SqlComparisonOp → Ordering → Bool
  | eq, ordering => ordering.isEq
  | notEq, ordering => !ordering.isEq
  | lt, ordering => ordering.isLT
  | lte, ordering => !ordering.isGT
  | gt, ordering => ordering.isGT
  | gte, ordering => !ordering.isLT

mutual

inductive SqlValue where
  | literal (value : Value)
  | parameter (position : ℕ)
  /-- A constant expression, which may have parameters. -/
  | expression (expression : Expr)

inductive Expr where
  | column (column : SqlColumnRef)
  | value (value : SqlValue)
  | arithmetic (left : Expr) (op : NumericBinaryOp) (right : Expr)
  | negate (expression : Expr)
  | cast (expression : Expr) (target : NumericType)
  | currentTimestamp (kind : TimestampType)
  | timestampCast (expression : Expr) (target : TimestampCast)
  | function (name : String)
  | and (left right : Expr)
  | or (left right : Expr)
  | not (expression : Expr)
  | compare (left : Expr) (op : SqlComparisonOp) (right : Expr)
  | inList (left : Expr) (values : List Expr) (negated : Bool)
  | like (left pattern : Expr) (caseInsensitive negated : Bool) (escape : SqlLikeEscape)
  | isNull (expression : Expr) (negated : Bool)

end

namespace Expr

def asColumn : Expr → Option SqlColumnRef
  | column c => some c
  | _ => none

def asValue : Expr → Option SqlValue
  | value v => some v
  | _ => none

def requireColumn (e : Expr) : Except QueryError SqlColumnRef :=
  match e.asColumn with
  | some c => .ok c
  | none => .error (.semantic "this SQL expression position requires a column reference")

def requireValue (e : Expr) : Except QueryError SqlValue :=
  match e.asValue with
  | some v => .ok v
  | none => .error (.semantic "this SQL expression position requires a literal or parameter")

end Expr

/-! ### Binding constants -/

namespace SqlBinder

variable (lib : SqlLibrary) (parameters : List Value)

/-- `admit`: the nodes that remain after one more. -/
def admitNode (depth remaining : ℕ) : Except QueryError ℕ :=
  if 64 < depth ∨ remaining = 0 then
    .error (.semantic "numeric expression exceeds 64 levels or 4096 nodes")
  else .ok (remaining - 1)

mutual

/-- `Binder::value`: the value, and the nodes that remain. -/
def bindValue : SqlValue → ℕ → ℕ → Except QueryError (Value × ℕ)
  | .literal value, depth, remaining => do
    .ok (value, ← admitNode depth remaining)
  | .parameter position, depth, remaining => do
    let remaining ← admitNode depth remaining
    match if position = 0 then none else parameters[position - 1]? with
    | some value => .ok (value, remaining)
    | none => .error (.semantic s!"missing PostgreSQL parameter ${position}")
  | .expression expression, depth, remaining => do
    bindExpression expression (depth + 1) (← admitNode depth remaining)

/-- `Binder::expression`. -/
def bindExpression : Expr → ℕ → ℕ → Except QueryError (Value × ℕ)
  | .value value, depth, remaining => do
    bindValue value (depth + 1) (← admitNode depth remaining)
  | .arithmetic left op right, depth, remaining => do
    let (left, remaining) ← bindExpression left (depth + 1) (← admitNode depth remaining)
    let (right, remaining) ← bindExpression right (depth + 1) remaining
    .ok (← Numeric.evaluateNumeric lib.toNumericLibrary left op right, remaining)
  | .negate expression, depth, remaining => do
    let (value, remaining) ← bindExpression expression (depth + 1) (← admitNode depth remaining)
    .ok (← Numeric.negateNumeric value, remaining)
  | .cast expression target, depth, remaining => do
    let (value, remaining) ← bindExpression expression (depth + 1) (← admitNode depth remaining)
    .ok (← Numeric.castNumeric lib.toNumericLibrary value target, remaining)
  | .currentTimestamp kind, depth, remaining => do
    let remaining ← admitNode depth remaining
    .ok (← SqlTimestamp.currentTimestamp lib kind, remaining)
  | .timestampCast expression target, depth, remaining => do
    let (value, remaining) ← bindExpression expression (depth + 1) (← admitNode depth remaining)
    .ok (← SqlTimestamp.applyCast lib target value, remaining)
  | _, depth, remaining => do
    let _ ← admitNode depth remaining
    .error (.semantic "expected a constant numeric expression")

end

end SqlBinder

/-- `bind_sql_value`. -/
def bindSqlValue (lib : SqlLibrary) (value : SqlValue) (parameters : List Value) :
    Except QueryError Value := do
  .ok (← SqlBinder.bindValue lib parameters value 0 4096).1

/-! ### Types of relational values -/

namespace RelationalScalarType

/-- The types share the values that keys and comparisons use. -/
def sameValueDomain (self : RelationalScalarType) (other : Option RelationalScalarType) : Bool :=
  (match self, other with
    | decimal _ _, some (decimal _ _) => true
    | timestamp _, some (timestamp _) => true
    | timestampTz _, some (timestampTz _) => true
    | _, _ => false) || decide (other = some self)

def valueTypeMatches (self : RelationalScalarType) (other : Option RelationalScalarType) : Bool :=
  match self, other with
  | timestamp _, some (timestamp _) => true
  | timestampTz _, some (timestampTz _) => true
  | _, _ => decide (other = some self)

def logicalType : RelationalScalarType → LogicalType
  | boolean => .boolean
  | bigInt => .int64
  | doublePrecision => .float64
  | decimal _ _ => .decimal
  | text => .text
  | bytea => .binary
  | uuid => .uuid
  | vector dimension => .vector dimension
  | timestamp _ => .localDateTime
  | timestampTz _ => .dateTime

end RelationalScalarType

namespace RelationalValue

def scalarType : RelationalValue → Option RelationalScalarType
  | null => none
  | boolean _ => some .boolean
  | bigInt _ => some .bigInt
  | doublePrecision _ => some .doublePrecision
  | decimal d => some (.decimal (UInt8.ofNat (max d.precision d.scale)) (UInt8.ofNat d.scale))
  | text _ => some .text
  | bytea _ => some .bytea
  | vector encoded => some (.vector (vectorDimension encoded))
  | uuid _ => some .uuid
  | timestamp _ => some (.timestamp 6)
  | timestampTz _ => some (.timestampTz 6)
  | overflow reference => some reference.scalarType

def logicalType (value : RelationalValue) : Option LogicalType :=
  value.scalarType.map RelationalScalarType.logicalType

def isNumeric (value : RelationalValue) : Bool := value.logicalType.any (·.isNumeric)

def isNull : RelationalValue → Bool
  | null => true
  | _ => false

def isOverflow : RelationalValue → Bool
  | overflow _ => true
  | _ => false

end RelationalValue

/-- `RelationalScalarType::accepts`: a value can stand in a column of the type. -/
def RelationalScalarType.accepts (self : RelationalScalarType) (value : RelationalValue) : Bool :=
  match self, value with
  | _, .null => true
  | .decimal precision scale, .decimal d => d.accepts precision scale
  | .timestamp precision, .timestamp micros => SqlTimestamp.accepts precision micros
  | .timestampTz precision, .timestampTz micros => SqlTimestamp.accepts precision micros
  | self, value => decide (value.scalarType = some self)

/-! ### Conversions -/

namespace QueryValue

def valueToRelational : Value → Except QueryError RelationalValue
  | .leaf .null => .ok .null
  | .leaf (.bool value) => .ok (.boolean value)
  | .leaf (.int value) => .ok (.bigInt value)
  | .leaf (.decimal value) => .ok (.decimal value)
  | .leaf (.float bits) => .ok (.doublePrecision bits)
  | .leaf (.string value) => .ok (.text value)
  | .leaf (.binary value) => .ok (.bytea value)
  | .leaf (.uuid value) => .ok (.uuid value)
  | .leaf (.vector value) => .ok (.vector value.encoded)
  | .leaf (.temporal (.localDateTime value)) => do
    .ok (.timestamp (← SqlTimestamp.fromNaive value))
  | .leaf (.temporal (.dateTime value)) => do
    .ok (.timestampTz (← SqlTimestamp.fromDatetime value))
  | .leaf (.temporal _) => .error (.semantic ("relational SQL supports local datetimes " ++
      "(TIMESTAMP) and zoned datetimes (TIMESTAMPTZ); DATE, TIME and DURATION values are not " ++
      "supported"))
  | .list _ | .map _ => .error (.semantic "relational SQL values must be scalar")

def toValue (overflow : String) : RelationalValue → Except QueryError Value
  | .null => .ok (.scalar .null)
  | .boolean value => .ok (.scalar (.bool value))
  | .bigInt value => .ok (.scalar (.int value))
  | .decimal value => .ok (.scalar (.decimal value))
  | .doublePrecision bits => .ok (.scalar (.float bits))
  | .text value => .ok (.scalar (.string value))
  | .bytea value => .ok (.scalar (.binary value))
  | .uuid value => .ok (.scalar (.uuid value))
  | .vector encoded =>
    -- the vectors of a row were validated when they were made
    match GraphVector.fromEncoded encoded with
    | .ok value => .ok (.scalar (.vector value))
    | .error message => .error (.semantic message)
  | .timestamp micros => SqlTimestamp.localValue micros
  | .timestampTz micros => SqlTimestamp.zonedValue micros
  | .overflow _ => .error (.execution overflow)

def relationalToValue : RelationalValue → Except QueryError Value :=
  toValue "overflow value reached projection without hydration"

/-- `core_value_ref`: the operand of a numeric expression. -/
def coreValueRef : RelationalValue → Except QueryError Value :=
  toValue "numeric expression requires overflow hydration"

variable (lib : SqlLibrary)

/-- `coerce_relational_value`, as assignments and comparisons use it. -/
def coerceRelationalValue (value : RelationalValue) (scalarType : RelationalScalarType) :
    Except QueryError RelationalValue :=
  let semantic : Except DecimalError Decimal → Except QueryError RelationalValue
    | .ok d => .ok (.decimal d)
    | .error e => .error (.semantic e.message)
  let timestamp (kind : TimestampType) (micros : Int64) : RelationalValue :=
    if kind.zoned then .timestampTz micros else .timestamp micros
  let assign (kind : TimestampType) : Except QueryError RelationalValue :=
    match value with
    | .text text => do
      match ← SqlTimestamp.convert lib kind (.scalar (.string text)) with
      | some micros => .ok (timestamp kind micros)
      | none => .ok value
    | .timestamp micros | .timestampTz micros => do
      .ok (timestamp kind (← SqlTimestamp.round kind.precision micros))
    | value => .ok value
  match scalarType, value with
  | .decimal precision scale, .bigInt value =>
    semantic ((Decimal.ofInt64 value).coerce precision scale)
  | .decimal precision scale, .decimal value => semantic (value.coerce precision scale)
  | .decimal _ _, .doublePrecision _ =>
    .error (.semantic "DOUBLE PRECISION assignment to Decimal requires CAST")
  | .doublePrecision, .decimal value => do
    valueToRelational (← Numeric.castNumeric lib.toNumericLibrary (.scalar (.decimal value))
      .doublePrecision)
  | .bigInt, .decimal value =>
    match value.toI64 with
    | .ok n => .ok (.bigInt n)
    | .error e => .error (.semantic e.message)
  | .uuid, .text text =>
    match lib.parseUuid text with
    | some value => .ok (.uuid value)
    | none => .error (.semantic s!"invalid UUID value {text}")
  | .timestamp precision, _ => assign ⟨false, precision⟩
  | .timestampTz precision, _ => assign ⟨true, precision⟩
  | _, value => .ok value

/-- `value_to_relational_as`: the operand of a comparison with a column of a type. -/
def valueToRelationalAs (value : Value) (scalarType : RelationalScalarType) :
    Except QueryError RelationalValue := do
  match scalarType, ← valueToRelational value with
  | .decimal _ _, .decimal value => .ok (.decimal value)
  | .decimal _ _, .bigInt value => .ok (.decimal (Decimal.ofInt64 value))
  | .bigInt, .decimal value =>
    match value.toI64 with
    | .ok n => .ok (.bigInt n)
    | .error _ => .ok (.decimal value)
  | .decimal _ _, .doublePrecision _ | .doublePrecision, .decimal _ =>
    .error (.semantic "Decimal and DOUBLE PRECISION comparison requires CAST")
  | .timestamp _, .text text => .timestamp <$> lib.parseTimestamp text
  | .timestampTz _, .text text => .timestampTz <$> lib.parseTimestamptz text
  | .timestamp _, value | .timestampTz _, value => .ok value
  | scalarType, value => coerceRelationalValue lib value scalarType

end QueryValue

/-! ### Tables -/

structure RelationalColumnSchema where
  name : String
  scalarType : RelationalScalarType
  nullable : Bool
deriving DecidableEq

structure RelationalTableSchema where
  name : String
  columns : List RelationalColumnSchema

/-- `column_position`. -/
def RelationalTableSchema.columnPosition (schema : RelationalTableSchema) (name : String) :
    Option ℕ :=
  schema.columns.findIdx? (·.name = name)

end HawDB
