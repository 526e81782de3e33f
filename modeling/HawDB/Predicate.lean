import HawDB.SqlValue

/-!
# The evaluators of a WHERE clause

A predicate is evaluated in three ways. Joins and filters evaluate it on a row as it stands
(`predicateTruthWith`). A streaming query binds it first: columns become ordinals, and literals are
coerced once (`StreamingPredicate`). An update or a delete compiles it to a predicate of the storage
(`MutationPredicate`).
-/

namespace HawDB

open QueryValue

/-- Three truth values: true, false, or unknown. -/
abbrev Truth := Option Bool

/-! ### Evaluation on a row -/

/-- `compare_value_refs`. -/
def compareValueRefs (left right : RelationalValue) (op : SqlComparisonOp) :
    Except QueryError Truth :=
  if left.isOverflow ∨ right.isOverflow then
    .error (.execution "relational filter or join requires overflow hydration before qualification")
  else if left.isNull ∨ right.isNull then .ok none
  else if left.isNumeric ∧ right.isNumeric then do
    let ordering ← Numeric.compareNumeric (← coreValueRef left) (← coreValueRef right)
    .ok (some (op.holds ordering))
  else if left.scalarType ≠ right.scalarType then
    .error (.semantic "relational comparison has incompatible scalar types")
  else .ok (some (op.holds (compare left right)))

abbrev ColumnResolver := SqlColumnRef → Except QueryError (RelationalValue × RelationalScalarType)

section

variable (lib : SqlLibrary) (parameters : List Value) (resolve : ColumnResolver)

def predicateExpression : Expr → Except QueryError RelationalValue
  | .column column => do .ok (← resolve column).1
  | .value value => do valueToRelational (← bindSqlValue lib value parameters)
  | .arithmetic left op right => do
    let left ← predicateExpression left
    let right ← predicateExpression right
    valueToRelational (← Numeric.evaluateNumeric lib.toNumericLibrary (← coreValueRef left) op
      (← coreValueRef right))
  | .negate expression => do
    let value ← predicateExpression expression
    valueToRelational (← Numeric.negateNumeric (← coreValueRef value))
  | .cast expression target => do
    let value ← predicateExpression expression
    valueToRelational (← Numeric.castNumeric lib.toNumericLibrary (← coreValueRef value) target)
  | _ => .error (.semantic "unsupported predicate operand")

/-- `predicate_operand`: an operand compared with a column of a type. -/
def predicateOperand (scalarType : RelationalScalarType) :
    Expr → Except QueryError RelationalValue
  | .column column => do .ok (← resolve column).1
  | .value value => do valueToRelationalAs lib (← bindSqlValue lib value parameters) scalarType
  | expression => predicateExpression lib parameters resolve expression

def leftOperand (left : Expr) :
    Except QueryError (RelationalValue × Option RelationalScalarType) :=
  match left.asColumn with
  | some column => do
    let (value, kind) ← resolve column
    .ok (value, some kind)
  | none => do .ok (← predicateExpression lib parameters resolve left, none)

/-- The right operand, coerced if the left one is a column. -/
def rightOperand (kind : Option RelationalScalarType) (right : Expr) :
    Except QueryError RelationalValue :=
  match kind with
  | some kind => predicateOperand lib parameters resolve kind right
  | none => predicateExpression lib parameters resolve right

/-- The loop over an IN list: whether a value matched, and whether one was unknown. -/
def inListLoop (left : RelationalValue) (kind : Option RelationalScalarType) :
    List Expr → Bool → Bool → Except QueryError (Bool × Bool)
  | [], matched, hasUnknown => .ok (matched, hasUnknown)
  | value :: values, matched, hasUnknown => do
    match ← compareValueRefs left (← rightOperand lib parameters resolve kind value) .eq with
    | some true => inListLoop left kind values true hasUnknown
    | none => inListLoop left kind values matched true
    | some false => inListLoop left kind values matched hasUnknown

def inListResult (matched hasUnknown negated : Bool) : Truth :=
  let result := if matched then some true else if hasUnknown then none else some false
  result.map (· != negated)

def likeTruth (left pattern : RelationalValue) (caseInsensitive negated : Bool)
    (escape : SqlLikeEscape) : Except QueryError Truth :=
  match left, pattern with
  | .null, _ | _, .null => .ok none
  | .text value, .text pattern => do
    .ok (some ((← lib.likeMatches value pattern escape caseInsensitive) != negated))
  | .overflow _, _ => .error (.execution "LIKE reached an overflow value without hydration")
  | _, _ => .error (.semantic "LIKE and ILIKE require TEXT values")

/-- `predicate_truth_with`. -/
def predicateTruthWith : Expr → Except QueryError Truth
  | .value (.literal (.leaf (.bool value))) => .ok (some value)
  | .and left right => do
    match ← predicateTruthWith left with
    | some false => .ok (some false)
    | some true => predicateTruthWith right
    | none =>
      match ← predicateTruthWith right with
      | some false => .ok (some false)
      | _ => .ok none
  | .or left right => do
    match ← predicateTruthWith left with
    | some true => .ok (some true)
    | some false => predicateTruthWith right
    | none =>
      match ← predicateTruthWith right with
      | some true => .ok (some true)
      | _ => .ok none
  | .not predicate => do .ok ((← predicateTruthWith predicate).map (!·))
  | .compare left op right => do
    let (leftValue, kind) ← leftOperand lib parameters resolve left
    let rightValue ← rightOperand lib parameters resolve kind right
    compareValueRefs leftValue rightValue op
  | .inList left values negated => do
    let (leftValue, kind) ← leftOperand lib parameters resolve left
    let (matched, hasUnknown) ← inListLoop lib parameters resolve leftValue kind values false false
    .ok (inListResult matched hasUnknown negated)
  | .like left pattern caseInsensitive negated escape => do
    let (value, kind) ← resolve (← left.requireColumn)
    if kind ≠ .text then .error (.semantic "LIKE and ILIKE require a TEXT column")
    else
      let pattern ← predicateOperand lib parameters resolve .text pattern
      likeTruth lib value pattern caseInsensitive negated escape
  | .isNull expression negated => do
    .ok (some ((← predicateExpression lib parameters resolve expression).isNull != negated))
  | _ => .error (.semantic "unsupported relational predicate expression")

end

/-! ### Bound evaluation -/

/-- A bound scalar: `Scalar` of the streaming predicate. -/
inductive StreamingScalar where
  | column (index : ℕ) (kind : RelationalScalarType)
  | value (value : RelationalValue)
  | binary (left : StreamingScalar) (op : NumericBinaryOp) (right : StreamingScalar)
  | negate (value : StreamingScalar)
  | cast (value : StreamingScalar) (target : NumericType)

namespace StreamingScalar

def kind : StreamingScalar → Except QueryError (Option LogicalType)
  | column _ kind => .ok (some kind.logicalType)
  | value v => .ok v.logicalType
  | binary left _ right => do Numeric.commonNumericType (← left.kind) (← right.kind)
  | negate v => do Numeric.commonNumericType (← v.kind) none
  | cast v target => do
    if (← v.kind).any fun kind => !kind.isNumeric && !kind.isUtf8 then
      .error (.semantic "CAST requires a numeric or text operand")
    else .ok (some target.logicalType)

def validateComparison (left right : StreamingScalar) : Except QueryError Unit := do
  let leftKind ← left.kind
  let rightKind ← right.kind
  if leftKind.any (·.isNumeric) ∧ rightKind.any (·.isNumeric) then
    let _ ← Numeric.commonNumericType leftKind rightKind
    .ok ()
  else if leftKind.isSome ∧ rightKind.isSome ∧ leftKind ≠ rightKind then
    .error (.semantic "relational comparison has incompatible scalar types")
  else .ok ()

def isText : RelationalValue → Bool
  | .text _ => true
  | _ => false

def isTimestamp : RelationalScalarType → Bool
  | .timestamp _ | .timestampTz _ => true
  | _ => false

/-- `coerce_comparison_literal`: a literal takes the type of the column it is compared with. -/
def coerceComparisonLiteral (lib : SqlLibrary) (self other : StreamingScalar) :
    Except QueryError StreamingScalar :=
  match self, other with
  | .value v, .column _ target =>
    if target.logicalType.isNumeric ∨ (isTimestamp target ∧ isText v) then do
      .ok (.value (← valueToRelationalAs lib (← relationalToValue v) target))
    else .ok self
  | _, _ => .ok self

/-- The result of the numeric kernel in a row. -/
def ofKernel : Value → Except QueryError RelationalValue
  | .leaf .null => .ok .null
  | .leaf (.int n) => .ok (.bigInt n)
  | .leaf (.float bits) => .ok (.doublePrecision bits)
  | .leaf (.decimal d) => .ok (.decimal d)
  | _ => .error (.execution "numeric kernel returned a nonnumeric value")

def evaluate (lib : SqlLibrary) (resolve : ℕ → Except QueryError RelationalValue) :
    StreamingScalar → Except QueryError RelationalValue
  | value v => .ok v
  | column index _ => resolve index
  | binary left op right => do
    let left ← coreValueRef (← left.evaluate lib resolve)
    let right ← coreValueRef (← right.evaluate lib resolve)
    ofKernel (← Numeric.evaluateNumeric lib.toNumericLibrary left op right)
  | negate v => do
    ofKernel (← Numeric.negateNumeric (← coreValueRef (← v.evaluate lib resolve)))
  | cast v target => do
    ofKernel (← Numeric.castNumeric lib.toNumericLibrary
      (← coreValueRef (← v.evaluate lib resolve)) target)

end StreamingScalar

/-- `bind_streaming_column`. -/
def bindStreamingColumn (column : SqlColumnRef) (schema : RelationalTableSchema)
    (table qualifier : String) : Except QueryError ℕ :=
  let unknown := QueryError.semantic s!"column {column.name} is unknown or ambiguous"
  if column.qualifier.any fun candidate => candidate ≠ qualifier ∧ candidate ≠ table then
    .error unknown
  else
    match schema.columnPosition column.name with
    | some position => .ok position
    | none => .error unknown

section

variable (lib : SqlLibrary) (parameters : List Value) (schema : RelationalTableSchema)
  (table qualifier : String)

def columnKind (index : ℕ) : Except QueryError RelationalScalarType :=
  match schema.columns[index]? with
  | some column => .ok column.scalarType
  | none => .error (.semantic "column ordinal is out of range")

/-- `Binder::bind` before the check of the kind: the scalar, and the nodes that remain. -/
def bindScalarNode : Expr → ℕ → ℕ → Except QueryError (StreamingScalar × ℕ)
  | expression, depth, remaining =>
    if 64 < depth ∨ remaining = 0 then
      .error (.semantic "numeric expression exceeds 64 levels or 4096 nodes")
    else do
      let remaining := remaining - 1
      let (value, remaining) ← match expression with
        | .column column => do
          let index ← bindStreamingColumn column schema table qualifier
          .ok (StreamingScalar.column index (← columnKind schema index), remaining)
        | .value value => do
          .ok (.value (← valueToRelational (← bindSqlValue lib value parameters)), remaining)
        | .arithmetic left op right => do
          let (left, remaining) ← bindScalarNode left (depth + 1) remaining
          let (right, remaining) ← bindScalarNode right (depth + 1) remaining
          .ok (.binary left op right, remaining)
        | .negate value => do
          let (value, remaining) ← bindScalarNode value (depth + 1) remaining
          .ok (.negate value, remaining)
        | .cast value target => do
          let (value, remaining) ← bindScalarNode value (depth + 1) remaining
          .ok (.cast value target, remaining)
        | _ => .error (.semantic "unsupported streaming scalar expression")
      let _ ← value.kind
      .ok (value, remaining)

/-- `Scalar::bind`. -/
def bindScalar (expression : Expr) : Except QueryError StreamingScalar := do
  .ok (← bindScalarNode lib parameters schema table qualifier expression 0 4096).1

inductive StreamingPredicate where
  | and (left right : StreamingPredicate)
  | or (left right : StreamingPredicate)
  | not (predicate : StreamingPredicate)
  | compare (left : StreamingScalar) (op : SqlComparisonOp) (right : StreamingScalar)
  | inList (left : StreamingScalar) (values : List StreamingScalar) (negated : Bool)
  | like (left : ℕ) (pattern : RelationalValue) (caseInsensitive negated : Bool)
      (escape : SqlLikeEscape)
  | isNull (column : StreamingScalar) (negated : Bool)

/-- `validate_comparison`, with the names of the columns in its errors. -/
def validateStreamingComparison (left right : StreamingScalar) : Except QueryError Unit :=
  match left.validateComparison right with
  | .error (.semantic message) =>
    let name (index : ℕ) : String := ((schema.columns[index]?).map (·.name)).getD ""
    match left, right with
    | .column left _, .column right _ => .error (.semantic
        s!"relational comparison between {name left} and {name right} has incompatible scalar types")
    | .column left _, _ => .error (.semantic
        s!"relational comparison on {name left} has an incompatible scalar type")
    | _, _ => .error (.semantic message)
  | result => result

def bindListValue (left : StreamingScalar) (expression : Expr) :
    Except QueryError StreamingScalar := do
  let value ← bindScalar lib parameters schema table qualifier expression
  let value ← value.coerceComparisonLiteral lib left
  validateStreamingComparison schema left value
  .ok value

/-- `validate_value_type`. -/
def validateValueType (ordinal : ℕ) (value : RelationalValue) : Except QueryError Unit := do
  let kind ← columnKind schema ordinal
  if value.scalarType.any fun scalarType => !kind.valueTypeMatches (some scalarType) then
    .error (.semantic "relational comparison has an incompatible scalar type")
  else .ok ()

/-- `StreamingPredicate::bind`. -/
def bindStreaming : Expr → Except QueryError StreamingPredicate
  | .and left right => do .ok (.and (← bindStreaming left) (← bindStreaming right))
  | .or left right => do .ok (.or (← bindStreaming left) (← bindStreaming right))
  | .not predicate => do .ok (.not (← bindStreaming predicate))
  | .compare left op right => do
    let left ← bindScalar lib parameters schema table qualifier left
    let right ← bindScalar lib parameters schema table qualifier right
    let right ← right.coerceComparisonLiteral lib left
    let left ← left.coerceComparisonLiteral lib right
    validateStreamingComparison schema left right
    .ok (.compare left op right)
  | .inList left values negated => do
    let left ← bindScalar lib parameters schema table qualifier left
    let values ← values.mapM (bindListValue lib parameters schema table qualifier left)
    .ok (.inList left values negated)
  | .like left pattern caseInsensitive negated escape => do
    let left ← bindStreamingColumn (← left.requireColumn) schema table qualifier
    if (← columnKind schema left) ≠ .text then
      .error (.semantic "LIKE and ILIKE require a TEXT column")
    else
      let pattern ← valueToRelational (← bindSqlValue lib (← pattern.requireValue) parameters)
      validateValueType schema left pattern
      .ok (.like left pattern caseInsensitive negated escape)
  | .isNull expression negated => do
    .ok (.isNull (← bindScalar lib parameters schema table qualifier expression) negated)
  | _ => .error (.semantic "unsupported streaming predicate expression")

end

namespace StreamingPredicate

variable (lib : SqlLibrary) (resolve : ℕ → Except QueryError RelationalValue)

/-- The loop over an IN list, which stops at the first match. -/
def inListLoop (left : RelationalValue) (negated : Bool) :
    List StreamingScalar → Bool → Except QueryError Truth
  | [], hasUnknown => .ok (if hasUnknown then none else some negated)
  | value :: values, hasUnknown => do
    match ← compareValueRefs left (← value.evaluate lib resolve) .eq with
    | some true => .ok (some !negated)
    | none => inListLoop left negated values true
    | some false => inListLoop left negated values hasUnknown

def truth : StreamingPredicate → Except QueryError Truth
  | and left right => do
    match ← left.truth with
    | some false => .ok (some false)
    | some true => right.truth
    | none =>
      match ← right.truth with
      | some false => .ok (some false)
      | _ => .ok none
  | or left right => do
    match ← left.truth with
    | some true => .ok (some true)
    | some false => right.truth
    | none =>
      match ← right.truth with
      | some true => .ok (some true)
      | _ => .ok none
  | not predicate => do .ok ((← predicate.truth).map (!·))
  | compare left op right => do
    compareValueRefs (← left.evaluate lib resolve) (← right.evaluate lib resolve) op
  | inList left values negated => do
    inListLoop lib resolve (← left.evaluate lib resolve) negated values false
  | like left pattern caseInsensitive negated escape => do
    likeTruth lib (← resolve left) pattern caseInsensitive negated escape
  | isNull column negated => do
    .ok (some ((← column.evaluate lib resolve).isNull != negated))

end StreamingPredicate

/-! ### Compiled evaluation -/

/-- An error of the relational storage. -/
inductive RelationalError where
  | schema (message : String)
  | admission (message : String)
  | constraint (message : String)
deriving DecidableEq, Repr

inductive RelationalNumericExpression where
  | value (value : RelationalValue)
  | column (name : String)
  | binary (left : RelationalNumericExpression) (op : NumericBinaryOp)
      (right : RelationalNumericExpression)
  | negate (expression : RelationalNumericExpression)
  | cast (expression : RelationalNumericExpression) (target : NumericType)

inductive RelationalPredicate where
  | numericCompare (left : RelationalNumericExpression) (op : SqlComparisonOp)
      (right : RelationalNumericExpression)
  | numericIsNull (expression : RelationalNumericExpression) (negated : Bool)
  | and (left right : RelationalPredicate)
  | or (left right : RelationalPredicate)
  | not (predicate : RelationalPredicate)
  | compare (column : String) (op : SqlComparisonOp) (value : RelationalValue)
  | isNull (column : String) (negated : Bool)

/-- `numeric_ref`. -/
def numericRef : RelationalValue → Except RelationalError Value
  | .null => .ok (.scalar .null)
  | .bigInt value => .ok (.scalar (.int value))
  | .doublePrecision bits => .ok (.scalar (.float bits))
  | .decimal value => .ok (.scalar (.decimal value))
  | .text value => .ok (.scalar (.string value))
  | .overflow _ => .error (.admission "numeric CAST requires hydrated text")
  | _ => .error (.schema "numeric expression requires numeric or CAST text operands")

/-- `result_ref`. -/
def resultRef : Value → Except RelationalError Value
  | .leaf .null => .ok (.scalar .null)
  | .leaf (.int value) => .ok (.scalar (.int value))
  | .leaf (.float bits) => .ok (.scalar (.float bits))
  | .leaf (.decimal value) => .ok (.scalar (.decimal value))
  | _ => .error (.schema "numeric expression must produce a numeric value")

def kernelResult {α : Type} : Except QueryError α → Except RelationalError α
  | .ok a => .ok a
  | .error (.execution message) => .error (.constraint message)
  | .error (.semantic message) => .error (.constraint message)

section

variable (lib : SqlLibrary) (schema : RelationalTableSchema) (row : List RelationalValue)

def rowValue (name : String) : Except RelationalError RelationalValue :=
  match (schema.columnPosition name).bind (row[·]?) with
  | some value => .ok value
  | none => .error (.schema s!"unknown numeric column {name}")

def RelationalNumericExpression.evaluateRow : RelationalNumericExpression →
    Except RelationalError Value
  | value v => numericRef v
  | column name => do numericRef (← rowValue schema row name)
  | binary left op right => do
    let left ← left.evaluateRow
    let right ← right.evaluateRow
    resultRef (← kernelResult (Numeric.evaluateNumeric lib.toNumericLibrary left op right))
  | negate expression => do
    resultRef (← kernelResult (Numeric.negateNumeric (← expression.evaluateRow)))
  | cast expression target => do
    resultRef (← kernelResult
      (Numeric.castNumeric lib.toNumericLibrary (← expression.evaluateRow) target))

/-- `predicate_truth` of the storage. -/
def RelationalPredicate.truth : RelationalPredicate → Except RelationalError Truth
  | numericCompare left op right => do
    let left ← left.evaluateRow lib schema row
    let right ← right.evaluateRow lib schema row
    if left.isNull ∨ right.isNull then .ok none
    else .ok (some (op.holds (← kernelResult (Numeric.compareNumeric left right))))
  | numericIsNull expression negated => do
    .ok (some ((← expression.evaluateRow lib schema row).isNull != negated))
  | and left right => do
    match ← left.truth, ← right.truth with
    | some false, _ | _, some false => .ok (some false)
    | some true, some true => .ok (some true)
    | _, _ => .ok none
  | or left right => do
    match ← left.truth, ← right.truth with
    | some true, _ | _, some true => .ok (some true)
    | some false, some false => .ok (some false)
    | _, _ => .ok none
  | not predicate => do .ok ((← predicate.truth).map (!·))
  | compare column op value => do
    let current ← rowValue schema row column
    if current.isOverflow ∨ value.isOverflow then
      .error (.admission s!"DELETE predicate on column {column} requires overflow hydration")
    else if current.isNull ∨ value.isNull then .ok none
    else .ok (some (op.holds (Ord.compare current value)))
  | isNull column negated => do
    .ok (some ((← rowValue schema row column).isNull != negated))

end

namespace MutationPredicate

variable (lib : SqlLibrary) (parameters : List Value) (schema : RelationalTableSchema)
  (tableAlias : Option String) (table : String)

/-- `validate_mutation_column`. -/
def validateMutationColumn (column : SqlColumnRef) : Except QueryError Unit :=
  if column.qualifier.any fun qualifier => some qualifier ≠ tableAlias ∧ qualifier ≠ table then
    let name := column.qualifier.getD ""
    .error (.semantic s!"mutation predicate has unknown qualifier {name}")
  else if schema.columnPosition column.name = none then
    .error (.semantic s!"table {schema.name} has no column {column.name}")
  else .ok ()

def foldConstant (value : Except QueryError Value) :
    Except QueryError RelationalNumericExpression := do
  .ok (.value (← valueToRelational (← value)))

/-- An arithmetic node, folded if both operands are constants. -/
def foldBinary (left : RelationalNumericExpression) (op : NumericBinaryOp)
    (right : RelationalNumericExpression) : Except QueryError RelationalNumericExpression :=
  match left, right with
  | .value left, .value right => do
    let left ← relationalToValue left
    let right ← relationalToValue right
    foldConstant (Numeric.evaluateNumeric lib.toNumericLibrary left op right)
  | left, right => .ok (.binary left op right)

def foldNegate (expression : RelationalNumericExpression) :
    Except QueryError RelationalNumericExpression :=
  match expression with
  | .value value => do foldConstant (Numeric.negateNumeric (← relationalToValue value))
  | expression => .ok (.negate expression)

def foldCast (expression : RelationalNumericExpression) (target : NumericType) :
    Except QueryError RelationalNumericExpression :=
  match expression with
  | .value value => do
    foldConstant (Numeric.castNumeric lib.toNumericLibrary (← relationalToValue value) target)
  | expression => .ok (.cast expression target)

/-- `compile_node`: the expression, and the nodes that remain. -/
def compileNode : Expr → ℕ → ℕ → Except QueryError (RelationalNumericExpression × ℕ)
  | expression, depth, remaining =>
    if 64 < depth ∨ remaining = 0 then
      .error (.semantic "numeric expression exceeds 64 levels or 4096 nodes")
    else
      let remaining := remaining - 1
      match expression with
      | .column column => do
        validateMutationColumn schema tableAlias table column
        .ok (.column column.name, remaining)
      | .value value => do
        .ok (.value (← valueToRelational (← bindSqlValue lib value parameters)), remaining)
      | .arithmetic left op right => do
        let (left, remaining) ← compileNode left (depth + 1) remaining
        let (right, remaining) ← compileNode right (depth + 1) remaining
        .ok (← foldBinary lib left op right, remaining)
      | .negate expression => do
        let (expression, remaining) ← compileNode expression (depth + 1) remaining
        .ok (← foldNegate expression, remaining)
      | .cast expression target => do
        let (expression, remaining) ← compileNode expression (depth + 1) remaining
        .ok (← foldCast lib expression target, remaining)
      | _ => .error (.semantic "unsupported numeric mutation expression")

/-- `compile_numeric`. -/
def compileNumeric (expression : Expr) : Except QueryError RelationalNumericExpression := do
  .ok (← compileNode lib parameters schema tableAlias table expression 0 4096).1

def exchanged : SqlComparisonOp → SqlComparisonOp
  | .lt => .gt
  | .lte => .gte
  | .gt => .lt
  | .gte => .lte
  | op => op

/-- A literal on the left of a column changes sides. -/
def orient (left : RelationalNumericExpression) (op : SqlComparisonOp)
    (right : RelationalNumericExpression) :
    RelationalNumericExpression × SqlComparisonOp × RelationalNumericExpression :=
  match left, right with
  | .value v, .column c => (.column c, exchanged op, .value v)
  | left, right => (left, op, right)

/-- A column is compared with a value of its type directly, all else numerically. -/
def compileOriented (left : RelationalNumericExpression) (op : SqlComparisonOp)
    (right : RelationalNumericExpression) : Except QueryError RelationalPredicate :=
  match left, right with
  | .column column, .value v => do
    match (schema.columnPosition column).bind (schema.columns[·]?) with
    | none => .error (.semantic "validated numeric column")
    | some c =>
      let value ← valueToRelationalAs lib (← relationalToValue v) c.scalarType
      if value.isNull ∨ c.scalarType.sameValueDomain value.scalarType then
        .ok (.compare column op value)
      else .ok (.numericCompare left op right)
  | left, right => .ok (.numericCompare left op right)

/-- `compile_comparison`. -/
def compileComparison (left : Expr) (op : SqlComparisonOp) (right : Expr) :
    Except QueryError RelationalPredicate := do
  let left ← compileNumeric lib parameters schema tableAlias table left
  let right ← compileNumeric lib parameters schema tableAlias table right
  let (left, op, right) := orient left op right
  compileOriented lib schema left op right

def joinList (negated : Bool) : List RelationalPredicate →
    Except QueryError RelationalPredicate
  | [] => .error (.semantic "mutation IN list must not be empty")
  | first :: rest => .ok (rest.foldl (fun left right =>
      if negated then .and left right else .or left right) first)

/-- `compile_mutation_predicate`. -/
def compile : Expr → Except QueryError RelationalPredicate
  | .and left right => do .ok (.and (← compile left) (← compile right))
  | .or left right => do .ok (.or (← compile left) (← compile right))
  | .not predicate => do .ok (.not (← compile predicate))
  | .compare left op right =>
    compileComparison lib parameters schema tableAlias table left op right
  | .like .. =>
    .error (.semantic "single-table mutation predicates do not support LIKE or ILIKE")
  | .inList left values negated => do
    joinList negated (← values.mapM fun right => compileComparison lib parameters schema tableAlias
      table left (if negated then .notEq else .eq) right)
  | .isNull expression negated =>
    match expression.asColumn with
    | some column => do
      validateMutationColumn schema tableAlias table column
      .ok (.isNull column.name negated)
    | none => do
      .ok (.numericIsNull (← compileNumeric lib parameters schema tableAlias table expression) negated)
  | _ => .error (.semantic "unsupported single-table mutation predicate")

end MutationPredicate

end HawDB
