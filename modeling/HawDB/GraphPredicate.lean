import HawDB.FloatBits
import HawDB.GraphStore
import HawDB.Numeric
import HawDB.ValueOrder

/-!
# Predicates of graph queries

A query evaluates a predicate with three truth values on a row of bound nodes and relationships
(`evaluatePredicateTruth`); a mutation turns it into a filter of one record
(`propertyFilterFromPredicate`) that the storage evaluates with a logic of its own
(`propertyFilterTruth`).
-/

namespace HawDB

inductive ComparisonOp where
  | lt
  | lte
  | gt
  | gte
deriving DecidableEq, Repr

inductive RelationshipDirection where
  | outgoing
  | incoming
  | undirected
deriving DecidableEq, Repr

/-! ### Expressions -/

/-- The forms of expressions that are built from others. -/
inductive CompoundForm where
  | case
  | vectorDistance
  | binary
  | not
  | isNull
  | listFunction
  | stringFunction
  | listComprehension
  | list
  | listIndex
  | conversion
  | numericFunction
  | reduce
  | listSlice
  | temporalFunction
  | propertyAccess
  | relationshipValueEndpoint
  | mapLiteral
  | coalesce
  | left
  | lower
  | jsonValue
deriving DecidableEq, Repr

/-- The forms of expressions that read one column, apart from the column itself. -/
inductive ColumnForm where
  | defaultIfNullOrEq
  | valueDefaultIfNull
  | valueCasePropertyNotNullOrEq
  | property
  | path
  | caseSearchRank
deriving DecidableEq, Repr

/-- The forms of expressions that read a bound variable. -/
inductive VariableForm where
  | whole
  | property
  | id
  | relationshipType
  | relationshipEndpoint
  | datePart
  | defaultIfNull
  | casePropertyNotNullOrEq
  | casePropertyEqualsRank
  | caseLowerPropertyDefault
  | caseCoalesceDifferenceFloorZero
  | caseEntitySearchRank
deriving DecidableEq, Repr

/-- `ProjectionExpression`. Forms that the modelled functions treat alike share a constructor; what
such a form holds besides the parts named here is its detail. -/
inductive ProjectionExpression (D : Type) where
  | literal (value : Value)
  | column (name : String)
  | columnForm (form : ColumnForm) (column : String) (detail : D)
  | defaultIfNullOrEq (var property : String) (empty default : Value)
  | variableForm (form : VariableForm) (var : String) (detail : D)
  | localVariable (name : String) (property : Option String)
  | compound (form : CompoundForm) (detail : D) (children : List (ProjectionExpression D))
  | pattern (detail : D)

/-! ### Predicates -/

structure ValidatedRegex where
  source : String
deriving DecidableEq, Repr

inductive Predicate (D : Type) where
  | and (predicates : List (Predicate D))
  | or (predicates : List (Predicate D))
  | not (predicate : Predicate D)
  | constantBool (value : Bool)
  | relationshipExists (var relType : String) (direction : RelationshipDirection)
      (targetLabel : String)
  | boundRelationshipExists (sourceVariable relType : String) (direction : RelationshipDirection)
      (targetVariable : String)
  | idEq (var : String) (value : Value)
  | idNotEq (var : String) (value : Value)
  | idCompare (var : String) (op : ComparisonOp) (value : Value)
  | idIn (var : String) (values : List Value)
  | propertyEq (var property : String) (value : Value)
  | propertyNotEq (var property : String) (value : Value)
  | propertyCompare (var property : String) (op : ComparisonOp) (value : Value)
  | expressionEq (expression value : ProjectionExpression D)
  | expressionNotEq (expression value : ProjectionExpression D)
  | expressionCompare (expression : ProjectionExpression D) (op : ComparisonOp)
      (value : ProjectionExpression D)
  | expressionContains (expression value : ProjectionExpression D)
  | expressionRegexMatch (expression : ProjectionExpression D) (pattern : ValidatedRegex)
  | expressionIn (expression : ProjectionExpression D) (values : List Value)
  | propertyListContains (var property : String) (value : Value)
  | propertyListContainsLower (var property : String) (value : String)
  | propertyContains (var property : String) (value : String)
  | propertyStartsWith (var property : String) (value : String)
  | propertyEndsWith (var property : String) (value : String)
  | propertyRegexMatch (var property : String) (pattern : ValidatedRegex)
  | propertyIsNull (var property : String)
  | propertyIsNotNull (var property : String)
  | propertyIn (var property : String) (values : List Value)

inductive PredicateTruth where
  | true
  | false
  | unknown
deriving DecidableEq, Repr

namespace PredicateTruth

def ofBool : Bool → PredicateTruth
  | .true => true
  | .false => false

def not : PredicateTruth → PredicateTruth
  | true => false
  | false => true
  | unknown => unknown

def and : PredicateTruth → PredicateTruth → PredicateTruth
  | false, _ | _, false => false
  | unknown, _ | _, unknown => unknown
  | true, true => true

def or : PredicateTruth → PredicateTruth → PredicateTruth
  | true, _ | _, true => true
  | unknown, _ | _, unknown => unknown
  | false, false => false

end PredicateTruth

/-! ### Rows -/

/-- A row of a query: values by column, nodes and relationships by variable, each with its id. -/
structure Binding where
  values : OrdMap String Value
  nodes : OrdMap String (ℕ × NodeRecord Value)
  relationships : OrdMap String (ℕ × RelRecord Value)

def bindingProperty (binding : Binding) (var property : String) : Option Value :=
  ((binding.nodes.get var).bind fun node => node.2.properties.get property).or
    ((binding.relationships.get var).bind fun rel => rel.2.properties.get property)

/-- `id as i64`. -/
def idValue (id : ℕ) : Value := .leaf (.int (Int64.ofInt id))

def bindingId (binding : Binding) (var : String) : Option Value :=
  ((binding.nodes.get var).map fun node => idValue node.1).or
    ((binding.relationships.get var).map fun rel => idValue rel.1)

def bindingDeclaresVariable (binding : Binding) (var : String) : Bool :=
  (binding.nodes.get var).isSome || (binding.relationships.get var).isSome ||
    (binding.values.get var).any (·.isNull)

/-! ### Comparisons -/

/-- `temporal::comparable_ordering`. -/
def comparableOrdering : Value → Value → Option Ordering
  | .leaf (.temporal (.date left)), .leaf (.temporal (.date right)) => some (compare left right)
  | .leaf (.temporal (.localTime left)), .leaf (.temporal (.localTime right)) =>
    some (compare left right)
  | .leaf (.temporal (.localDateTime left)), .leaf (.temporal (.localDateTime right)) =>
    some (compare left right)
  | .leaf (.temporal (.dateTime left)), .leaf (.temporal (.dateTime right)) =>
    some (compare left right)
  | _, _ => none

/-- `ordering_is_null`: two durations have no order. -/
def orderingIsNull : Value → Value → Bool
  | .leaf (.temporal (.duration _)), .leaf (.temporal (.duration _)) => true
  | _, _ => false

/-- `as f64`. -/
def intAsFloat (n : Int64) : UInt64 := UInt64.ofNat (FloatBits.intBits n.toInt)

def comparableValueOrdering (left right : Value) : Option Ordering :=
  match left, right with
  | .leaf (.decimal _), .leaf (.decimal _) | .leaf (.decimal _), .leaf (.int _)
  | .leaf (.int _), .leaf (.decimal _) => (Numeric.compareNumeric left right).toOption
  | .leaf (.int left), .leaf (.int right) => some (compare left right)
  | .leaf (.float left), .leaf (.float right) => some (totalCmp left right)
  | .leaf (.int left), .leaf (.float right) => some (totalCmp (intAsFloat left) right)
  | .leaf (.float left), .leaf (.int right) => some (totalCmp left (intAsFloat right))
  | .leaf (.string left), .leaf (.string right) => some (compare (utf8 left) (utf8 right))
  | left, right => comparableOrdering left right

def comparePropertyValues (actual : Value) (op : ComparisonOp) (expected : Value) : Bool :=
  match comparableValueOrdering actual expected with
  | none => false
  | some ordering =>
    match op with
    | .lt => ordering.isLT
    | .lte => !ordering.isGT
    | .gt => ordering.isGT
    | .gte => !ordering.isLT

def predicateComparisonTruth (actual : Option Value) (expected : Value)
    (compare : Value → Value → Bool) : PredicateTruth :=
  match actual with
  | some actual =>
    if !actual.eq (.leaf .null) && !expected.eq (.leaf .null) then
      .ofBool (compare actual expected)
    else .unknown
  | none => .unknown

def predicateOrderingTruth (actual : Option Value) (op : ComparisonOp) (expected : Value) :
    PredicateTruth :=
  if actual.any (orderingIsNull · expected) then .unknown
  else predicateComparisonTruth actual expected fun actual expected =>
    comparePropertyValues actual op expected

def predicateInTruth (actual : Option Value) (values : List Value) : PredicateTruth :=
  match actual.filter fun actual => !actual.eq (.leaf .null) with
  | none => .unknown
  | some actual =>
    if values.any fun value => !value.eq (.leaf .null) && value.eq actual then .true
    else if values.any (·.eq (.leaf .null)) then .unknown
    else .false

/-! ### Evaluation on a row -/

def strContains (text part : String) : Bool := part.toList <:+: text.toList

def strStartsWith (text part : String) : Bool := part.toList <+: text.toList

def strEndsWith (text part : String) : Bool := part.toList <:+ text.toList

/-- What a predicate is evaluated with: the text functions of the standard library, the evaluation of
expressions, and the graph. -/
structure PredicateContext (D : Type) where
  toLowercase : String → String
  isMatch : ValidatedRegex → String → Bool
  /-- The expressions other than literals and defaults. -/
  evaluateProjection : ProjectionExpression D → Binding → Except QueryError Value
  relationshipExists : Binding → String → String → RelationshipDirection → String →
    Except QueryError Bool
  boundRelationshipExists : Binding → String → String → RelationshipDirection → String →
    Except QueryError Bool

variable {D : Type} (context : PredicateContext D)

/-- `evaluate_projection_in_graph`. -/
def evaluateProjectionInGraph (binding : Binding) :
    ProjectionExpression D → Except QueryError Value
  | .literal value => .ok value
  | .defaultIfNullOrEq var property empty default =>
    if bindingDeclaresVariable binding var then
      match bindingProperty binding var property with
      | none => .ok default
      | some value => if value.isNull || value.eq empty then .ok default else .ok value
    else .error (.execution s!"missing variable '{var}' during projection")
  | expression => context.evaluateProjection expression binding

/-- A test of a property's text. -/
def textTruth (actual : Option Value) (test : String → Bool) : PredicateTruth :=
  match actual with
  | none | some (.leaf .null) => .unknown
  | some (.leaf (.string actual)) => .ofBool (test actual)
  | some _ => .false

/-- A test of a property's list. -/
def listTruthOf (actual : Option Value) (test : Value → Bool) : PredicateTruth :=
  match actual with
  | none | some (.leaf .null) => .unknown
  | some (.list values) => .ofBool (values.any test)
  | some _ => .false

def lowerContains (value : String) : Value → Bool
  | .leaf (.string actual) => strContains (context.toLowercase actual) value
  | _ => false

mutual

def evaluatePredicateTruth (binding : Binding) : Predicate D → Except QueryError PredicateTruth
  | .and predicates => conjunctionTruth binding predicates .true
  | .or predicates => disjunctionTruth binding predicates .false
  | .not predicate => do .ok (← evaluatePredicateTruth binding predicate).not
  | .constantBool value => .ok (.ofBool value)
  | .relationshipExists var relType direction targetLabel => do
    .ok (.ofBool (← context.relationshipExists binding var relType direction targetLabel))
  | .boundRelationshipExists source relType direction target => do
    .ok (.ofBool (← context.boundRelationshipExists binding source relType direction target))
  | .idEq var value =>
    .ok (predicateComparisonTruth (bindingId binding var) value Value.eq)
  | .idNotEq var value =>
    .ok (predicateComparisonTruth (bindingId binding var) value fun a b => !a.eq b)
  | .idCompare var op value =>
    .ok (predicateOrderingTruth (bindingId binding var) op value)
  | .idIn var values => .ok (predicateInTruth (bindingId binding var) values)
  | .propertyEq var property value =>
    .ok (predicateComparisonTruth (bindingProperty binding var property) value Value.eq)
  | .propertyNotEq var property value =>
    .ok (predicateComparisonTruth (bindingProperty binding var property) value fun a b => !a.eq b)
  | .propertyCompare var property op value =>
    .ok (predicateOrderingTruth (bindingProperty binding var property) op value)
  | .expressionEq expression value => do
    let actual ← evaluateProjectionInGraph context binding expression
    let expected ← evaluateProjectionInGraph context binding value
    .ok (predicateComparisonTruth (some actual) expected Value.eq)
  | .expressionNotEq expression value => do
    let actual ← evaluateProjectionInGraph context binding expression
    let expected ← evaluateProjectionInGraph context binding value
    .ok (predicateComparisonTruth (some actual) expected fun a b => !a.eq b)
  | .expressionCompare expression op value => do
    let actual ← evaluateProjectionInGraph context binding expression
    let expected ← evaluateProjectionInGraph context binding value
    .ok (predicateOrderingTruth (some actual) op expected)
  | .expressionContains expression value => do
    let actual ← evaluateProjectionInGraph context binding expression
    let expected ← evaluateProjectionInGraph context binding value
    match actual, expected with
    | .leaf .null, _ | _, .leaf .null => .ok .unknown
    | .leaf (.string actual), .leaf (.string expected) => .ok (.ofBool (strContains actual expected))
    | _, _ => .ok .false
  | .expressionRegexMatch expression pattern => do
    match ← evaluateProjectionInGraph context binding expression with
    | .leaf .null => .ok .unknown
    | .leaf (.string actual) => .ok (.ofBool (context.isMatch pattern actual))
    | _ => .error (.execution "regex match predicate requires a string left operand")
  | .expressionIn expression values => do
    .ok (predicateInTruth (some (← evaluateProjectionInGraph context binding expression)) values)
  | .propertyListContains var property value =>
    .ok (listTruthOf (bindingProperty binding var property) (·.eq value))
  | .propertyListContainsLower var property value =>
    .ok (listTruthOf (bindingProperty binding var property) (lowerContains context value))
  | .propertyContains var property value =>
    .ok (textTruth (bindingProperty binding var property) (strContains · value))
  | .propertyStartsWith var property value =>
    .ok (textTruth (bindingProperty binding var property) (strStartsWith · value))
  | .propertyEndsWith var property value =>
    .ok (textTruth (bindingProperty binding var property) (strEndsWith · value))
  | .propertyRegexMatch var property pattern =>
    .ok (textTruth (bindingProperty binding var property) (context.isMatch pattern))
  | .propertyIsNull var property =>
    .ok (.ofBool ((bindingProperty binding var property).all (·.eq (.leaf .null))))
  | .propertyIsNotNull var property =>
    .ok (.ofBool ((bindingProperty binding var property).any fun v => !v.eq (.leaf .null)))
  | .propertyIn var property values =>
    .ok (predicateInTruth (bindingProperty binding var property) values)

/-- The loop of AND, which stops at the first false operand. -/
def conjunctionTruth (binding : Binding) :
    List (Predicate D) → PredicateTruth → Except QueryError PredicateTruth
  | [], truth => .ok truth
  | predicate :: predicates, truth => do
    let truth := truth.and (← evaluatePredicateTruth binding predicate)
    if truth = .false then .ok truth else conjunctionTruth binding predicates truth

/-- The loop of OR, which stops at the first true operand. -/
def disjunctionTruth (binding : Binding) :
    List (Predicate D) → PredicateTruth → Except QueryError PredicateTruth
  | [], truth => .ok truth
  | predicate :: predicates, truth => do
    let truth := truth.or (← evaluatePredicateTruth binding predicate)
    if truth = .true then .ok truth else disjunctionTruth binding predicates truth

end

end HawDB
