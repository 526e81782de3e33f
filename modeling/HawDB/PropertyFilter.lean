import HawDB.GraphPredicate

/-!
# Filters of records

The predicates a mutation hands to the storage, which evaluates them on one record: its id and its
properties. A filter has three truth values, with `none` for NULL.
-/

namespace HawDB

inductive PropertyFilter where
  | and (filters : List PropertyFilter)
  | or (filters : List PropertyFilter)
  | not (filter : PropertyFilter)
  | idEq (value : Value)
  | idNotEq (value : Value)
  | idRange (lower upper : Option (Value × Bool))
  | idIn (values : List Value)
  | eq (property : String) (value : Value)
  | notEq (property : String) (value : Value)
  | isNull (property : String)
  | isNotNull (property : String)
  | inList (property : String) (values : List Value)
  | listContains (property : String) (value : Value)
  | listContainsLower (property : String) (value : String)
  | contains (property : String) (value : String)
  | startsWith (property : String) (value : String)
  | endsWith (property : String) (value : String)
  | regexMatch (property : String) (pattern : ValidatedRegex)
  | defaultIfNullOrEq (property : String) (empty default value : Value) (negated : Bool)
  | range (property : String) (lower upper : Option (Value × Bool))

/-! ### Evaluation -/

def meetsLower (value : Value) : Option (Value × Bool) → Bool
  | none => true
  | some (bound, inclusive) =>
    match comparableValueOrdering value bound with
    | none => false
    | some ordering => !(ordering.isLT || (ordering.isEq && !inclusive))

def meetsUpper (value : Value) : Option (Value × Bool) → Bool
  | none => true
  | some (bound, inclusive) =>
    match comparableValueOrdering value bound with
    | none => false
    | some ordering => !(ordering.isGT || (ordering.isEq && !inclusive))

def rangeBoundsMatch (value : Value) (lower upper : Option (Value × Bool)) : Bool :=
  meetsLower value lower && meetsUpper value upper

/-- `leaf_truth`: what matched is true, whatever its operands are. -/
def leafTruth (isMatch nullOperand : Bool) : Option Bool :=
  if isMatch then some true else if nullOperand then none else some false

/-- The loop over the comparisons of a range, one for each bound. -/
def boundsLoop (value : Value) : List (Value × Bool) → Option Bool → Option Bool
  | [], truth => truth
  | (bound, isMatch) :: rest, truth =>
    if bound.isNull || orderingIsNull value bound then boundsLoop value rest none
    else if !isMatch then some false
    else boundsLoop value rest truth

def rangeBoundsTruth (value : Value) (lower upper : Option (Value × Bool)) : Option Bool :=
  let below := lower.map fun bound => (bound.1, rangeBoundsMatch value (some bound) none)
  let above := upper.map fun bound => (bound.1, rangeBoundsMatch value none (some bound))
  boundsLoop value (below.toList ++ above.toList) (some true)

def inTruth (actual : Option Value) (values : List Value) : Option Bool := do
  let actual ← actual.filter fun actual => !actual.isNull
  if values.any (·.eq actual) then some true
  else if values.any (·.isNull) then none
  else some false

section

variable {D : Type} (context : PredicateContext D) (id : ℕ) (properties : OrdMap String Value)

def presentProperty (name : String) : Option Value :=
  (properties.get name).filter fun value => !value.isNull

def filterText (name : String) (test : String → Bool) : Option Bool :=
  (presentProperty properties name).map fun
    | .leaf (.string actual) => test actual
    | _ => false

def filterList (name : String) (test : Value → Bool) : Option Bool :=
  (presentProperty properties name).map fun
    | .list values => values.any test
    | _ => false

mutual

def propertyFilterTruth : PropertyFilter → Option Bool
  | .and filters => filterConjunction filters (some true)
  | .or filters => filterDisjunction filters (some false)
  | .not filter => (propertyFilterTruth filter).map (!·)
  | .idEq value => leafTruth ((idValue id).eq value) value.isNull
  | .idNotEq value => leafTruth (!(idValue id).eq value) value.isNull
  | .idRange lower upper => rangeBoundsTruth (idValue id) lower upper
  | .idIn values => inTruth (some (idValue id)) values
  | .eq name value => leafTruth ((properties.get name).any (·.eq value))
      ((presentProperty properties name).isNone || value.isNull)
  | .notEq name value => leafTruth ((properties.get name).any fun actual => !actual.eq value)
      ((presentProperty properties name).isNone || value.isNull)
  | .isNull name => some (presentProperty properties name).isNone
  | .isNotNull name => some (presentProperty properties name).isSome
  | .inList name values => inTruth (presentProperty properties name) values
  | .listContains name value => filterList properties name (·.eq value)
  | .listContainsLower name value => filterList properties name (lowerContains context value)
  | .contains name value => filterText properties name (strContains · value)
  | .startsWith name value => filterText properties name (strStartsWith · value)
  | .endsWith name value => filterText properties name (strEndsWith · value)
  | .regexMatch name pattern => filterText properties name (context.isMatch pattern)
  | .defaultIfNullOrEq name empty default value negated =>
    let actual := (properties.get name).getD (.leaf .null)
    let normalized := if actual.eq (.leaf .null) || actual.eq empty then default else actual
    leafTruth (normalized.eq value != negated) (normalized.isNull || value.isNull)
  | .range name lower upper =>
    (presentProperty properties name).bind fun actual => rangeBoundsTruth actual lower upper

/-- The loop of AND, which returns at the first false operand. -/
def filterConjunction : List PropertyFilter → Option Bool → Option Bool
  | [], truth => truth
  | filter :: filters, truth =>
    match propertyFilterTruth filter with
    | some false => some false
    | none => filterConjunction filters none
    | some true => filterConjunction filters truth

/-- The loop of OR, which returns at the first true operand. -/
def filterDisjunction : List PropertyFilter → Option Bool → Option Bool
  | [], truth => truth
  | filter :: filters, truth =>
    match propertyFilterTruth filter with
    | some true => some true
    | none => filterDisjunction filters none
    | some false => filterDisjunction filters truth

end

end

/-! ### Filters from predicates -/

section

variable {D : Type}

def rangeBoundsFromComparison (op : ComparisonOp) (value : Value) :
    Option (Value × Bool) × Option (Value × Bool) :=
  match op with
  | .lt => (none, some (value, false))
  | .lte => (none, some (value, true))
  | .gt => (some (value, false), none)
  | .gte => (some (value, true), none)

def unsupportedFilter : QueryError :=
  .execution "expression predicates are not supported in property filters"

def propertyFilterFromDefaultExpression (expression value : ProjectionExpression D)
    (negated : Bool) : Except QueryError PropertyFilter :=
  match expression, value with
  | .defaultIfNullOrEq _ property empty default, .literal value
  | .literal value, .defaultIfNullOrEq _ property empty default =>
    .ok (.defaultIfNullOrEq property empty default value negated)
  | _, _ => .error unsupportedFilter

mutual

def propertyFilterFromPredicate : Predicate D → Except QueryError PropertyFilter
  | .and predicates => do .ok (.and (← propertyFiltersFromPredicates predicates))
  | .or predicates => do .ok (.or (← propertyFiltersFromPredicates predicates))
  | .not predicate => do .ok (.not (← propertyFilterFromPredicate predicate))
  | .idEq _ value => .ok (.idEq value)
  | .idNotEq _ value => .ok (.idNotEq value)
  | .idCompare _ op value =>
    let bounds := rangeBoundsFromComparison op value
    .ok (.idRange bounds.1 bounds.2)
  | .idIn _ values => .ok (.idIn values)
  | .propertyEq _ property value => .ok (.eq property value)
  | .propertyNotEq _ property value => .ok (.notEq property value)
  | .propertyCompare _ property op value =>
    let bounds := rangeBoundsFromComparison op value
    .ok (.range property bounds.1 bounds.2)
  | .expressionEq expression value => propertyFilterFromDefaultExpression expression value false
  | .expressionNotEq expression value => propertyFilterFromDefaultExpression expression value true
  | .expressionCompare .. | .expressionContains .. | .expressionRegexMatch .. | .expressionIn ..
  | .constantBool _ | .relationshipExists .. | .boundRelationshipExists .. =>
    .error unsupportedFilter
  | .propertyListContains _ property value => .ok (.listContains property value)
  | .propertyListContainsLower _ property value => .ok (.listContainsLower property value)
  | .propertyContains _ property value => .ok (.contains property value)
  | .propertyStartsWith _ property value => .ok (.startsWith property value)
  | .propertyEndsWith _ property value => .ok (.endsWith property value)
  | .propertyRegexMatch _ property pattern => .ok (.regexMatch property pattern)
  | .propertyIsNull _ property => .ok (.isNull property)
  | .propertyIsNotNull _ property => .ok (.isNotNull property)
  | .propertyIn _ property values => .ok (.inList property values)

def propertyFiltersFromPredicates : List (Predicate D) → Except QueryError (List PropertyFilter)
  | [] => .ok []
  | predicate :: predicates => do
    let filter ← propertyFilterFromPredicate predicate
    .ok (filter :: (← propertyFiltersFromPredicates predicates))

end

end

end HawDB
