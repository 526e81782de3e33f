import HawDB.Kleene
import HawDB.PropertyFilter
import HawDB.Proofs.ValueOrder
import HawDB.Result

/-!
# The filter of a mutation and the predicate of a query

The storage lets an equality or inequality match before it looks for a NULL. What it decides so
(`NullDecided`) is unknown for the query, and nothing else is read differently.
-/

namespace HawDB

open List Option

variable {D : Type}

/-- The truth value of a query as the storage writes it. -/
def PredicateTruth.toOption : PredicateTruth → Option Bool
  | .true => some .true
  | .false => some .false
  | .unknown => none

@[simp]
lemma PredicateTruth.toOption_ofBool (b : Bool) : (ofBool b).toOption = some b := by
  cases b <;> rfl

/-- A comparison that matches although an operand is NULL. -/
def NullMatch (compare : Value → Value → Bool) (actual expected : Value) : Prop :=
  (actual.isNull ∨ expected.isNull) ∧ compare actual expected

/-- `!=`. -/
def valueNe (a b : Value) : Bool := !a.eq b

def defaultedProperty (properties : OrdMap String Value) (name : String) (empty default : Value) :
    Value :=
  match properties.get name with
  | none => default
  | some value => if value.isNull || value.eq empty then default else value

section

variable (var : String) (id : ℕ) (properties : OrdMap String Value)

/-- An expression that a filter understands, if it is a default or a literal, reads the variable. -/
def ProjectionExpression.ReadsOnly : ProjectionExpression D → Prop
  | .defaultIfNullOrEq v _ _ _ => v = var
  | _ => True

mutual

/-- The predicate is about one variable, as far as a filter can be made from it. -/
def Predicate.ReadsOnly : Predicate D → Prop
  | .and predicates | .or predicates => AllReadOnly predicates
  | .not predicate => predicate.ReadsOnly
  | .expressionEq expression value | .expressionNotEq expression value =>
    expression.ReadsOnly var ∧ value.ReadsOnly var
  | .idEq v _ | .idNotEq v _ | .idCompare v _ _ | .idIn v _ | .propertyEq v _ _
  | .propertyNotEq v _ _ | .propertyCompare v _ _ _ | .propertyListContains v _ _
  | .propertyListContainsLower v _ _ | .propertyContains v _ _ | .propertyStartsWith v _ _
  | .propertyEndsWith v _ _ | .propertyRegexMatch v _ _ | .propertyIsNull v _
  | .propertyIsNotNull v _ | .propertyIn v _ _ => v = var
  | _ => True

def AllReadOnly : List (Predicate D) → Prop
  | [] => True
  | predicate :: predicates => predicate.ReadsOnly ∧ AllReadOnly predicates

end

/-- A comparison of a default with a literal, in either order, matches on a NULL. -/
def DefaultMatch (compare : Value → Value → Bool) :
    ProjectionExpression D → ProjectionExpression D → Prop
  | .defaultIfNullOrEq _ name empty default, .literal value
  | .literal value, .defaultIfNullOrEq _ name empty default =>
    NullMatch compare (defaultedProperty properties name empty default) value
  | _, _ => False

/-- An equality or inequality that matches on a NULL operand. -/
def NullLeaf : Predicate D → Prop
  | .idNotEq _ value => NullMatch valueNe (idValue id) value
  | .propertyEq _ name value =>
    ∃ actual, properties.get name = some actual ∧ NullMatch Value.eq actual value
  | .propertyNotEq _ name value =>
    ∃ actual, properties.get name = some actual ∧ NullMatch valueNe actual value
  | .expressionEq expression value => DefaultMatch properties Value.eq expression value
  | .expressionNotEq expression value => DefaultMatch properties valueNe expression value
  | _ => False

section

variable (context : PredicateContext D) (binding : Binding)

mutual

/-- The storage takes a predicate to be `b` that is unknown for the query: an equality or inequality
matches on a NULL, and the other operands around it do not decide the connectives over it. -/
def NullDecided : Predicate D → Bool → Prop
  | .and predicates, b => AnyNullDecided predicates b ∧ AllNullDecided false predicates b
  | .or predicates, b => AnyNullDecided predicates b ∧ AllNullDecided true predicates b
  | .not predicate, b => NullDecided predicate (!b)
  | predicate, b => b = true ∧ NullLeaf id properties predicate

def AnyNullDecided : List (Predicate D) → Bool → Prop
  | [], _ => False
  | predicate :: predicates, b => NullDecided predicate b ∨ AnyNullDecided predicates b

/-- What the operands of a connective that `s` decides have to be if one of them is decided as `b`
on a NULL and with it the connective: none is `s` for the query, or all of them are `b`. -/
def AllNullDecided (s : Bool) : List (Predicate D) → Bool → Prop
  | [], _ => True
  | predicate :: predicates, b =>
    (if b = s then evaluatePredicateTruth context binding predicate ≠ .ok (.ofBool s)
    else evaluatePredicateTruth context binding predicate = .ok (.ofBool b) ∨
      NullDecided predicate b) ∧ AllNullDecided s predicates b

end

end

/-- A predicate without connectives. -/
def Predicate.IsLeaf : Predicate D → Prop
  | .and _ | .or _ | .not _ => False
  | _ => True

end

/-! ### Leaves -/

section

variable {compare : Value → Value → Bool} {actual expected : Value}

lemma isNull_eq (v : Value) : v.eq (.leaf .null) = v.isNull := by
  rw [Bool.eq_iff_iff, Value.eq_null]
  constructor
  · rintro rfl
    rfl
  · intro h
    unfold Value.isNull at h
    split at h
    · rfl
    · cases h

lemma comparisonTruth_eq (actual expected : Value) :
    (predicateComparisonTruth (some actual) expected compare).toOption =
      if actual.isNull || expected.isNull then none else some (compare actual expected) := by
  rw [predicateComparisonTruth, isNull_eq, isNull_eq]
  cases actual.isNull <;> cases expected.isNull <;> cases compare actual expected <;> rfl

lemma comparisonTruth_comm (hcompare : ∀ a b, compare a b = compare b a) :
    (predicateComparisonTruth (some actual) expected compare).toOption =
      (predicateComparisonTruth (some expected) actual compare).toOption := by
  rw [comparisonTruth_eq, comparisonTruth_eq, Bool.or_comm, hcompare]

/-- The storage says what the query says, or true on a NULL where the query is unknown. -/
def ReadsBut (onNull : Prop) (query storage : Option Bool) : Prop :=
  ¬ onNull ∧ storage = query ∨ onNull ∧ query = none ∧ storage = some true

lemma readsBut_false : ReadsBut False query storage ↔ storage = query := by
  simp [ReadsBut]

variable (compare) in
lemma leafTruth_readsBut (actual expected : Value) :
    ReadsBut (NullMatch compare actual expected)
      (predicateComparisonTruth (some actual) expected compare).toOption
      (leafTruth (compare actual expected) (actual.isNull || expected.isNull)) := by
  rw [comparisonTruth_eq, leafTruth, NullMatch, ReadsBut]
  cases actual.isNull <;> cases expected.isNull <;> cases compare actual expected <;> simp

lemma rangeBoundsMatch_eq (value : Value) (op : ComparisonOp) (bound : Value) :
    rangeBoundsMatch value (rangeBoundsFromComparison op bound).1
      (rangeBoundsFromComparison op bound).2 = comparePropertyValues value op bound := by
  cases op <;> simp only [rangeBoundsFromComparison, rangeBoundsMatch, meetsLower, meetsUpper,
    comparePropertyValues, Bool.true_and, Bool.and_true]
  all_goals
    cases comparableValueOrdering value bound with
    | none => rfl
    | some ordering => cases ordering <;> rfl

lemma rangeBoundsTruth_eq {value : Value} (hvalue : value.isNull = false) (op : ComparisonOp)
    (bound : Value) :
    rangeBoundsTruth value (rangeBoundsFromComparison op bound).1
      (rangeBoundsFromComparison op bound).2 =
        (predicateOrderingTruth (some value) op bound).toOption := by
  have hloop : rangeBoundsTruth value (rangeBoundsFromComparison op bound).1
      (rangeBoundsFromComparison op bound).2 =
      if bound.isNull || orderingIsNull value bound then none
      else some (comparePropertyValues value op bound) := by
    rw [← rangeBoundsMatch_eq]
    cases op <;> simp only [rangeBoundsFromComparison, rangeBoundsTruth, map_none,
      map_some, toList_none, toList_some, nil_append, append_nil, boundsLoop]
    all_goals
      split_ifs with hnull hmatch
      · rfl
      · simpa using hmatch
      · simpa using hmatch
  rw [hloop, predicateOrderingTruth, any_some]
  cases horder : orderingIsNull value bound with
  | true => simp [PredicateTruth.toOption]
  | false =>
    rw [if_neg Bool.false_ne_true, comparisonTruth_eq, hvalue, Bool.or_false, Bool.false_or]

lemma inTruth_eq {value : Value} (hvalue : value.isNull = false) (values : List Value) :
    inTruth (some value) values = (predicateInTruth (some value) values).toOption := by
  have hfun : (fun v : Value => !v.isNull && v.eq value) = (·.eq value) := by
    funext v
    cases hv : v.isNull with
    | false => rfl
    | true =>
      have hnull := Value.eq_null.1 ((isNull_eq v).trans hv)
      rw [Bool.not_true, Bool.false_and, hnull, Value.eq_comm, isNull_eq, hvalue]
  simp only [inTruth, predicateInTruth, isNull_eq, hvalue, filter_some, Bool.not_false,
    if_true, bind_eq_bind, bind_some, hfun]
  split_ifs <;> rfl

lemma orderingTruth_of_null (h : actual.isNull) (op : ComparisonOp) (expected : Value) :
    (predicateOrderingTruth (some actual) op expected).toOption = none := by
  rw [predicateOrderingTruth]
  split_ifs
  · rfl
  · rw [comparisonTruth_eq, h]
    rfl

lemma predicateInTruth_of_null (h : actual.isNull) (values : List Value) :
    (predicateInTruth (some actual) values).toOption = none := by
  simp only [predicateInTruth, isNull_eq, filter_some, h, Bool.not_true]
  rfl

section

variable (properties : OrdMap String Value) (name : String)

include properties name

lemma presentProperty_eq :
    presentProperty properties name =
      match properties.get name with
      | none => none
      | some value => if value.isNull then none else some value := by
  rw [presentProperty]
  cases properties.get name with
  | none => rfl
  | some value => cases hvalue : value.isNull <;> simp [filter_some, hvalue]

lemma filterText_eq (test : String → Bool) :
    filterText properties name test = (textTruth (properties.get name) test).toOption := by
  rw [filterText, presentProperty_eq]
  cases properties.get name with
  | none => rfl
  | some value =>
    rcases value with s | vs | es
    · cases s with
      | string text => exact (PredicateTruth.toOption_ofBool _).symm
      | _ => rfl
    · rfl
    · rfl

lemma filterList_eq (test : Value → Bool) :
    filterList properties name test = (listTruthOf (properties.get name) test).toOption := by
  rw [filterList, presentProperty_eq]
  cases properties.get name with
  | none => rfl
  | some value =>
    rcases value with s | vs | es
    · cases s <;> rfl
    · exact (PredicateTruth.toOption_ofBool _).symm
    · rfl

end

end

/-! ### One record -/

section

variable (context : PredicateContext D) {binding : Binding} {var : String} {id : ℕ}
  {record : NodeRecord Value}

variable (binding id record) in
def FilterAgrees (p : Predicate D) (filter : PropertyFilter) : Prop :=
  ∃ truth, evaluatePredicateTruth context binding p = .ok truth ∧
    propertyFilterTruth context id record.properties filter = truth.toOption

variable (hnode : binding.nodes.get var = some (id, record))
  (hrel : binding.relationships.get var = none)
include hnode hrel

lemma bindingProperty_eq (name : String) :
    bindingProperty binding var name = record.properties.get name := by
  rw [bindingProperty, hnode, hrel]
  exact or_none

omit hrel in
lemma bindingId_eq : bindingId binding var = some (idValue id) := by
  rw [bindingId, hnode]
  rfl

lemma evaluate_default (name : String) (empty default : Value) :
    evaluateProjectionInGraph context binding (.defaultIfNullOrEq var name empty default) =
      .ok (defaultedProperty record.properties name empty default) := by
  have hdeclared : bindingDeclaresVariable binding var := by
    rw [bindingDeclaresVariable, hnode]
    rfl
  rw [evaluateProjectionInGraph, if_pos hdeclared, bindingProperty_eq hnode hrel, defaultedProperty]
  cases record.properties.get name with
  | none => rfl
  | some value =>
    dsimp only
    split_ifs <;> rfl

omit hnode hrel in
lemma leafTruth_property (compare : Value → Value → Bool) (name : String) (value : Value) :
    leafTruth ((record.properties.get name).any (compare · value))
        ((presentProperty record.properties name).isNone || value.isNull) =
      match record.properties.get name with
      | none => none
      | some actual => leafTruth (compare actual value) (actual.isNull || value.isNull) := by
  rw [presentProperty_eq]
  cases record.properties.get name with
  | none => rfl
  | some actual => cases hnull : actual.isNull <;> simp [hnull]

lemma leafTruth_property_readsBut (compare : Value → Value → Bool) (name : String)
    (value : Value) :
    ReadsBut (∃ actual, record.properties.get name = some actual ∧ NullMatch compare actual value)
      (predicateComparisonTruth (bindingProperty binding var name) value compare).toOption
      (leafTruth ((record.properties.get name).any (compare · value))
        ((presentProperty record.properties name).isNone || value.isNull)) := by
  rw [leafTruth_property, bindingProperty_eq hnode hrel]
  cases record.properties.get name with
  | none => simp [ReadsBut, predicateComparisonTruth, PredicateTruth.toOption]
  | some actual => simpa using leafTruth_readsBut compare actual value

variable {p : Predicate D} {filter : PropertyFilter}

omit hnode hrel in
lemma leafTruth_default_readsBut (negated : Bool) (name : String) (empty default value : Value) :
    ReadsBut (NullMatch (if negated then valueNe else Value.eq)
        (defaultedProperty record.properties name empty default) value)
      (predicateComparisonTruth (some (defaultedProperty record.properties name empty default)) value
        (if negated then valueNe else Value.eq)).toOption
      (propertyFilterTruth context id record.properties
        (.defaultIfNullOrEq name empty default value negated)) := by
  rw [propertyFilterTruth]
  have hnormalized : (if ((record.properties.get name).getD (.leaf .null)).eq (.leaf .null) ||
      ((record.properties.get name).getD (.leaf .null)).eq empty then default
      else (record.properties.get name).getD (.leaf .null)) =
      defaultedProperty record.properties name empty default := by
    rw [defaultedProperty, isNull_eq]
    cases record.properties.get name <;> rfl
  have hmatch : ∀ a b : Value, (a.eq b != negated) =
      (if negated then valueNe else Value.eq) a b := by
    intro a b
    cases negated <;> cases hab : a.eq b <;> simp [valueNe, hab]
  rw [hnormalized, hmatch]
  exact leafTruth_readsBut _ _ _

lemma default_readsBut (hexpression : expression.ReadsOnly var) (hvalue : value.ReadsOnly var)
    (hfilter : propertyFilterFromDefaultExpression expression value negated = .ok filter) :
    ∃ actual expected, evaluateProjectionInGraph context binding expression = .ok actual ∧
      evaluateProjectionInGraph context binding value = .ok expected ∧
      ReadsBut (DefaultMatch record.properties (if negated then valueNe else Value.eq) expression
          value)
        (predicateComparisonTruth (some actual) expected
          (if negated then valueNe else Value.eq)).toOption
        (propertyFilterTruth context id record.properties filter) := by
  unfold propertyFilterFromDefaultExpression at hfilter
  split at hfilter
  · next v name empty default value =>
    obtain rfl : v = var := hexpression
    cases hfilter
    exact ⟨_, _, evaluate_default context hnode hrel name empty default, rfl,
      leafTruth_default_readsBut context negated name empty default value⟩
  · next value v name empty default =>
    obtain rfl : v = var := hvalue
    cases hfilter
    refine ⟨_, _, rfl, evaluate_default context hnode hrel name empty default, ?_⟩
    rw [comparisonTruth_comm fun a b => by cases negated <;> simp [valueNe, Value.eq_comm a b]]
    exact leafTruth_default_readsBut context negated name empty default value
  · cases hfilter

omit hnode hrel in
lemma isNull_idValue (id : ℕ) : (idValue id).isNull = false := rfl

lemma leaf_readsBut (hleaf : p.IsLeaf) (hp : p.ReadsOnly var)
    (hfilter : propertyFilterFromPredicate p = .ok filter) :
    ∃ truth, evaluatePredicateTruth context binding p = .ok truth ∧
      ReadsBut (NullLeaf id record.properties p) truth.toOption
        (propertyFilterTruth context id record.properties filter) := by
  have hid : bindingId binding var = some (idValue id) := bindingId_eq hnode
  have hproperty : ∀ name, bindingProperty binding var name = record.properties.get name :=
    bindingProperty_eq hnode hrel
  cases p with
  | and | or | not => exact hleaf.elim
  | constantBool | relationshipExists | boundRelationshipExists | expressionCompare
  | expressionContains | expressionRegexMatch | expressionIn => nomatch hfilter
  | idEq v value =>
    obtain rfl : v = var := hp
    cases hfilter
    refine ⟨_, by rw [evaluatePredicateTruth, hid], ?_⟩
    rcases leafTruth_readsBut Value.eq (idValue id) value with ⟨-, heq⟩ | ⟨⟨hnull, heq⟩, -⟩
    · exact readsBut_false.2 heq
    have hvalue : value.isNull := hnull.resolve_left (by simp [isNull_idValue])
    rw [Value.eq_null.1 ((isNull_eq value).trans hvalue), isNull_eq] at heq
    cases heq
  | idNotEq v value =>
    obtain rfl : v = var := hp
    cases hfilter
    refine ⟨_, by rw [evaluatePredicateTruth, hid], ?_⟩
    exact leafTruth_readsBut valueNe (idValue id) value
  | idCompare v _ _ | idIn v _ =>
    obtain rfl : v = var := hp
    cases hfilter
    refine ⟨_, by rw [evaluatePredicateTruth, hid], readsBut_false.2 ?_⟩
    rw [propertyFilterTruth]
    first
    | exact rangeBoundsTruth_eq (isNull_idValue id) _ _
    | exact inTruth_eq (isNull_idValue id) _
  | propertyEq v name value =>
    obtain rfl : v = var := hp
    cases hfilter
    refine ⟨_, by rw [evaluatePredicateTruth], ?_⟩
    exact leafTruth_property_readsBut hnode hrel Value.eq name value
  | propertyNotEq v name value =>
    obtain rfl : v = var := hp
    cases hfilter
    refine ⟨_, by rw [evaluatePredicateTruth], ?_⟩
    exact leafTruth_property_readsBut hnode hrel valueNe name value
  | expressionEq expression value | expressionNotEq expression value =>
    obtain ⟨actual, expected, ha, he, hreads⟩ :=
      default_readsBut context hnode hrel hp.1 hp.2 hfilter
    refine ⟨_, by rw [evaluatePredicateTruth, ha, ok_bind, he, ok_bind], ?_⟩
    exact hreads
  | propertyListContains v | propertyListContainsLower v | propertyContains v
  | propertyStartsWith v | propertyEndsWith v | propertyRegexMatch v =>
    obtain rfl : v = var := hp
    cases hfilter
    refine ⟨_, by rw [evaluatePredicateTruth, hproperty], readsBut_false.2 ?_⟩
    rw [propertyFilterTruth]
    first
    | exact filterList_eq _ _ _
    | exact filterText_eq _ _ _
  | propertyIsNull v name | propertyIsNotNull v name =>
    obtain rfl : v = var := hp
    cases hfilter
    refine ⟨_, by rw [evaluatePredicateTruth, hproperty], readsBut_false.2 ?_⟩
    rw [propertyFilterTruth, presentProperty_eq, PredicateTruth.toOption_ofBool]
    cases record.properties.get name with
    | none => rfl
    | some actual => cases hnull : actual.isNull <;> simp [isNull_eq, hnull]
  | propertyCompare v name | propertyIn v name =>
    obtain rfl : v = var := hp
    cases hfilter
    refine ⟨_, by rw [evaluatePredicateTruth, hproperty], readsBut_false.2 ?_⟩
    rw [propertyFilterTruth, presentProperty_eq]
    cases record.properties.get name with
    | none => rfl
    | some actual =>
      dsimp only
      split_ifs with hnull
      · first
        | exact (orderingTruth_of_null hnull _ _).symm
        | exact (predicateInTruth_of_null hnull _).symm
      · first
        | exact rangeBoundsTruth_eq (eq_false_of_ne_true hnull) _ _
        | exact inTruth_eq (eq_false_of_ne_true hnull) _

/-! ### Connectives -/

omit hnode hrel

/-- How the storage reads a predicate: as the query does where that is not unknown, and otherwise as
unknown unless it is decided on a NULL. -/
structure Reading (binding : Binding) (id : ℕ) (record : NodeRecord Value) (p : Predicate D)
    (filter : PropertyFilter) (truth : PredicateTruth) : Prop where
  evaluates : evaluatePredicateTruth context binding p = .ok truth
  refines : Kleene.Refines truth.toOption
    (propertyFilterTruth context id record.properties filter)
  decided : ∀ b, NullDecided id record.properties context binding p b ↔
    truth.toOption = none ∧ propertyFilterTruth context id record.properties filter = some b

/-- The operands of a connective, as the query and as the storage reads them. -/
inductive Readings (binding : Binding) (id : ℕ) (record : NodeRecord Value) :
    List (Predicate D) → List PropertyFilter → List (Option Bool × Option Bool) → Prop
  | nil : Readings binding id record [] [] []
  | cons {p : Predicate D} {filter : PropertyFilter} {truth : PredicateTruth}
      {predicates : List (Predicate D)} {filters : List PropertyFilter}
      {operands : List (Option Bool × Option Bool)}
      (h : Reading context binding id record p filter truth)
      (hrest : Readings binding id record predicates filters operands) :
      Readings binding id record (p :: predicates) (filter :: filters)
        ((truth.toOption, propertyFilterTruth context id record.properties filter) :: operands)

section

variable {predicates : List (Predicate D)} {filters : List PropertyFilter}
  {operands : List (Option Bool × Option Bool)}
  (h : Readings context binding id record predicates filters operands)
include h

lemma Readings.refines : ∀ z ∈ operands, Kleene.Refines z.1 z.2 := by
  induction h with
  | nil => simp
  | cons h _ ih => exact forall_mem_cons.2 ⟨h.refines, ih⟩

lemma Readings.any_iff (b : Bool) :
    AnyNullDecided id record.properties context binding predicates b ↔
      ∃ z ∈ operands, z.1 = none ∧ z.2 = some b := by
  induction h with
  | nil => simp [AnyNullDecided]
  | cons h _ ih => rw [AnyNullDecided, ih, h.decided b, exists_mem_cons_iff]

lemma Readings.all_iff (s b : Bool) :
    AllNullDecided id record.properties context binding s predicates b ↔ ∀ z ∈ operands,
      if b = s then z.1 ≠ some s else z.1 = some b ∨ z.1 = none ∧ z.2 = some b := by
  induction h with
  | nil => simp [AllNullDecided]
  | @cons p _ truth _ _ _ h _ ih =>
    have hok : ∀ c, evaluatePredicateTruth context binding p = .ok (.ofBool c) ↔
        truth.toOption = some c := by
      intro c
      rw [h.evaluates]
      cases truth <;> cases c <;> simp [PredicateTruth.ofBool, PredicateTruth.toOption]
    rw [AllNullDecided, ih, h.decided b, forall_mem_cons, hok, ne_eq, hok]

lemma Readings.filter_eq (truth : Option Bool) :
    filterConjunction context id record.properties filters truth =
        Kleene.connect false truth (operands.map Prod.snd) ∧
      filterDisjunction context id record.properties filters truth =
        Kleene.connect true truth (operands.map Prod.snd) := by
  induction h generalizing truth with
  | nil => exact ⟨rfl, rfl⟩
  | cons _ _ ih =>
    rw [filterConjunction, filterDisjunction, map_cons, Kleene.connect, Kleene.connect]
    constructor <;> split <;> rename_i htruth <;> simp [htruth, ih]

/-- The loop of a connective of the query that stops at `s`. -/
lemma Readings.loop_eq (s : Bool) (join : PredicateTruth → PredicateTruth → PredicateTruth)
    (loop : List (Predicate D) → PredicateTruth → Except QueryError PredicateTruth)
    (hnil : ∀ truth, loop [] truth = .ok truth)
    (hcons : ∀ p ps truth, loop (p :: ps) truth =
      evaluatePredicateTruth context binding p >>= fun first =>
        if join truth first = .ofBool s then .ok (join truth first) else loop ps (join truth first))
    (hjoin : ∀ a b, a ≠ .ofBool s → join a b = if b = .ofBool !s then a else b)
    (truth : PredicateTruth) (htruth : truth ≠ .ofBool s) :
    ∃ result, loop predicates truth = .ok result ∧
      result.toOption = Kleene.connect s truth.toOption (operands.map Prod.fst) := by
  induction h generalizing truth with
  | nil => exact ⟨truth, hnil truth, rfl⟩
  | @cons _ _ first _ _ _ h _ ih =>
    rw [hcons, h.evaluates, ok_bind, map_cons, hjoin _ _ htruth, Kleene.connect]
    have hfirst : first = .ofBool s ∨ first = .ofBool (!s) ∨ first = .unknown := by
      cases first <;> cases s <;> decide
    rcases hfirst with rfl | rfl | rfl
    · exact ⟨.ofBool s, by cases s <;> rfl, by simp⟩
    · rw [if_pos rfl, if_neg htruth]
      simpa using ih truth htruth
    · have hunknown : ∀ c, PredicateTruth.unknown ≠ .ofBool c := by decide
      rw [if_neg (hunknown !s), if_neg (hunknown s)]
      exact ih .unknown (hunknown s)

/-- A connective that both evaluators read operand by operand. -/
lemma Readings.connective {p : Predicate D} {filter : PropertyFilter} {truth : PredicateTruth}
    {s : Bool} (htruth : evaluatePredicateTruth context binding p = .ok truth)
    (hquery : truth.toOption = Kleene.connect s (some !s) (operands.map Prod.fst))
    (hfilter : propertyFilterTruth context id record.properties filter =
      Kleene.connect s (some !s) (operands.map Prod.snd))
    (hdecided : ∀ b, NullDecided id record.properties context binding p b ↔
      AnyNullDecided id record.properties context binding predicates b ∧
        AllNullDecided id record.properties context binding s predicates b) :
    Reading context binding id record p filter truth := by
  refine ⟨htruth, ?_, fun b => ?_⟩
  · rw [hfilter, hquery]
    exact Kleene.refines_connect (h.refines context)
  · rw [hdecided, h.any_iff, h.all_iff, hfilter, hquery]
    exact (Kleene.connect_gap (h.refines context) b).symm

end

lemma ReadsBut.reading {truth : PredicateTruth} (hleaf : p.IsLeaf)
    (htruth : evaluatePredicateTruth context binding p = .ok truth)
    (h : ReadsBut (NullLeaf id record.properties p) truth.toOption
      (propertyFilterTruth context id record.properties filter)) :
    Reading context binding id record p filter truth := by
  have hdecided : ∀ b, NullDecided id record.properties context binding p b ↔
      b = true ∧ NullLeaf id record.properties p := by
    intro b
    cases p <;> first | exact hleaf.elim | exact Iff.rfl
  refine ⟨htruth, ?_, fun b => (hdecided b).trans ?_⟩
  · rcases h with ⟨-, heq⟩ | ⟨-, hnone, -⟩
    · exact .inr heq
    · exact .inl hnone
  · rcases h with ⟨hnot, heq⟩ | ⟨hnull, hnone, hsome⟩
    · rw [heq]
      exact iff_of_false (fun hb => hnot hb.2) fun hb => by simp [hb.1] at hb
    · rw [hsome]
      simp [hnull, hnone, eq_comm]

lemma Reading.not {truth : PredicateTruth}
    (h : Reading context binding id record p filter truth) :
    Reading context binding id record (.not p) (.not filter) truth.not := by
  refine ⟨?_, ?_, fun b => ?_⟩
  · show evaluatePredicateTruth context binding p >>= _ = _
    rw [h.evaluates, ok_bind]
  · rw [propertyFilterTruth]
    rcases h.refines with hnone | heq
    · exact .inl (by cases truth <;> first | rfl | cases hnone)
    · exact .inr (by rw [heq]; cases truth <;> rfl)
  · rw [NullDecided, h.decided, propertyFilterTruth]
    rcases propertyFilterTruth context id record.properties filter with _ | _ | _ <;>
      cases truth <;> cases b <;> simp [PredicateTruth.not, PredicateTruth.toOption]

mutual

theorem filterReading (hnode : binding.nodes.get var = some (id, record))
    (hrel : binding.relationships.get var = none) {p : Predicate D} (hp : p.ReadsOnly var)
    {filter : PropertyFilter} (hfilter : propertyFilterFromPredicate p = .ok filter) :
    ∃ truth, Reading context binding id record p filter truth := by
  cases p with
  | and predicates =>
    obtain ⟨filters, hfilters, hfilter⟩ := bind_eq_ok.1 hfilter
    cases hfilter
    obtain ⟨operands, hoperands⟩ := filterReadings hnode hrel hp hfilters
    obtain ⟨truth, htruth, hquery⟩ := hoperands.loop_eq context false .and
      (conjunctionTruth context binding) (fun _ => rfl) (fun _ _ _ => rfl)
      (fun a b => by cases a <;> cases b <;> decide) .true (by decide)
    exact ⟨truth, hoperands.connective context (by rw [evaluatePredicateTruth, htruth]) hquery
      (hoperands.filter_eq context (some true)).1 fun b => Iff.rfl⟩
  | or predicates =>
    obtain ⟨filters, hfilters, hfilter⟩ := bind_eq_ok.1 hfilter
    cases hfilter
    obtain ⟨operands, hoperands⟩ := filterReadings hnode hrel hp hfilters
    obtain ⟨truth, htruth, hquery⟩ := hoperands.loop_eq context true .or
      (disjunctionTruth context binding) (fun _ => rfl) (fun _ _ _ => rfl)
      (fun a b => by cases a <;> cases b <;> decide) .false (by decide)
    exact ⟨truth, hoperands.connective context (by rw [evaluatePredicateTruth, htruth]) hquery
      (hoperands.filter_eq context (some false)).2 fun b => Iff.rfl⟩
  | not predicate =>
    obtain ⟨inner, hinner, hfilter⟩ := bind_eq_ok.1 hfilter
    cases hfilter
    obtain ⟨truth, htruth⟩ := filterReading hnode hrel (p := predicate) hp hinner
    exact ⟨truth.not, htruth.not context⟩
  | _ =>
    obtain ⟨truth, htruth, hreads⟩ := leaf_readsBut context hnode hrel (by trivial) hp hfilter
    exact ⟨truth, hreads.reading context (by trivial) htruth⟩

theorem filterReadings (hnode : binding.nodes.get var = some (id, record))
    (hrel : binding.relationships.get var = none) {predicates : List (Predicate D)}
    (hp : AllReadOnly var predicates) {filters : List PropertyFilter}
    (hfilters : propertyFiltersFromPredicates predicates = .ok filters) :
    ∃ operands, Readings context binding id record predicates filters operands := by
  cases predicates with
  | nil =>
    cases hfilters
    exact ⟨[], .nil⟩
  | cons p predicates =>
    obtain ⟨filter, hfilter, rest, hrest, hfilters⟩ := bind₂_eq_ok.1 hfilters
    cases hfilters
    obtain ⟨truth, htruth⟩ := filterReading hnode hrel hp.1 hfilter
    obtain ⟨operands, hoperands⟩ := filterReadings hnode hrel hp.2 hrest
    exact ⟨_, .cons htruth hoperands⟩

end

include hnode hrel

/-- The filter of a mutation and the predicate of a query agree on a node exactly when the storage
decides nothing on a NULL that is unknown for the query; where the query is true or false, they
always do. -/
theorem property_filter_agrees (p : Predicate D) (hp : p.ReadsOnly var) (filter : PropertyFilter)
    (hfilter : propertyFilterFromPredicate p = .ok filter) :
    (FilterAgrees context binding id record p filter ↔
        ∀ b, ¬ NullDecided id record.properties context binding p b) ∧
      ∀ truth, evaluatePredicateTruth context binding p = .ok truth → truth ≠ .unknown →
        propertyFilterTruth context id record.properties filter = truth.toOption := by
  obtain ⟨truth, h⟩ := filterReading context hnode hrel hp hfilter
  have hagrees : FilterAgrees context binding id record p filter ↔
      propertyFilterTruth context id record.properties filter = truth.toOption := by
    refine ⟨fun ⟨truth', htruth, hfilter⟩ => ?_, fun hfilter => ⟨truth, h.evaluates, hfilter⟩⟩
    rw [hfilter, Except.ok.inj (htruth.symm.trans h.evaluates)]
  refine ⟨hagrees.trans ⟨fun heq b hb => ?_, fun hnot => ?_⟩, fun truth' htruth' hknown => ?_⟩
  · obtain ⟨hnone, hsome⟩ := (h.decided b).1 hb
    cases hsome.symm.trans (heq.trans hnone)
  · rcases h.refines with hnone | heq
    · rw [hnone]
      exact eq_none_iff_forall_ne_some.2 fun b hb => hnot b ((h.decided b).2 ⟨hnone, hb⟩)
    · exact heq
  · obtain rfl := Except.ok.inj (h.evaluates.symm.trans htruth')
    refine h.refines.resolve_left fun hnone => ?_
    cases truth <;> first | exact hknown rfl | cases hnone

end

/-! ### A record that stores NULL -/

/-- A context for predicates without expressions, patterns and relationships. -/
def plainContext : PredicateContext Unit where
  toLowercase := id
  isMatch _ _ := false
  evaluateProjection _ _ := .error (.execution "no expressions")
  relationshipExists _ _ _ _ _ := .error (.execution "no relationships")
  boundRelationshipExists _ _ _ _ _ := .error (.execution "no relationships")

/-- A node whose `x` is NULL and whose `y` is 1. -/
def nullNode : NodeRecord Value :=
  ⟨[], OrdMap.ofList [("x", .leaf .null), ("y", .leaf (.int 1))]⟩

/-- The row that binds `n` to the node. -/
def nullRow : Binding := ⟨OrdMap.empty, OrdMap.ofList [("n", (7, nullNode))], OrdMap.empty⟩

/-- `n.x <> 5` is unknown for the query and true for the mutation. -/
theorem property_filter_differs_on_null :
    ¬ ∀ (p : Predicate Unit) (filter : PropertyFilter), p.ReadsOnly "n" →
      propertyFilterFromPredicate p = .ok filter →
        FilterAgrees plainContext nullRow 7 nullNode p filter := by
  intro h
  obtain ⟨truth, htruth, hfilter⟩ := h (.propertyNotEq "n" "x" (.leaf (.int 5))) _ rfl rfl
  have hunknown : evaluatePredicateTruth plainContext nullRow
      (.propertyNotEq "n" "x" (.leaf (.int 5))) = .ok .unknown := by
    decide +kernel
  have htrue : propertyFilterTruth plainContext 7 nullNode.properties
      (.notEq "x" (.leaf (.int 5))) = some true := by
    decide +kernel
  cases htruth.symm.trans hunknown
  rw [htrue] at hfilter
  cases hfilter

/-- `NOT (n.y = 2 AND n.x <> 5)` on the node: the first operand is false, so the second one, which
the storage decides on a NULL, does not count. -/
theorem property_filter_agrees_masked :
    FilterAgrees plainContext nullRow 7 nullNode
      (.not (.and [.propertyEq "n" "y" (.leaf (.int 2)), .propertyNotEq "n" "x" (.leaf (.int 5))]))
      (.not (.and [.eq "y" (.leaf (.int 2)), .notEq "x" (.leaf (.int 5))])) := by
  have hnode : nullRow.nodes.get "n" = some (7, nullNode) := rfl
  have hfalse : evaluatePredicateTruth plainContext nullRow
      (.propertyEq "n" "y" (.leaf (.int 2))) = .ok .false := by
    decide +kernel
  refine (property_filter_agrees plainContext hnode rfl _ ?_ _ ?_).1.2 fun b hb => ?_
  · exact ⟨rfl, rfl, trivial⟩
  · rfl
  obtain ⟨-, hfirst, -⟩ : _ ∧ _ ∧ _ := hb
  rw [hfalse] at hfirst
  cases b with
  | true => exact hfirst rfl
  | false =>
    rcases hfirst with hfirst | ⟨-, actual, hactual, hnull | hnull, -⟩
    · cases hfirst
    · obtain rfl : Tree.leaf (.int 1) = actual := some.inj hactual
      cases hnull
    · cases hnull

end HawDB
