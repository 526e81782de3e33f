import HawDB.Kleene
import HawDB.Proofs.PredicateValue

/-!
# The evaluators of a WHERE clause agree

Each evaluator that returns a truth value returns that of one reading of the predicate (`refTruth`),
whose connectives may be defined although an operand is not.
-/

namespace HawDB

open List RelationalValue Except Kleene

open QueryValue Numeric MutationPredicate

variable {lib : SqlLibrary} {parameters : List Value} {schema : RelationalTableSchema}
  {row : List RelationalValue}

/-! ### The reading of a predicate -/

section

variable (lib parameters schema row)

def refComparison (left : Expr) (op : SqlComparisonOp) (right : Expr) : Option Truth := do
  let a ← (valueOf lib parameters schema row left).toOption
  let b ← (valueOf lib parameters schema row right).toOption
  refCompare lib op a b

def refTruth : Expr → Option Truth
  | .value (.literal (.leaf (.bool b))) => some (some b)
  | .and left right => Kleene.and (refTruth left) (refTruth right)
  | .or left right => Kleene.or (refTruth left) (refTruth right)
  | .not predicate => Kleene.not (refTruth predicate)
  | .compare left op right => refComparison lib parameters schema row left op right
  | .inList left values negated =>
    (Kleene.any (some (some false)) (values.map (refComparison lib parameters schema row left .eq))).map
      (·.map (· != negated))
  | .like left pattern caseInsensitive negated escape => do
    let a ← (valueOf lib parameters schema row left).toOption
    let b ← (valueOf lib parameters schema row pattern).toOption
    (likeTruth lib a b caseInsensitive negated escape).toOption
  | .isNull expression negated => do
    let a ← (valueOf lib parameters schema row expression).toOption
    some (some (a.isNull != negated))
  | _ => none

end

section

variable {left right : Expr} {op : SqlComparisonOp} {a b w : RelationalValue} {t : Truth}

lemma refComparison_of_refCompare (ha : valueOf lib parameters schema row left = .ok a)
    (hb : valueOf lib parameters schema row right = .ok b) (h : refCompare lib op a b = some t) :
    refComparison lib parameters schema row left op right = some t := by
  rw [refComparison, ha, hb]
  exact h

lemma compareValueRefs_notEq (a b : RelationalValue) :
    compareValueRefs a b .notEq = (compareValueRefs a b .eq).map (·.map (!·)) := by
  unfold compareValueRefs
  split_ifs
  · rfl
  · rfl
  · cases coreValueRef a with
    | error => rfl
    | ok x =>
      cases coreValueRef b with
      | error => rfl
      | ok y =>
        rw [ok_bind, ok_bind, ok_bind, ok_bind]
        cases compareNumeric x y <;> rfl
  · rfl
  · rfl

lemma refCompare_notEq (a b : RelationalValue) :
    refCompare lib .notEq a b = Kleene.not (refCompare lib .eq a b) := by
  unfold refCompare
  split_ifs
  · rfl
  cases readAs lib b a with
  | none => rfl
  | some x =>
    cases readAs lib a b with
    | none => rfl
    | some y =>
      dsimp only [Option.bind_eq_bind, Option.bind_some]
      rw [compareValueRefs_notEq]
      cases compareValueRefs x y .eq <;> rfl

lemma refComparison_notEq (left right : Expr) :
    refComparison lib parameters schema row left .notEq right =
      Kleene.not (refComparison lib parameters schema row left .eq right) := by
  unfold refComparison
  cases valueOf lib parameters schema row left with
  | error => rfl
  | ok a =>
    cases valueOf lib parameters schema row right with
    | error => rfl
    | ok b => exact refCompare_notEq a b

lemma logicalType_of_sameValueDomain {kind : RelationalScalarType}
    (h : kind.sameValueDomain a.scalarType) : a.logicalType = some kind.logicalType := by
  rw [logicalType]
  generalize a.scalarType = o at h
  cases kind <;> rcases o with _ | o <;> try cases o
  all_goals simp_all [RelationalScalarType.sameValueDomain, RelationalScalarType.logicalType]

lemma isNumeric_cases (h : a.isNumeric) (hoverflow : ¬ a.isOverflow) :
    (∃ n, a = .bigInt n) ∨ (∃ bits, a = .doublePrecision bits) ∨ ∃ d, a = .decimal d := by
  cases a with
  | bigInt n => exact .inl ⟨n, rfl⟩
  | doublePrecision bits => exact .inr (.inl ⟨bits, rfl⟩)
  | decimal d => exact .inr (.inr ⟨d, rfl⟩)
  | overflow => exact absurd rfl hoverflow
  | _ => nomatch h

/-- The type that the values of a column state, decimals apart. -/
def statedType : RelationalScalarType → RelationalScalarType
  | .timestamp _ => .timestamp 6
  | .timestampTz _ => .timestampTz 6
  | kind => kind

lemma scalarType_of_sameValueDomain {kind : RelationalScalarType}
    (ha : kind.sameValueDomain a.scalarType) (hoverflow : ¬ a.isOverflow)
    (hnumeric : ¬ kind.logicalType.isNumeric) : a.scalarType = some (statedType kind) := by
  cases kind with
  | decimal => exact absurd rfl hnumeric
  | timestamp =>
    cases a with
    | timestamp => rfl
    | overflow => exact absurd rfl hoverflow
    | _ => nomatch ha
  | timestampTz =>
    cases a with
    | timestampTz => rfl
    | overflow => exact absurd rfl hoverflow
    | _ => nomatch ha
  | _ => exact of_decide_eq_true ha

lemma compareValueRefs_of_sameValueDomain {kind : RelationalScalarType} (ha : kind.accepts a)
    (hw : kind.sameValueDomain w.scalarType) (hoverflow : ¬ (a.isOverflow ∨ w.isOverflow))
    (hnull : ¬ (a.isNull ∨ w.isNull)) :
    compareValueRefs a w op = .ok (some (op.holds (compare a w))) := by
  obtain ⟨hoa, how⟩ := not_or.1 hoverflow
  have htype := accepts_scalarType ha (not_or.1 hnull).1
  have hla := logicalType_of_sameValueDomain htype
  have hlw := logicalType_of_sameValueDomain hw
  by_cases hnumeric : kind.logicalType.isNumeric
  · have hna : a.isNumeric := by rw [isNumeric, hla]; exact hnumeric
    have hnw : w.isNumeric := by rw [isNumeric, hlw]; exact hnumeric
    have hl := hla.trans hlw.symm
    rcases isNumeric_cases hna hoa with ⟨_, rfl⟩ | ⟨_, rfl⟩ | ⟨_, rfl⟩ <;>
      rcases isNumeric_cases hnw how with ⟨_, rfl⟩ | ⟨_, rfl⟩ | ⟨_, rfl⟩
    all_goals first | rfl | cases hl
  · have hna : ¬ a.isNumeric := by rw [isNumeric, hla]; exact hnumeric
    have hs : a.scalarType = w.scalarType := by
      rw [scalarType_of_sameValueDomain htype hoa hnumeric,
        scalarType_of_sameValueDomain hw how hnumeric]
    rw [compareValueRefs, if_neg hoverflow, if_neg hnull, if_neg fun h => hna h.1,
      if_neg (not_not.2 hs)]

variable {x : Value}

lemma isNumeric_of_compareNumeric (hx : numericRef a = .ok x)
    (hnull : ¬ x.isNull) (ho : compareNumeric x y = .ok o) :
    a.isNumeric ∧ ¬ a.isNull ∧ ¬ a.isOverflow := by
  cases a with
  | bigInt | doublePrecision | decimal => exact ⟨rfl, nofun, nofun⟩
  | null =>
    cases hx
    exact absurd rfl hnull
  | text s =>
    cases hx
    unfold compareNumeric at ho
    split_ifs at ho
    cases ho
  | _ => nomatch hx

lemma compareValueRefs_of_numericRef {y : Value} (hx : numericRef a = .ok x)
    (hy : numericRef b = .ok y) (hnull : ¬ (x.isNull ∨ y.isNull))
    (ho : compareNumeric x y = .ok o) : compareValueRefs a b op = .ok (some (op.holds o)) := by
  obtain ⟨hnx, hny⟩ := not_or.1 hnull
  obtain ⟨ha, hna, hoa⟩ := isNumeric_of_compareNumeric hx hnx ho
  obtain ⟨hb, hnb, hob⟩ := isNumeric_of_compareNumeric hy hny (compareNumeric_swap ho)
  rw [compareValueRefs, if_neg (not_or.2 ⟨hoa, hob⟩), if_neg (not_or.2 ⟨hna, hnb⟩),
    if_pos ⟨ha, hb⟩, coreValueRef_of_numericRef hx, ok_bind, coreValueRef_of_numericRef hy, ok_bind,
    ho, ok_bind]

lemma isNull_of_numericRef (hx : numericRef a = .ok x) : x.isNull = a.isNull := by
  cases a <;> first | (obtain rfl := ok.inj hx; rfl) | nomatch hx

end

/-! ### Connectives and lists -/

section

variable {p q : Option Truth}

/-- The truth of an IN list from what its loop has seen. -/
def listTruth (matched hasUnknown : Bool) : Truth :=
  if matched then some true else if hasUnknown then none else some false

lemma or_listTruth_true (matched hasUnknown : Bool) :
    Kleene.or (some (listTruth matched hasUnknown)) (some (some true)) =
      some (listTruth true hasUnknown) := by
  cases matched <;> cases hasUnknown <;> rfl

lemma or_listTruth_none (matched hasUnknown : Bool) :
    Kleene.or (some (listTruth matched hasUnknown)) (some none) =
      some (listTruth matched true) := by
  cases matched <;> cases hasUnknown <;> rfl

lemma or_listTruth_false (matched hasUnknown : Bool) :
    Kleene.or (some (listTruth matched hasUnknown)) (some (some false)) =
      some (listTruth matched hasUnknown) := by
  cases matched <;> cases hasUnknown <;> rfl

lemma and_or_of_sequential {ε : Type} {left right : Except ε Truth}
    (hp : ∀ {t}, left = .ok t → p = some t) (hq : ∀ {t}, right = .ok t → q = some t) :
    ((do match ← left with
      | some false => .ok (some false)
      | some true => right
      | none =>
        match ← right with
        | some false => .ok (some false)
        | _ => .ok none) = Except.ok t → Kleene.and p q = some t) ∧
    ((do match ← left with
      | some true => .ok (some true)
      | some false => right
      | none =>
        match ← right with
        | some true => .ok (some true)
        | _ => .ok none) = Except.ok t → Kleene.or p q = some t) := by
  constructor
  all_goals
    intro h
    obtain ⟨a, ha, h⟩ := bind_eq_ok.1 h
    rw [hp ha]
    rcases a with _ | _ | _
    · obtain ⟨b, hb, h⟩ := bind_eq_ok.1 h
      rw [hq hb]
      rcases b with _ | _ | _ <;> exact congrArg some (ok.inj h)
    all_goals
      first
      | exact congrArg some (ok.inj h)
      | rw [hq h, Kleene.true_and]
      | rw [hq h, Kleene.false_or]

end

/-! ### Evaluation on a row -/

section

variable {resolve : ColumnResolver} {left right : Expr} {a w : RelationalValue}
  {kind : Option RelationalScalarType} {t : Truth}

lemma requireColumn_eq_ok (h : left.requireColumn = .ok c) : left = .column c := by
  cases left with
  | column => rw [ok.inj h]
  | _ => nomatch h

lemma requireValue_eq_ok (h : left.requireValue = .ok value) : left = .value value := by
  cases left with
  | value => rw [ok.inj h]
  | _ => nomatch h

lemma Coercion.eq_of_text (h : Coercion lib .text b w) : b = w := by
  cases h
  rfl

lemma leftOperand_eq_ok (hrow : RowOf schema row)
    (hresolve : ∀ {c found}, resolve c = .ok found → rowResolver schema row c = .ok found)
    (h : leftOperand lib parameters resolve left = .ok (a, kind)) :
    valueOf lib parameters schema row left = .ok a ∧ ∀ k ∈ kind, k.accepts a := by
  unfold leftOperand at h
  split at h
  · next c hc =>
    obtain ⟨⟨v, k⟩, hv, h⟩ := bind_eq_ok.1 h
    cases h
    cases left with
    | column c' =>
      cases hc
      refine ⟨?_, fun k hk => ?_⟩
      · rw [valueOf, predicateExpression, hresolve hv, ok_bind]
      · cases hk
        exact hrow.accepts (hresolve hv)
    | _ => cases hc
  · obtain ⟨v, hv, h⟩ := bind_eq_ok.1 h
    cases h
    exact ⟨predicateExpression_mono hresolve hv, fun _ hk => by cases hk⟩

lemma predicateOperand_eq_ok {k : RelationalScalarType}
    (hresolve : ∀ {c found}, resolve c = .ok found → rowResolver schema row c = .ok found)
    (h : predicateOperand lib parameters resolve k right = .ok w) :
    ∃ b, valueOf lib parameters schema row right = .ok b ∧ Coercion lib k b w := by
  unfold predicateOperand at h
  split at h
  · refine ⟨w, predicateExpression_mono hresolve ?_, .same _ _⟩
    rw [predicateExpression]
    exact h
  · obtain ⟨x, hx, h⟩ := bind_eq_ok.1 h
    have hb : ∃ b, valueToRelational x = .ok b := by
      obtain ⟨b, hb, -⟩ := bind_eq_ok.1 h
      exact ⟨b, hb⟩
    obtain ⟨b, hb⟩ := hb
    refine ⟨b, ?_, coercion_of_valueToRelationalAs hb h⟩
    rw [valueOf, predicateExpression, hx, ok_bind, hb]
  · exact ⟨w, predicateExpression_mono hresolve h, .same _ _⟩

variable (hrow : RowOf schema row)
  (hresolve : ∀ {c found}, resolve c = .ok found → rowResolver schema row c = .ok found)

include hrow hresolve

lemma refComparison_of_operands (hleft : leftOperand lib parameters resolve left = .ok (a, kind))
    (hright : rightOperand lib parameters resolve kind right = .ok w)
    (h : compareValueRefs a w op = .ok t) :
    refComparison lib parameters schema row left op right = some t := by
  obtain ⟨ha, hkind⟩ := leftOperand_eq_ok hrow hresolve hleft
  cases kind with
  | none =>
    exact refComparison_of_refCompare ha (predicateExpression_mono hresolve hright)
      (refCompare_of_compareValueRefs h)
  | some k =>
    obtain ⟨b, hb, hcoercion⟩ := predicateOperand_eq_ok hresolve hright
    exact refComparison_of_refCompare ha hb (hcoercion.refCompare (hkind k rfl) h)

lemma any_of_inListLoop (hleft : leftOperand lib parameters resolve left = .ok (a, kind)) :
    ∀ {values matched hasUnknown matched' hasUnknown'},
      inListLoop lib parameters resolve a kind values matched hasUnknown =
        .ok (matched', hasUnknown') → Kleene.any (some (listTruth matched hasUnknown))
        (values.map (refComparison lib parameters schema row left .eq)) =
          some (listTruth matched' hasUnknown')
  | [], _, _, _, _, h => by
    cases h
    rfl
  | value :: values, matched, hasUnknown, _, _, h => by
    obtain ⟨w, hw, t, ht, h⟩ := bind₂_eq_ok.1 h
    rw [map_cons, Kleene.any, foldl_cons, refComparison_of_operands hrow hresolve hleft hw ht]
    rcases t with _ | _ | _
    · rw [or_listTruth_none]
      exact any_of_inListLoop hleft h
    · rw [or_listTruth_false]
      exact any_of_inListLoop hleft h
    · rw [or_listTruth_true]
      exact any_of_inListLoop hleft h

lemma refTruth_of_predicateTruthWith :
    ∀ {e t}, predicateTruthWith lib parameters resolve e = .ok t →
      refTruth lib parameters schema row e = some t := by
  intro e t h
  unfold predicateTruthWith at h
  split at h
  · rw [refTruth, ok.inj h]
  · rw [refTruth]
    exact (and_or_of_sequential refTruth_of_predicateTruthWith refTruth_of_predicateTruthWith).1 h
  · rw [refTruth]
    exact (and_or_of_sequential refTruth_of_predicateTruthWith refTruth_of_predicateTruthWith).2 h
  · obtain ⟨s, hs, h⟩ := bind_eq_ok.1 h
    rw [refTruth, refTruth_of_predicateTruthWith hs]
    exact congrArg some (ok.inj h)
  · obtain ⟨⟨a, kind⟩, ha, w, hw, h⟩ := bind₂_eq_ok.1 h
    rw [refTruth]
    exact refComparison_of_operands hrow hresolve ha hw h
  · obtain ⟨⟨a, kind⟩, ha, ⟨matched, hasUnknown⟩, hloop, h⟩ := bind₂_eq_ok.1 h
    have hany := any_of_inListLoop hrow hresolve ha hloop
    rw [refTruth]
    rw [listTruth, if_neg Bool.false_ne_true, if_neg Bool.false_ne_true] at hany
    rw [hany]
    exact congrArg some (ok.inj h)
  · obtain ⟨c, hc, ⟨v, k⟩, hv, h⟩ := bind₂_eq_ok.1 h
    dsimp only at h
    split_ifs at h with hk
    obtain ⟨w, hw, h⟩ := bind_eq_ok.1 h
    obtain ⟨b, hb, hcoercion⟩ := predicateOperand_eq_ok hresolve hw
    obtain rfl := hcoercion.eq_of_text
    rw [refTruth, requireColumn_eq_ok hc, valueOf, predicateExpression, hresolve hv, hb]
    exact toOption_eq_some_iff.2 h
  · obtain ⟨v, hv, h⟩ := bind_eq_ok.1 h
    rw [refTruth, valueOf, predicateExpression_mono hresolve hv]
    exact congrArg some (ok.inj h)
  · cases h

end

/-! ### Bound evaluation -/

variable {v : RelationalValue} {i : ℕ}

section

variable {table qualifier : String} {columns : ℕ → Except QueryError RelationalValue} {l r s : StreamingScalar} {a b : RelationalValue}
  {t : Truth}

lemma coerceComparisonLiteral_eq_ok (h : l.coerceComparisonLiteral lib r = .ok s) :
    s = l ∨ ∃ v i kind w, l = .value v ∧ r = .column i kind ∧ s = .value w ∧
      Coercion lib kind v w := by
  unfold StreamingScalar.coerceComparisonLiteral at h
  split at h
  · split_ifs at h
    · obtain ⟨x, hx, w, hw, h⟩ := bind₂_eq_ok.1 h
      cases h
      exact .inr ⟨_, _, _, w, rfl, rfl, rfl,
        coercion_of_valueToRelationalAs (valueToRelational_of_toValue hx) hw⟩
    · exact .inl (ok.inj h).symm
  · exact .inl (ok.inj h).symm

lemma BoundScalar.valueOf_value (h : BoundScalar lib parameters schema left (.value v)) :
    HawDB.valueOf lib parameters schema row left = .ok v := by
  cases h with
  | value hx hv => rw [HawDB.valueOf, predicateExpression, hx, ok_bind, hv]

variable (hrow : RowOf schema row) (hcolumns : ∀ {i v}, columns i = .ok v → row[i]? = some v)

include hrow hcolumns

lemma BoundScalar.accepts {kind : RelationalScalarType}
    (h : BoundScalar lib parameters schema left (.column i kind)) (ha : columns i = .ok a) :
    kind.accepts a := by
  cases h with
  | column hi hcolumn =>
    obtain ⟨column, hcolumn', haccepts⟩ := hrow.column (hcolumns ha)
    cases hcolumn.symm.trans hcolumn'
    exact haccepts

section

variable (hl : BoundScalar lib parameters schema left l)
  (hr : BoundScalar lib parameters schema right r)

include hl hr

lemma refComparison_of_coerced_right (hs : r.coerceComparisonLiteral lib l = .ok s)
    (ha : l.evaluate lib columns = .ok a) (hb : s.evaluate lib columns = .ok b)
    (h : compareValueRefs a b op = .ok t) :
    refComparison lib parameters schema row left op right = some t := by
  have hleft := hl.valueOf hcolumns ha
  rcases coerceComparisonLiteral_eq_ok hs with rfl | ⟨v, i, kind, w, rfl, rfl, rfl, hcoercion⟩
  · exact refComparison_of_refCompare hleft (hr.valueOf hcolumns hb)
      (refCompare_of_compareValueRefs h)
  · cases hb
    exact refComparison_of_refCompare hleft hr.valueOf_value
      (hcoercion.refCompare (hl.accepts hrow hcolumns ha) h)

lemma refComparison_of_coerced_left {kind : RelationalScalarType}
    (hv : l = .value v) (hi : r = .column i kind) (hcoercion : Coercion lib kind v w)
    (hb : r.evaluate lib columns = .ok b) (h : compareValueRefs w b op = .ok t) :
    refComparison lib parameters schema row left op right = some t := by
  subst hv hi
  have hcompare := hcoercion.refCompare (hr.accepts hrow hcolumns hb) (compareValueRefs_exchanged h)
  refine refComparison_of_refCompare hl.valueOf_value (hr.valueOf hcolumns hb) ?_
  have hback := refCompare_exchanged hcompare
  rwa [exchanged_exchanged] at hback

lemma refComparison_of_bound {l' r' : StreamingScalar}
    (hr' : r.coerceComparisonLiteral lib l = .ok r')
    (hl' : l.coerceComparisonLiteral lib r' = .ok l') (ha : l'.evaluate lib columns = .ok a)
    (hb : r'.evaluate lib columns = .ok b) (h : compareValueRefs a b op = .ok t) :
    refComparison lib parameters schema row left op right = some t := by
  rcases coerceComparisonLiteral_eq_ok hl' with rfl | ⟨v, i, kind, w, hv, hi, rfl, hcoercion⟩
  · exact refComparison_of_coerced_right hrow hcolumns hl hr hr' ha hb h
  -- the right operand is a column, so it was not coerced
  cases ha
  rcases coerceComparisonLiteral_eq_ok hr' with rfl | ⟨_, _, _, _, _, _, rfl, _⟩
  · exact refComparison_of_coerced_left hrow hcolumns hl hr hv hi hcoercion hb h
  · cases hi

end

lemma any_of_boundLoop
    (hl : BoundScalar lib parameters schema left l) (ha : l.evaluate lib columns = .ok a) :
    ∀ {values bound hasUnknown t},
      Forall₂ (fun e s => bindListValue lib parameters schema table qualifier l e = .ok s)
        values bound →
      StreamingPredicate.inListLoop lib columns a negated bound hasUnknown = .ok t →
      (Kleene.any (some (listTruth false hasUnknown))
        (values.map (refComparison lib parameters schema row left .eq))).map
          (·.map (· != negated)) = some t := by
  intro values bound hasUnknown t hbound h
  induction hbound generalizing hasUnknown t with
  | nil =>
    cases h
    cases hasUnknown <;> cases negated <;> rfl
  | @cons value s values bound hs _ ih =>
    obtain ⟨v, hv, s', hs', hs⟩ := bind₂_eq_ok.1 hs
    obtain ⟨_, _, hs⟩ := bind_eq_ok.1 hs
    cases hs
    obtain ⟨b, hb, t, ht, h⟩ := bind₂_eq_ok.1 h
    rw [map_cons, Kleene.any, foldl_cons,
      refComparison_of_coerced_right hrow hcolumns hl (boundScalar_of_bindScalar hv) hs' ha hb ht]
    rcases t with _ | _ | _
    · rw [or_listTruth_none]
      exact ih h
    · rw [or_listTruth_false]
      exact ih h
    · rw [or_listTruth_true]
      have htrue := any_true (values.map (refComparison lib parameters schema row left .eq))
      rw [Kleene.any] at htrue
      rw [show listTruth true hasUnknown = some true from rfl, htrue]
      cases h
      cases negated <;> rfl

lemma refTruth_of_bound {e : Expr} {p : StreamingPredicate}
    {t : Truth} (hp : bindStreaming lib parameters schema table qualifier e = .ok p)
    (h : p.truth lib columns = .ok t) : refTruth lib parameters schema row e = some t := by
  unfold bindStreaming at hp
  split at hp
  · obtain ⟨l, hl, r, hr, hp⟩ := bind₂_eq_ok.1 hp
    cases hp
    rw [refTruth]
    exact (and_or_of_sequential (refTruth_of_bound hl) (refTruth_of_bound hr)).1 h
  · obtain ⟨l, hl, r, hr, hp⟩ := bind₂_eq_ok.1 hp
    cases hp
    rw [refTruth]
    exact (and_or_of_sequential (refTruth_of_bound hl) (refTruth_of_bound hr)).2 h
  · obtain ⟨l, hl, hp⟩ := bind_eq_ok.1 hp
    cases hp
    obtain ⟨s, hs, h⟩ := bind_eq_ok.1 h
    rw [refTruth, refTruth_of_bound hl hs]
    exact congrArg some (ok.inj h)
  · obtain ⟨l, hl, r, hr, hp⟩ := bind₂_eq_ok.1 hp
    obtain ⟨r', hr', l', hl', hp⟩ := bind₂_eq_ok.1 hp
    obtain ⟨_, _, hp⟩ := bind_eq_ok.1 hp
    cases hp
    obtain ⟨a, ha, b, hb, h⟩ := bind₂_eq_ok.1 h
    rw [refTruth]
    exact refComparison_of_bound hrow hcolumns (boundScalar_of_bindScalar hl)
      (boundScalar_of_bindScalar hr) hr' hl' ha hb h
  · obtain ⟨l, hl, bound, hbound, hp⟩ := bind₂_eq_ok.1 hp
    cases hp
    obtain ⟨a, ha, h⟩ := bind_eq_ok.1 h
    rw [refTruth]
    exact any_of_boundLoop hrow hcolumns (boundScalar_of_bindScalar hl) ha (mapM_eq_ok hbound) h
  · obtain ⟨c, hc, i, hi, hp⟩ := bind₂_eq_ok.1 hp
    obtain ⟨kind, hkind, hp⟩ := bind_eq_ok.1 hp
    split_ifs at hp
    obtain ⟨value, hvalue, x, hx, hp⟩ := bind₂_eq_ok.1 hp
    obtain ⟨b, hb, _, _, hp⟩ := bind₂_eq_ok.1 hp
    cases hp
    obtain ⟨a, ha, h⟩ := bind_eq_ok.1 h
    obtain ⟨column, hcolumn, -⟩ := hrow.column (hcolumns ha)
    rw [refTruth, requireColumn_eq_ok hc, requireValue_eq_ok hvalue,
      valueOf_column (bindStreamingColumn_eq_ok hi) (hcolumns ha) hcolumn, valueOf,
      predicateExpression, hx, ok_bind, hb]
    exact toOption_eq_some_iff.2 h
  · obtain ⟨s, hs, hp⟩ := bind_eq_ok.1 hp
    cases hp
    obtain ⟨v, hv, h⟩ := bind_eq_ok.1 h
    rw [refTruth, (boundScalar_of_bindScalar hs).valueOf hcolumns hv]
    exact congrArg some (ok.inj h)
  · cases hp
termination_by sizeOf e

end

/-! ### Compiled evaluation -/

section

variable {tableAlias : Option String} {table : String} {t : Truth}

lemma refComparison_of_numericCompare (hrow : RowOf schema row)
    (hl : CompiledNode lib parameters schema row left l)
    (hr : CompiledNode lib parameters schema row right r)
    (h : (RelationalPredicate.numericCompare l op r).truth lib schema row = .ok t) :
    refComparison lib parameters schema row left op right = some t := by
  obtain ⟨x, hx, y, hy, h⟩ := bind₂_eq_ok.1 h
  obtain ⟨a, ha, hx⟩ := hl.valueOf hrow hx
  obtain ⟨b, hb, hy⟩ := hr.valueOf hrow hy
  refine refComparison_of_refCompare ha hb ?_
  by_cases hnull : x.isNull ∨ y.isNull
  · rw [if_pos hnull] at h
    cases h
    rw [isNull_of_numericRef hx, isNull_of_numericRef hy] at hnull
    exact refCompare_of_null hnull
  · rw [if_neg hnull] at h
    obtain ⟨o, ho, h⟩ := bind_eq_ok.1 h
    cases h
    exact refCompare_of_compareValueRefs
      (compareValueRefs_of_numericRef hx hy hnull (kernelResult_eq_ok.1 ho))

lemma refComparison_of_compare (hrow : RowOf schema row) {c : SqlColumnRef} {w : RelationalValue}
    {column : RelationalColumnSchema} (hi : schema.columnPosition c.name = some i)
    (hcolumn : schema.columns[i]? = some column)
    (hv : valueOf lib parameters schema row right = .ok v)
    (hcoercion : Coercion lib column.scalarType v w)
    (hw : w.isNull ∨ column.scalarType.sameValueDomain w.scalarType)
    (h : (RelationalPredicate.compare c.name op w).truth lib schema row = .ok t) :
    refComparison lib parameters schema row (.column c) op right = some t := by
  obtain ⟨a, ha, h⟩ := bind_eq_ok.1 h
  obtain ⟨i', hi', hrowi⟩ := rowValue_eq_ok ha
  cases hi.symm.trans hi'
  obtain ⟨column', hcolumn', haccepts⟩ := hrow.column hrowi
  cases hcolumn.symm.trans hcolumn'
  refine refComparison_of_refCompare (valueOf_of_rowValue hrow ha) hv
    (hcoercion.refCompare haccepts ?_)
  by_cases hoverflow : a.isOverflow ∨ w.isOverflow
  · rw [if_pos hoverflow] at h
    cases h
  rw [if_neg hoverflow] at h
  by_cases hnull : a.isNull ∨ w.isNull
  · rw [if_pos hnull] at h
    rw [compareValueRefs, if_neg hoverflow, if_pos hnull]
    exact congrArg ok (ok.inj h)
  rw [if_neg hnull] at h
  cases h
  exact compareValueRefs_of_sameValueDomain haccepts (hw.resolve_left (not_or.1 hnull).2) hoverflow
    hnull

lemma refComparison_of_compileOriented (hrow : RowOf schema row)
    (hl : CompiledNode lib parameters schema row left l)
    (hr : CompiledNode lib parameters schema row right r) {p : RelationalPredicate}
    (hp : compileOriented lib schema l op r = .ok p) (h : p.truth lib schema row = .ok t) :
    refComparison lib parameters schema row left op right = some t := by
  unfold compileOriented at hp
  split at hp
  · split at hp
    · cases hp
    next column hcolumn =>
      obtain ⟨i, hi, hi'⟩ := Option.bind_eq_some_iff.1 hcolumn
      obtain ⟨x, hx, w, hw, hp⟩ := bind₂_eq_ok.1 hp
      have hcoercion := coercion_of_valueToRelationalAs (valueToRelational_of_toValue hx) hw
      split_ifs at hp with hdomain
      · cases hp
        cases hl with
        | column =>
          exact refComparison_of_compare hrow hi hi' hr.valueOf_value hcoercion hdomain h
      · cases hp
        exact refComparison_of_numericCompare hrow hl hr h
  · cases hp
    exact refComparison_of_numericCompare hrow hl hr h

lemma refComparison_exchanged
    (h : refComparison lib parameters schema row right (exchanged op) left = some t) :
    refComparison lib parameters schema row left op right = some t := by
  obtain ⟨b, hb, h⟩ := Option.bind_eq_some_iff.1 h
  obtain ⟨a, ha, h⟩ := Option.bind_eq_some_iff.1 h
  have hback := refCompare_exchanged h
  rw [exchanged_exchanged] at hback
  exact refComparison_of_refCompare (toOption_eq_some_iff.1 ha) (toOption_eq_some_iff.1 hb) hback

lemma orient_cases (l : RelationalNumericExpression) (op : SqlComparisonOp)
    (r : RelationalNumericExpression) :
    orient l op r = (r, exchanged op, l) ∨ orient l op r = (l, op, r) := by
  unfold orient
  split
  · exact .inl rfl
  · exact .inr rfl

lemma refComparison_of_compileComparison (hrow : RowOf schema row) {p : RelationalPredicate}
    (hp : compileComparison lib parameters schema tableAlias table left op right = .ok p)
    (h : p.truth lib schema row = .ok t) :
    refComparison lib parameters schema row left op right = some t := by
  obtain ⟨l, hl, r, hr, hp⟩ := bind₂_eq_ok.1 hp
  have hleft : CompiledNode lib parameters schema row left l := compiledNode_of_compileNumeric hl
  have hright : CompiledNode lib parameters schema row right r := compiledNode_of_compileNumeric hr
  rcases orient_cases l op r with ho | ho
  · rw [ho] at hp
    exact refComparison_exchanged (refComparison_of_compileOriented hrow hright hleft hp h)
  · rw [ho] at hp
    exact refComparison_of_compileOriented hrow hleft hright hp h

variable (lib schema row) in
/-- A compiled predicate that returns has the truth value of an operand. -/
def Follows (q : Option Truth) (p : RelationalPredicate) : Prop :=
  ∀ ⦃t⦄, p.truth lib schema row = .ok t → q = some t

variable {ps : List RelationalPredicate}

section

lemma Follows.and_or (h : Follows lib schema row q p) (h' : Follows lib schema row q' p') :
    Follows lib schema row (Kleene.and q q') (.and p p') ∧
      Follows lib schema row (Kleene.or q q') (.or p p') := by
  constructor
  all_goals
    intro t ht
    obtain ⟨a, ha, b, hb, ht⟩ := bind₂_eq_ok.1 ht
    rw [h ha, h' hb]
    rcases a with _ | _ | _ <;> rcases b with _ | _ | _ <;> exact congrArg some (ok.inj ht)

section

variable (hs : Forall₂ (Follows lib schema row) qs ps) (h : Follows lib schema row q p)

include hs h

lemma Follows.all : Follows lib schema row (Kleene.all q qs) (ps.foldl .and p) := by
  induction hs generalizing q p with
  | nil => exact h
  | cons hq _ ih => exact ih (Follows.and_or h hq).1

lemma Follows.any : Follows lib schema row (Kleene.any q qs) (ps.foldl .or p) := by
  induction hs generalizing q p with
  | nil => exact h
  | cons hq _ ih => exact ih (Follows.and_or h hq).2

end

end

lemma follows_compileComparison (hrow : RowOf schema row)
    (hp : compileComparison lib parameters schema tableAlias table left op right = .ok p) :
    Follows lib schema row (refComparison lib parameters schema row left op right) p :=
  fun _ h => refComparison_of_compileComparison hrow hp h

lemma any_map_bne_true (left : Expr) (values : List Expr) : (Kleene.any (some (some false))
      (values.map (refComparison lib parameters schema row left .eq))).map (·.map (· != true)) =
    Kleene.all (some (some true))
      (values.map (refComparison lib parameters schema row left .notEq)) := by
  have hnot : (fun b : Bool => b != true) = (!·) := by
    funext b
    cases b <;> rfl
  have hmap : values.map (refComparison lib parameters schema row left .notEq) =
      (values.map (refComparison lib parameters schema row left .eq)).map Kleene.not := by
    rw [map_map]
    exact map_congr_left fun _ _ => refComparison_notEq _ _
  rw [hnot, hmap]
  exact not_any _ _

lemma any_map_bne_false (qs : List (Option Truth)) (q : Option Truth) :
    (Kleene.any q qs).map (·.map (· != false)) = Kleene.any q qs := by
  rcases any q qs with _ | _ | _ | _ <;> rfl

lemma follows_joinList (hs : Forall₂ (Follows lib schema row) qs ps)
    (hp : joinList negated ps = .ok p) :
    Follows lib schema row (if negated then Kleene.all (some (some true)) qs
      else Kleene.any (some (some false)) qs) p := by
  cases hs with
  | nil => nomatch hp
  | @cons q first qs rest hq hs =>
    cases hp
    cases negated with
    | true =>
      rw [if_pos rfl, Kleene.all, foldl_cons, Kleene.true_and]
      exact Follows.all hs hq
    | false =>
      rw [if_neg Bool.false_ne_true, Kleene.any, foldl_cons, Kleene.false_or]
      exact Follows.any hs hq

lemma refTruth_of_compiled (hrow : RowOf schema row)
    (hp : compile lib parameters schema tableAlias table e = .ok p) :
    Follows lib schema row (refTruth lib parameters schema row e) p := by
  unfold compile at hp
  split at hp
  · obtain ⟨l, hl, r, hr, hp⟩ := bind₂_eq_ok.1 hp
    cases hp
    rw [refTruth]
    exact (Follows.and_or (refTruth_of_compiled hrow hl) (refTruth_of_compiled hrow hr)).1
  · obtain ⟨l, hl, r, hr, hp⟩ := bind₂_eq_ok.1 hp
    cases hp
    rw [refTruth]
    exact (Follows.and_or (refTruth_of_compiled hrow hl) (refTruth_of_compiled hrow hr)).2
  · obtain ⟨l, hl, hp⟩ := bind_eq_ok.1 hp
    cases hp
    intro t h
    obtain ⟨s, hs, h⟩ := bind_eq_ok.1 h
    rw [refTruth, refTruth_of_compiled hrow hl hs]
    exact congrArg some (ok.inj h)
  · rw [refTruth]
    exact follows_compileComparison hrow hp
  · cases hp
  · next left values negated =>
    obtain ⟨ps, hps, hp⟩ := bind_eq_ok.1 hp
    have hs : Forall₂ (Follows lib schema row) (values.map (refComparison lib parameters schema
        row left (if negated then .notEq else .eq))) ps :=
      forall₂_map_left_iff.2 ((mapM_eq_ok hps).imp fun _ _ hc => follows_compileComparison hrow hc)
    have hjoin := follows_joinList hs hp
    rw [refTruth]
    cases negated with
    | true => rwa [any_map_bne_true]
    | false => rwa [any_map_bne_false]
  · next e negated =>
    split at hp
    · next c hc =>
      obtain ⟨_, _, hp⟩ := bind_eq_ok.1 hp
      cases hp
      cases e with
      | column c' =>
        cases hc
        intro t h
        obtain ⟨v, hv, h⟩ := bind_eq_ok.1 h
        rw [refTruth, valueOf_of_rowValue hrow hv]
        exact congrArg some (ok.inj h)
      | _ => nomatch hc
    · obtain ⟨n, hn, hp⟩ := bind_eq_ok.1 hp
      cases hp
      intro t h
      obtain ⟨x, hx, h⟩ := bind_eq_ok.1 h
      obtain ⟨v, hv, hx⟩ := (compiledNode_of_compileNumeric hn).valueOf hrow hx
      rw [refTruth, hv]
      rw [isNull_of_numericRef hx] at h
      exact congrArg some (ok.inj h)
  · cases hp
termination_by sizeOf e

end

/-! ### Agreement -/

/-- Two of the three evaluators that return a truth value for a row return the same one. The
resolvers may fail, but what they return is what the row holds. -/
theorem where_evaluators_agree (lib : SqlLibrary) (parameters : List Value)
    (schema : RelationalTableSchema) (row : List RelationalValue) (hrow : RowOf schema row)
    (e : Expr) (resolve : ColumnResolver)
    (hresolve : ∀ c found, resolve c = .ok found → rowResolver schema row c = .ok found)
    (columns : ℕ → Except QueryError RelationalValue)
    (hcolumns : ∀ i v, columns i = .ok v → row[i]? = some v) (table qualifier : String)
    (tableAlias : Option String) :
    (∀ a b streaming, predicateTruthWith lib parameters resolve e = .ok a →
      bindStreaming lib parameters schema table qualifier e = .ok streaming →
      streaming.truth lib columns = .ok b → a = b) ∧
    (∀ a c compiled, predicateTruthWith lib parameters resolve e = .ok a →
      compile lib parameters schema tableAlias table e = .ok compiled →
      compiled.truth lib schema row = .ok c → a = c) ∧
    (∀ b c streaming compiled, bindStreaming lib parameters schema table qualifier e = .ok streaming →
      streaming.truth lib columns = .ok b →
      compile lib parameters schema tableAlias table e = .ok compiled →
      compiled.truth lib schema row = .ok c → b = c) := by
  have hcols : ∀ {i v}, columns i = .ok v → row[i]? = some v := hcolumns _ _
  have hres : ∀ {c found}, resolve c = .ok found → rowResolver schema row c = .ok found :=
    hresolve _ _
  refine ⟨fun a b streaming ha hs hb => ?_, fun a c compiled ha hp hc => ?_,
    fun b c streaming compiled hs hb hp hc => ?_⟩
  · exact Option.some.inj ((refTruth_of_predicateTruthWith hrow hres ha).symm.trans
      (refTruth_of_bound hrow hcols hs hb))
  · exact Option.some.inj ((refTruth_of_predicateTruthWith hrow hres ha).symm.trans
      (refTruth_of_compiled hrow hp hc))
  · exact Option.some.inj ((refTruth_of_bound hrow hcols hs hb).symm.trans
      (refTruth_of_compiled hrow hp hc))

lemma utc_gt : -86400 < (0 : ℤ) := by decide

lemma utc_lt : (0 : ℤ) < 86400 := by decide

/-- A library for statements without texts of timestamps, identifiers or floats. -/
def plainLibrary : SqlLibrary where
  rem a _ := a
  parseFloat _ := .error "no floats"
  floatText _ := ""
  parseIntError text := text
  parseTimestamp _ := .error (.semantic "no timestamps")
  parseTimestamptz _ := .error (.semantic "no timestamps")
  formatTimestamp _ := ""
  parseUuid _ := none
  statementNow := ⟨⟨⟨719163, by decide, by decide⟩, ⟨0, 0, by decide, by decide⟩⟩, 0, utc_gt,
    utc_lt⟩
  describe _ := "a value"
  likeMatches value pattern _ _ := .ok (value = pattern)

def quantities : RelationalTableSchema := ⟨"stock", [⟨"quantity", .bigInt, true⟩]⟩

/-- `quantity + 1 NOT IN (5, NULL)`. -/
def restocked : Expr :=
  .inList (.arithmetic (.column ⟨none, "quantity"⟩) .add (.value (.literal (.leaf (.int 1)))))
    [.value (.literal (.leaf (.int 5))), .value (.literal (.leaf .null))] true

/-- On a row the list decides, and the streaming query and the delete read it as the mutation does. -/
theorem where_evaluators_agree_restocked :
    ∃ streaming b compiled c,
      bindStreaming plainLibrary [] quantities "stock" "stock" restocked = .ok streaming ∧
      streaming.truth plainLibrary (fun i => if i = 0 then .ok (.bigInt 4) else .error
        (.execution "no column")) = .ok b ∧
      compile plainLibrary [] quantities none "stock" restocked = .ok compiled ∧
      compiled.truth plainLibrary quantities [.bigInt 4] = .ok c ∧
      some false = b ∧ some false = c := by
  have hrow : RowOf quantities [.bigInt 4] := .cons rfl .nil
  have hcolumns : ∀ i v, (if i = 0 then ok (bigInt 4) else .error
      (QueryError.execution "no column")) = .ok v →
      [bigInt 4][i]? = some v := by
    intro i v h
    split_ifs at h with hi
    rw [hi, ← ok.inj h]
    rfl
  have hagree := where_evaluators_agree plainLibrary [] quantities [.bigInt 4] hrow restocked
    (rowResolver quantities [.bigInt 4]) (fun _ _ h => h) _ hcolumns "stock" "stock" none
  have hread : predicateTruthWith plainLibrary [] (rowResolver quantities [.bigInt 4]) restocked =
      .ok (some false) := rfl
  exact ⟨_, _, _, _, rfl, rfl, rfl, rfl, hagree.1 _ _ _ hread rfl rfl,
    hagree.2.1 _ _ _ hread rfl rfl⟩

end HawDB
