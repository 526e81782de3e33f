import HawDB.Predicate
import HawDB.Proofs.Decimal
import HawDB.Proofs.GraphValue
import HawDB.Proofs.RelationalOrder

/-!
# The values in a WHERE clause

The three evaluators are compared with one reading: the value of an expression in a row (`valueOf`)
and the order of two values (`refCompare`). A literal coerced to the type of its column compares as
the literal does (`Coercion.refCompare`).
-/

namespace HawDB

open List Option Except RelationalValue

open QueryValue Numeric

/-! ### Order of values -/

variable {d : Decimal}

section

lemma toI64_eq_ok {n : Int64} (h : d.toI64 = .ok n) : d.coefficient = n.toInt * 10 ^ d.scale := by
  rw [Decimal.toI64] at h
  dsimp only at h
  split_ifs at h with hmod hrange
  cases h
  rw [Int64.toInt_ofInt_of_le (by omega) (by omega)]
  exact (Int.tdiv_mul_cancel (Int.dvd_of_tmod_eq_zero (not_ne_iff.1 hmod))).symm

lemma value_ofInt64 (n : Int64) : (Decimal.ofInt64 n).value = n.toInt := by
  simp [Decimal.value, Decimal.ofInt64]

lemma value_of_toI64 {n : Int64} (h : d.toI64 = .ok n) : d.value = n.toInt := by
  rw [Decimal.value, toI64_eq_ok h, Int.cast_mul, Int.cast_pow]
  exact mul_div_cancel_right₀ _ (by positivity)

lemma compare_ofInt64_of_toI64 (h : d.toI64 = .ok n) :
    compare (Decimal.ofInt64 m) d = compare m n := by
  rw [Decimal.compare_eq_compare_value, value_ofInt64, value_of_toI64 h, compare_int64]
  exact compare_eq_compare Int.cast_lt Int.cast_lt

lemma totalCmp_swap (a b : UInt64) : (totalCmp a b).swap = totalCmp b a :=
  (Std.OrientedOrd.eq_swap (a := totalOrderKey b) (b := totalOrderKey a)).symm

lemma holds_exchanged (op : SqlComparisonOp) (o : Ordering) :
    (MutationPredicate.exchanged op).holds o.swap = op.holds o := by
  cases op <;> cases o <;> rfl

lemma compareNumeric_swap {o : Ordering} (h : compareNumeric a b = .ok o) :
    compareNumeric b a = .ok o.swap := by
  unfold compareNumeric at h ⊢
  by_cases hdecimal : isDecimal a ∨ isDecimal b
  · rw [if_pos hdecimal] at h
    rw [if_pos hdecimal.symm]
    obtain ⟨x, hx, y, hy, h⟩ := bind₂_eq_ok.1 h
    cases h
    rw [hx, hy]
    exact congrArg ok Std.OrientedCmp.eq_swap
  · rw [if_neg hdecimal] at h
    rw [if_neg fun h => hdecimal h.symm]
    split at h
    · cases h
      exact congrArg ok Std.OrientedCmp.eq_swap
    · cases h
      exact congrArg ok (totalCmp_swap _ _).symm
    · cases h
      rfl
    · cases h
      exact congrArg ok Ordering.swap_swap.symm
    · cases h

lemma compareValueRefs_exchanged (h : compareValueRefs a b op = .ok t) :
    compareValueRefs b a (MutationPredicate.exchanged op) = .ok t := by
  rw [compareValueRefs] at h ⊢
  by_cases hoverflow : a.isOverflow ∨ b.isOverflow
  · rw [if_pos hoverflow] at h
    cases h
  rw [if_neg hoverflow] at h
  rw [if_neg fun h => hoverflow h.symm]
  by_cases hnull : a.isNull ∨ b.isNull
  · rw [if_pos hnull] at h
    rw [if_pos hnull.symm, ← h]
  rw [if_neg hnull] at h
  rw [if_neg fun h => hnull h.symm]
  by_cases hnumeric : a.isNumeric ∧ b.isNumeric
  · rw [if_pos hnumeric] at h
    rw [if_pos hnumeric.symm]
    obtain ⟨x, hx, y, hy, h⟩ := bind₂_eq_ok.1 h
    obtain ⟨o, ho, h⟩ := bind_eq_ok.1 h
    cases h
    rw [hy, hx, ok_bind, ok_bind, compareNumeric_swap ho, ok_bind, holds_exchanged]
  · rw [if_neg hnumeric] at h
    rw [if_neg fun h => hnumeric h.symm]
    by_cases htype : a.scalarType ≠ b.scalarType
    · rw [if_pos htype] at h
      cases h
    · rw [if_neg htype] at h
      rw [if_neg fun h => htype h.symm, ← h, ← holds_exchanged op, ← Std.OrientedCmp.eq_swap]

end

/-! ### The reading of a comparison -/

section

variable (lib : SqlLibrary)

/-- A text that is compared with a timestamp or an identifier is read as one. -/
def readAs (other : RelationalValue) : RelationalValue → Option RelationalValue
  | .text s =>
    match other with
    | .timestamp _ => (lib.parseTimestamp s).toOption.map .timestamp
    | .timestampTz _ => (lib.parseTimestamptz s).toOption.map .timestampTz
    | .uuid _ => (lib.parseUuid s).map .uuid
    | _ => some (.text s)
  | v => some v

def refCompare (op : SqlComparisonOp) (a b : RelationalValue) : Option Truth :=
  if a.isNull ∨ b.isNull then some none
  else do
    let x ← readAs lib b a
    let y ← readAs lib a b
    (compareValueRefs x y op).toOption

variable {lib} {a b v : RelationalValue} {op : SqlComparisonOp}

lemma refCompare_exchanged (h : refCompare lib op a b = some t) :
    refCompare lib (MutationPredicate.exchanged op) b a = some t := by
  rw [refCompare] at h ⊢
  by_cases hnull : a.isNull ∨ b.isNull
  · rw [if_pos hnull] at h
    rw [if_pos hnull.symm, h]
  rw [if_neg hnull] at h
  rw [if_neg fun h => hnull h.symm]
  obtain ⟨x, hx, h⟩ := bind_eq_some_iff.1 h
  obtain ⟨y, hy, h⟩ := bind_eq_some_iff.1 h
  dsimp only [bind_eq_bind]
  rw [hy, bind_some, hx, bind_some]
  exact toOption_eq_some_iff.2 (compareValueRefs_exchanged (toOption_eq_some_iff.1 h))

lemma exchanged_exchanged (op : SqlComparisonOp) :
    MutationPredicate.exchanged (MutationPredicate.exchanged op) = op := by
  cases op <;> rfl

lemma refCompare_of_null (h : a.isNull ∨ b.isNull) : refCompare lib op a b = some none :=
  if_pos h

lemma readAs_of_compareValueRefs (h : compareValueRefs a b op = .ok t) :
    readAs lib b a = some a := by
  cases a with
  | text s =>
    cases b with
    | timestamp | timestampTz | uuid => nomatch h
    | _ => rfl
  | _ => rfl

lemma refCompare_of_read (hnull : ¬ (a.isNull ∨ b.isNull))
    (hx : readAs lib b a = some x) (hy : readAs lib a b = some y)
    (h : compareValueRefs x y op = .ok t) : refCompare lib op a b = some t := by
  rw [refCompare, if_neg hnull, hx, hy]
  exact toOption_eq_some_iff.2 h

lemma compareValueRefs_null (hnull : a.isNull ∨ b.isNull) (h : compareValueRefs a b op = .ok t) :
    t = none := by
  rw [compareValueRefs] at h
  split_ifs at h
  exact (ok.inj h).symm

lemma refCompare_of_compareValueRefs (h : compareValueRefs a b op = .ok t) :
    refCompare lib op a b = some t := by
  by_cases hnull : a.isNull ∨ b.isNull
  · rw [refCompare_of_null hnull, compareValueRefs_null hnull h]
  · exact refCompare_of_read hnull (readAs_of_compareValueRefs h)
      (readAs_of_compareValueRefs (compareValueRefs_exchanged h)) h

lemma compareValueRefs_toI64 (hn : d.toI64 = .ok n)
    (h : compareValueRefs (.bigInt m) (.bigInt n) op = .ok t) :
    compareValueRefs (.bigInt m) (.decimal d) op = .ok t := by
  have hcmp : compareValueRefs (.bigInt m) (.bigInt n) op = .ok (some (op.holds (compare m n))) :=
    rfl
  have hdec : compareValueRefs (.bigInt m) (.decimal d) op =
      .ok (some (op.holds (compare (Decimal.ofInt64 m) d))) := rfl
  rw [hdec, compare_ofInt64_of_toI64 hn, ← hcmp, h]

lemma accepts_scalarType {kind : RelationalScalarType} (h : kind.accepts a) (hnull : ¬ a.isNull) :
    kind.sameValueDomain a.scalarType := by
  cases kind <;> cases a <;> simp_all [RelationalScalarType.accepts, isNull,
    RelationalScalarType.sameValueDomain, scalarType]

variable (lib) in
/-- What the coercion of a literal to the type of a column can do. -/
inductive Coercion : RelationalScalarType → RelationalValue → RelationalValue → Prop
  | same (kind : RelationalScalarType) (v : RelationalValue) : Coercion kind v v
  | decimal (precision scale : UInt8) (n : Int64) :
    Coercion (.decimal precision scale) (.bigInt n) (.decimal (Decimal.ofInt64 n))
  | bigInt {d : Decimal} {n : Int64} (h : d.toI64 = .ok n) :
    Coercion .bigInt (.decimal d) (.bigInt n)
  | timestamp {precision : UInt8} {s : String} {micros : Int64}
    (h : lib.parseTimestamp s = .ok micros) :
    Coercion (.timestamp precision) (.text s) (.timestamp micros)
  | timestampTz {precision : UInt8} {s : String} {micros : Int64}
    (h : lib.parseTimestamptz s = .ok micros) :
    Coercion (.timestampTz precision) (.text s) (.timestampTz micros)
  | uuid {s : String} {u : ByteArr 16} (h : lib.parseUuid s = some u) :
    Coercion .uuid (.text s) (.uuid u)

lemma coercion_of_valueToRelationalAs {kind : RelationalScalarType}
    (hv : valueToRelational x = .ok v)
    (hw : valueToRelationalAs lib x kind = .ok w) : Coercion lib kind v w := by
  rw [valueToRelationalAs, hv, ok_bind] at hw
  cases kind with
  | decimal precision scale =>
    cases v with
    | bigInt n => cases hw; exact .decimal _ _ _
    | doublePrecision => nomatch hw
    | _ => cases hw; exact .same _ _
  | bigInt =>
    cases v with
    | decimal d =>
      dsimp only at hw
      split at hw
      · cases hw; exact .bigInt ‹_›
      · cases hw; exact .same _ _
    | _ => cases hw; exact .same _ _
  | doublePrecision =>
    cases v with
    | decimal => nomatch hw
    | _ => cases hw; exact .same _ _
  | timestamp =>
    cases v with
    | text s => obtain ⟨micros, h, rfl⟩ := map_eq_ok.1 hw; exact .timestamp h
    | _ => cases hw; exact .same _ _
  | timestampTz =>
    cases v with
    | text s => obtain ⟨micros, h, rfl⟩ := map_eq_ok.1 hw; exact .timestampTz h
    | _ => cases hw; exact .same _ _
  | uuid =>
    cases v with
    | text s =>
      dsimp only [coerceRelationalValue] at hw
      split at hw
      · cases hw; exact .uuid ‹_›
      · cases hw
    | _ => cases hw; exact .same _ _
  | _ => cases v <;> (obtain rfl := Except.ok.inj hw; exact .same _ _)

lemma Coercion.refCompare {kind : RelationalScalarType}
    (hw : Coercion lib kind v w) (ha : kind.accepts a) (h : compareValueRefs a w op = .ok t) :
    refCompare lib op a v = some t := by
  by_cases hnull : a.isNull
  · rw [refCompare_of_null (.inl hnull), compareValueRefs_null (.inl hnull) h]
  have htype := accepts_scalarType ha hnull
  cases hw with
  | same => exact refCompare_of_compareValueRefs h
  | decimal precision scale n =>
    cases a with
    | decimal d => exact refCompare_of_compareValueRefs (b := .bigInt n) h
    | overflow => nomatch h
    | _ => nomatch htype
  | bigInt hn =>
    cases a with
    | bigInt m => exact refCompare_of_compareValueRefs (compareValueRefs_toI64 hn h)
    | overflow => nomatch h
    | _ => nomatch htype
  | timestamp hs =>
    cases a with
    | timestamp m =>
      exact refCompare_of_read (by simp [isNull]) rfl (by rw [readAs, hs]; rfl) h
    | overflow => nomatch h
    | _ => nomatch htype
  | timestampTz hs =>
    cases a with
    | timestampTz m =>
      exact refCompare_of_read (by simp [isNull]) rfl (by rw [readAs, hs]; rfl) h
    | overflow => nomatch h
    | _ => nomatch htype
  | uuid hs =>
    cases a with
    | uuid u =>
      exact refCompare_of_read (by simp [isNull]) rfl (by rw [readAs, hs]; rfl) h
    | overflow => nomatch h
    | _ => nomatch htype

end

/-! ### Values of a row and values of a query -/

section

variable {v : RelationalValue} {x : Value}

lemma fromNaive_of_toNaive
    (h : SqlTimestamp.toNaive micros = .ok value) : SqlTimestamp.fromNaive value = .ok micros := by
  rw [SqlTimestamp.toNaive] at h
  split_ifs at h with hrange
  dsimp only at h
  split at h
  · cases h
  next date hdate =>
    cases h
    rw [NaiveDate.ofDays] at hdate
    split_ifs at hdate with hdays
    cases hdate
    have hmicros : (((micros.toInt / 1000000 / 86400 + 719163 - 719163) * 86400 +
        ((micros.toInt / 1000000 % 86400).toNat : ℤ)) * 1000000 +
        ((((micros.toInt % 1000000).toNat * 1000 + 500) / 1000 : ℕ) : ℤ)) = micros.toInt := by
      omega
    dsimp only [SqlTimestamp.fromNaive]
    rw [hmicros, SqlTimestamp.admitMicros, if_pos hrange, Int64.ofInt_toInt]

lemma valueToRelational_of_toValue (h : toValue message v = .ok x) :
    valueToRelational x = .ok v := by
  cases v with
  | vector encoded =>
    rw [toValue] at h
    split at h
    · next w hw =>
      cases h
      rw [GraphVector.fromEncoded_eq_ok.1 hw]
      rfl
    · cases h
  | timestamp micros | timestampTz micros =>
    obtain ⟨value, hvalue, h⟩ := bind_eq_ok.1 h
    cases h
    show SqlTimestamp.fromNaive value >>= _ = _
    rw [fromNaive_of_toNaive hvalue, ok_bind]
  | overflow => nomatch h
  | _ => cases h; rfl

/-- The two conversions to values of a query differ in a message only. -/
theorem coreValueRef_of_relationalToValue (h : relationalToValue v = .ok x) :
    coreValueRef v = .ok x := by
  cases v with
  | overflow => nomatch h
  | _ => exact h

lemma valueToRelational_of_ofKernel (h : StreamingScalar.ofKernel x = .ok v) :
    valueToRelational x = .ok v := by
  unfold StreamingScalar.ofKernel at h
  split at h
  all_goals first | exact h | nomatch h

lemma coreValueRef_of_numericRef (h : numericRef v = .ok x) : coreValueRef v = .ok x := by
  cases v <;> first | (obtain rfl := ok.inj h; rfl) | nomatch h

lemma exists_numericRef_of_resultRef (h : resultRef y = .ok x) :
    ∃ v, valueToRelational y = .ok v ∧ numericRef v = .ok x := by
  unfold resultRef at h
  split at h
  all_goals first | exact ⟨_, rfl, h⟩ | nomatch h

lemma kernelResult_eq_ok {α : Type} {r : Except QueryError α} {a : α} :
    kernelResult r = .ok a ↔ r = .ok a := by
  unfold kernelResult
  split <;> simp

end

/-! ### The value of an expression in a row -/

def rowResolver (schema : RelationalTableSchema) (row : List RelationalValue) : ColumnResolver :=
  fun column =>
    match (schema.columnPosition column.name).bind fun i =>
        (row[i]?).bind fun v => (schema.columns[i]?).map fun c => (v, c.scalarType) with
    | some found => .ok found
    | none => .error (.semantic s!"column {column.name} is unknown or ambiguous")

def RowOf (schema : RelationalTableSchema) (row : List RelationalValue) : Prop :=
  Forall₂ (fun column value => column.scalarType.accepts value) schema.columns row

section

variable {lib : SqlLibrary} {parameters : List Value} {schema : RelationalTableSchema}
  {row : List RelationalValue} {v : RelationalValue} {kind : RelationalScalarType}

variable {c : SqlColumnRef}

lemma rowResolver_eq_ok :
    rowResolver schema row c = .ok (v, kind) ↔ ∃ i column, schema.columnPosition c.name = some i ∧
      row[i]? = some v ∧ schema.columns[i]? = some column ∧ column.scalarType = kind := by
  have hfound : rowResolver schema row c = .ok (v, kind) ↔
      ((schema.columnPosition c.name).bind fun i => (row[i]?).bind fun v =>
        (schema.columns[i]?).map fun c => (v, c.scalarType)) = some (v, kind) := by
    unfold rowResolver
    split <;> simp [*]
  rw [hfound]
  simp only [bind_eq_some_iff, map_eq_some_iff, Prod.mk.injEq]
  constructor
  · rintro ⟨i, hi, _, hv, column, hcolumn, rfl, hkind⟩
    exact ⟨i, column, hi, hv, hcolumn, hkind⟩
  · rintro ⟨i, column, hi, hv, hcolumn, hkind⟩
    exact ⟨i, hi, v, hv, column, hcolumn, rfl, hkind⟩

lemma RowOf.accepts (hrow : RowOf schema row) (h : rowResolver schema row c = .ok (v, kind)) :
    kind.accepts v := by
  obtain ⟨i, column, -, hv, hcolumn, rfl⟩ := rowResolver_eq_ok.1 h
  obtain ⟨hi, rfl⟩ := List.getElem?_eq_some_iff.1 hv
  obtain ⟨hi', rfl⟩ := List.getElem?_eq_some_iff.1 hcolumn
  exact Forall₂.get hrow hi' hi

lemma predicateExpression_mono
    (hresolve : ∀ {c found}, resolve c = .ok found → resolve' c = .ok found) :
    ∀ {e : Expr} {v : RelationalValue}, predicateExpression lib parameters resolve e = .ok v →
      predicateExpression lib parameters resolve' e = .ok v
  | .column c, v, h => by
    rw [predicateExpression] at h ⊢
    obtain ⟨found, hfound, h⟩ := bind_eq_ok.1 h
    rw [hresolve hfound, ok_bind, h]
  | .value _, v, h => by
    rw [predicateExpression] at h ⊢
    exact h
  | .arithmetic left op right, v, h => by
    rw [predicateExpression] at h ⊢
    obtain ⟨x, hx, y, hy, h⟩ := bind₂_eq_ok.1 h
    rw [predicateExpression_mono hresolve hx, predicateExpression_mono hresolve hy]
    exact h
  | .negate e, v, h | .cast e target, v, h => by
    rw [predicateExpression] at h ⊢
    obtain ⟨x, hx, h⟩ := bind_eq_ok.1 h
    rw [predicateExpression_mono hresolve hx]
    exact h
  | .currentTimestamp _, v, h | .timestampCast .., v, h | .function _, v, h | .and .., v, h
  | .or .., v, h | .not _, v, h | .compare .., v, h | .inList .., v, h | .like .., v, h
  | .isNull .., v, h => by
    simp [predicateExpression] at h

variable (lib parameters schema row) in
def valueOf (e : Expr) : Except QueryError RelationalValue :=
  predicateExpression lib parameters (rowResolver schema row) e

section

variable {left right e : Expr} {x y z : Value}

lemma valueOf_column (hi : schema.columnPosition c.name = some i) (hv : row[i]? = some v)
    (hcolumn : schema.columns[i]? = some column) :
    valueOf lib parameters schema row (.column c) = .ok v := by
  rw [valueOf, predicateExpression, rowResolver_eq_ok.2 ⟨i, column, hi, hv, hcolumn, rfl⟩, ok_bind]

lemma valueOf_arithmetic (op : NumericBinaryOp)
    (ha : valueOf lib parameters schema row left = .ok a) (hx : coreValueRef a = .ok x)
    (hb : valueOf lib parameters schema row right = .ok b) (hy : coreValueRef b = .ok y)
    (hz : evaluateNumeric lib.toNumericLibrary x op y = .ok z) :
    valueOf lib parameters schema row (.arithmetic left op right) = valueToRelational z := by
  rw [valueOf] at ha hb
  rw [valueOf, predicateExpression, ha, ok_bind, hb, ok_bind, hx, ok_bind, hy, ok_bind, hz, ok_bind]

lemma valueOf_negate (ha : valueOf lib parameters schema row e = .ok a)
    (hx : coreValueRef a = .ok x) (hz : negateNumeric x = .ok z) :
    valueOf lib parameters schema row (.negate e) = valueToRelational z := by
  rw [valueOf] at ha
  rw [valueOf, predicateExpression, ha, ok_bind, hx, ok_bind, hz, ok_bind]

lemma valueOf_cast (target : NumericType) (ha : valueOf lib parameters schema row e = .ok a)
    (hx : coreValueRef a = .ok x) (hz : castNumeric lib.toNumericLibrary x target = .ok z) :
    valueOf lib parameters schema row (.cast e target) = valueToRelational z := by
  rw [valueOf] at ha
  rw [valueOf, predicateExpression, ha, ok_bind, hx, ok_bind, hz, ok_bind]

end

variable (lib parameters schema) in
/-- The bound form of an expression. -/
inductive BoundScalar : Expr → StreamingScalar → Prop
  | column {c : SqlColumnRef} {i : ℕ} {column : RelationalColumnSchema}
    (hi : schema.columnPosition c.name = some i) (hcolumn : schema.columns[i]? = some column) :
    BoundScalar (.column c) (.column i column.scalarType)
  | value {value : SqlValue} {x : Value} {v : RelationalValue}
    (hx : bindSqlValue lib value parameters = .ok x) (hv : valueToRelational x = .ok v) :
    BoundScalar (.value value) (.value v)
  | arithmetic {left right : Expr} {l r : StreamingScalar} (op : NumericBinaryOp)
    (hl : BoundScalar left l) (hr : BoundScalar right r) :
    BoundScalar (.arithmetic left op right) (.binary l op r)
  | negate {e : Expr} {s : StreamingScalar} (h : BoundScalar e s) :
    BoundScalar (.negate e) (.negate s)
  | cast {e : Expr} {s : StreamingScalar} (target : NumericType) (h : BoundScalar e s) :
    BoundScalar (.cast e target) (.cast s target)

lemma bindStreamingColumn_eq_ok (h : bindStreamingColumn c schema table qualifier = .ok i) :
    schema.columnPosition c.name = some i := by
  rw [bindStreamingColumn] at h
  split_ifs at h
  split at h
  · rwa [← ok.inj h]
  · cases h

lemma columnKind_eq_ok (h : columnKind schema i = .ok kind) :
    ∃ column, schema.columns[i]? = some column ∧ column.scalarType = kind := by
  rw [columnKind] at h
  split at h
  · exact ⟨_, ‹_›, ok.inj h⟩
  · cases h

lemma eq_of_kind_checked {s s' : StreamingScalar}
    (h : (do let x ← .ok (s', rest'); let _ ← x.1.kind; .ok (x.1, x.2)) = Except.ok (s, rest)) :
    s' = s := by
  rw [ok_bind] at h
  obtain ⟨_, _, h⟩ := bind_eq_ok.1 h
  exact (Prod.mk.inj (ok.inj h)).1

lemma boundScalar_of_bindScalarNode {table qualifier : String}
    (h : bindScalarNode lib parameters schema table qualifier e depth remaining = .ok (s, rest)) :
    BoundScalar lib parameters schema e s := by
  rw [bindScalarNode] at h
  split_ifs at h
  split at h
  · obtain ⟨i, hi, kind, hkind, h⟩ := bind₂_eq_ok.1 h
    obtain rfl := eq_of_kind_checked h
    obtain ⟨column, hcolumn, rfl⟩ := columnKind_eq_ok hkind
    exact .column (bindStreamingColumn_eq_ok hi) hcolumn
  · obtain ⟨x, hx, v, hv, h⟩ := bind₂_eq_ok.1 h
    obtain rfl := eq_of_kind_checked h
    exact .value hx hv
  · obtain ⟨⟨l, restLeft⟩, hl, ⟨r, restRight⟩, hr, h⟩ := bind₂_eq_ok.1 h
    obtain rfl := eq_of_kind_checked h
    exact .arithmetic _ (boundScalar_of_bindScalarNode hl) (boundScalar_of_bindScalarNode hr)
  · obtain ⟨⟨l, restOperand⟩, hl, h⟩ := bind_eq_ok.1 h
    obtain rfl := eq_of_kind_checked h
    exact .negate (boundScalar_of_bindScalarNode hl)
  · obtain ⟨⟨l, restOperand⟩, hl, h⟩ := bind_eq_ok.1 h
    obtain rfl := eq_of_kind_checked h
    exact .cast _ (boundScalar_of_bindScalarNode hl)
  · cases h
termination_by sizeOf e

lemma boundScalar_of_bindScalar (h : bindScalar lib parameters schema table qualifier e = .ok s) :
    BoundScalar lib parameters schema e s := by
  obtain ⟨⟨s', rest⟩, hs, h⟩ := bind_eq_ok.1 h
  cases h
  exact boundScalar_of_bindScalarNode hs

lemma BoundScalar.valueOf {columns : ℕ → Except QueryError RelationalValue}
    (hcolumns : ∀ {i v}, columns i = .ok v → row[i]? = some v) {s : StreamingScalar}
    (hs : BoundScalar lib parameters schema e s)
    (h : s.evaluate lib columns = .ok v) : HawDB.valueOf lib parameters schema row e = .ok v := by
  induction hs generalizing v with
  | column hi hcolumn => exact valueOf_column hi (hcolumns h) hcolumn
  | value hx hv =>
    cases h
    rw [HawDB.valueOf, predicateExpression, hx, ok_bind, hv]
  | arithmetic op _ _ ihl ihr =>
    obtain ⟨a, ha, x, hx, h⟩ := bind₂_eq_ok.1 h
    obtain ⟨b, hb, y, hy, h⟩ := bind₂_eq_ok.1 h
    obtain ⟨z, hz, h⟩ := bind_eq_ok.1 h
    rw [valueOf_arithmetic op (ihl ha) hx (ihr hb) hy hz, valueToRelational_of_ofKernel h]
  | negate _ ih =>
    obtain ⟨a, ha, x, hx, h⟩ := bind₂_eq_ok.1 h
    obtain ⟨z, hz, h⟩ := bind_eq_ok.1 h
    rw [valueOf_negate (ih ha) hx hz, valueToRelational_of_ofKernel h]
  | cast target _ ih =>
    obtain ⟨a, ha, x, hx, h⟩ := bind₂_eq_ok.1 h
    obtain ⟨z, hz, h⟩ := bind_eq_ok.1 h
    rw [valueOf_cast target (ih ha) hx hz, valueToRelational_of_ofKernel h]

open MutationPredicate

variable (lib parameters schema row) in
/-- The compiled form of an expression; a constant has been folded. -/
inductive CompiledNode : Expr → RelationalNumericExpression → Prop
  | column {c : SqlColumnRef} {i : ℕ} (hi : schema.columnPosition c.name = some i) :
    CompiledNode (.column c) (.column c.name)
  | constant {e : Expr} {v : RelationalValue}
    (hv : HawDB.valueOf lib parameters schema row e = .ok v) : CompiledNode e (.value v)
  | arithmetic {left right : Expr} {l r : RelationalNumericExpression} (op : NumericBinaryOp)
    (hl : CompiledNode left l) (hr : CompiledNode right r) :
    CompiledNode (.arithmetic left op right) (.binary l op r)
  | negate {e : Expr} {n : RelationalNumericExpression} (h : CompiledNode e n) :
    CompiledNode (.negate e) (.negate n)
  | cast {e : Expr} {n : RelationalNumericExpression} (target : NumericType)
    (h : CompiledNode e n) : CompiledNode (.cast e target) (.cast n target)

lemma CompiledNode.valueOf_value (h : CompiledNode lib parameters schema row e (.value v)) :
    HawDB.valueOf lib parameters schema row e = .ok v := by
  cases h
  assumption

lemma validateMutationColumn_eq_ok
    (h : validateMutationColumn schema tableAlias table c = .ok u) :
    ∃ i, schema.columnPosition c.name = some i := by
  rw [validateMutationColumn] at h
  split_ifs at h with _ hposition
  exact ne_none_iff_exists'.1 hposition

section

variable {l r n : RelationalNumericExpression}

lemma compiledNode_of_foldBinary (hl : CompiledNode lib parameters schema row left l)
    (hr : CompiledNode lib parameters schema row right r) (h : foldBinary lib l op r = .ok n) :
    CompiledNode lib parameters schema row (.arithmetic left op right) n := by
  unfold foldBinary at h
  split at h
  · obtain ⟨x, hx, y, hy, h⟩ := bind₂_eq_ok.1 h
    obtain ⟨z, hz, v, hv, h⟩ := bind₂_eq_ok.1 h
    cases h
    refine .constant ?_
    rw [valueOf_arithmetic op hl.valueOf_value (coreValueRef_of_relationalToValue hx)
      hr.valueOf_value (coreValueRef_of_relationalToValue hy) hz, hv]
  · cases h
    exact .arithmetic op hl hr

lemma compiledNode_of_foldNegate (hl : CompiledNode lib parameters schema row e l)
    (h : foldNegate l = .ok n) : CompiledNode lib parameters schema row (.negate e) n := by
  unfold foldNegate at h
  split at h
  · obtain ⟨x, hx, z, hz, h⟩ := bind₂_eq_ok.1 h
    obtain ⟨v, hv, h⟩ := bind_eq_ok.1 h
    cases h
    refine .constant ?_
    rw [valueOf_negate hl.valueOf_value (coreValueRef_of_relationalToValue hx) hz, hv]
  · cases h
    exact .negate hl

lemma compiledNode_of_foldCast {target : NumericType}
    (hl : CompiledNode lib parameters schema row e l) (h : foldCast lib l target = .ok n) :
    CompiledNode lib parameters schema row (.cast e target) n := by
  unfold foldCast at h
  split at h
  · obtain ⟨x, hx, z, hz, h⟩ := bind₂_eq_ok.1 h
    obtain ⟨v, hv, h⟩ := bind_eq_ok.1 h
    cases h
    refine .constant ?_
    rw [valueOf_cast target hl.valueOf_value (coreValueRef_of_relationalToValue hx) hz, hv]
  · cases h
    exact .cast target hl

end

lemma compiledNode_of_compileNode
    (h : compileNode lib parameters schema tableAlias table e depth remaining = .ok (n, rest)) :
    CompiledNode lib parameters schema row e n := by
  rw [compileNode] at h
  split_ifs at h
  split at h
  · obtain ⟨_, hu, h⟩ := bind_eq_ok.1 h
    cases h
    obtain ⟨i, hi⟩ := validateMutationColumn_eq_ok hu
    exact .column hi
  · obtain ⟨x, hx, v, hv, h⟩ := bind₂_eq_ok.1 h
    cases h
    refine .constant ?_
    rw [valueOf, predicateExpression, hx, ok_bind, hv]
  · obtain ⟨⟨l, restLeft⟩, hl, ⟨r, restRight⟩, hr, h⟩ := bind₂_eq_ok.1 h
    obtain ⟨n', hn, h⟩ := bind_eq_ok.1 h
    cases h
    exact compiledNode_of_foldBinary (compiledNode_of_compileNode hl)
      (compiledNode_of_compileNode hr) hn
  · obtain ⟨⟨l, restOperand⟩, hl, n', hn, h⟩ := bind₂_eq_ok.1 h
    cases h
    exact compiledNode_of_foldNegate (compiledNode_of_compileNode hl) hn
  · obtain ⟨⟨l, restOperand⟩, hl, n', hn, h⟩ := bind₂_eq_ok.1 h
    cases h
    exact compiledNode_of_foldCast (compiledNode_of_compileNode hl) hn
  · cases h
termination_by sizeOf e

lemma compiledNode_of_compileNumeric
    (h : compileNumeric lib parameters schema tableAlias table e = .ok n) :
    CompiledNode lib parameters schema row e n := by
  obtain ⟨⟨n', rest⟩, hn, h⟩ := bind_eq_ok.1 h
  cases h
  exact compiledNode_of_compileNode hn

lemma rowValue_eq_ok (h : rowValue schema row name = .ok v) :
    ∃ i, schema.columnPosition name = some i ∧ row[i]? = some v := by
  unfold rowValue at h
  split at h
  · next w hw =>
    cases h
    exact bind_eq_some_iff.1 hw
  · cases h

lemma RowOf.column (hrow : RowOf schema row) {i : ℕ} (hv : row[i]? = some v) :
    ∃ column, schema.columns[i]? = some column ∧ column.scalarType.accepts v := by
  obtain ⟨hi, rfl⟩ := List.getElem?_eq_some_iff.1 hv
  have hi' : i < schema.columns.length := by rwa [hrow.length_eq]
  exact ⟨_, List.getElem?_eq_getElem hi', List.Forall₂.get hrow hi' hi⟩

lemma valueOf_of_rowValue (hrow : RowOf schema row) (h : rowValue schema row c.name = .ok v) :
    valueOf lib parameters schema row (.column c) = .ok v := by
  obtain ⟨i, hi, hv⟩ := rowValue_eq_ok h
  obtain ⟨column, hcolumn, -⟩ := hrow.column hv
  exact valueOf_column hi hv hcolumn

lemma CompiledNode.valueOf (hrow : RowOf schema row) {e : Expr} {n : RelationalNumericExpression}
    (hn : CompiledNode lib parameters schema row e n) {x : Value}
    (h : n.evaluateRow lib schema row = .ok x) :
    ∃ v, HawDB.valueOf lib parameters schema row e = .ok v ∧ numericRef v = .ok x := by
  induction hn generalizing x with
  | column hi =>
    obtain ⟨v, hv, h⟩ := bind_eq_ok.1 h
    exact ⟨v, valueOf_of_rowValue hrow hv, h⟩
  | constant hv => exact ⟨_, hv, h⟩
  | arithmetic op _ _ ihl ihr =>
    obtain ⟨x, hx, y, hy, h⟩ := bind₂_eq_ok.1 h
    obtain ⟨z, hz, h⟩ := bind_eq_ok.1 h
    obtain ⟨a, ha, hx⟩ := ihl hx
    obtain ⟨b, hb, hy⟩ := ihr hy
    obtain ⟨v, hv, h⟩ := exists_numericRef_of_resultRef h
    refine ⟨v, ?_, h⟩
    rw [valueOf_arithmetic op ha (coreValueRef_of_numericRef hx) hb (coreValueRef_of_numericRef hy)
      (kernelResult_eq_ok.1 hz), hv]
  | negate _ ih =>
    obtain ⟨x, hx, z, hz, h⟩ := bind₂_eq_ok.1 h
    obtain ⟨a, ha, hx⟩ := ih hx
    obtain ⟨v, hv, h⟩ := exists_numericRef_of_resultRef h
    refine ⟨v, ?_, h⟩
    rw [valueOf_negate ha (coreValueRef_of_numericRef hx) (kernelResult_eq_ok.1 hz), hv]
  | cast target _ ih =>
    obtain ⟨x, hx, z, hz, h⟩ := bind₂_eq_ok.1 h
    obtain ⟨a, ha, hx⟩ := ih hx
    obtain ⟨v, hv, h⟩ := exists_numericRef_of_resultRef h
    refine ⟨v, ?_, h⟩
    rw [valueOf_cast target ha (coreValueRef_of_numericRef hx) (kernelResult_eq_ok.1 hz), hv]

end

end HawDB
