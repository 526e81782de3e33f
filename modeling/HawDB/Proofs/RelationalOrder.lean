import HawDB.RelationalValue

/-!
# Relational keys are lawfully ordered

`cmpSameKind` alone is no order: it calls values of different kinds equal. Read together with the
kind it is the order of a list of integers (`ordKey`), so the comparison of values, and with it the
lexicographic one of keys, is lawful (`transOrd_relationalValue`).
-/

namespace HawDB

lemma compare_int64 (a b : Int64) : compare a b = compare a.toInt b.toInt := by
  simp only [compare, compareOfLessAndEq, Int64.lt_iff_toInt_lt, ← Int64.toInt_inj]

lemma compare_uint64 (a b : UInt64) : compare a b = compare a.toNat b.toNat := by
  simp only [compare, compareOfLessAndEq, UInt64.lt_iff_toNat_lt, ← UInt64.toNat_inj]

lemma compare_uint32 (a b : UInt32) : compare a b = compare a.toNat b.toNat := by
  simp only [compare, compareOfLessAndEq, UInt32.lt_iff_toNat_lt, ← UInt32.toNat_inj]

lemma compare_natCast (a b : ℕ) : compare (a : ℤ) (b : ℤ) = compare a b := by
  simp only [compare, compareOfLessAndEq, Int.ofNat_lt, Nat.cast_inj]

section

variable {α β : Type*} [Ord α] [Ord β]

@[simp] lemma compare_nil_nil : compare ([] : List α) [] = .eq := rfl

lemma compare_cons (a b : α) (l l' : List α) :
    compare (a :: l) (b :: l') = (compare a b).then (compare l l') := by
  show List.compareLex compare (a :: l) (b :: l') = _
  rw [List.compareLex_cons_cons]
  rfl

lemma compare_append_of_length_eq : ∀ {x y : List α} (s t : List α), x.length = y.length →
    compare (x ++ s) (y ++ t) = (compare x y).then (compare s t)
  | [], [], _, _, _ => rfl
  | a :: x, b :: y, s, t, h => by
    rw [List.cons_append, List.cons_append, compare_cons, compare_cons,
      compare_append_of_length_eq s t (by simpa using h), Ordering.then_assoc]

lemma compare_map_of_pullback {f : α → β} (h : ∀ a b, compare (f a) (f b) = compare a b) :
    ∀ x y : List α, compare (x.map f) (y.map f) = compare x y
  | [], [] => rfl
  | [], _ :: _ => rfl
  | _ :: _, [] => rfl
  | a :: x, b :: y => by
    rw [List.map_cons, List.map_cons, compare_cons, compare_cons, h, compare_map_of_pullback h x y]

end

def byteInts (b : Bytes) : List ℤ := b.map fun d => (d.toNat : ℤ)

lemma compare_byteInts (a b : Bytes) : compare (byteInts a) (byteInts b) = compare a b :=
  compare_map_of_pullback (fun x y => by rw [compare_natCast, ← compare_uint8]) a b

/-- A scalar type as its place in the enumeration and its two parameters, 0 for one it lacks. -/
def RelationalScalarType.ordKey : RelationalScalarType → List ℤ
  | boolean => [0, 0, 0]
  | bigInt => [1, 0, 0]
  | doublePrecision => [2, 0, 0]
  | decimal precision scale => [3, precision.toNat, scale.toNat]
  | text => [4, 0, 0]
  | bytea => [5, 0, 0]
  | uuid => [6, 0, 0]
  | vector dimension => [7, dimension.toNat, 0]
  | timestamp precision => [8, precision.toNat, 0]
  | timestampTz precision => [9, precision.toNat, 0]

lemma RelationalScalarType.compare_ordKey (a b : RelationalScalarType) :
    compare a b = compare a.ordKey b.ordKey := by
  cases a <;> cases b <;> try rfl
  all_goals simp only [ordKey, compare_cons, compare_natCast, ← compare_uint8, ← compare_uint32,
    Std.ReflCmp.compare_self, Ordering.eq_then]
  all_goals rfl

lemma RelationalScalarType.length_ordKey (a : RelationalScalarType) : a.ordKey.length = 3 := by
  cases a <;> rfl

/-- The fields of an overflow reference, in order. -/
def RelationalOverflowRef.ordKey (r : RelationalOverflowRef) : List ℤ :=
  byteInts r.digest.1 ++
    (r.scalarType.ordKey ++ [(r.compressedBytes.toNat : ℤ), (r.uncompressedBytes.toNat : ℤ)])

lemma RelationalOverflowRef.cmp_ordKey (a b : RelationalOverflowRef) :
    a.cmp b = compare a.ordKey b.ordKey := by
  have hl : (byteInts a.digest.1).length = (byteInts b.digest.1).length := by
    simp [byteInts, a.digest.2, b.digest.2]
  have hl' : a.scalarType.ordKey.length = b.scalarType.ordKey.length := by
    rw [RelationalScalarType.length_ordKey, RelationalScalarType.length_ordKey]
  unfold ordKey cmp
  rw [compare_append_of_length_eq _ _ hl, compare_append_of_length_eq _ _ hl', compare_byteInts,
    ← RelationalScalarType.compare_ordKey, compare_cons, compare_cons, compare_natCast,
    compare_natCast, ← compare_uint64, ← compare_uint64, compare_nil_nil, Ordering.then_eq]

namespace RelationalValue

/-- What a value compares by within its kind. -/
def payloadKey : RelationalValue → List ℤ
  | null => []
  | boolean value => [if value then 1 else 0]
  | bigInt value => [value.toInt]
  | decimal value => byteInts value.toOrderedBytes
  | doublePrecision bits => [totalOrderKey bits]
  | text value => byteInts (utf8 value)
  | bytea value => byteInts value
  | vector encoded => byteInts encoded
  | uuid value => byteInts value.1
  | overflow reference => reference.ordKey
  | timestamp micros => [micros.toInt]
  | timestampTz micros => [micros.toInt]

lemma cmpSameKind_payloadKey {a b : RelationalValue} (h : a.kindRank = b.kindRank) :
    a.cmpSameKind b = compare a.payloadKey b.payloadKey := by
  cases a <;> cases b <;> try (simp [kindRank] at h; done)
  case boolean.boolean x y => cases x <;> cases y <;> rfl
  all_goals simp only [cmpSameKind, payloadKey, compare_byteInts, compare_cons, compare_int64,
    totalCmp, RelationalOverflowRef.cmp_ordKey, compare_nil_nil, Ordering.then_eq]
  all_goals rfl

def ordKey (v : RelationalValue) : List ℤ := (v.kindRank.toNat : ℤ) :: v.payloadKey

lemma compare_ordKey (a b : RelationalValue) : compare a b = compare a.ordKey b.ordKey := by
  show (compare a.kindRank b.kindRank).then (a.cmpSameKind b) = _
  unfold ordKey
  rw [compare_cons, compare_natCast, ← compare_uint8]
  rcases h : compare a.kindRank b.kindRank
  · rfl
  · rw [cmpSameKind_payloadKey (Std.LawfulEqOrd.eq_of_compare h)]
  · rfl

end RelationalValue

instance transOrd_relationalValue : Std.TransOrd RelationalValue :=
  transOrd_of_pullback RelationalValue.ordKey RelationalValue.compare_ordKey

instance transOrd_decimal : Std.TransOrd Decimal :=
  transOrd_of_pullback Decimal.toOrderedBytes fun _ _ => rfl

end HawDB
