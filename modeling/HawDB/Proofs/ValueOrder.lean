import HawDB.Proofs.RelationalOrder
import HawDB.ValueOrder

/-!
# Graph values are lawfully ordered

A value is written as a list of integers that no other value's list starts, so that values compare
as their lists do, whatever follows them (`compare_ordCode_append`). The order of values is
therefore lawful (`transOrd_value`), and a null is equal to nulls only (`Value.eq_null`).
-/

namespace HawDB

open List

/-- Integers that end before their own length can tell: bytes shifted up, then a zero. -/
def bytesCode (b : Bytes) : List ℤ := b.map (fun d => (d.toNat : ℤ) + 1) ++ [0]

lemma compare_succ_natCast (a b : ℕ) : compare ((a : ℤ) + 1) ((b : ℤ) + 1) = compare a b := by
  rw [show (a : ℤ) + 1 = ((a + 1 : ℕ) : ℤ) by push_cast; rfl,
    show (b : ℤ) + 1 = ((b + 1 : ℕ) : ℤ) by push_cast; rfl, compare_natCast]
  simp only [compare, compareOfLessAndEq, Nat.add_lt_add_iff_right, Nat.add_right_cancel_iff]

lemma compare_bytesCode_append : ∀ a b s t,
    compare (bytesCode a ++ s) (bytesCode b ++ t) = (compare a b).then (compare s t)
  | [], [], s, t => by
    show compare (0 :: s) (0 :: t) = _
    rw [compare_cons]
    rfl
  | [], d :: b, s, t => by
    show compare (0 :: s) (((d.toNat : ℤ) + 1) :: _) = _
    rw [compare_cons, compare_lt_iff_lt.2 (by omega)]
    rfl
  | d :: a, [], s, t => by
    show compare (((d.toNat : ℤ) + 1) :: _) (0 :: t) = _
    rw [compare_cons, compare_gt_iff_gt.2 (by omega)]
    rfl
  | d :: a, e :: b, s, t => by
    show compare (((d.toNat : ℤ) + 1) :: (bytesCode a ++ s)) (((e.toNat : ℤ) + 1) ::
      (bytesCode b ++ t)) = _
    rw [compare_cons, compare_bytesCode_append a b, compare_cons, Ordering.then_assoc,
      compare_succ_natCast, ← compare_uint8]

section

lemma compare_naiveDate (a b : NaiveDate) : compare a b = compare a.days b.days := rfl

lemma compare_naiveTime (a b : NaiveTime) :
    compare a b = (compare a.secs b.secs).then (compare a.frac b.frac) := rfl

lemma compare_naiveDateTime (a b : NaiveDateTime) :
    compare a b = (compare a.date b.date).then (compare a.time b.time) := rfl

lemma compare_zonedDateTime (a b : ZonedDateTime) :
    compare a b = (compare a.utc b.utc).then (compare a.offset b.offset) := rfl

lemma compare_duration (a b : Duration) : compare a b = (compare a.months b.months).then
    ((compare a.days b.days).then (compare a.time.nanos b.time.nanos)) := rfl

end

namespace Scalar

/-- What a scalar compares by within its kind. -/
def payloadCode : Scalar → List ℤ
  | null => []
  | bool value => [if value then 1 else 0]
  | int value => [value.toInt]
  | decimal value => bytesCode value.toOrderedBytes
  | float bits => [totalOrderKey bits]
  | string value => bytesCode (utf8 value)
  | binary value => bytesCode value
  | vector value => bytesCode value.encoded
  | uuid value => bytesCode value.1
  | temporal (.date value) => [value.days]
  | temporal (.localTime value) => [(value.secs : ℤ), (value.frac : ℤ)]
  | temporal (.localDateTime value) =>
    [value.date.days, (value.time.secs : ℤ), (value.time.frac : ℤ)]
  | temporal (.dateTime value) =>
    [value.utc.date.days, (value.utc.time.secs : ℤ), (value.utc.time.frac : ℤ), value.offset]
  | temporal (.duration value) => [value.months.toInt, value.days.toInt, value.time.nanos]

lemma compare_payloadCode_append {a b : Scalar} (h : a.kindRank = b.kindRank) (s t : List ℤ) :
    compare (a.payloadCode ++ s) (b.payloadCode ++ t) = (a.cmpSameKind b).then (compare s t) := by
  rcases a with _ | x | x | x | x | x | x | x | x | (x | x | x | x | x) <;>
    rcases b with _ | y | y | y | y | y | y | y | y | (y | y | y | y | y) <;>
    try (simp [kindRank] at h; done)
  case bool.bool => cases x <;> cases y <;> rfl
  all_goals simp only [cmpSameKind, payloadCode, compare_bytesCode_append, cons_append,
    nil_append, compare_cons, compare_int64, totalCmp, compare_natCast, compare_naiveDate,
    compare_naiveTime, compare_naiveDateTime, compare_zonedDateTime, compare_duration,
    Ordering.then_assoc, Ordering.eq_then]
  all_goals rfl

def ordCode (a : Scalar) : List ℤ := (a.kindRank : ℤ) :: a.payloadCode

lemma compare_ordCode_append (a b : Scalar) (s t : List ℤ) :
    compare (a.ordCode ++ s) (b.ordCode ++ t) =
      ((compare a.kindRank b.kindRank).then (a.cmpSameKind b)).then (compare s t) := by
  rw [ordCode, ordCode, cons_append, cons_append, compare_cons, compare_natCast,
    Ordering.then_assoc]
  rcases h : compare a.kindRank b.kindRank
  · rfl
  · rw [compare_payloadCode_append (Std.LawfulEqOrd.eq_of_compare h)]
  · rfl

lemma kindRank_ne (a : Scalar) : a.kindRank ≠ 7 ∧ a.kindRank ≠ 8 := by
  rcases a with _ | x | x | x | x | x | x | x | x | (x | x | x | x | x) <;>
    exact ⟨by simp [kindRank], by simp [kindRank]⟩

end Scalar

namespace Value

mutual

/-- What a value compares by: a one before every item and a zero after the last. -/
def ordCode : Value → List ℤ
  | .leaf a => a.ordCode
  | .list vs => 7 :: ordCodeItems vs
  | .map es => 8 :: ordCodeEntries es

def ordCodeItems : List Value → List ℤ
  | [] => [0]
  | v :: vs => 1 :: (ordCode v ++ ordCodeItems vs)

def ordCodeEntries : List (String × Value) → List ℤ
  | [] => [0]
  | (key, v) :: es => 1 :: (bytesCode (utf8 key) ++ (ordCode v ++ ordCodeEntries es))

end

lemma exists_ordCode_eq_cons (a : Value) : ∃ l, a.ordCode = (a.kindRank : ℤ) :: l := by
  cases a with
  | leaf a => exact ⟨a.payloadCode, by rw [ordCode, Scalar.ordCode, kindRank]⟩
  | list vs => exact ⟨ordCodeItems vs, by rw [ordCode, kindRank]; rfl⟩
  | map es => exact ⟨ordCodeEntries es, by rw [ordCode, kindRank]; rfl⟩

lemma cmp_of_kindRank_ne {a b : Value} (h : a.kindRank ≠ b.kindRank) :
    cmp a b = compare a.kindRank b.kindRank := by
  cases a with
  | leaf a =>
    cases b with
    | leaf b =>
      have hne : compare a.kindRank b.kindRank ≠ .eq := fun heq =>
        h (Std.LawfulEqOrd.eq_of_compare heq)
      rw [cmp, kindRank, kindRank]
      revert hne
      cases compare a.kindRank b.kindRank <;> simp
    | list | map => simp [cmp]
  | list vs =>
    cases b with
    | list => exact absurd rfl h
    | leaf | map => simp [cmp]
  | map es =>
    cases b with
    | map => exact absurd rfl h
    | leaf | list => simp [cmp]

lemma compare_ordCode_of_kindRank_ne {a b : Value} (h : a.kindRank ≠ b.kindRank)
    (s t : List ℤ) : compare (ordCode a ++ s) (ordCode b ++ t) = (cmp a b).then (compare s t) := by
  have hne : compare a.kindRank b.kindRank ≠ .eq := fun heq =>
    h (Std.LawfulEqOrd.eq_of_compare heq)
  obtain ⟨l, hl⟩ := exists_ordCode_eq_cons a
  obtain ⟨m, hm⟩ := exists_ordCode_eq_cons b
  rw [hl, hm, cons_append, cons_append, compare_cons, compare_natCast, cmp_of_kindRank_ne h]
  revert hne
  cases compare a.kindRank b.kindRank <;> simp

mutual

theorem compare_ordCode_append : ∀ a b s t,
    compare (ordCode a ++ s) (ordCode b ++ t) = (cmp a b).then (compare s t)
  | .leaf a, .leaf b, s, t => by
    rw [ordCode, ordCode, Scalar.compare_ordCode_append, cmp]
  | .list as, .list bs, s, t => by
    rw [ordCode, ordCode, cons_append, cons_append, compare_cons,
      compare_ordCodeItems_append as bs, cmp]
    rfl
  | .map as, .map bs, s, t => by
    rw [ordCode, ordCode, cons_append, cons_append, compare_cons,
      compare_ordCodeEntries_append as bs, cmp]
    rfl
  | .leaf a, .list bs, s, t =>
    compare_ordCode_of_kindRank_ne (a := .leaf a) (b := .list bs) a.kindRank_ne.1 s t
  | .leaf a, .map bs, s, t =>
    compare_ordCode_of_kindRank_ne (a := .leaf a) (b := .map bs) a.kindRank_ne.2 s t
  | .list as, .leaf b, s, t =>
    compare_ordCode_of_kindRank_ne (a := .list as) (b := .leaf b) b.kindRank_ne.1.symm s t
  | .map as, .leaf b, s, t =>
    compare_ordCode_of_kindRank_ne (a := .map as) (b := .leaf b) b.kindRank_ne.2.symm s t
  | .list as, .map bs, s, t => compare_ordCode_of_kindRank_ne (by simp [kindRank]) s t
  | .map as, .list bs, s, t => compare_ordCode_of_kindRank_ne (by simp [kindRank]) s t

theorem compare_ordCodeItems_append : ∀ as bs s t,
    compare (ordCodeItems as ++ s) (ordCodeItems bs ++ t) = (cmpItems as bs).then (compare s t)
  | [], [], s, t => by
    rw [ordCodeItems, cmpItems, cons_append, cons_append, compare_cons]
    rfl
  | [], b :: bs, s, t => by
    rw [ordCodeItems, ordCodeItems, cmpItems]
    rfl
  | a :: as, [], s, t => by
    rw [ordCodeItems, ordCodeItems, cmpItems]
    rfl
  | a :: as, b :: bs, s, t => by
    rw [ordCodeItems, ordCodeItems, cmpItems, cons_append, cons_append, compare_cons,
      append_assoc, append_assoc, compare_ordCode_append a b,
      compare_ordCodeItems_append as bs, Ordering.then_assoc]
    rfl

theorem compare_ordCodeEntries_append : ∀ (as bs : List (String × Value)) (s t : List ℤ),
    compare (ordCodeEntries as ++ s) (ordCodeEntries bs ++ t) =
      (cmpEntries as bs).then (compare s t)
  | [], [], s, t => by
    rw [ordCodeEntries, cmpEntries, cons_append, cons_append, compare_cons]
    rfl
  | [], (_, b) :: bs, s, t => by
    rw [ordCodeEntries, ordCodeEntries, cmpEntries]
    rfl
  | (_, a) :: as, [], s, t => by
    rw [ordCodeEntries, ordCodeEntries, cmpEntries]
    rfl
  | (key, a) :: as, (key', b) :: bs, s, t => by
    rw [ordCodeEntries, ordCodeEntries, cmpEntries, cons_append, cons_append, compare_cons]
    simp only [append_assoc]
    rw [compare_bytesCode_append, compare_ordCode_append a b, compare_ordCodeEntries_append as bs,
      Ordering.then_assoc, Ordering.then_assoc]
    rfl

end

end Value

instance transOrd_value : Std.TransOrd Value :=
  transOrd_of_pullback Value.ordCode fun a b => by
    have h := Value.compare_ordCode_append a b [] []
    rw [List.append_nil, List.append_nil, compare_nil_nil, Ordering.then_eq] at h
    exact h.symm

namespace Value

lemma eq_iff {a b : Value} : a.eq b ↔ compare a b = .eq := decide_eq_true_iff

lemma eq_comm (a b : Value) : a.eq b = b.eq a :=
  Bool.eq_iff_iff.2 (eq_iff.trans (Std.OrientedCmp.eq_comm.trans eq_iff.symm))

@[simp]
lemma eq_self (a : Value) : a.eq a := eq_iff.2 Std.ReflOrd.compare_self

lemma kindRank_eq_of_eq {a b : Value} (h : compare a b = .eq) : a.kindRank = b.kindRank := by
  by_contra hne
  have hcmp := cmp_of_kindRank_ne hne
  rw [show cmp a b = .eq from h] at hcmp
  exact hne (Std.LawfulEqOrd.eq_of_compare hcmp.symm)

lemma eq_null {a : Value} : a.eq (.leaf .null) ↔ a = .leaf .null := by
  constructor
  · intro h
    have hrank : a.kindRank = 0 := kindRank_eq_of_eq (eq_iff.1 h)
    rcases a with (_ | x | x | x | x | x | x | x | x | (x | x | x | x | x)) | vs | es
    · rfl
    all_goals simp [kindRank, Scalar.kindRank] at hrank
  · rintro rfl
    exact eq_self _

end Value

end HawDB
