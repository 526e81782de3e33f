import HawDB.PropertyProjection
import HawDB.Proofs.Decimal
import HawDB.Proofs.ValueOrder

/-!
# The order of predicates within a kind

Index keys are ordered by `Value`'s own order, while predicates compare integers with floats and
decimals. Within one kind the two agree: what lies below a value in the order of keys also compares
below it with every bound (`exists_reading`).
-/

namespace HawDB

open FloatBits

/-! ### Integers as floats -/

lemma toNat_intAsFloat (n : Int64) : (intAsFloat n).toNat = FloatBits.intBits n.toInt := by
  have hmagnitude : magnitudeBits n.toInt.natAbs < 2 ^ 63 :=
    magnitudeBits_lt (by have := n.toInt_lt; have := n.le_toInt; omega)
  rw [intAsFloat, UInt64.toNat_ofNat_of_lt']
  unfold FloatBits.intBits
  split_ifs <;> simp only [UInt64.size] <;> omega

lemma totalOrderKey_intAsFloat (n : Int64) : totalOrderKey (intAsFloat n) =
    if n.toInt < 0 then -1 - (FloatBits.magnitudeBits n.toInt.natAbs : ℤ)
    else FloatBits.magnitudeBits n.toInt.natAbs := by
  have hmagnitude : magnitudeBits n.toInt.natAbs < 2 ^ 63 :=
    magnitudeBits_lt (by have := n.toInt_lt; have := n.le_toInt; omega)
  rw [totalOrderKey, toNat_intAsFloat, intBits]
  by_cases hneg : n.toInt < 0
  · rw [if_pos hneg, if_pos hneg, if_neg (by omega)]
    push_cast
    omega
  · rw [if_neg hneg, if_neg hneg, if_pos hmagnitude]

lemma totalOrderKey_intAsFloat_mono {a b : Int64} (h : a.toInt ≤ b.toInt) :
    totalOrderKey (intAsFloat a) ≤ totalOrderKey (intAsFloat b) := by
  rw [totalOrderKey_intAsFloat, totalOrderKey_intAsFloat]
  split_ifs with ha hb hb
  · have := magnitudeBits_mono (show b.toInt.natAbs ≤ a.toInt.natAbs by omega)
    omega
  · omega
  · omega
  · have := magnitudeBits_mono (show a.toInt.natAbs ≤ b.toInt.natAbs by omega)
    omega

lemma compare_int_isLE {a b : ℤ} : (compare a b).isLE ↔ a ≤ b := by
  rw [← not_lt, ← compare_gt_iff_gt, Ordering.isLE_iff_ne_gt]

lemma totalCmp_intAsFloat_isLE {a b : Int64} (h : (compare a b).isLE) :
    (totalCmp (intAsFloat a) (intAsFloat b)).isLE := by
  rw [compare_int64, compare_int_isLE] at h
  exact compare_int_isLE.2 (totalOrderKey_intAsFloat_mono h)

/-! ### Values of one kind -/

lemma isRangeValue_iff {v : Value} :
    isRangeValue v ↔ v.kindRank ∈ [2, 3, 4, 10, 11, 12, 13, 15] := by
  rcases v with (_ | x | x | x | x | x | x | x | x | (x | x | x | x | x)) | vs | es <;>
    simp [isRangeValue, Value.kindRank, Scalar.kindRank, TemporalValue.kind]

lemma isRangeValue_of_comparable
    (h : comparableValueOrdering v b = some o) : isRangeValue v ∧ isRangeValue b := by
  unfold comparableValueOrdering at h
  split at h <;> try exact ⟨rfl, rfl⟩
  unfold comparableOrdering at h
  split at h
  · exact ⟨rfl, rfl⟩
  · exact ⟨rfl, rfl⟩
  · exact ⟨rfl, rfl⟩
  · exact ⟨rfl, rfl⟩
  · exact nomatch h

lemma comparable_of_kindRank_eq {v b : Value} (hkind : v.kindRank = b.kindRank)
    (hrange : isRangeValue v) : comparableValueOrdering v b = some (compare v b) := by
  rcases v with (_ | x | x | x | x | x | x | x | x | (x | x | x | x | x)) | vs | es <;>
    (try (simp [isRangeValue, TemporalValue.kind] at hrange; done)) <;>
    rcases b with (_ | y | y | y | y | y | y | y | y | (y | y | y | y | y)) | ws | fs <;>
    first
    | rfl
    | simp [Value.kindRank, Scalar.kindRank] at hkind

lemma eq_of_kindRank (v : Value) : (v.kindRank = 2 → ∃ n, v = .leaf (.int n)) ∧
    (v.kindRank = 3 → ∃ f, v = .leaf (.float f)) ∧
      (v.kindRank = 15 → ∃ d, v = .leaf (.decimal d)) := by
  rcases v with (_ | x | x | x | x | x | x | x | x | (x | x | x | x | x)) | vs | es <;>
    simp [Value.kindRank, Scalar.kindRank]

lemma compare_ofInt64_isLE {a b : Int64} (h : (compare a b).isLE) :
    (compare (Decimal.ofInt64 a) (Decimal.ofInt64 b)).isLE := by
  rw [compare_int64, compare_int_isLE] at h
  rw [Decimal.compare_eq_compare_scaled, compare_int_isLE]
  exact Int.mul_le_mul_of_nonneg_right h (by positivity)

lemma exists_reading {v m b : Value} (hkind : v.kindRank = m.kindRank)
    (hm : comparableValueOrdering m b = some o) :
    ∃ (α : Type) (_ : Ord α) (_ : Std.TransOrd α) (x y z : α),
      comparableValueOrdering v b = some (compare x z) ∧ o = compare y z ∧
        ((compare v m).isLE → (compare x y).isLE) ∧ ((compare m v).isLE → (compare y x).isLE) := by
  by_cases hb : m.kindRank = b.kindRank
  · -- One kind altogether.
    have hrange := (isRangeValue_of_comparable hm).1
    rw [comparable_of_kindRank_eq hb hrange] at hm
    refine ⟨Value, inferInstance, inferInstance, v, m, b, ?_, (Option.some.inj hm).symm, id, id⟩
    exact comparable_of_kindRank_eq (hkind.trans hb)
      (isRangeValue_iff.2 (hkind ▸ isRangeValue_iff.1 hrange))
  · -- An integer with a float or a decimal, either way round.
    unfold comparableValueOrdering at hm
    split at hm
    · exact absurd rfl hb
    · rename_i d n
      obtain ⟨c, rfl⟩ := (eq_of_kindRank v).2.2 hkind
      refine ⟨Decimal, inferInstance, inferInstance, c, d, Decimal.ofInt64 n, rfl, ?_, id, id⟩
      exact (Option.some.inj hm).symm
    · rename_i n d
      obtain ⟨k, rfl⟩ := (eq_of_kindRank v).1 hkind
      refine ⟨Decimal, inferInstance, inferInstance, Decimal.ofInt64 k, Decimal.ofInt64 n, d, rfl,
        (Option.some.inj hm).symm, compare_ofInt64_isLE, compare_ofInt64_isLE⟩
    · exact absurd rfl hb
    · exact absurd rfl hb
    · rename_i n f
      obtain ⟨k, rfl⟩ := (eq_of_kindRank v).1 hkind
      exact ⟨ℤ, inferInstance, inferInstance, totalOrderKey (intAsFloat k),
        totalOrderKey (intAsFloat n), totalOrderKey f, rfl, (Option.some.inj hm).symm,
        totalCmp_intAsFloat_isLE, totalCmp_intAsFloat_isLE⟩
    · rename_i f n
      obtain ⟨g, rfl⟩ := (eq_of_kindRank v).2.1 hkind
      exact ⟨ℤ, inferInstance, inferInstance, totalOrderKey g, totalOrderKey f,
        totalOrderKey (intAsFloat n), rfl, (Option.some.inj hm).symm, id, id⟩
    · exact absurd rfl hb
    · unfold comparableOrdering at hm
      split at hm
      · exact absurd rfl hb
      · exact absurd rfl hb
      · exact absurd rfl hb
      · exact absurd rfl hb
      · exact nomatch hm

lemma comparable_congr (h : compare v w = .eq) (b : Value) :
    comparableValueOrdering v b = comparableValueOrdering w b := by
  have hkind : v.kindRank = w.kindRank := by
    by_contra hne
    have hcmp : compare v w = compare v.kindRank w.kindRank := Value.cmp_of_kindRank_ne hne
    exact hne (Std.LawfulEqOrd.eq_of_compare (hcmp.symm.trans h))
  have hsome : ∀ {v w o}, compare v w = .eq → v.kindRank = w.kindRank →
      comparableValueOrdering w b = some o → comparableValueOrdering v b = some o := by
    intro v w o h hkind ho
    obtain ⟨α, _, _, x, y, z, hx, rfl, hxy, hyx⟩ := exists_reading hkind ho
    have heq : compare x y = .eq :=
      Std.OrientedCmp.isLE_antisymm (hxy (h ▸ rfl)) (hyx (Std.OrientedCmp.eq_comm.1 h ▸ rfl))
    rw [hx, Std.TransCmp.congr_left heq]
  cases hw : comparableValueOrdering w b with
  | some o => exact hsome h hkind hw
  | none =>
    cases hv : comparableValueOrdering v b with
    | none => rfl
    | some o =>
      rw [hsome (Std.OrientedCmp.eq_comm.1 h) hkind.symm hv] at hw
      exact nomatch hw

lemma rangeBoundsMatch_congr (h : compare v w = .eq) (lower upper : Option (Value × Bool)) :
    rangeBoundsMatch v lower upper = rangeBoundsMatch w lower upper := by
  have hlower : meetsLower v lower = meetsLower w lower := by
    rcases lower with _ | ⟨b, inclusive⟩
    · rfl
    · rw [meetsLower, meetsLower, comparable_congr h]
  have hupper : meetsUpper v upper = meetsUpper w upper := by
    rcases upper with _ | ⟨b, inclusive⟩
    · rfl
    · rw [meetsUpper, meetsUpper, comparable_congr h]
  rw [rangeBoundsMatch, rangeBoundsMatch, hlower, hupper]

end HawDB
