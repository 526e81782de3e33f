import HawDB.DecimalArithmetic
import HawDB.Proofs.Decimal

/-!
# Decimal arithmetic is exact

A result that is too long loses its trailing zeros, and once it has none no decimal of its value is
shorter (`le_of_div_eq`). A quotient is rounded from the fraction itself at every scale that is
tried, and the scales that are not tried are too long already (`lt_natAbs_roundedAt`).
-/

namespace HawDB

namespace Decimal

/-- Success is the exact value, and failure an overflow that no decimal of that value avoids. -/
def IsExact (x : ℚ) : Except DecimalError Decimal → Prop
  | .ok d => d.value = x
  | .error e => e = .overflow ∧ ∀ d : Decimal, d.value ≠ x

lemma isExact_new {c : ℤ} (h : c.natAbs ≤ maxCoefficient ∧ s ≤ 38) :
    IsExact (c / 10 ^ s) (new c s) := by
  simp [new, h, IsExact, value]

lemma isExact_exact : ∀ (c : ℤ) (s : ℕ), IsExact (c / 10 ^ s) (exact c s)
  | c, 0 => by
    unfold exact
    by_cases h : c.natAbs ≤ maxCoefficient
    · exact isExact_new ⟨h, by omega⟩
    · simp only [new, h, false_and, dite_false, IsExact, true_and]
      exact fun d hd => h ((le_of_div_eq hd (.inl rfl)).2.trans d.coefficient_le)
  | c, s + 1 => by
    unfold exact
    split_ifs with h h10
    · refine ⟨rfl, fun d hd => ?_⟩
      have hle := le_of_div_eq hd (.inr fun hdvd => h10 (Int.tmod_eq_zero_of_dvd hdvd))
      have hmax : d.coefficient.natAbs ≤ maxCoefficient := d.coefficient_le
      have hscale := d.scale_le
      omega
    · obtain ⟨q, rfl⟩ := Int.dvd_of_tmod_eq_zero (not_not.1 h10)
      have ih := isExact_exact q s
      rw [Int.mul_tdiv_cancel_left q (by decide)]
      rwa [← ten_mul_div] at ih
    · exact isExact_new (by omega)

/-- A function of magnitudes, extended to the negative numbers by reflection. -/
def oddly (f : ℚ → ℤ) (x : ℚ) : ℤ := if 0 ≤ x then f x else -f (-x)

/-- The integer part. -/
def truncate : ℚ → ℤ := oddly Int.floor

/-- The nearest integer, and at a midpoint the one away from zero. -/
def roundHalfAway : ℚ → ℤ := oddly round

def roundedAt (x : ℚ) (s : ℕ) : ℤ := roundHalfAway (x * 10 ^ s)

lemma oddly_neg {f : ℚ → ℤ} (hf : f 0 = 0) (x : ℚ) : oddly f (-x) = -oddly f x := by
  rcases lt_trichotomy x 0 with h | rfl | h
  · simp [oddly, h.le, not_le.2 h]
  · simp [oddly, hf]
  · simp [oddly, h.le, not_le.2 h]

lemma oddly_div {f : ℚ → ℤ} (hf : f 0 = 0) (p d : ℤ) :
    oddly f (p / d) = p.sign * d.sign * f (p.natAbs / d.natAbs) := by
  have hnat (m n : ℕ) : oddly f (m / n) = (m : ℤ).sign * (n : ℤ).sign * f (m / n) := by
    rw [oddly, if_pos (by positivity)]
    rcases m.eq_zero_or_pos with rfl | hm
    · simp [hf]
    · rcases n.eq_zero_or_pos with rfl | hn
      · simp [hf]
      · simp [Int.sign_eq_one_of_pos, hm, hn]
  obtain ⟨m, rfl | rfl⟩ := p.eq_nat_or_neg <;> obtain ⟨n, rfl | rfl⟩ := d.eq_nat_or_neg <;>
    simp [neg_div, div_neg, oddly_neg hf, hnat]

lemma tdiv_eq_sign_mul (p d : ℤ) : p.tdiv d = p.sign * d.sign * (p.natAbs / d.natAbs : ℕ) := by
  rw [← Int.sign_mul_natAbs (p.tdiv d), Int.sign_tdiv, Int.natAbs_tdiv]
  split_ifs with h
  · simp [Nat.div_eq_of_lt h]
  · rfl

lemma truncate_div (p d : ℤ) : truncate (p / d) = p.tdiv d := by
  rw [truncate, oddly_div Int.floor_zero, Rat.floor_natCast_div_natCast, tdiv_eq_sign_mul]
  rfl

lemma round_div (m : ℕ) {n : ℕ} (hn : 0 < n) :
    round (m / n : ℚ) = (m / n + if n ≤ m % n * 2 then 1 else 0 : ℕ) := by
  have hmod := Nat.div_add_mod m n
  have hlt := Nat.mod_lt m hn
  have hsum : (m / n + 1 / 2 : ℚ) = (2 * m + n : ℕ) / (2 * n : ℕ) := by
    push_cast
    field_simp
  rw [round_eq, hsum, Rat.floor_natCast_div_natCast, ← Int.natCast_div, Nat.cast_inj,
    Nat.div_eq_iff (by omega)]
  have hmul : m / n * (2 * n) = 2 * (n * (m / n)) := by ring
  split_ifs
  · rw [add_mul, hmul]
    omega
  · rw [add_zero, hmul]
    omega

lemma roundedQuotient_eq (p : ℤ) {d : ℤ} (hd : d ≠ 0) (s : ℕ) :
    roundedQuotient p d s = (p * 10 ^ s).sign * d.sign *
      ((p * 10 ^ s).natAbs / d.natAbs +
        if d.natAbs ≤ (p * 10 ^ s).natAbs % d.natAbs * 2 then 1 else 0 : ℕ) := by
  unfold roundedQuotient
  generalize p * 10 ^ s = n
  simp only [Int.natAbs_tmod]
  split_ifs with h hsign
  · have hone : n.sign * d.sign = 1 := by
      rcases lt_or_gt_of_ne hd with hd | hd <;>
        simp [hsign, Int.sign_eq_one_of_pos, Int.sign_eq_neg_one_of_neg, hd]
    rw [tdiv_eq_sign_mul, hone]
    simp
  · have hn : n ≠ 0 := by
      rintro rfl
      simp [hd] at h
    have hone : n.sign * d.sign = -1 := by
      rcases lt_or_gt_of_ne hn with hn | hn <;> rcases lt_or_gt_of_ne hd with hd | hd <;>
        simp_all [Int.sign_eq_one_of_pos, Int.sign_eq_neg_one_of_neg]
    rw [tdiv_eq_sign_mul, hone]
    push_cast
    ring
  · rw [tdiv_eq_sign_mul, add_zero]

lemma roundedQuotient_eq_roundedAt (p : ℤ) {d : ℤ} (hd : d ≠ 0) (s : ℕ) :
    roundedQuotient p d s = roundedAt (p / d) s := by
  have hdiv : (p / d * 10 ^ s : ℚ) = (p * 10 ^ s : ℤ) / d := by
    push_cast
    ring
  rw [roundedQuotient_eq p hd, roundedAt, hdiv, roundHalfAway, oddly_div round_zero,
    round_div _ (Int.natAbs_pos.2 hd)]

/-- No scale above `s` has room for its coefficient. -/
def NoneAbove (f : ℕ → ℤ) (s : ℕ) : Prop := ∀ t ≤ 38, s < t → maxCoefficient < (f t).natAbs

lemma NoneAbove.of_succ (hab : NoneAbove f (s + 1))
    (h : ¬(f (s + 1)).natAbs ≤ maxCoefficient) : NoneAbove f s := by
  intro t ht hlt
  rcases (Nat.succ_le_of_lt hlt).eq_or_lt with rfl | hlt
  · exact not_le.1 h
  · exact hab t ht hlt

/-- Success is the rounded coefficient of the largest scale where it fits, and failure an overflow
at every scale. -/
def IsRounded (x : ℚ) : Except DecimalError Decimal → Prop
  | .ok d => d.coefficient = roundedAt x d.scale ∧ NoneAbove (roundedAt x) d.scale
  | .error e => e = .overflow ∧ ∀ s ≤ 38, maxCoefficient < (roundedAt x s).natAbs

lemma isRounded_new (h : (roundedAt x s).natAbs ≤ maxCoefficient) (hs : s ≤ 38)
    (hab : NoneAbove (roundedAt x) s) : IsRounded x (new (roundedAt x s) s) := by
  rw [new, dif_pos ⟨h, hs⟩]
  exact ⟨rfl, hab⟩

lemma isRounded_divLoop (p : ℤ) {d : ℤ} (hd : d ≠ 0) : ∀ s ≤ 38,
    NoneAbove (roundedAt (p / d)) s → IsRounded (p / d) (divLoop p d s)
  | 0, hs, hab => by
    simp only [divLoop, roundedQuotient_eq_roundedAt p hd]
    split_ifs with h
    · exact isRounded_new h hs hab
    refine ⟨rfl, fun t ht => ?_⟩
    rcases t.eq_zero_or_pos with rfl | hpos
    · exact not_le.1 h
    · exact hab t ht hpos
  | s + 1, hs, hab => by
    simp only [divLoop, roundedQuotient_eq_roundedAt p hd]
    split_ifs with h
    · exact isRounded_new h hs hab
    · exact isRounded_divLoop p hd s (by omega) (hab.of_succ h)

/-- A quotient of so many digits before the point leaves room for no larger scale. -/
theorem lt_natAbs_roundedAt (p : ℤ) (hd : d ≠ 0)
    (hi : (p.tdiv d).natAbs = integral) (hk : 10 ^ k ≤ integral) (ht : 38 ≤ k + t) :
    maxCoefficient < (roundedAt (p / d) t).natAbs := by
  subst hi
  have hp : p ≠ 0 := by
    rintro rfl
    simp at hk
  have hle : (p.tdiv d).natAbs * 10 ^ t ≤ (p * 10 ^ t).natAbs / d.natAbs := by
    rw [Int.natAbs_tdiv, Int.natAbs_mul, Int.natAbs_pow]
    rw [mul_comm, mul_comm p.natAbs]
    exact Nat.mul_div_le_mul_div_assoc ..
  have hpow : 10 ^ 38 ≤ (p.tdiv d).natAbs * 10 ^ t :=
    (Nat.pow_le_pow_right (by decide) ht).trans (by rw [pow_add]; gcongr)
  rw [← roundedQuotient_eq_roundedAt p hd, roundedQuotient_eq p hd, Int.natAbs_mul,
    Int.natAbs_mul, Int.natAbs_sign_of_ne_zero (by positivity), Int.natAbs_sign_of_ne_zero hd,
    Int.natAbs_natCast]
  unfold maxCoefficient
  omega

lemma isRounded_checkedDiv (a : Decimal) {b : Decimal} (hb : b.coefficient ≠ 0) :
    IsRounded (a.value / b.value) (a.checkedDiv b) := by
  have hd : b.coefficient * 10 ^ a.scale ≠ 0 := mul_ne_zero hb (by positivity)
  have hq : a.value / b.value =
      (a.coefficient * 10 ^ b.scale : ℤ) / (b.coefficient * 10 ^ a.scale : ℤ) := by
    unfold value
    push_cast
    rw [div_div_div_eq]
    ring
  simp only [checkedDiv, hb, if_false, hq]
  generalize hintegral :
    ((a.coefficient * 10 ^ b.scale).tdiv (b.coefficient * 10 ^ a.scale)).natAbs = integral
  by_cases h0 : integral = 0
  · simp only [h0, if_true, Nat.not_lt_zero, if_false, Nat.sub_zero]
    exact isRounded_divLoop _ hd 38 le_rfl fun t ht hlt => by omega
  have hlen : 10 ^ ((Nat.toDigits 10 integral).length - 1) ≤ integral := by
    by_contra hlt
    have hpos := Nat.length_toDigits_pos (b := 10) (n := integral)
    by_cases hone : (Nat.toDigits 10 integral).length = 1
    · simp [hone] at hlt
      omega
    · have hle := (Nat.length_toDigits_le_iff (by decide) (by omega)).2 (not_le.1 hlt)
      omega
  have habove {t : ℕ} (ht : 38 < (Nat.toDigits 10 integral).length + t) :=
    lt_natAbs_roundedAt _ hd (t := t) hintegral hlen (by omega)
  simp only [h0, if_false]
  split_ifs with hdigits
  · exact ⟨rfl, fun t ht => habove (by omega)⟩
  · exact isRounded_divLoop _ hd _ (by omega) fun t ht hlt => habove (by omega)

lemma isExact_checkedAdd (a b : Decimal) : IsExact (a.value + b.value) (a.checkedAdd b) := by
  unfold checkedAdd aligned
  rw [a.value_eq_shift (le_max_left a.scale b.scale),
    b.value_eq_shift (le_max_right a.scale b.scale), ← add_div, ← Int.cast_add]
  exact isExact_exact ..

lemma isExact_checkedRem (a : Decimal) {b : Decimal} (hb : b.coefficient ≠ 0) :
    IsExact (a.value - b.value * truncate (a.value / b.value)) (a.checkedRem b) := by
  unfold checkedRem aligned
  rw [if_neg hb, a.value_eq_shift (le_max_left a.scale b.scale),
    b.value_eq_shift (le_max_right a.scale b.scale), div_div_div_cancel_right₀ (by positivity),
    truncate_div, div_mul_eq_mul_div, ← sub_div, ← Int.cast_mul, ← Int.cast_sub, ← Int.tmod_def]
  exact isExact_exact ..

theorem arithmetic_exact (a b : Decimal) :
    IsExact (a.value + b.value) (a.checkedAdd b) ∧
    IsExact (a.value - b.value) (a.checkedSub b) ∧
    IsExact (a.value * b.value) (a.checkedMul b) ∧
    if b.value = 0 then
      a.checkedRem b = .error .divisionByZero ∧ a.checkedDiv b = .error .divisionByZero
    else
      IsExact (a.value - b.value * truncate (a.value / b.value)) (a.checkedRem b) ∧
      IsRounded (a.value / b.value) (a.checkedDiv b) := by
  refine ⟨isExact_checkedAdd a b, ?_, ?_, ?_⟩
  · have hneg : b.checkedNeg.value = -b.value := by simp [checkedNeg, value, neg_div]
    rw [sub_eq_add_neg, ← hneg]
    exact isExact_checkedAdd a b.checkedNeg
  · have hmul : a.value * b.value =
        (a.coefficient * b.coefficient : ℤ) / 10 ^ (a.scale + b.scale) := by
      rw [value, value, div_mul_div_comm, pow_add]
      push_cast
      rfl
    rw [hmul]
    exact isExact_exact ..
  · have hzero : b.value = 0 ↔ b.coefficient = 0 := by simp [value]
    simp only [hzero]
    split_ifs with hb
    · simp [checkedRem, checkedDiv, hb]
    · exact ⟨isExact_checkedRem a hb, isRounded_checkedDiv a hb⟩

/-! ## The next value -/

lemma tdiv_ten_sub (n : ℤ) : n.tdiv 10 - (if n < 0 ∧ n.tmod 10 ≠ 0 then 1 else 0) = n / 10 := by
  rw [Int.tdiv_eq_ediv, Int.tmod_eq_emod, show Int.sign 10 = 1 from rfl]
  split_ifs <;> omega

lemma natAbs_scaled_le (d : Decimal) : d.scaled.natAbs ≤ maxCoefficient * 10 ^ 76 := by
  rw [scaled, Int.natAbs_mul, Int.natAbs_pow]
  exact Nat.mul_le_mul d.coefficient_le (Nat.pow_le_pow_right (by decide) (by omega))

/-- The least value above that of a decimal, or none for the greatest one. -/
def IsNextUp (d : Decimal) : Option Decimal → Prop
  | some u => d.value < u.value ∧ ∀ e : Decimal, d.value < e.value → u.value ≤ e.value
  | none => ∀ e : Decimal, e.value ≤ d.value

variable {d : Decimal}

/-- The coefficient of the next multiple above the value. -/
def candidate (d : Decimal) (s : ℕ) : ℤ := d.scaled / 10 ^ (76 - s) + 1

lemma candidate_le_of_lt {low : ℤ} {k : ℕ} (h : low < m * 10 ^ k) :
    (low / 10 ^ k + 1) * 10 ^ k ≤ m * 10 ^ k :=
  Int.mul_le_mul_of_nonneg_right (Int.ediv_lt_of_lt_mul (by positivity) h) (by positivity)

lemma lt_candidate (low : ℤ) (k : ℕ) : low < (low / 10 ^ k + 1) * 10 ^ k :=
  Int.lt_ediv_add_one_mul_self low (by positivity)

lemma candidate_le (hs : s ≤ 38) (hab : NoneAbove d.candidate s) {e : Decimal}
    (he : d.scaled < e.scaled) : d.candidate s * 10 ^ (76 - s) ≤ e.scaled := by
  have hscale := e.scale_le
  unfold candidate
  generalize hlow : d.scaled = low at he
  rw [scaled] at he ⊢
  by_cases hle : e.scale ≤ s
  · have hexp : e.coefficient * 10 ^ (76 - e.scale) =
        e.coefficient * 10 ^ (s - e.scale) * 10 ^ (76 - s) := by
      rw [mul_assoc, ← pow_add]
      congr 2
      omega
    rw [hexp] at he ⊢
    exact candidate_le_of_lt he
  · -- at this larger scale the next multiple is too long, so the value is below all of its values
    have hcandidate := Int.ediv_lt_of_lt_mul (by positivity) he
    have hlong := hab e.scale hscale (by omega)
    have hc := e.natAbs_coefficient_lt
    rw [candidate, hlow, maxCoefficient] at hlong
    have hexp : (-10 ^ 38 : ℤ) * 10 ^ (76 - e.scale) =
        -10 ^ (38 + s - e.scale) * 10 ^ (76 - s) := by
      rw [neg_mul, neg_mul, ← pow_add, ← pow_add]
      congr 2
      omega
    have hless : low < -10 ^ (38 + s - e.scale) * 10 ^ (76 - s) := by
      rw [← hexp]
      exact (lt_candidate low _).trans_le
        (Int.mul_le_mul_of_nonneg_right (by omega) (by positivity))
    refine (candidate_le_of_lt hless).trans ?_
    rw [← hexp]
    exact Int.mul_le_mul_of_nonneg_right (by omega) (by positivity)

lemma isNextUp_new (hs : s ≤ 38) (hab : NoneAbove d.candidate s)
    (h : (d.candidate s).natAbs ≤ maxCoefficient) :
    d.IsNextUp (new (d.candidate s) s).toOption := by
  rw [new, dif_pos ⟨h, hs⟩]
  refine ⟨value_lt_value.2 (lt_candidate _ _), fun e he => ?_⟩
  rw [← not_lt, value_lt_value, not_lt]
  exact candidate_le hs hab (value_lt_value.1 he)

lemma isNextUp_nextUpLoop : ∀ s ≤ 38, NoneAbove d.candidate s →
    d.IsNextUp (nextUpLoop s (d.scaled / 10 ^ (76 - s)))
  | 0, hs, hab => by
    unfold nextUpLoop
    split_ifs with h
    · exact isNextUp_new hs hab h
    intro e
    by_contra he
    have hle := candidate_le hs hab (value_lt_value.1 (not_le.1 he))
    have hlt := lt_candidate d.scaled 76
    have hlow := d.natAbs_scaled_le
    have hmax := e.natAbs_scaled_le
    unfold candidate at hle
    unfold maxCoefficient at h hlow hmax
    omega
  | s + 1, hs, hab => by
    unfold nextUpLoop
    rw [tdiv_ten_sub]
    split_ifs with h
    · exact isNextUp_new hs hab h
    have hdiv : d.scaled / 10 ^ (76 - (s + 1)) / 10 = d.scaled / 10 ^ (76 - s) := by
      rw [Int.ediv_ediv_of_nonneg (by positivity), ← pow_succ]
      congr 2
      omega
    rw [hdiv]
    exact isNextUp_nextUpLoop s (by omega) (hab.of_succ h)

theorem isNextUp_nextUp (d : Decimal) : d.IsNextUp d.nextUp := by
  have hexp : 76 - d.scale = 38 - d.scale + 38 := by
    have := d.scale_le
    omega
  have hstart : d.coefficient * 10 ^ (38 - d.scale) = d.scaled / 10 ^ (76 - 38) := by
    rw [scaled, hexp, pow_add, ← mul_assoc, Int.mul_ediv_cancel _ (by positivity)]
  rw [nextUp, hstart]
  exact isNextUp_nextUpLoop 38 le_rfl fun t ht hlt => by omega

end Decimal

end HawDB
