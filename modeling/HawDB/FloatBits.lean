import Mathlib.Data.Nat.Log
import Mathlib.Tactic.Ring
import Mathlib.Tactic.Linarith

/-!
# Integers as doubles

The bits of the double nearest to an integer, ties going to the even significand. The bits of
magnitudes grow with the magnitude (`magnitudeBits_mono`), which is all that comparisons of
converted integers rest on.
-/

namespace HawDB.FloatBits

open Nat

/-- `m / 2 ^ s`, rounded to the nearest integer and to the even one of two. -/
def roundHalfEven (m s : ℕ) : ℕ :=
  if 2 ^ s < 2 * (m % 2 ^ s) ∨ (2 * (m % 2 ^ s) = 2 ^ s ∧ m / 2 ^ s % 2 = 1) then m / 2 ^ s + 1
  else m / 2 ^ s

/-- The 53 bits of the significand of `m`, whose leading bit has the weight `2 ^ e`. Rounding may
carry into a 54th bit. -/
def significand (m e : ℕ) : ℕ :=
  if e ≤ 52 then m * 2 ^ (52 - e) else roundHalfEven m (e - 52)

/-- The exponent field is one less than the biased exponent, as the leading bit of the significand
adds one to it. -/
def magnitudeBits (m : ℕ) : ℕ :=
  if m = 0 then 0 else (Nat.log 2 m + 1022) * 2 ^ 52 + significand m (Nat.log 2 m)

/-- The bits of an integer: a sign bit and the bits of its magnitude. -/
def intBits (n : ℤ) : ℕ :=
  if n < 0 then 2 ^ 63 + magnitudeBits n.natAbs else magnitudeBits n.natAbs

lemma le_roundHalfEven (m s : ℕ) : m / 2 ^ s ≤ roundHalfEven m s := by
  unfold roundHalfEven
  split_ifs <;> omega

lemma roundHalfEven_le (m s : ℕ) : roundHalfEven m s ≤ m / 2 ^ s + 1 := by
  unfold roundHalfEven
  split_ifs <;> omega

lemma roundHalfEven_mono (s : ℕ) {m m' : ℕ} (h : m ≤ m') :
    roundHalfEven m s ≤ roundHalfEven m' s := by
  rcases (Nat.div_le_div_right h : m / 2 ^ s ≤ m' / 2 ^ s).lt_or_eq with hlt | heq
  · exact (roundHalfEven_le m s).trans (hlt.trans_le (le_roundHalfEven m' s))
  have hmod : m % 2 ^ s ≤ m' % 2 ^ s := by
    have := div_add_mod m (2 ^ s)
    have := div_add_mod m' (2 ^ s)
    rw [heq] at *
    omega
  unfold roundHalfEven
  rw [heq]
  split_ifs <;> omega

lemma significand_mono (e : ℕ) {m m' : ℕ} (h : m ≤ m') : significand m e ≤ significand m' e := by
  unfold significand
  split_ifs
  · exact mul_le_mul_right _ h
  · exact roundHalfEven_mono _ h

/-- A significand has its leading bit, and no more than a carry above it. -/
theorem significand_bounds {m : ℕ} (h : m ≠ 0) :
    2 ^ 52 ≤ significand m (Nat.log 2 m) ∧ significand m (Nat.log 2 m) ≤ 2 ^ 53 := by
  have hlow : 2 ^ log 2 m ≤ m := pow_log_le_self 2 h
  have hhigh : m < 2 ^ (log 2 m + 1) := lt_pow_succ_log_self one_lt_two m
  unfold significand
  split_ifs with he
  · have hpow : 2 ^ log 2 m * 2 ^ (52 - log 2 m) = 2 ^ 52 := by
      rw [← pow_add, Nat.add_sub_cancel' he]
    refine ⟨hpow ▸ mul_le_mul_right _ hlow, ?_⟩
    calc m * 2 ^ (52 - log 2 m) ≤ 2 ^ (log 2 m + 1) * 2 ^ (52 - log 2 m) :=
          mul_le_mul_right _ hhigh.le
      _ = 2 * (2 ^ log 2 m * 2 ^ (52 - log 2 m)) := by ring
      _ = 2 ^ 53 := by rw [hpow]; norm_num
  · obtain ⟨s, hs⟩ : ∃ s, log 2 m = 52 + s := ⟨log 2 m - 52, by omega⟩
    rw [hs] at hlow hhigh ⊢
    rw [Nat.add_sub_cancel_left]
    have hdiv : m / 2 ^ s < 2 ^ 53 := Nat.div_lt_of_lt_mul (hhigh.trans_eq (by ring))
    refine ⟨le_trans ?_ (le_roundHalfEven m s), (roundHalfEven_le m s).trans hdiv⟩
    exact (le_div_iff_mul_le (by positivity)).2 (by rwa [← pow_add])

lemma magnitudeBits_mono {m m' : ℕ} (h : m ≤ m') : magnitudeBits m ≤ magnitudeBits m' := by
  unfold magnitudeBits
  rcases Nat.eq_zero_or_pos m with hm | hm
  · rw [if_pos hm]
    exact zero_le _
  rw [if_neg hm.ne', if_neg (hm.trans_le h).ne']
  rcases (log_mono_right h : log 2 m ≤ log 2 m').lt_or_eq with hlt | heq
  · have hupper := (significand_bounds hm.ne').2
    have hlower := (significand_bounds (hm.trans_le h).ne').1
    omega
  · rw [heq]
    exact Nat.add_le_add_left (significand_mono _ h) _

lemma magnitudeBits_lt {m : ℕ} (h : m < 2 ^ 64) : magnitudeBits m < 2 ^ 63 := by
  unfold magnitudeBits
  split_ifs with hm
  · norm_num
  · have hlog : log 2 m < 64 := log_lt_of_lt_pow hm h
    have hupper := (significand_bounds hm).2
    omega

example : intBits 1 = 0x3FF0000000000000 := by decide +kernel

example : intBits (-(2 ^ 53 + 1)) = intBits (-(2 ^ 53)) := by decide +kernel

end HawDB.FloatBits
