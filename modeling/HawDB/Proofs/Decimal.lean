import HawDB.Decimal

/-!
# Decimals compare as numbers

The ordered bytes of a decimal hold an exponent and the digits of its coefficient, shifted to the
left end. That is its value in scientific form, so the bytes compare as the values do
(`Decimal.compare_eq_compare_value`), and decoding them gives a decimal of the same value
(`Decimal.fromOrderedBytes_toOrderedBytes`).
-/

namespace HawDB

open List

namespace Decimal

/-- How many decimal digits a number below `10 ^ slots` has. -/
def digitCount : ℕ → ℕ → ℕ
  | 0, _ => 0
  | slots + 1, value => if value = 0 then 0 else digitCount slots (value / 10) + 1

lemma digitCount_le : ∀ slots value, digitCount slots value ≤ slots
  | 0, _ => le_rfl
  | slots + 1, value => by
    unfold digitCount
    split_ifs
    · exact Nat.zero_le _
    · exact Nat.succ_le_succ (digitCount_le slots _)

lemma div_ten_lt {slots value : ℕ} (h : value < 10 ^ (slots + 1)) : value / 10 < 10 ^ slots :=
  Nat.div_lt_of_lt_mul (by rwa [pow_succ, mul_comm] at h)

lemma pow_digitCount_le : ∀ {slots value}, value < 10 ^ slots → value ≠ 0 →
    10 ^ digitCount slots value ≤ value * 10
  | 0, value, h, hzero => absurd (by simpa using h) hzero
  | slots + 1, value, h, hzero => by
    rw [digitCount, if_neg hzero, pow_succ]
    by_cases hten : value / 10 = 0
    · have : digitCount slots (value / 10) = 0 := by
        cases slots <;> simp [digitCount, hten]
      rw [this]
      omega
    · have ih := pow_digitCount_le (div_ten_lt h) hten
      omega

lemma digitLoop_spec : ∀ {slots value digits}, value < 10 ^ slots →
    (∀ d ∈ digits, d.toNat < 10) →
    (digitLoop slots value digits).length = digitCount slots value + digits.length ∧
      beValue 10 (digitLoop slots value digits) = value * 10 ^ digits.length + beValue 10 digits ∧
      ∀ d ∈ digitLoop slots value digits, d.toNat < 10
  | 0, value, digits, h, hdigits => by
    obtain rfl : value = 0 := by simpa using h
    simpa [digitLoop, digitCount] using hdigits
  | slots + 1, value, digits, h, hdigits => by
    unfold digitLoop digitCount
    split_ifs with hzero
    · simpa [hzero] using hdigits
    have hdigit : (UInt8.ofNat (value % 10)).toNat = value % 10 := by
      rw [UInt8.toNat_ofNat']
      omega
    have hcons : ∀ d ∈ UInt8.ofNat (value % 10) :: digits, d.toNat < 10 := by
      intro d hd
      rcases mem_cons.1 hd with rfl | hd
      · rw [hdigit]
        exact Nat.mod_lt _ (by decide)
      · exact hdigits d hd
    obtain ⟨hlength, hvalue, hlt⟩ := digitLoop_spec (div_ten_lt h) hcons
    refine ⟨by rw [hlength, length_cons]; omega, ?_, hlt⟩
    rw [hvalue, beValue_cons, hdigit, length_cons, pow_succ]
    have := Nat.div_add_mod value 10
    calc value / 10 * (10 ^ digits.length * 10)
          + (value % 10 * 10 ^ digits.length + beValue 10 digits)
        = (10 * (value / 10) + value % 10) * 10 ^ digits.length + beValue 10 digits := by ring
      _ = value * 10 ^ digits.length + beValue 10 digits := by rw [this]

/-- An exponent and 38 digits, the first of which is not zero, that stand for a number. -/
structure IsScientific (body : Bytes) (exponent mantissa : ℕ) : Prop where
  exists_digits : ∃ digits, body = UInt8.ofNat exponent :: digits ∧ digits.length = 38 ∧
    (∀ d ∈ digits, d.toNat < 10) ∧ beValue 10 digits = mantissa
  exponent_pos : 1 ≤ exponent
  exponent_le : exponent ≤ 76
  le_mantissa : 10 ^ 37 ≤ mantissa

lemma IsScientific.mantissa_lt (h : IsScientific body e m) : m < 10 ^ 38 := by
  obtain ⟨digits, -, hlength, hlt, rfl⟩ := h.exists_digits
  have := beValue_lt digits hlt
  rwa [hlength] at this

lemma mul_pow_lt_of_exponent_lt (hm : m < 10 ^ 38) (hm' : 10 ^ 37 ≤ m')
    (h : e < e') : m * 10 ^ e < m' * 10 ^ e' := by
  calc m * 10 ^ e < 10 ^ 38 * 10 ^ e := Nat.mul_lt_mul_of_pos_right hm (Nat.pow_pos (by decide))
    _ = 10 ^ 37 * 10 ^ (e + 1) := by rw [pow_succ 10 e]; ring
    _ ≤ 10 ^ 37 * 10 ^ e' := Nat.mul_le_mul_left _ (Nat.pow_le_pow_right (by decide) h)
    _ ≤ m' * 10 ^ e' := Nat.mul_le_mul_right _ hm'

lemma IsScientific.compare_eq (h : IsScientific x e m)
    (h' : IsScientific y e' m') : compare x y = compare (m * 10 ^ e) (m' * 10 ^ e') := by
  have hm := h.mantissa_lt
  have hm' := h'.mantissa_lt
  have he := h.exponent_le
  have he' := h'.exponent_le
  obtain ⟨digits, rfl, hlength, hlt, rfl⟩ := h.exists_digits
  obtain ⟨digits', rfl, hlength', hlt', rfl⟩ := h'.exists_digits
  rw [List.compare_cons_cons, compare_uint8, UInt8.toNat_ofNat', UInt8.toNat_ofNat',
    Nat.mod_eq_of_lt (by omega), Nat.mod_eq_of_lt (by omega),
    compare_of_digits (by decide) (by decide) hlt hlt' (hlength.trans hlength'.symm)]
  rcases Nat.lt_trichotomy e e' with hee | rfl | hee
  · rw [Nat.compare_eq_lt.2 hee, Ordering.lt_then,
      Nat.compare_eq_lt.2 (mul_pow_lt_of_exponent_lt hm h'.le_mantissa hee)]
  · rw [Nat.compare_eq_eq.2 rfl, Ordering.eq_then]
    have hpos : 0 < 10 ^ e := Nat.pow_pos (by decide)
    rcases Nat.lt_trichotomy (beValue 10 digits) (beValue 10 digits') with hlt | heq | hgt
    · rw [Nat.compare_eq_lt.2 hlt, Nat.compare_eq_lt.2 (Nat.mul_lt_mul_of_pos_right hlt hpos)]
    · rw [heq, Nat.compare_eq_eq.2 rfl, Nat.compare_eq_eq.2 rfl]
    · rw [Nat.compare_eq_gt.2 hgt, Nat.compare_eq_gt.2 (Nat.mul_lt_mul_of_pos_right hgt hpos)]
  · rw [Nat.compare_eq_gt.2 hee, Ordering.gt_then,
      Nat.compare_eq_gt.2 (mul_pow_lt_of_exponent_lt hm' h.le_mantissa hee)]

variable (d : Decimal)

def count : ℕ := digitCount 38 d.coefficient.natAbs

def exponent : ℕ := d.count + 38 - d.scale

/-- The digits of the scientific form, as a number. -/
def mantissa : ℕ := d.coefficient.natAbs * 10 ^ (38 - d.count)

/-- The value, in units of the least one there is. -/
def scaled : ℤ := d.coefficient * 10 ^ (76 - d.scale)

variable {d}

lemma natAbs_coefficient_lt (d : Decimal) : d.coefficient.natAbs < 10 ^ 38 :=
  Nat.lt_of_le_pred (by decide) d.coefficient_le

lemma count_le (d : Decimal) : d.count ≤ 38 := digitCount_le 38 _

lemma isScientific_orderedBody (h : d.coefficient ≠ 0) :
    IsScientific d.orderedBody d.exponent d.mantissa := by
  have hlt := natAbs_coefficient_lt d
  have hzero : d.coefficient.natAbs ≠ 0 := Int.natAbs_ne_zero.2 h
  have hcount := count_le d
  have hscale := d.scale_le
  have hpos : 1 ≤ d.count := by
    unfold count digitCount
    rw [if_neg hzero]
    omega
  obtain ⟨hlength, hvalue, hdigits⟩ :=
    digitLoop_spec hlt (fun e he => absurd he (not_mem_nil (a := e)))
  rw [length_nil, add_zero] at hlength
  rw [length_nil, pow_zero, mul_one, beValue_nil, add_zero] at hvalue
  have hzeros : beValue 10 (replicate (38 - d.count) 0) = 0 := by
    induction 38 - d.count with
    | zero => rfl
    | succ n ih => rw [replicate_succ, beValue_cons, ih]; simp
  refine ⟨⟨digitLoop 38 d.coefficient.natAbs [] ++ replicate (38 - d.count) 0, ?_, ?_, ?_, ?_⟩,
    ?_, ?_, ?_⟩
  · show UInt8.ofNat _ :: _ = _
    rw [hlength]
    rfl
  · rw [length_append, hlength, length_replicate]
    exact Nat.add_sub_of_le hcount
  · intro e he
    rcases mem_append.1 he with he | he
    · exact hdigits e he
    · rw [eq_of_mem_replicate he]
      decide
  · rw [beValue_append, hvalue, hzeros, length_replicate]
    rfl
  · unfold exponent
    omega
  · unfold exponent
    omega
  · have hle : 10 ^ d.count ≤ d.coefficient.natAbs * 10 := pow_digitCount_le hlt hzero
    have hmul := Nat.mul_le_mul_right (10 ^ (38 - d.count)) hle
    rw [← pow_add, Nat.add_sub_of_le hcount] at hmul
    have heq : d.coefficient.natAbs * 10 * 10 ^ (38 - d.count) = d.mantissa * 10 := by
      unfold mantissa
      ring
    omega

lemma mantissa_mul_pow_exponent (d : Decimal) :
    d.mantissa * 10 ^ d.exponent = d.scaled.natAbs := by
  have hcount := count_le d
  have hscale := d.scale_le
  have hexp : 38 - d.count + (d.count + 38 - d.scale) = 76 - d.scale := by omega
  unfold mantissa exponent scaled
  rw [mul_assoc, ← pow_add, hexp, Int.natAbs_mul, Int.natAbs_pow]
  rfl

lemma pos_pow (d : Decimal) : (0 : ℤ) < 10 ^ (76 - d.scale) := pow_pos (by decide) _

lemma compare_natAbs_of_pos {x y : ℤ} (hx : 0 < x) (hy : 0 < y) :
    compare x.natAbs y.natAbs = compare x y :=
  compare_eq_compare (by omega) (by omega)

lemma compare_natAbs_of_neg {x y : ℤ} (hx : x < 0) (hy : y < 0) :
    compare y.natAbs x.natAbs = compare x y :=
  compare_eq_compare (by omega) (by omega)

lemma compare_orderedBody {a b : Decimal} (ha : a.coefficient ≠ 0) (hb : b.coefficient ≠ 0) :
    compare a.orderedBody b.orderedBody = compare a.scaled.natAbs b.scaled.natAbs := by
  rw [(isScientific_orderedBody ha).compare_eq (isScientific_orderedBody hb),
    mantissa_mul_pow_exponent, mantissa_mul_pow_exponent]

lemma length_orderedBody (h : d.coefficient ≠ 0) : d.orderedBody.length = 39 := by
  obtain ⟨digits, hbody, hlength, -⟩ := (isScientific_orderedBody h).exists_digits
  rw [hbody, length_cons, hlength]

lemma toOrderedBytes_cases (d : Decimal) :
    (d.coefficient < 0 ∧ d.scaled < 0 ∧ d.toOrderedBytes = 0 :: d.orderedBody.map (~~~ ·)) ∨
      (d.coefficient = 0 ∧ d.scaled = 0 ∧ d.toOrderedBytes = 1 :: replicate 39 0) ∨
      (0 < d.coefficient ∧ 0 < d.scaled ∧ d.toOrderedBytes = 2 :: d.orderedBody) := by
  rcases lt_trichotomy d.coefficient 0 with h | h | h
  · exact .inl ⟨h, mul_neg_of_neg_of_pos h (pos_pow d), by
      rw [toOrderedBytes, if_neg h.ne, if_pos h]⟩
  · exact .inr (.inl ⟨h, by rw [scaled, h, zero_mul], by rw [toOrderedBytes, if_pos h]⟩)
  · exact .inr (.inr ⟨h, mul_pos h (pos_pow d), by
      rw [toOrderedBytes, if_neg h.ne', if_neg h.not_gt]⟩)

lemma length_toOrderedBytes (d : Decimal) : d.toOrderedBytes.length = 40 := by
  rcases toOrderedBytes_cases d with ⟨h, -, hd⟩ | ⟨-, -, hd⟩ | ⟨h, -, hd⟩
  · rw [hd, length_cons, length_map, length_orderedBody h.ne]
  · rw [hd, length_cons, length_replicate]
  · rw [hd, length_cons, length_orderedBody h.ne']

lemma compare_eq_compare_scaled (a b : Decimal) : compare a b = compare a.scaled b.scaled := by
  show compare a.toOrderedBytes b.toOrderedBytes = _
  rcases toOrderedBytes_cases a with ⟨ha, hsa, ha'⟩ | ⟨ha, hsa, ha'⟩ | ⟨ha, hsa, ha'⟩ <;>
    rcases toOrderedBytes_cases b with ⟨hb, hsb, hb'⟩ | ⟨hb, hsb, hb'⟩ | ⟨hb, hsb, hb'⟩ <;>
    rw [ha', hb', List.compare_cons_cons]
  · rw [show compare (0 : UInt8) 0 = .eq from rfl, Ordering.eq_then, compare_map_not _ _ (by
      rw [length_orderedBody ha.ne, length_orderedBody hb.ne]), compare_orderedBody hb.ne ha.ne,
      compare_natAbs_of_neg hsa hsb]
  · exact (compare_lt_iff_lt.2 (by omega)).symm
  · exact (compare_lt_iff_lt.2 (by omega)).symm
  · exact (compare_gt_iff_gt.2 (by omega)).symm
  · rw [hsa, hsb]
    simp
  · exact (compare_lt_iff_lt.2 (by omega)).symm
  · exact (compare_gt_iff_gt.2 (by omega)).symm
  · exact (compare_gt_iff_gt.2 (by omega)).symm
  · rw [show compare (2 : UInt8) 2 = .eq from rfl, Ordering.eq_then,
      compare_orderedBody ha.ne' hb.ne', compare_natAbs_of_pos hsa hsb]

lemma value_eq_shift (d : Decimal) (h : d.scale ≤ s) :
    d.value = (d.coefficient * 10 ^ (s - d.scale) : ℤ) / 10 ^ s := by
  unfold value
  push_cast
  rw [div_eq_div_iff (by positivity) (by positivity), mul_assoc, ← pow_add, Nat.sub_add_cancel h]

lemma value_eq_scaled (d : Decimal) : d.value = d.scaled / 10 ^ 76 :=
  d.value_eq_shift (by have := d.scale_le; omega)

lemma value_lt_value {a b : Decimal} : a.value < b.value ↔ a.scaled < b.scaled := by
  rw [value_eq_scaled, value_eq_scaled, div_lt_div_iff_of_pos_right (by positivity), Int.cast_lt]

lemma compare_eq_compare_value (a b : Decimal) : compare a b = compare a.value b.value := by
  rw [compare_eq_compare_scaled]
  exact compare_eq_compare value_lt_value.symm value_lt_value.symm

lemma stripLoop_eq : ∀ c scale, (stripLoop c scale).2 ≤ scale ∧
    c = (stripLoop c scale).1 * 10 ^ (scale - (stripLoop c scale).2)
  | c, 0 => by simp [stripLoop]
  | c, scale + 1 => by
    unfold stripLoop
    split_ifs with h
    · obtain ⟨q, rfl⟩ : (10 : ℤ) ∣ c := Int.dvd_of_tmod_eq_zero h.2
      obtain ⟨hle, heq⟩ := stripLoop_eq q scale
      rw [Int.mul_tdiv_cancel_left q (by decide), Nat.succ_sub hle, pow_succ]
      refine ⟨by omega, ?_⟩
      calc 10 * q = 10 * ((stripLoop q scale).1 * 10 ^ (scale - (stripLoop q scale).2)) := by
            rw [← heq]
        _ = _ := by ring
    · exact ⟨le_rfl, by simp⟩

/-- The loop strips zeros until the scale is in range, which as many zeros as that takes allow. -/
theorem stripLoop_le : ∀ {c scale k}, (10 : ℤ) ^ k ∣ c → scale ≤ 38 + k →
    (stripLoop c scale).2 ≤ 38
  | c, 0, k, _, _ => by simp [stripLoop]
  | c, scale + 1, k, hdvd, hle => by
    unfold stripLoop
    split_ifs with h
    · obtain ⟨k', rfl⟩ : ∃ k', k = k' + 1 := ⟨k - 1, by omega⟩
      obtain ⟨q, rfl⟩ : (10 : ℤ) ∣ c := Int.dvd_of_tmod_eq_zero h.2
      have hdvd' : (10 : ℤ) ^ k' ∣ q := by
        rw [pow_succ, mul_comm] at hdvd
        exact Int.dvd_of_mul_dvd_mul_left (by decide) hdvd
      rw [Int.mul_tdiv_cancel_left q (by decide)]
      exact stripLoop_le hdvd' (by omega)
    · by_contra hgt
      refine h ⟨by omega, ?_⟩
      obtain ⟨k', rfl⟩ : ∃ k', k = k' + 1 := ⟨k - 1, by omega⟩
      exact Int.tmod_eq_zero_of_dvd ((dvd_pow_self 10 (by omega)).trans hdvd)

/-- What the loop keeps, in units of the least value there is. -/
theorem stripLoop_mul_pow (c : ℤ) (he : e ≤ 76) :
    (stripLoop c (76 - e)).1 * 10 ^ (76 - (stripLoop c (76 - e)).2) = c * 10 ^ e := by
  obtain ⟨hle, heq⟩ := stripLoop_eq c (76 - e)
  have hexp : 76 - (stripLoop c (76 - e)).2 = 76 - e - (stripLoop c (76 - e)).2 + e := by omega
  rw [hexp, pow_add, ← mul_assoc, ← heq]

lemma fromOrderedBody_spec (h : IsScientific body e m)
    (hdvd : 10 ^ k ∣ m) (hk : 76 - e ≤ 38 + k) (negative : Bool) :
    ∃ d, fromOrderedBody negative body = .ok d ∧
      d.scaled = (if negative then -(m : ℤ) else m) * 10 ^ e := by
  have hm := h.mantissa_lt
  have hpos := h.exponent_pos
  have hle := h.exponent_le
  have hfirst := h.le_mantissa
  obtain ⟨digits, rfl, hlength, hdigits, rfl⟩ := h.exists_digits
  have he : (UInt8.ofNat e).toNat = e := by
    rw [UInt8.toNat_ofNat']
    omega
  have hhead : digits.head? ≠ some 0 := by
    intro hhead
    obtain ⟨rest, rfl⟩ : ∃ rest, digits = 0 :: rest := by
      cases digits with
      | nil => cases hhead
      | cons first rest => exact ⟨rest, by rw [Option.some_inj.1 hhead]⟩
    have hrest := beValue_lt rest fun d hd => hdigits d (mem_cons_of_mem _ hd)
    rw [beValue_cons] at hfirst
    rw [show rest.length = 37 by simpa using hlength] at hrest hfirst
    simp at hfirst
    omega
  have hany : digits.any (fun byte => 9 < byte.toNat) = false := by
    rw [any_eq_false]
    intro byte hbyte
    simpa using Nat.le_of_lt_succ (hdigits byte hbyte)
  generalize hc : (if negative then -(beValue 10 digits : ℤ) else beValue 10 digits) = c
  have hdvd' : (10 : ℤ) ^ k ∣ c := by
    have : (10 : ℤ) ^ k ∣ (beValue 10 digits : ℤ) := by exact_mod_cast hdvd
    rw [← hc]
    split_ifs
    · exact (dvd_neg).2 this
    · exact this
  have hlt : c.natAbs < 10 ^ 38 := by
    rw [← hc]
    split_ifs <;> simpa using hm
  obtain ⟨hle', heq⟩ := stripLoop_eq c (76 - e)
  have hnew : (stripLoop c (76 - e)).1.natAbs ≤ maxCoefficient ∧ (stripLoop c (76 - e)).2 ≤ 38 := by
    refine ⟨?_, stripLoop_le hdvd' hk⟩
    have habs := congrArg Int.natAbs heq
    rw [Int.natAbs_mul, Int.natAbs_pow] at habs
    have hone : 1 ≤ 10 ^ (76 - e - (stripLoop c (76 - e)).2) := Nat.one_le_pow _ _ (by decide)
    have : (stripLoop c (76 - e)).1.natAbs ≤ c.natAbs := by
      rw [habs]
      exact Nat.le_mul_of_pos_right _ hone
    unfold maxCoefficient
    omega
  refine ⟨⟨(stripLoop c (76 - e)).1, (stripLoop c (76 - e)).2, hnew.1, hnew.2⟩, ?_, ?_⟩
  · rw [fromOrderedBody, he, if_neg (by
      rintro (hlt | hgt | hzero | hbig)
      · omega
      · omega
      · exact hhead hzero
      · rw [hany] at hbig
        cases hbig)]
    dsimp only
    rw [hc, new, dif_pos hnew]
  · exact stripLoop_mul_pow c hle

lemma map_not_not (l : Bytes) : (l.map (~~~ ·)).map (~~~ ·) = l := by
  rw [map_map]
  exact (map_congr_left fun b _ => UInt8.not_not).trans l.map_id

lemma fromOrderedBytes_toOrderedBytes (d : Decimal) :
    ∃ d', fromOrderedBytes d.toOrderedBytes = .ok d' ∧ compare d' d = .eq := by
  have hcount := count_le d
  have hscale := d.scale_le
  have hdvd : 10 ^ (38 - d.count) ∣ d.mantissa := Dvd.intro_left _ rfl
  have hk : 76 - d.exponent ≤ 38 + (38 - d.count) := by
    unfold exponent
    omega
  have hmul := mantissa_mul_pow_exponent d
  rcases toOrderedBytes_cases d with ⟨hd, hsd, hbytes⟩ | ⟨hd, hsd, hbytes⟩ | ⟨hd, hsd, hbytes⟩
  · obtain ⟨d', hd', hscaled⟩ := fromOrderedBody_spec (isScientific_orderedBody hd.ne) hdvd hk true
    refine ⟨d', ?_, ?_⟩
    · rw [hbytes, fromOrderedBytes, if_pos rfl, map_not_not, hd']
    · rw [compare_eq_compare_scaled, compare_eq_iff_eq, hscaled, if_pos rfl, neg_mul]
      have : (d.mantissa : ℤ) * 10 ^ d.exponent = d.scaled.natAbs := by exact_mod_cast hmul
      omega
  · refine ⟨zero, ?_, ?_⟩
    · rw [hbytes, fromOrderedBytes, if_neg (by decide), if_pos ⟨rfl, by decide⟩]
    · rw [compare_eq_compare_scaled, compare_eq_iff_eq, hsd]
      rfl
  · obtain ⟨d', hd', hscaled⟩ :=
      fromOrderedBody_spec (isScientific_orderedBody hd.ne') hdvd hk false
    refine ⟨d', ?_, ?_⟩
    · rw [hbytes, fromOrderedBytes, if_neg (by decide), if_neg (fun h => absurd h.1 (by decide)),
        if_pos rfl, hd']
    · rw [compare_eq_compare_scaled, compare_eq_iff_eq, hscaled, if_neg (by decide)]
      have : (d.mantissa : ℤ) * 10 ^ d.exponent = d.scaled.natAbs := by exact_mod_cast hmul
      omega

lemma of_fromOrderedBody {body : Bytes} {d : Decimal} (hlength : body.length = 39)
    (h : fromOrderedBody negative body = .ok d) :
    ∃ e m, IsScientific body e m ∧ d.scaled = (if negative then -(m : ℤ) else m) * 10 ^ e := by
  obtain ⟨exponent, first, digits, rfl⟩ : ∃ a b l, body = a :: b :: l := by
    match body, hlength with
    | a :: b :: l, _ => exact ⟨a, b, l, rfl⟩
  have hdigits : digits.length = 37 := by simpa using hlength
  rw [fromOrderedBody] at h
  split at h
  · cases h
  rename_i hbad
  simp only [head?_cons, Option.some_inj, any_eq_true, decide_eq_true_eq] at hbad
  push Not at hbad
  obtain ⟨hpos, hle, hfirst, hten⟩ := hbad
  have hne : first.toNat ≠ 0 := fun hz => hfirst (UInt8.toNat_inj.1 hz)
  refine ⟨exponent.toNat, beValue 10 (first :: digits), ⟨⟨first :: digits, ?_, ?_,
    fun e he => Nat.lt_succ_of_le (hten e he), rfl⟩, hpos, hle, ?_⟩, ?_⟩
  · rw [UInt8.ofNat_toNat]
  · simpa using hdigits
  · rw [beValue_cons, hdigits]
    exact (Nat.le_mul_of_pos_left _ (by omega)).trans (Nat.le_add_right _ _)
  · rw [← stripLoop_mul_pow _ hle]
    dsimp only at h
    generalize (if negative = true then _ else _ : ℤ) = c at h ⊢
    unfold new at h
    split_ifs at h
    cases h
    rfl

lemma toOrderedBytes_of_fromOrderedBytes {bytes : Bytes} {d : Decimal} (hlength : bytes.length = 40)
    (h : fromOrderedBytes bytes = .ok d) : d.toOrderedBytes = bytes := by
  have hbody : ∀ {negative body}, body.length = 39 →
      fromOrderedBody negative body = .ok d →
      d.orderedBody = body ∧ if negative then d.scaled < 0 else 0 < d.scaled := by
    intro negative body hlength h
    obtain ⟨e, m, hbody, hscaled⟩ := of_fromOrderedBody hlength h
    have hm : 0 < m * 10 ^ e :=
      Nat.mul_pos (lt_of_lt_of_le (by decide) hbody.le_mantissa) (Nat.pow_pos (by decide))
    have habs : d.scaled.natAbs = m * 10 ^ e := by
      rw [hscaled, Int.natAbs_mul, Int.natAbs_pow]
      cases negative <;> simp
    have hzero : d.coefficient ≠ 0 := by
      intro hzero
      rw [scaled, hzero, zero_mul] at habs
      exact absurd habs hm.ne
    refine ⟨Std.LawfulEqOrd.eq_of_compare ?_, ?_⟩
    · rw [(isScientific_orderedBody hzero).compare_eq hbody, mantissa_mul_pow_exponent, habs]
      exact Std.ReflCmp.compare_self
    · rw [hscaled]
      have : (0 : ℤ) < m * 10 ^ e := by exact_mod_cast hm
      cases negative <;> simpa using this
  cases bytes with
  | nil => cases h
  | cons sign rest =>
    have hrest : rest.length = 39 := by simpa using hlength
    rw [fromOrderedBytes] at h
    split_ifs at h with hneg hzero hpos
    · obtain ⟨hd, hlt⟩ := hbody (by simpa using hrest) h
      rcases toOrderedBytes_cases d with ⟨-, -, hbytes⟩ | ⟨-, hs, -⟩ | ⟨-, hs, -⟩
      · rw [hbytes, hd, map_not_not, hneg]
      all_goals simp only [if_true] at hlt; omega
    · cases h
      have : rest = replicate 39 0 := eq_replicate_iff.2 ⟨hrest, by simpa using hzero.2⟩
      rw [this, hzero.1]
      rfl
    · obtain ⟨hd, hlt⟩ := hbody hrest h
      rcases toOrderedBytes_cases d with ⟨-, hs, -⟩ | ⟨-, hs, -⟩ | ⟨-, -, hbytes⟩
      · simp only [Bool.false_eq_true, if_false] at hlt; omega
      · simp only [Bool.false_eq_true, if_false] at hlt; omega
      · rw [hbytes, hd, hpos]

/-! ## Equality -/

lemma ten_mul_div (q : ℤ) (s : ℕ) : ((10 * q : ℤ) / 10 ^ (s + 1) : ℚ) = q / 10 ^ s := by
  push_cast
  rw [pow_succ, mul_comm (10 : ℚ) q, mul_div_mul_right _ _ (by norm_num)]

/-- No pair of the same value is shorter than one that has no trailing zeros. -/
theorem le_of_div_eq {c c' : ℤ} (h : (c' / 10 ^ s' : ℚ) = c / 10 ^ s) (hs : s = 0 ∨ ¬10 ∣ c) :
    s ≤ s' ∧ c.natAbs ≤ c'.natAbs := by
  have heq : c' * 10 ^ s = c * 10 ^ s' := by
    rw [div_eq_div_iff (by positivity) (by positivity)] at h
    exact_mod_cast h
  by_cases hle : s ≤ s'
  · obtain ⟨k, rfl⟩ := Nat.exists_eq_add_of_le hle
    have hc : c' = c * 10 ^ k :=
      mul_right_cancel₀ (pow_ne_zero s (by decide : (10 : ℤ) ≠ 0)) (by rw [heq]; ring)
    rw [hc, Int.natAbs_mul]
    exact ⟨hle, Nat.le_mul_of_pos_right _ (Int.natAbs_pos.2 (by positivity))⟩
  · obtain ⟨k, rfl⟩ : ∃ k, s = s' + k + 1 := ⟨s - s' - 1, by omega⟩
    have hc : c = 10 * (c' * 10 ^ k) :=
      mul_right_cancel₀ (pow_ne_zero s' (by decide : (10 : ℤ) ≠ 0)) (by rw [← heq]; ring)
    exact absurd (Dvd.intro _ hc.symm) (hs.resolve_left (by omega))

lemma normalizedLoop_spec : ∀ c s,
    ((normalizedLoop c s).1 / 10 ^ (normalizedLoop c s).2 : ℚ) = c / 10 ^ s ∧
      ((normalizedLoop c s).2 = 0 ∨ ¬10 ∣ (normalizedLoop c s).1)
  | c, 0 => by simp [normalizedLoop]
  | c, s + 1 => by
    unfold normalizedLoop
    split_ifs with h
    · obtain ⟨q, rfl⟩ := Int.dvd_of_tmod_eq_zero h
      rw [Int.mul_tdiv_cancel_left q (by decide), ten_mul_div]
      exact normalizedLoop_spec q s
    · exact ⟨rfl, .inr fun hdvd => h (Int.tmod_eq_zero_of_dvd hdvd)⟩

lemma normalized_eq_iff {a b : Decimal} : a.normalized = b.normalized ↔ a.value = b.value := by
  obtain ⟨ha, hca⟩ := normalizedLoop_spec a.coefficient a.scale
  obtain ⟨hb, hcb⟩ := normalizedLoop_spec b.coefficient b.scale
  constructor
  · intro h
    rw [value, value, ← ha, ← hb]
    exact congrArg (fun pair : ℤ × ℕ => (pair.1 / 10 ^ pair.2 : ℚ)) h
  · intro h
    have heq := ha.trans (h.trans hb.symm)
    have hscale : a.normalized.2 = b.normalized.2 :=
      le_antisymm (le_of_div_eq heq.symm hca).1 (le_of_div_eq heq hcb).1
    refine Prod.ext ?_ hscale
    rw [normalized, normalized] at hscale
    rw [hscale, div_left_inj' (by positivity)] at heq
    exact_mod_cast heq

theorem ordered_bytes_exact (a b : Decimal) :
    compare a.toOrderedBytes b.toOrderedBytes = compare a.value b.value ∧
    compare a b = compare a.value b.value ∧ (a.eq b ↔ a.value = b.value) ∧
    (a.value = b.value → ∀ {σ : Type} (hasher : ℤ × ℕ → σ → σ), a.hash hasher = b.hash hasher) ∧
    (∃ d, fromOrderedBytes a.toOrderedBytes = .ok d ∧ d.value = a.value) ∧
    ∀ (bytes : Bytes) (d : Decimal), bytes.length = 40 → fromOrderedBytes bytes = .ok d →
      d.toOrderedBytes = bytes := by
  have hcompare := compare_eq_compare_value a b
  refine ⟨hcompare, hcompare, ?_, ?_, ?_, ?_⟩
  · rw [eq, decide_eq_true_iff, normalized_eq_iff]
  · intro h σ hasher
    funext state
    rw [hash, hash, normalized_eq_iff.2 h]
  · obtain ⟨d, hd, heq⟩ := a.fromOrderedBytes_toOrderedBytes
    rw [compare_eq_compare_value, compare_eq_iff_eq] at heq
    exact ⟨d, hd, heq⟩
  · exact fun bytes d => toOrderedBytes_of_fromOrderedBytes

end Decimal

end HawDB
