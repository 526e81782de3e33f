import HawDB.DatePart

/-!
# Date parts follow the calendar

The calendar is the leap rule and the step from a date to the next one (`CivilDate.ofDay`). A year
that begins in March ends with its leap day, so the month and the day are a formula in the day of
such a year (`ofMarch`).
-/

namespace HawDB

structure CivilDate where
  year : ℤ
  month : ℤ
  day : ℤ
deriving DecidableEq, Repr

namespace CivilDate

def IsLeap (year : ℤ) : Prop := year % 4 = 0 ∧ (year % 100 ≠ 0 ∨ year % 400 = 0)

instance : DecidablePred IsLeap := fun _ => inferInstanceAs (Decidable (_ ∧ _))

def monthLength (year month : ℤ) : ℤ :=
  if month = 2 then if IsLeap year then 29 else 28
  else if month = 4 ∨ month = 6 ∨ month = 9 ∨ month = 11 then 30 else 31

def next (date : CivilDate) : CivilDate :=
  if date.day < monthLength date.year date.month then { date with day := date.day + 1 }
  else if date.month < 12 then ⟨date.year, date.month + 1, 1⟩
  else ⟨date.year + 1, 1, 1⟩

/-- The date of a day, counted from the first of January 1970 and found from that of the year 1. -/
def ofDay (days : ℤ) : CivilDate := next^[(days + 719162).toNat] ⟨1, 1, 1⟩

/-- The day of a year that begins in March, with the leap day at its end. -/
structure IsMarch (z year day : ℤ) : Prop where
  eq : z = 365 * year + year / 4 - year / 100 + year / 400 + day
  nonneg : 0 ≤ day
  le : day ≤ 364 ∨ day = 365 ∧ IsLeap (year + 1)

def ofMarch (year day : ℤ) : CivilDate :=
  let monthPrime := (5 * day + 2) / 153
  let month := if monthPrime < 10 then monthPrime + 3 else monthPrime - 9
  ⟨if month ≤ 2 then year + 1 else year, month, day - (153 * monthPrime + 2) / 5 + 1⟩

variable {z y d y' d' e n p : ℤ}

lemma IsMarch.succ (h : IsMarch z y d) (h' : IsMarch (z + 1) y' d') :
    y' = y ∧ d' = d + 1 ∨ y' = y + 1 ∧ d' = 0 ∧ (d = 365 ∨ d = 364 ∧ ¬IsLeap (y + 1)) := by
  obtain ⟨rfl, h0, h1⟩ := h
  obtain ⟨heq, h0', h1'⟩ := h'
  unfold IsLeap at *
  have : y' = y ∨ y' = y + 1 := by
    rcases lt_trichotomy y' y with hlt | rfl | hgt <;> omega
  rcases this with rfl | rfl <;> omega

lemma monthLength_march (y : ℤ) (h0 : 0 ≤ p) (h : p ≤ 10) :
    monthLength y (if p < 10 then p + 3 else p - 9) =
      (153 * (p + 1) + 2) / 5 - (153 * p + 2) / 5 := by
  interval_cases p <;> rfl

lemma next_ofMarch (h : IsMarch z y d) (h' : IsMarch (z + 1) y' d') :
    next (ofMarch y d) = ofMarch y' d' := by
  have h0 := h.nonneg
  have hle := h.le
  obtain ⟨p, hp⟩ : ∃ p, (5 * d + 2) / 153 = p := ⟨_, rfl⟩
  unfold next ofMarch
  dsimp only
  rw [hp]
  rcases h.succ h' with ⟨rfl, rfl⟩ | ⟨rfl, rfl, hlast⟩
  · have hle' := h'.le
    by_cases hmonth : p ≤ 10
    · obtain ⟨p', hp'⟩ : ∃ p, (5 * (d + 1) + 2) / 153 = p := ⟨_, rfl⟩
      rw [monthLength_march _ (by omega) hmonth, hp']
      obtain rfl | rfl : p' = p ∨ p' = p + 1 := by omega
      · rw [if_pos (by omega)]
        simp only [mk.injEq, true_and]
        omega
      · rw [if_neg (by omega)]
        split_ifs <;> simp only [mk.injEq, true_and] <;> omega
    · obtain rfl : p = 11 := by omega
      have hp' : (5 * (d + 1) + 2) / 153 = 11 := by omega
      have hlt : d - 337 + 1 < monthLength (y' + 1) 2 := by
        by_cases hleap : IsLeap (y' + 1) <;> simp [monthLength, hleap] at hle' ⊢ <;> omega
      simp [hp', hlt]
      omega
  · obtain rfl : p = 11 := by omega
    by_cases hleap : IsLeap (y + 1) <;> simp [monthLength, hleap] at hlast ⊢ <;> omega

lemma yearOfEra_spec (h0 : 0 ≤ n) (h1 : n < 146097)
    (hy : y = (n - n / 1460 + n / 36524 - n / 146096) / 365) :
    0 ≤ y ∧ y < 400 ∧ 365 * y + y / 4 - y / 100 ≤ n ∧
      (n - (365 * y + y / 4 - y / 100) ≤ 364 ∨
        n - (365 * y + y / 4 - y / 100) = 365 ∧ IsLeap (y + 1)) := by
  unfold IsLeap
  have hcentury : y / 100 = n / 36524 - n / 146096 := by
    have : n / 36524 = 0 ∨ n / 36524 = 1 ∨ n / 36524 = 2 ∨ n / 36524 = 3 ∨ n = 146096 := by omega
    omega
  have hle : y / 4 ≤ n / 1460 := by omega
  have hge : n / 1460 ≤ y / 4 + 1 := by omega
  refine ⟨by omega, by omega, by omega, ?_⟩
  by_cases hlast : (y + 1) % 4 = 0
  · omega
  have hlt : n / 1460 < y / 4 + 1 := by
    by_contra hge
    have : y ≤ 4 * (y / 4) + 2 := by omega
    omega
  omega

lemma isMarch (hz : z = e * 146097 + n) (h0 : 0 ≤ n) (h1 : n < 146097)
    (hy : y = (n - n / 1460 + n / 36524 - n / 146096) / 365) :
    IsMarch z (y + e * 400) (n - (365 * y + y / 4 - y / 100)) := by
  obtain ⟨hy0, hy1, hle, hlast⟩ := yearOfEra_spec h0 h1 hy
  have h4 : (y + e * 400) / 4 = y / 4 + e * 100 := by omega
  have h100 : (y + e * 400) / 100 = y / 100 + e * 4 := by omega
  have h400 : (y + e * 400) / 400 = e := by omega
  refine ⟨by omega, by omega, ?_⟩
  rcases hlast with h | ⟨h, hleap⟩
  · exact .inl h
  · unfold IsLeap at *
    exact .inr ⟨h, by omega⟩

lemma exists_isMarch (z : ℤ) : ∃ y d, IsMarch z y d :=
  ⟨_, _, isMarch (e := z / 146097) (n := z % 146097) (by omega) (by omega) (by omega) rfl⟩

lemma iterate_next : ∀ (k : ℕ) {y d : ℤ}, IsMarch (k + 306) y d → next^[k] ⟨1, 1, 1⟩ = ofMarch y d
  | 0, y, d, ⟨heq, h0, h1⟩ => by
    obtain rfl : y = 0 := by omega
    obtain rfl : d = 306 := by omega
    rfl
  | k + 1, y, d, h => by
    obtain ⟨y', d', h'⟩ := exists_isMarch (k + 306)
    rw [Function.iterate_succ_apply', iterate_next k h']
    exact next_ofMarch h' (by convert h using 1; push_cast; ring)

lemma ofDay_eq (hdays : -719162 ≤ days) (h : IsMarch (days + 719468) y d) :
    ofDay days = ofMarch y d :=
  iterate_next _ (by convert h using 1; omega)

end CivilDate

open CivilDate Int

lemma i64_eq (h : -2 ^ 63 ≤ z ∧ z < 2 ^ 63) : i64 z = some z := if_pos h

lemma bind_i64 (h : -2 ^ 63 ≤ z ∧ z < 2 ^ 63) (f : ℤ → Option α) : (i64 z >>= f) = f z := by
  rw [i64_eq h]
  rfl

lemma divFloor_eq (h : -2 ^ 63 ≤ x ∧ x < 2 ^ 63) :
    divFloor x 86400000000000 = some (x / 86400000000000) := by
  unfold divFloor
  rw [if_neg (by decide)]
  rcases le_or_gt 0 x with h0 | h0
  · rw [tdiv_eq_ediv_of_nonneg h0, tmod_eq_emod_of_nonneg h0, i64_eq (by omega)]
    exact if_neg (by simp; omega)
  rw [← neg_neg x, Int.neg_tdiv, neg_tmod, tdiv_eq_ediv_of_nonneg (by omega),
    tmod_eq_emod_of_nonneg (by omega), i64_eq (by omega)]
  refine (ite_congr rfl (fun _ => i64_eq (by omega)) fun _ => rfl).trans ?_
  split_ifs with hif
  · congr 1
    omega
  · congr 1
    simp at hif
    omega

lemma era_eq (z : ℤ) : (if 0 ≤ z then z else z - 146096).tdiv 146097 = z / 146097 := by
  split_ifs with h
  · exact tdiv_eq_ediv_of_nonneg h
  · rw [← neg_neg (z - 146096), Int.neg_tdiv, tdiv_eq_ediv_of_nonneg (by omega)]
    omega

lemma asI32_eq (h : -2 ^ 31 ≤ z ∧ z < 2 ^ 31) : asI32 z = z := by
  rw [asI32, bmod_def]
  split_ifs <;> omega

lemma civilFromDays_eq (h : -2 ^ 19 ≤ days ∧ days < 2 ^ 19) : civilFromDays days =
    some ((ofDay days).year, (ofDay days).month, (ofDay days).day) := by
  obtain ⟨era, n, hera, hz, h0, h1⟩ : ∃ era n, (days + 719468) / 146097 = era ∧
      days + 719468 = era * 146097 + n ∧ 0 ≤ n ∧ n < 146097 :=
    ⟨_, (days + 719468) % 146097, rfl, by omega, by omega, by omega⟩
  obtain ⟨y, hy⟩ : ∃ y, y = (n - n / 1460 + n / 36524 - n / 146096) / 365 := ⟨_, rfl⟩
  obtain ⟨hy0, hy1, -⟩ := yearOfEra_spec h0 h1 hy
  have hmarch := isMarch hz h0 h1 hy
  have hd := hmarch.nonneg
  have hd' := hmarch.le
  have hn : days + 719468 - era * 146097 = n := by omega
  rw [ofDay_eq (by omega) hmarch, ofMarch]
  unfold civilFromDays
  rw [bind_i64 (by omega), bind_i64 (by split_ifs <;> omega), era_eq, hera, bind_i64 (by omega),
    hn, bind_i64 (by omega)]
  simp only [tdiv_eq_ediv_of_nonneg h0]
  rw [bind_i64 (by omega), bind_i64 (by omega), bind_i64 (by omega),
    tdiv_eq_ediv_of_nonneg (by omega), ← hy, bind_i64 (by omega), bind_i64 (by omega)]
  simp only [tdiv_eq_ediv_of_nonneg hy0]
  rw [bind_i64 (by omega), bind_i64 (by omega), bind_i64 (by omega), bind_i64 (by omega)]
  generalize n - (365 * y + y / 4 - y / 100) = d at *
  rw [bind_i64 (by omega), bind_i64 (by omega), tdiv_eq_ediv_of_nonneg (by omega)]
  generalize hp : (5 * d + 2) / 153 = p
  have hmonth : (p + if p < 10 then 3 else -9) = if p < 10 then p + 3 else p - 9 := by
    split_ifs <;> omega
  rw [bind_i64 (by omega), bind_i64 (by omega), tdiv_eq_ediv_of_nonneg (by omega),
    bind_i64 (by omega), bind_i64 (by omega), hmonth, bind_i64 (by split_ifs <;> omega)]
  generalize hm : (if p < 10 then p + 3 else p - 9) = m
  have hm' : 1 ≤ m ∧ m ≤ 12 := by
    rw [← hm]
    split_ifs <;> omega
  have hyear : (y + era * 400 + if m ≤ 2 then 1 else 0) =
      if m ≤ 2 then y + era * 400 + 1 else y + era * 400 := by
    split_ifs <;> omega
  rw [hyear, bind_i64 (by split_ifs <;> omega), asI32_eq (by split_ifs <;> omega)]
  simp only [asU32, Option.some.injEq, Prod.mk.injEq, true_and]
  omega

theorem timestampDatePart_eq (part : DatePart) (nanos : Int64) :
    ofDay 0 = ⟨1970, 1, 1⟩ ∧
    let days := nanos.toInt / 86400000000000
    divFloor nanos.toInt 86400000000000 = some days ∧
      civilFromDays days = some ((ofDay days).year, (ofDay days).month, (ofDay days).day) ∧
      timestampDatePart part nanos = some (match part with
        | .year => (ofDay days).year
        | .month => (ofDay days).month) := by
  have hle := nanos.le_toInt
  have hlt := nanos.toInt_lt
  have hdays := divFloor_eq ⟨hle, hlt⟩
  have hcivil := @civilFromDays_eq (nanos.toInt / 86400000000000) (by omega)
  refine ⟨ofDay_eq (by decide) (isMarch (e := 4) (n := 135080) rfl (by decide) (by decide) rfl),
    hdays, hcivil, ?_⟩
  rw [timestampDatePart, hdays]
  dsimp only [Option.bind_eq_bind, Option.bind_some]
  rw [hcivil]
  cases part <;> rfl

end HawDB
