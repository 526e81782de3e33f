import HawDB.DecimalText
import HawDB.Proofs.GraphValue

/-!
# A decimal is read back from its text

The text of a decimal has a digit for every place of its scale, so the literal that is read has the
same scale, and at most 38 significant digits: no zero is dropped (`fromText_toText`).
-/

namespace HawDB

open List

namespace Decimal

lemma digitsNat_foldl (digits : List ℕ) (n : ℕ) :
    digits.foldl (fun n digit => n * 10 + digit) n = n * 10 ^ digits.length + digitsNat digits := by
  induction digits generalizing n with
  | nil => simp [digitsNat]
  | cons digit digits ih =>
    rw [digitsNat, foldl_cons, foldl_cons, ih, ih (0 * 10 + digit), length_cons]
    ring

lemma digitsNat_cons (digit : ℕ) (digits : List ℕ) :
    digitsNat (digit :: digits) = digit * 10 ^ digits.length + digitsNat digits := by
  rw [digitsNat, foldl_cons, digitsNat_foldl, zero_mul, zero_add]

lemma digitsNat_dropWhile (digits : List ℕ) :
    digitsNat (digits.dropWhile (· = 0)) = digitsNat digits := by
  induction digits with
  | nil => rfl
  | cons digit digits ih =>
    rw [dropWhile_cons]
    split_ifs with h
    · rw [ih, digitsNat_cons, of_decide_eq_true h]
      simp
    · rfl

lemma digitsNat_map (t : Text) : digitsNat (t.map digitValue) = Nat.ofDigitChars 10 t 0 := by
  rw [digitsNat, Nat.ofDigitChars, foldl_map]
  simp only [digitValue, mul_comm]

lemma digitsNat_natText (n : ℕ) : digitsNat ((natText n).map digitValue) = n := by
  rw [digitsNat_map, ofDigitChars_natText]

lemma length_padText (hwidth : 0 < width) (h : n < 10 ^ width) :
    (padText width n).length = width := by
  have hle : (natText n).length ≤ width := (Nat.length_toDigits_le_iff (by decide) hwidth).2 h
  rw [padText, length_append, length_replicate]
  omega

lemma isDigit_of_mem_padText {c : Char} (h : c ∈ padText width n) : c.isDigit := by
  rcases mem_append.1 h with h | h
  · rw [eq_of_mem_replicate h]
    rfl
  · exact isDigit_of_mem_natText h

lemma digitsNat_append (a b : List ℕ) :
    digitsNat (a ++ b) = digitsNat a * 10 ^ b.length + digitsNat b := by
  rw [digitsNat, foldl_append, digitsNat_foldl]
  rfl

lemma digitsNat_padText (width n : ℕ) : digitsNat ((padText width n).map digitValue) = n := by
  have hzero : ∀ k : ℕ, digitsNat ((replicate k '0').map digitValue) = 0 := by
    intro k
    induction k with
    | zero => rfl
    | succ k ih =>
      rw [replicate_succ, map_cons, digitsNat_cons, ih]
      simp [digitValue]
  rw [padText, map_append, digitsNat_append, hzero, digitsNat_natText]
  simp

lemma scanMantissa_digits {t : Text} (ht : ∀ c ∈ t, c.isDigit) (rest : Text) (digits : List ℕ)
    (fraction : ℕ) (point : Bool) : scanMantissa (t ++ rest) digits fraction point =
      scanMantissa rest (digits ++ t.map digitValue) (fraction + if point then t.length else 0)
        point := by
  induction t generalizing digits fraction with
  | nil => cases point <;> simp
  | cons c t ih =>
    rw [forall_mem_cons] at ht
    have hdot : ¬ (c = '.' ∧ point = false) := by
      rintro ⟨rfl, -⟩
      exact absurd ht.1 (by decide)
    rw [cons_append, scanMantissa, if_neg hdot, if_pos ht.1, ih ht.2]
    congr 1
    · simp
    · cases point
      · simp
      · simp only [if_true, length_cons]
        omega

/-- The first of the significant digits is not zero, so they are as many as the number has. -/
theorem length_le_of_digitsNat_lt (hdigit : digit ≠ 0)
    (h : digitsNat (digit :: digits) < 10 ^ k) : (digit :: digits).length ≤ k := by
  rw [digitsNat_cons] at h
  have hpow : 10 ^ digits.length < 10 ^ k :=
    calc 10 ^ digits.length ≤ digit * 10 ^ digits.length :=
          Nat.le_mul_of_pos_left _ (Nat.pos_of_ne_zero hdigit)
      _ < 10 ^ k := by omega
  exact (Nat.pow_lt_pow_iff_right (by decide)).1 hpow

lemma trimLoop_eq {digits : List ℕ} {scale : ℤ} (hdigits : digits.length ≤ 38)
    (hscale : scale ≤ 38) : trimLoop digits scale = (digits, scale) := by
  unfold trimLoop
  split
  · next digits _ =>
    rw [length_cons] at hdigits
    rw [if_neg (by omega)]
  · rfl

lemma ofDigits_eq {negative : Bool} {digits : List ℕ} {scale : ℕ}
    (hnat : digitsNat digits < 10 ^ 38) (hscale : scale ≤ 38) :
    ofDigits negative digits scale =
      new (if negative then -(digitsNat digits : ℤ) else digitsNat digits) scale := by
  have hvalue := digitsNat_dropWhile digits
  unfold ofDigits
  split
  · next hzero =>
    rw [hzero] at hvalue
    rw [← hvalue]
    have hclamp : (max 0 (min (scale : ℤ) 38)).toNat = scale := by omega
    rw [hclamp]
    cases negative <;> rfl
  · next digit significant hsome =>
    rw [hsome] at hvalue
    have hdigit : digit ≠ 0 := by
      have hne : digits.dropWhile (· = 0) ≠ [] := by rw [hsome]; simp
      have hhead := head_dropWhile_not _ hne
      simpa [hsome] using hhead
    rw [← hvalue] at hnat ⊢
    have hlength := length_le_of_digitsNat_lt hdigit hnat
    rw [trimLoop_eq (by rw [length_reverse]; exact hlength) (by omega)]
    simp only
    rw [if_neg (by rw [length_reverse]; omega), reverse_reverse]
    have hpow : (-(scale : ℤ)).toNat = 0 := by omega
    rw [hpow, Int.toNat_natCast]
    simp

lemma textBytes_ascii {t : Text} (h : ∀ c ∈ t, c.toNat < 128) :
    (textBytes t).length = t.length := by
  induction t with
  | nil => rfl
  | cons c t ih =>
    rw [forall_mem_cons] at h
    have hone : (String.utf8EncodeChar c).length = 1 := by
      rw [String.length_utf8EncodeChar, Char.utf8Size_eq_one_iff, UInt32.le_iff_toNat_le]
      have := h.1
      show c.toNat ≤ 127
      omega
    rw [textBytes_cons, length_append, ih h.2, hone, length_cons]
    omega

/-- The digits of a decimal as displayed, without its sign. -/
def unsignedText (d : Decimal) : Text :=
  if d.scale = 0 then natText d.coefficient.natAbs
  else natText (d.coefficient.natAbs / 10 ^ d.scale) ++
    '.' :: padText d.scale (d.coefficient.natAbs % 10 ^ d.scale)

section

variable (d : Decimal)

lemma mem_unsignedText {c : Char} (h : c ∈ unsignedText d) : c.isDigit ∨ c = '.' := by
  unfold unsignedText at h
  split_ifs at h
  · exact .inl (isDigit_of_mem_natText h)
  rcases mem_append.1 h with h | h
  · exact .inl (isDigit_of_mem_natText h)
  · rcases mem_cons.1 h with h | h
    · exact .inr h
    · exact .inl (isDigit_of_mem_padText h)

lemma splitExponent_unsignedText : splitExponent (unsignedText d) = .ok (unsignedText d, 0) := by
  have hall : ∀ c ∈ unsignedText d, c ≠ 'e' ∧ c ≠ 'E' := by
    intro c hc
    rcases mem_unsignedText d hc with hdigit | rfl
    · constructor <;> rintro rfl <;> exact absurd hdigit (by decide)
    · decide
  have hspan : (unsignedText d).span (fun c => c ≠ 'e' ∧ c ≠ 'E') = (unsignedText d, []) := by
    rw [span_eq_takeWhile_dropWhile, takeWhile_eq_self_iff.2 (by simpa using hall),
      dropWhile_eq_nil_iff.2 (by simpa using hall)]
  rw [splitExponent, hspan]

lemma scanMantissa_unsignedText : ∃ digits, scanMantissa (unsignedText d) [] 0 false =
    some (digits, d.scale) ∧ digits ≠ [] ∧ digitsNat digits = d.coefficient.natAbs := by
  have hne : ∀ n, (natText n).map digitValue ≠ [] := fun n h =>
    natText_ne_nil n (map_eq_nil_iff.1 h)
  unfold unsignedText
  split_ifs with hscale
  · refine ⟨(natText d.coefficient.natAbs).map digitValue, ?_, hne _, digitsNat_natText _⟩
    have hscan := scanMantissa_digits (fun c hc => isDigit_of_mem_natText hc) []
      [] 0 false (t := natText d.coefficient.natAbs)
    rw [append_nil] at hscan
    rw [hscan, hscale]
    simp [scanMantissa]
  · have hlength : (padText d.scale (d.coefficient.natAbs % 10 ^ d.scale)).length = d.scale :=
      length_padText (Nat.pos_of_ne_zero hscale) (Nat.mod_lt _ (by positivity))
    refine ⟨(natText (d.coefficient.natAbs / 10 ^ d.scale)).map digitValue ++
      (padText d.scale (d.coefficient.natAbs % 10 ^ d.scale)).map digitValue, ?_, ?_, ?_⟩
    · have hscan := scanMantissa_digits (fun c hc => isDigit_of_mem_padText hc) []
        ((natText (d.coefficient.natAbs / 10 ^ d.scale)).map digitValue) 0 true
        (t := padText d.scale (d.coefficient.natAbs % 10 ^ d.scale))
      rw [append_nil] at hscan
      rw [scanMantissa_digits fun c hc => isDigit_of_mem_natText hc]
      simp only [scanMantissa, nil_append, if_true, and_self]
      simpa [scanMantissa, hlength] using hscan
    · exact fun h => hne _ (append_eq_nil_iff.1 h).1
    · rw [digitsNat_append, digitsNat_natText, digitsNat_padText, length_map, hlength]
      exact Nat.div_add_mod' _ _

lemma length_unsignedText : (unsignedText d).length ≤ 80 := by
  have hcoefficient := d.coefficient_le
  have hscale := d.scale_le
  have hnat : ∀ n, n ≤ d.coefficient.natAbs → (natText n).length ≤ 38 := fun n hn =>
    (Nat.length_toDigits_le_iff (by decide) (by decide)).2 (by omega)
  unfold unsignedText
  split_ifs with h
  · exact (hnat _ le_rfl).trans (by decide)
  have hint := hnat (d.coefficient.natAbs / 10 ^ d.scale) (Nat.div_le_self _ _)
  rw [length_append, length_cons,
    length_padText (Nat.pos_of_ne_zero h) (Nat.mod_lt _ (by positivity))]
  omega

end

lemma toText_eq (d : Decimal) : d.toText =
    if d.coefficient < 0 then '-' :: unsignedText d else unsignedText d := rfl

lemma splitSign_toText (d : Decimal) :
    splitSign d.toText = (decide (d.coefficient < 0), unsignedText d) := by
  rw [toText_eq]
  split_ifs with h
  · rw [splitSign, decide_eq_true h]
  rw [decide_eq_false h]
  have hhead : ∀ c t, unsignedText d = c :: t → c ≠ '-' ∧ c ≠ '+' := by
    intro c t heq
    rcases mem_unsignedText d (heq ▸ mem_cons_self) with hdigit | rfl
    · constructor <;> rintro rfl <;> exact absurd hdigit (by decide)
    · decide
  unfold splitSign
  split
  · next heq => exact absurd rfl (hhead _ _ heq).1
  · next heq => exact absurd rfl (hhead _ _ heq).2
  · rfl

lemma mem_toText {d : Decimal} {c : Char} (h : c ∈ d.toText) : c.isDigit ∨ c = '.' ∨ c = '-' := by
  rw [toText_eq] at h
  split_ifs at h
  · rcases mem_cons.1 h with h | h
    · exact .inr (.inr h)
    · exact (mem_unsignedText d h).imp_right .inl
  · exact (mem_unsignedText d h).imp_right .inl

lemma length_textBytes_toText (d : Decimal) : (textBytes d.toText).length ≤ 81 := by
  have hascii : ∀ c ∈ d.toText, c.toNat < 128 := by
    intro c hc
    rcases mem_toText hc with hdigit | rfl | rfl
    · exact (Char.isDigit_iff_toNat.1 hdigit).2.trans_lt (by decide)
    · decide
    · decide
  have hlength := length_unsignedText d
  rw [textBytes_ascii hascii, toText_eq]
  split_ifs
  · rw [length_cons]
    omega
  · omega

lemma fromText_toText (d : Decimal) : fromText d.toText = .ok d := by
  obtain ⟨digits, hscan, hdigits, hvalue⟩ := scanMantissa_unsignedText d
  have hlength := length_textBytes_toText d
  have hne : d.toText ≠ [] := by
    intro h
    have hsign := splitSign_toText d
    rw [h] at hsign
    have hempty : unsignedText d = [] := (congrArg Prod.snd hsign).symm
    rw [hempty] at hscan
    obtain ⟨rfl, -⟩ := Prod.mk.inj (Option.some.inj hscan)
    exact hdigits rfl
  rw [fromText, if_neg (by rw [not_or]; exact ⟨hne, by rw [maxLiteralBytes]; omega⟩),
    splitSign_toText]
  simp only [splitExponent_unsignedText, ok_bind, hscan, if_neg hdigits, Int.sub_zero]
  have hbound := d.coefficient_le
  rw [ofDigits_eq (by rw [hvalue]; omega) d.scale_le, new_eq_ok, hvalue]
  refine ⟨?_, rfl⟩
  split_ifs with h
  · have := of_decide_eq_true h
    omega
  · have : ¬ d.coefficient < 0 := fun hneg => h (decide_eq_true hneg)
    omega

end Decimal

end HawDB
