import HawDB.Order

/-!
# Byte strings in lexicographic order

Fixed-width big-endian digits compare as their values do (`compare_beDigits`), complementing every
byte of equally long strings reverses the order (`compare_map_not`), and strings neither of which
starts the other compare by where they part (`compare_append_of_incomparable`).
-/

namespace HawDB

open List

abbrev Bytes := List UInt8

lemma compare_uint8 (a b : UInt8) : compare a b = compare a.toNat b.toNat := by
  simp only [compare, compareOfLessAndEq, UInt8.lt_iff_toNat_lt, ← UInt8.toNat_inj]

/-- The `w` low digits of `n` to the base `b`, the most significant first. -/
def beDigits (b : ℕ) : ℕ → ℕ → Bytes
  | 0, _ => []
  | w + 1, n => UInt8.ofNat (n / b ^ w) :: beDigits b w (n % b ^ w)

/-- The value of digits to the base `b`, the most significant first. -/
def beValue (b : ℕ) (l : Bytes) : ℕ := l.foldl (fun acc d => acc * b + d.toNat) 0

/-- `to_be_bytes` at a width of `w` bytes. -/
def beBytes (w n : ℕ) : Bytes := beDigits 256 w n

/-- `from_be_bytes`. -/
def beNat (l : Bytes) : ℕ := beValue 256 l

/-- `to_le_bytes` at a width of `w` bytes. -/
def leBytes (w n : ℕ) : Bytes := (beBytes w n).reverse

/-- `from_le_bytes`. -/
def leNat (l : Bytes) : ℕ := beNat l.reverse

@[simp] lemma length_beDigits (b : ℕ) : ∀ w n, (beDigits b w n).length = w
  | 0, _ => rfl
  | w + 1, n => by simp [beDigits, length_beDigits b w]

@[simp] lemma length_beBytes (w n : ℕ) : (beBytes w n).length = w := length_beDigits 256 w n

@[simp] lemma length_leBytes (w n : ℕ) : (leBytes w n).length = w := by simp [leBytes]

lemma beValue_foldl (b : ℕ) (l : Bytes) (acc : ℕ) :
    l.foldl (fun acc d => acc * b + d.toNat) acc = acc * b ^ l.length + beValue b l := by
  induction l generalizing acc with
  | nil => simp [beValue]
  | cons d l ih =>
    simp only [beValue, foldl_cons, length_cons, zero_mul, zero_add] at ih ⊢
    rw [ih, ih d.toNat, pow_succ]
    ring

@[simp] lemma beValue_nil (b : ℕ) : beValue b [] = 0 := rfl

lemma beValue_cons (b : ℕ) (d : UInt8) (l : Bytes) :
    beValue b (d :: l) = d.toNat * b ^ l.length + beValue b l := by
  have := beValue_foldl b l d.toNat
  simpa [beValue] using this

lemma beValue_append (b : ℕ) (l l' : Bytes) :
    beValue b (l ++ l') = beValue b l * b ^ l'.length + beValue b l' := by
  unfold beValue
  rw [foldl_append, beValue_foldl]
  rfl

lemma beValue_lt {b : ℕ} : ∀ l, (∀ d ∈ l, d.toNat < b) → beValue b l < b ^ l.length
  | [], _ => by simp
  | d :: l, h => by
    have hd : d.toNat < b := h d (by simp)
    have hl := beValue_lt l fun e he => h e (by simp [he])
    rw [beValue_cons, length_cons, pow_succ]
    calc d.toNat * b ^ l.length + beValue b l < d.toNat * b ^ l.length + b ^ l.length := by omega
      _ = (d.toNat + 1) * b ^ l.length := by ring
      _ ≤ b * b ^ l.length := Nat.mul_le_mul_right _ hd
      _ = b ^ l.length * b := by ring

section

variable {b : ℕ} (hb : 1 < b) (hb' : b ≤ 256)
include hb hb'

lemma digit_toNat {w n : ℕ} (h : n < b ^ (w + 1)) :
    (UInt8.ofNat (n / b ^ w)).toNat = n / b ^ w := by
  have : n / b ^ w < b := Nat.div_lt_of_lt_mul (by rwa [pow_succ] at h)
  rw [UInt8.toNat_ofNat']
  exact Nat.mod_eq_of_lt (by omega)

lemma beValue_beDigits : ∀ w n, n < b ^ w → beValue b (beDigits b w n) = n
  | 0, n, h => by simp at h; simp [beDigits, h]
  | w + 1, n, h => by
    have hpos : 0 < b ^ w := Nat.pow_pos (by omega)
    rw [beDigits, beValue_cons, digit_toNat hb hb' h, length_beDigits,
      beValue_beDigits w _ (Nat.mod_lt _ hpos)]
    exact Nat.div_add_mod' n (b ^ w)

lemma compare_beDigits : ∀ w m n, m < b ^ w → n < b ^ w →
    compare (beDigits b w m) (beDigits b w n) = compare m n
  | 0, m, n, hm, hn => by simp at hm hn; simp [beDigits, hm, hn]
  | w + 1, m, n, hm, hn => by
    have hpos : 0 < b ^ w := Nat.pow_pos (by omega)
    have ih := compare_beDigits w (m % b ^ w) (n % b ^ w) (Nat.mod_lt _ hpos) (Nat.mod_lt _ hpos)
    have em := Nat.div_add_mod m (b ^ w)
    have en := Nat.div_add_mod n (b ^ w)
    have lm := Nat.mod_lt m hpos
    have ln := Nat.mod_lt n hpos
    rw [beDigits, beDigits, List.compare_cons_cons, compare_uint8, digit_toNat hb hb' hm,
      digit_toNat hb hb' hn, ih]
    generalize m % b ^ w = rm at *
    generalize n % b ^ w = rn at *
    rcases Nat.lt_trichotomy (m / b ^ w) (n / b ^ w) with h | h | h
    · have hmul := Nat.mul_le_mul_left (b ^ w) h
      rw [Nat.succ_eq_add_one, mul_add, mul_one] at hmul
      have hmn : m < n := by omega
      rw [Nat.compare_eq_lt.2 h, Nat.compare_eq_lt.2 hmn, Ordering.lt_then]
    · rw [h, Nat.compare_eq_eq.2 rfl, Ordering.eq_then]
      rw [h] at em
      exact compare_eq_compare (by omega) (by omega)
    · have hmul := Nat.mul_le_mul_left (b ^ w) h
      rw [Nat.succ_eq_add_one, mul_add, mul_one] at hmul
      have hmn : n < m := by omega
      rw [Nat.compare_eq_gt.2 h, Nat.compare_eq_gt.2 hmn, Ordering.gt_then]

lemma beDigits_beValue : ∀ l, (∀ d ∈ l, d.toNat < b) → beDigits b l.length (beValue b l) = l
  | [], _ => rfl
  | d :: l, h => by
    have hl := beValue_lt l fun e he => h e (mem_cons_of_mem _ he)
    have hpos : 0 < b ^ l.length := Nat.pow_pos (by omega)
    rw [beValue_cons, length_cons, beDigits, add_comm, Nat.add_mul_div_right _ _ hpos,
      Nat.div_eq_of_lt hl, zero_add, UInt8.ofNat_toNat, Nat.add_mul_mod_self_right,
      Nat.mod_eq_of_lt hl, beDigits_beValue l fun e he => h e (mem_cons_of_mem _ he)]

lemma compare_of_digits {x y : Bytes} (hx : ∀ d ∈ x, d.toNat < b) (hy : ∀ d ∈ y, d.toNat < b)
    (hlength : x.length = y.length) : compare x y = compare (beValue b x) (beValue b y) := by
  have hvx := beValue_lt x hx
  have hvy := beValue_lt y hy
  rw [← hlength] at hvy
  rw [← compare_beDigits hb hb' _ _ _ hvx hvy, beDigits_beValue hb hb' x hx, hlength,
    beDigits_beValue hb hb' y hy]

end

lemma beNat_beBytes {w n : ℕ} (h : n < 256 ^ w) : beNat (beBytes w n) = n :=
  beValue_beDigits (by norm_num) le_rfl w n h

lemma compare_beBytes {w m n : ℕ} (hm : m < 256 ^ w) (hn : n < 256 ^ w) :
    compare (beBytes w m) (beBytes w n) = compare m n :=
  compare_beDigits (by norm_num) le_rfl w m n hm hn

lemma leNat_leBytes {w n : ℕ} (h : n < 256 ^ w) : leNat (leBytes w n) = n := by
  simp [leNat, leBytes, beNat_beBytes h]

lemma beNat_lt (l : Bytes) : beNat l < 256 ^ l.length :=
  beValue_lt l fun d _ => d.toNat_lt

lemma leNat_lt (l : Bytes) : leNat l < 256 ^ l.length := by
  simpa [leNat] using beNat_lt l.reverse

lemma leBytes_leNat {w : ℕ} (l : Bytes) (h : l.length = w) : leBytes w (leNat l) = l := by
  subst h
  have hrev : beBytes l.reverse.length (beNat l.reverse) = l.reverse :=
    beDigits_beValue (by norm_num) le_rfl l.reverse fun d _ => d.toNat_lt
  rw [leBytes, leNat, ← length_reverse, hrev, reverse_reverse]

/-- `to_le_bytes` of a signed number, in two's complement. -/
def leIntBytes (w : ℕ) (n : ℤ) : Bytes := leBytes w (n % 256 ^ w).toNat

/-- `from_le_bytes` of a signed number, in two's complement. -/
def leInt (l : Bytes) : ℤ :=
  if 2 * leNat l < 256 ^ l.length then leNat l else leNat l - 256 ^ l.length

@[simp] lemma length_leIntBytes (w : ℕ) (n : ℤ) : (leIntBytes w n).length = w := by
  simp [leIntBytes]

lemma leInt_leIntBytes {w : ℕ} {n : ℤ} (hlo : -256 ^ w ≤ 2 * n) (hhi : 2 * n < 256 ^ w) :
    leInt (leIntBytes w n) = n := by
  have hpos : (0 : ℤ) < 256 ^ w := by positivity
  have hmod := Int.emod_lt_of_pos n hpos
  have hnonneg := Int.emod_nonneg n hpos.ne'
  have hcast : ((n % 256 ^ w).toNat : ℤ) = n % 256 ^ w := Int.toNat_of_nonneg hnonneg
  have hlt : (n % 256 ^ w).toNat < 256 ^ w := by
    zify
    rw [hcast]
    exact hmod
  rw [leInt, leIntBytes, leNat_leBytes hlt, length_leBytes]
  rcases lt_or_ge n 0 with hn | hn
  · have hval : n % 256 ^ w = n + 256 ^ w := by
      rw [← Int.add_emod_right, Int.emod_eq_of_lt (by omega) (by omega)]
    rw [if_neg (by zify; rw [hcast, hval]; omega), hcast, hval]
    ring
  · have hval : n % 256 ^ w = n := Int.emod_eq_of_lt hn (by omega)
    rw [if_pos (by zify; rw [hcast, hval]; exact hhi), hcast, hval]

lemma leIntBytes_leInt {w : ℕ} (l : Bytes) (h : l.length = w) : leIntBytes w (leInt l) = l := by
  subst h
  have hlt : (leNat l : ℤ) < 256 ^ l.length := by exact_mod_cast leNat_lt l
  have hmod : leInt l % 256 ^ l.length = leNat l := by
    unfold leInt
    split_ifs
    · exact Int.emod_eq_of_lt (by positivity) hlt
    · rw [Int.sub_emod_right, Int.emod_eq_of_lt (by positivity) hlt]
  rw [leIntBytes, hmod, Int.toNat_natCast, leBytes_leNat l rfl]

lemma leInt_bounds (l : Bytes) : -256 ^ l.length ≤ 2 * leInt l ∧ 2 * leInt l < 256 ^ l.length := by
  have hlt : (leNat l : ℤ) < 256 ^ l.length := by exact_mod_cast leNat_lt l
  unfold leInt
  split_ifs with h
  · zify at h
    omega
  · zify at h
    omega

lemma compare_not (a b : UInt8) : compare (~~~a) (~~~b) = compare b a := by
  have ha := a.toNat_lt
  have hb := b.toNat_lt
  rw [compare_uint8, compare_uint8, UInt8.toNat_not, UInt8.toNat_not]
  have hsize : UInt8.size = 256 := rfl
  exact compare_eq_compare (by omega) (by omega)

lemma compare_map_not : ∀ (x y : Bytes), x.length = y.length →
    compare (x.map (~~~ ·)) (y.map (~~~ ·)) = compare y x
  | [], [], _ => rfl
  | [], _ :: _, h => by simp at h
  | _ :: _, [], h => by simp at h
  | a :: x, b :: y, h => by
    rw [List.map_cons, List.map_cons, List.compare_cons_cons, List.compare_cons_cons, compare_not,
      compare_map_not x y (by simpa using h)]

section

lemma compare_append_left (x s t : Bytes) : compare (x ++ s) (x ++ t) = compare s t := by
  induction x with
  | nil => rfl
  | cons a x ih =>
    simp [List.compare_cons_cons, ih]

lemma compare_append_of_incomparable : ∀ {x y} (s t : Bytes), ¬ x <+: y → ¬ y <+: x →
    compare (x ++ s) (y ++ t) = compare x y
  | [], y, _, _, h, _ => absurd nil_prefix h
  | _ :: _, [], _, _, _, h => absurd (List.nil_prefix) h
  | a :: x, b :: y, s, t, h, h' => by
    rw [List.cons_append, List.cons_append, List.compare_cons_cons, List.compare_cons_cons]
    by_cases hab : a = b
    · subst hab
      rw [cons_prefix_cons] at h h'
      rw [compare_append_of_incomparable s t (fun hp => h ⟨rfl, hp⟩) (fun hp => h' ⟨rfl, hp⟩)]
    · have hc : compare a b ≠ .eq := fun hc => hab (Std.LawfulEqOrd.eq_of_compare hc)
      revert hc
      cases compare a b <;> simp

lemma compare_append_right_lt (x : Bytes) {t : Bytes} (h : t ≠ []) :
    compare x (x ++ t) = .lt := by
  have := compare_append_left x [] t
  rw [append_nil] at this
  rw [this]
  cases t with
  | nil => exact absurd rfl h
  | cons a t => rfl

end

section

/-- `successor`'s loop, on the bytes from the last to the first. -/
def successorLoop : Bytes → Option Bytes
  | [] => none
  | last :: next => if last.toNat + 1 < 256 then some ((last + 1) :: next) else successorLoop next

/-- Drop trailing `255`s and add one to the byte before them. -/
def successor (p : Bytes) : Option Bytes := (successorLoop p.reverse).map reverse

lemma successorLoop_append (a : UInt8) : ∀ l, successorLoop (l ++ [a]) =
    match successorLoop l with
    | some s => some (s ++ [a])
    | none => if a.toNat + 1 < 256 then some [a + 1] else none
  | [] => by simp [successorLoop]
  | b :: l => by
    by_cases hb : b.toNat + 1 < 256
    · simp [successorLoop, hb]
    · simpa only [cons_append, successorLoop, hb, if_false] using successorLoop_append a l

lemma successor_cons (a : UInt8) (p : Bytes) : successor (a :: p) =
    match successor p with
    | some s => some (a :: s)
    | none => if a.toNat + 1 < 256 then some [a + 1] else none := by
  simp only [successor, reverse_cons, successorLoop_append]
  rcases successorLoop p.reverse with _ | s
  · simp only [Option.map_none]
    split_ifs <;> rfl
  · simp

lemma prefix_or_lt_of_successor_none : ∀ {p}, successor p = none →
    ∀ x, compare x p = .lt ∨ p <+: x
  | [], _, x => .inr nil_prefix
  | a :: p, h, x => by
    rw [successor_cons] at h
    rcases hp : successor p with _ | s <;> rw [hp] at h
    · simp only [ite_eq_right_iff, reduceCtorEq, imp_false, not_lt] at h
      cases x with
      | nil => exact .inl rfl
      | cons b x =>
        rw [List.compare_cons_cons, List.cons_prefix_cons]
        by_cases hab : b = a
        · subst hab
          rcases prefix_or_lt_of_successor_none hp x with hx | hx
          · left; simp [hx]
          · exact .inr ⟨rfl, hx⟩
        · left
          have hlt : b.toNat < a.toNat := by
            have := b.toNat_lt
            have hne : b.toNat ≠ a.toNat := fun hc => hab (UInt8.toNat_inj.1 hc)
            omega
          rw [compare_uint8, Nat.compare_eq_lt.2 hlt]
          rfl
    · simp at h

/-- Below the successor of `p` is what is below `p` and what extends it. -/
theorem lt_successor_iff : ∀ {p s}, successor p = some s →
    ∀ x, compare x s = .lt ↔ compare x p = .lt ∨ p <+: x
  | [], s, h, x => by simp [successor, successorLoop] at h
  | a :: p, s, h, x => by
    rw [successor_cons] at h
    rcases hp : successor p with _ | s' <;> rw [hp] at h
    · simp only [Option.ite_none_right_eq_some, Option.some.injEq] at h
      obtain ⟨ha, rfl⟩ := h
      cases x with
      | nil => simp
      | cons b x =>
        have hsucc : (a + 1).toNat = a.toNat + 1 := by
          rw [UInt8.toNat_add]
          exact Nat.mod_eq_of_lt ha
        rw [List.compare_cons_cons, List.compare_cons_cons, List.cons_prefix_cons, compare_uint8,
          compare_uint8, hsucc]
        rcases Nat.lt_trichotomy b.toNat a.toNat with hb | hb | hb
        · rw [Nat.compare_eq_lt.2 (by omega), Nat.compare_eq_lt.2 hb]
          simp
        · rw [Nat.compare_eq_lt.2 (by omega), Nat.compare_eq_eq.2 hb]
          have hab : a = b := UInt8.toNat_inj.1 hb.symm
          simpa [hab] using prefix_or_lt_of_successor_none hp x
        · have hab : a ≠ b := fun hc => by rw [hc] at hb; omega
          rw [Nat.compare_eq_gt.2 hb]
          rcases Nat.lt_or_ge (a.toNat + 1) b.toNat with hb' | hb'
          · rw [Nat.compare_eq_gt.2 hb']
            simp [hab]
          · rw [Nat.compare_eq_eq.2 (by omega)]
            cases x <;> simp [hab]
    · simp only [Option.some.injEq] at h
      subst h
      cases x with
      | nil => simp
      | cons b x =>
        have ih := lt_successor_iff hp x
        rw [List.compare_cons_cons, List.compare_cons_cons, List.cons_prefix_cons]
        by_cases hab : a = b
        · subst hab
          simpa using ih
        · have hc : compare b a ≠ .eq := fun hc => hab (Std.LawfulEqOrd.eq_of_compare hc).symm
          revert hc
          cases compare b a <;> simp [hab]

end

end HawDB
