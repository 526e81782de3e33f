import HawDB.OrderCode
import HawDB.OrderedKey
import HawDB.Proofs.Decimal
import HawDB.Proofs.RelationalOrder

/-!
# Ordered keys are in the order of their bytes

The encodings of values are an order-preserving code (`isOrderCode_value`), so encoded keys compare
as the keys do, and a decoder finds where each value ends (`ordered_key_encoding`).
-/

namespace HawDB

open List RelationalValue

section

lemma two_pow_xor (h : y < 2 ^ k) : 2 ^ k ^^^ y = 2 ^ k + y := by
  have hor := Nat.two_pow_add_eq_or_of_lt h 1
  rw [mul_one] at hor
  rw [hor]
  apply Nat.eq_of_testBit_eq
  intro i
  simp only [Nat.testBit_xor, Nat.testBit_or, Nat.testBit_two_pow]
  by_cases hi : k = i
  · subst hi
    simp [Nat.testBit_lt_two_pow h]
  · simp [hi]

lemma toNat_signBit : signBit.toNat = 2 ^ 63 := rfl

lemma toNat_xor_signBit (x : UInt64) :
    (x ^^^ signBit).toNat = if x.toNat < 2 ^ 63 then x.toNat + 2 ^ 63 else x.toNat - 2 ^ 63 := by
  have hx := x.toNat_lt
  rw [UInt64.toNat_xor, toNat_signBit]
  split_ifs with h
  · rw [Nat.xor_comm, two_pow_xor h, Nat.add_comm]
  obtain ⟨y, hy⟩ : ∃ y, x.toNat = 2 ^ 63 + y := ⟨x.toNat - 2 ^ 63, by omega⟩
  have hlt : y < 2 ^ 63 := by omega
  rw [hy, ← two_pow_xor hlt, Nat.xor_comm, ← Nat.xor_assoc, Nat.xor_self, Nat.zero_xor,
    two_pow_xor hlt]
  omega

lemma xor_signBit_xor_signBit (x : UInt64) : x ^^^ signBit ^^^ signBit = x := by
  rw [UInt64.xor_assoc, UInt64.xor_self, UInt64.xor_zero]

lemma toNat_toUInt64_xor_signBit (v : Int64) :
    ((v.toUInt64 ^^^ signBit).toNat : ℤ) = v.toInt + 2 ^ 63 := by
  have h := v.toUInt64.toNat_lt
  have hv : v.toInt =
      if 2 * v.toUInt64.toNat < 2 ^ 64 then (v.toUInt64.toNat : ℤ)
      else v.toUInt64.toNat - 2 ^ 64 := by
    show v.toBitVec.toInt = _
    rw [BitVec.toInt_eq_toNat_cond]
    rfl
  rw [toNat_xor_signBit, hv]
  split_ifs <;> push_cast <;> omega

lemma shiftRight_eq_zero_iff (x : UInt64) : x >>> 63 = 0 ↔ x.toNat < 2 ^ 63 := by
  rw [← UInt64.toNat_inj, UInt64.toNat_shiftRight]
  show x.toNat >>> 63 = 0 ↔ _
  rw [Nat.shiftRight_eq_div_pow]
  omega

lemma shiftRight_eq_one_iff (x : UInt64) : x >>> 63 = 1 ↔ 2 ^ 63 ≤ x.toNat := by
  have hx := x.toNat_lt
  rw [← UInt64.toNat_inj, UInt64.toNat_shiftRight]
  show x.toNat >>> 63 = 1 ↔ _
  rw [Nat.shiftRight_eq_div_pow]
  omega

/-- The ordered bits of a double are its place in the total order, from `2 ^ 63` on. -/
theorem toNat_orderedBits (bits : UInt64) :
    ((orderedBits bits).toNat : ℤ) = totalOrderKey bits + 2 ^ 63 := by
  have h := bits.toNat_lt
  unfold orderedBits totalOrderKey
  by_cases hbits : bits.toNat < 2 ^ 63
  · rw [if_pos ((shiftRight_eq_zero_iff bits).2 hbits), if_pos hbits, toNat_xor_signBit,
      if_pos hbits]
    push_cast
    rfl
  · rw [if_neg (fun hz => hbits ((shiftRight_eq_zero_iff bits).1 hz)), if_neg hbits,
      UInt64.toNat_not]
    have hsize : UInt64.size = 2 ^ 64 := rfl
    rw [hsize]
    omega

lemma compare_beBytes_uint64 (x y : UInt64) :
    compare (beBytes 8 x.toNat) (beBytes 8 y.toNat) = compare (x.toNat : ℤ) y.toNat := by
  rw [compare_beBytes x.toNat_lt y.toNat_lt, compare_natCast]

lemma compare_add_right (x y c : ℤ) : compare (x + c) (y + c) = compare x y :=
  compare_eq_compare (by omega) (by omega)

lemma compare_orderedInt (a b : Int64) : compare (orderedInt a) (orderedInt b) = compare a b := by
  unfold orderedInt
  rw [compare_beBytes_uint64, toNat_toUInt64_xor_signBit, toNat_toUInt64_xor_signBit,
    compare_add_right, compare_int64]

lemma compare_orderedBits (a b : UInt64) :
    compare (beBytes 8 (orderedBits a).toNat) (beBytes 8 (orderedBits b).toNat) = totalCmp a b := by
  rw [compare_beBytes_uint64, toNat_orderedBits, toNat_orderedBits, compare_add_right]
  rfl

end

section

lemma eq_of_escaped_append : ∀ {x y}, escaped x <+: escaped y → x = y
  | [], [], _ => rfl
  | [], b :: y, h => by
    unfold escaped at h
    split_ifs at h with hb
    · simp at h
    · simp [Ne.symm hb] at h
  | a :: x, [], h => by
    unfold escaped at h
    split_ifs at h with ha
    · simp at h
    · simp [ha] at h
  | a :: x, b :: y, h => by
    rw [escaped, escaped] at h
    split_ifs at h with ha hb hb
    · rw [cons_prefix_cons, cons_prefix_cons] at h
      rw [ha, hb, eq_of_escaped_append h.2.2]
    · exact absurd (cons_prefix_cons.1 h).1.symm hb
    · exact absurd (cons_prefix_cons.1 h).1 ha
    · obtain ⟨rfl, htail⟩ := cons_prefix_cons.1 h
      rw [eq_of_escaped_append htail]

lemma compare_zero_of_ne_zero {b : UInt8} (h : b ≠ 0) : compare 0 b = .lt := by
  rw [compare_uint8, Nat.compare_eq_lt]
  have hne : b.toNat ≠ 0 := fun hz => h (UInt8.toNat_inj.1 hz)
  exact Nat.pos_of_ne_zero hne

lemma compare_escaped : ∀ x y, compare (escaped x) (escaped y) = compare x y
  | [], [] => rfl
  | [], b :: y => by
    rw [escaped, escaped, List.compare_nil_cons]
    split_ifs with hb
    · rfl
    · rw [List.compare_cons_cons, compare_zero_of_ne_zero hb, Ordering.lt_then]
  | a :: x, [] => by
    rw [escaped, escaped, List.compare_cons_nil]
    split_ifs with ha
    · rfl
    · rw [List.compare_cons_cons, Std.OrientedCmp.gt_iff_lt.2 (compare_zero_of_ne_zero ha),
        Ordering.gt_then]
  | a :: x, b :: y => by
    rw [escaped, escaped, List.compare_cons_cons]
    split_ifs with ha hb hb
    · rw [ha, hb, List.compare_cons_cons, List.compare_cons_cons, compare_escaped x y]
      rfl
    · rw [ha, List.compare_cons_cons, compare_zero_of_ne_zero hb, Ordering.lt_then,
        Ordering.lt_then]
    · rw [hb, List.compare_cons_cons, Std.OrientedCmp.gt_iff_lt.2 (compare_zero_of_ne_zero ha),
        Ordering.gt_then, Ordering.gt_then]
    · rw [List.compare_cons_cons, compare_escaped x y]

end

namespace RelationalValue

/-- The kinds that have an ordered encoding. -/
def isOrdered : RelationalValue → Bool
  | vector _ | overflow _ => false
  | _ => true

def isDated : RelationalValue → Bool
  | timestamp micros | timestampTz micros => timestampInRange micros
  | _ => true

/-- The encoding of a value after its tag. -/
def orderedPayload : RelationalValue → Bytes
  | null | vector _ | overflow _ => []
  | boolean value => [if value then 1 else 0]
  | bigInt value => orderedInt value
  | doublePrecision bits => beBytes 8 (orderedBits bits).toNat
  | decimal value => value.toOrderedBytes
  | text value => escaped (utf8 value)
  | bytea value => escaped value
  | uuid value => value.1
  | timestamp micros => orderedInt micros
  | timestampTz micros => orderedInt micros

lemma encode_of_isOrdered {v : RelationalValue} (h : v.isOrdered) :
    encodeOrderedRelationalValue v = .ok (v.kindRank :: v.orderedPayload) := by
  cases v <;> first | rfl | cases h

lemma of_encode {v : RelationalValue} (h : encodeOrderedRelationalValue v = .ok x) :
    v.isOrdered = true ∧ x = v.kindRank :: v.orderedPayload := by
  have hordered : v.isOrdered := by cases v <;> first | rfl | cases h
  rw [encode_of_isOrdered hordered] at h
  exact ⟨hordered, (Except.ok.inj h).symm⟩

@[simp] lemma length_orderedInt (v : Int64) : (orderedInt v).length = 8 := length_beBytes 8 _

lemma orderedPayload_spec {a b : RelationalValue} (hkind : a.kindRank = b.kindRank)
    (ha : a.isOrdered) :
    compare a.orderedPayload b.orderedPayload = a.cmpSameKind b ∧
      (a.orderedPayload <+: b.orderedPayload → a.orderedPayload = b.orderedPayload) := by
  have hfixed : ∀ {x y : Bytes} {n : ℕ}, x.length = n → y.length = n → x <+: y → x = y :=
    fun hx hy hp => hp.eq_of_length (hx.trans hy.symm)
  cases a <;> cases b <;> try (simp [kindRank] at hkind; done)
  case vector => cases ha
  case overflow => cases ha
  case null => exact ⟨rfl, fun _ => rfl⟩
  case boolean x y => exact ⟨by cases x <;> cases y <;> rfl, hfixed rfl rfl⟩
  case bigInt x y => exact ⟨compare_orderedInt x y, hfixed (length_orderedInt x) (length_orderedInt y)⟩
  case doublePrecision x y =>
    exact ⟨compare_orderedBits x y, hfixed (length_beBytes 8 _) (length_beBytes 8 _)⟩
  case decimal x y => exact ⟨rfl, hfixed x.length_toOrderedBytes y.length_toOrderedBytes⟩
  case text x y =>
    exact ⟨compare_escaped _ _, fun hp => congrArg escaped (eq_of_escaped_append hp)⟩
  case bytea x y =>
    exact ⟨compare_escaped _ _, fun hp => congrArg escaped (eq_of_escaped_append hp)⟩
  case uuid x y => exact ⟨rfl, hfixed x.2 y.2⟩
  case timestamp x y =>
    exact ⟨compare_orderedInt x y, hfixed (length_orderedInt x) (length_orderedInt y)⟩
  case timestampTz x y =>
    exact ⟨compare_orderedInt x y, hfixed (length_orderedInt x) (length_orderedInt y)⟩

end RelationalValue

lemma isOrderCode_value : IsOrderCode fun v x => encodeOrderedRelationalValue v = .ok x where
  ne_nil ha := by
    obtain ⟨-, rfl⟩ := of_encode ha
    exact cons_ne_nil _ _
  prefixFree ha hb hp := by
    obtain ⟨hordered, rfl⟩ := of_encode ha
    obtain ⟨-, rfl⟩ := of_encode hb
    obtain ⟨hkind, hp⟩ := List.cons_prefix_cons.1 hp
    rw [hkind, (orderedPayload_spec hkind hordered).2 hp]
  compare_eq {a b x y} ha hb := by
    obtain ⟨hordered, rfl⟩ := of_encode ha
    obtain ⟨-, rfl⟩ := of_encode hb
    rw [List.compare_cons_cons]
    show _ = (compare a.kindRank b.kindRank).then (a.cmpSameKind b)
    rcases hkind : compare a.kindRank b.kindRank
    · rfl
    · rw [(orderedPayload_spec (Std.LawfulEqOrd.eq_of_compare hkind) hordered).1]
    · rfl

/-- The encodings of a key's values, one by one. -/
abbrev IsEncodings : RelationalKey → List Bytes → Prop :=
  Forall₂ fun v x => encodeOrderedRelationalValue v = .ok x

lemma encodeLoop_eq : ∀ {key encoded x},
    encodeLoop encoded key = .ok x ↔ ∃ xs, IsEncodings key xs ∧ x = encoded ++ xs.flatten
  | [], encoded, x => by
    constructor
    · rintro ⟨⟩
      exact ⟨[], .nil, by simp⟩
    · rintro ⟨xs, hxs, rfl⟩
      cases hxs
      simp [encodeLoop]
  | v :: key, encoded, x => by
    unfold encodeLoop
    rcases hv : encodeOrderedRelationalValue v with e | bytes
    · refine ⟨nofun, ?_⟩
      rintro ⟨xs, hxs, -⟩
      cases hxs with
      | cons hhead _ => cases hv.symm.trans hhead
    · dsimp only
      rw [encodeLoop_eq]
      constructor
      · rintro ⟨xs, hxs, rfl⟩
        exact ⟨bytes :: xs, .cons hv hxs, by simp⟩
      · rintro ⟨xs, hxs, rfl⟩
        cases hxs with
        | cons hhead htail =>
          cases hv.symm.trans hhead
          exact ⟨_, htail, by simp⟩

lemma encodeOrderedRelationalKey_eq : encodeOrderedRelationalKey key = .ok x ↔
      key ≠ [] ∧ ∃ xs, IsEncodings key xs ∧ x = xs.flatten := by
  unfold encodeOrderedRelationalKey
  cases key with
  | nil => exact ⟨nofun, fun h => absurd rfl h.1⟩
  | cons v key => simp [encodeLoop_eq]

namespace OrderedKeyDecoder

lemma fixed_append {x : Bytes} (hx : x.length = n) (context : String) (rest : Bytes) :
    fixed n context (x ++ rest) = .ok (⟨x, hx⟩, rest) := by
  subst hx
  rw [fixed, dif_pos (by rw [length_append]; exact Nat.le_add_right _ _)]
  simp only [take_left, drop_left]

lemma walkEscaped_append : ∀ x rest, walkEscaped (escaped x ++ rest) = .ok (x, rest)
  | [], rest => by simp [escaped, walkEscaped]
  | b :: x, rest => by
    unfold escaped
    split_ifs with hb
    · simp [hb, walkEscaped, walkEscaped_append x rest]
    · simp [hb, walkEscaped.eq_def (b :: _), walkEscaped_append x rest]

lemma fromUtf8_utf8 (s : String) : fromUtf8 (utf8 s) = .ok s := by rw [fromUtf8, textOfUtf8_utf8]

lemma ofNat_beNat (x : UInt64) : UInt64.ofNat (beNat (beBytes 8 x.toNat)) = x := by
  rw [beNat_beBytes x.toNat_lt, UInt64.ofNat_toNat]

lemma signedOf_orderedInt (v : Int64) : signedOf ⟨orderedInt v, length_beBytes 8 _⟩ = v := by
  unfold signedOf orderedInt
  rw [ofNat_beNat, xor_signBit_xor_signBit]
  simp

lemma bitsOf_orderedBits (bits : UInt64) :
    bitsOf ⟨beBytes 8 (orderedBits bits).toNat, length_beBytes 8 _⟩ = bits := by
  have h := bits.toNat_lt
  unfold bitsOf
  dsimp only
  rw [ofNat_beNat]
  unfold orderedBits
  by_cases hbits : bits.toNat < 2 ^ 63
  · rw [if_pos ((shiftRight_eq_zero_iff bits).2 hbits), if_pos ((shiftRight_eq_one_iff _).2 (by
      rw [toNat_xor_signBit, if_pos hbits]; omega)), xor_signBit_xor_signBit]
  rw [if_neg fun hz => hbits ((shiftRight_eq_zero_iff bits).1 hz), if_neg fun hone => ?_,
    UInt64.not_not]
  have hle := (shiftRight_eq_one_iff _).1 hone
  rw [UInt64.toNat_not] at hle
  simp only [UInt64.size] at hle
  omega

lemma andThen_of_eq {α β : Type} {decoder : OrderedKeyDecoder α} {encoded rest : Bytes} {a : α}
    (h : decoder encoded = .ok (a, rest)) (convert : α → Except OrderedRelationalKeyError β) :
    decoder.andThen convert encoded = (convert a).map fun b => (b, rest) := by
  rw [andThen, h]

lemma timestamp_append {micros : Int64} (h : timestampInRange micros)
    (kind : Int64 → RelationalValue) (rest : Bytes) :
    timestamp kind (orderedInt micros ++ rest) = .ok (kind micros, rest) := by
  rw [timestamp, andThen_of_eq (fixed_append (length_orderedInt micros) _ rest),
    signedOf_orderedInt, if_pos h]
  rfl

lemma value_append {v : RelationalValue} {x : Bytes} (hv : encodeOrderedRelationalValue v = .ok x)
    (hdated : v.isDated) (rest : Bytes) :
    ∃ v', value (x ++ rest) = .ok (v', rest) ∧ compare v' v = .eq := by
  obtain ⟨hordered, rfl⟩ := of_encode hv
  have hexact : value (v.kindRank :: v.orderedPayload ++ rest) = .ok (v, rest) →
      ∃ v', value (v.kindRank :: v.orderedPayload ++ rest) = .ok (v', rest) ∧ compare v' v = .eq :=
    fun h => ⟨v, h, Std.ReflCmp.compare_self⟩
  cases v with
  | vector _ => cases hordered
  | overflow _ => cases hordered
  | null => exact hexact rfl
  | boolean b => cases b <;> exact hexact rfl
  | bigInt v =>
    refine hexact ?_
    show ((fixed 8 "BIGINT value").andThen fun bytes =>
      .ok (bigInt (signedOf bytes)))
      (orderedInt v ++ rest) = _
    rw [andThen_of_eq (fixed_append (length_orderedInt v) _ rest), signedOf_orderedInt]
    rfl
  | doublePrecision bits =>
    refine hexact ?_
    show ((fixed 8 "DOUBLE PRECISION value").andThen fun bytes =>
      .ok (doublePrecision (bitsOf bytes)))
      (beBytes 8 (orderedBits bits).toNat ++ rest) = _
    rw [andThen_of_eq (fixed_append (length_beBytes 8 _) _ rest), bitsOf_orderedBits]
    rfl
  | decimal d =>
    obtain ⟨d', hd', hcompare⟩ := d.fromOrderedBytes_toOrderedBytes
    refine ⟨.decimal d', ?_, hcompare⟩
    show decimal (d.toOrderedBytes ++ rest) = _
    rw [decimal, andThen_of_eq (fixed_append d.length_toOrderedBytes _ rest), hd']
    rfl
  | text s =>
    refine hexact ?_
    show (walkEscaped.andThen fun bytes => (fromUtf8 bytes).map text) (escaped (utf8 s) ++ rest) = _
    rw [andThen_of_eq (walkEscaped_append _ rest), fromUtf8_utf8]
    rfl
  | bytea b =>
    refine hexact ?_
    show (walkEscaped.andThen fun bytes => .ok (bytea bytes)) (escaped b ++ rest) = _
    rw [andThen_of_eq (walkEscaped_append _ rest)]
    rfl
  | uuid u =>
    refine hexact ?_
    show ((fixed 16 "UUID value").andThen fun bytes => .ok (uuid bytes)) (u.1 ++ rest) = _
    rw [andThen_of_eq (fixed_append u.2 _ rest)]
    rfl
  | timestamp micros => exact hexact (timestamp_append hdated _ rest)
  | timestampTz micros => exact hexact (timestamp_append hdated _ rest)

lemma keyLoop_of_ne_nil (hne : encoded ≠ []) (key : RelationalKey) :
    keyLoop encoded key =
      match value encoded with
      | .error e => .error e
      | .ok (v, rest) => keyLoop rest (key ++ [v]) := by
  rw [keyLoop, if_neg hne]
  split <;> simp [*]

lemma keyLoop_flatten : ∀ {key xs}, IsEncodings key xs → (∀ v ∈ key, v.isDated) → ∀ decoded,
    ∃ key', keyLoop xs.flatten decoded = .ok (decoded ++ key') ∧
      key'.length = key.length ∧ compare key' key = .eq
  | [], _, .nil, _, decoded => ⟨[], by rw [flatten_nil, keyLoop]; simp, rfl, rfl⟩
  | v :: key, x :: xs, .cons hv hkey, hdated, decoded => by
    obtain ⟨v', hv', hcompare⟩ := value_append hv (hdated v mem_cons_self) xs.flatten
    obtain ⟨key', hkey', hlength, hcompare'⟩ := keyLoop_flatten hkey
      (fun u hu => hdated u (mem_cons_of_mem _ hu)) (decoded ++ [v'])
    refine ⟨v' :: key', ?_, by rw [length_cons, hlength, length_cons], ?_⟩
    · have hne : x ++ xs.flatten ≠ [] :=
        append_ne_nil_of_left_ne_nil (isOrderCode_value.ne_nil hv) _
      rw [flatten_cons, keyLoop_of_ne_nil hne, hv']
      dsimp only
      rw [hkey', append_assoc]
      rfl
    · rw [List.compare_cons_cons, hcompare, hcompare']
      rfl

end OrderedKeyDecoder

lemma decodeOrderedRelationalKey_encode
    (h : encodeOrderedRelationalKey key = .ok x) (hdated : ∀ v ∈ key, v.isDated) :
    ∃ key', decodeOrderedRelationalKey x = .ok key' ∧ RelationalKey.eq key' key := by
  obtain ⟨hne, xs, hxs, rfl⟩ := encodeOrderedRelationalKey_eq.1 h
  obtain ⟨key', hkey', hlength, hcompare⟩ := OrderedKeyDecoder.keyLoop_flatten hxs hdated []
  refine ⟨key', ?_, by simpa [RelationalKey.eq] using hcompare⟩
  have hne' : key'.isEmpty = false := by
    cases key' with
    | nil => exact absurd (length_eq_zero_iff.1 hlength.symm) hne
    | cons _ _ => rfl
  rw [decodeOrderedRelationalKey, hkey', nil_append]
  dsimp only
  rw [hne']
  rfl

lemma exists_encodeOrderedRelationalKey (hne : key ≠ [])
    (hordered : ∀ v ∈ key, v.isOrdered) : ∃ x, encodeOrderedRelationalKey key = .ok x := by
  suffices h : ∃ xs, IsEncodings key xs by
    obtain ⟨xs, hxs⟩ := h
    exact ⟨_, encodeOrderedRelationalKey_eq.2 ⟨hne, xs, hxs, rfl⟩⟩
  clear hne
  induction key with
  | nil => exact ⟨[], .nil⟩
  | cons v key ih =>
    obtain ⟨xs, hxs⟩ := ih fun u hu => hordered u (mem_cons_of_mem _ hu)
    exact ⟨_ :: xs, .cons (encode_of_isOrdered (hordered v mem_cons_self)) hxs⟩

lemma compare_encodeOrderedRelationalKey
    (ha : encodeOrderedRelationalKey a = .ok x) (hb : encodeOrderedRelationalKey b = .ok y) :
    compare x y = compare a b := by
  obtain ⟨-, xs, hxs, rfl⟩ := encodeOrderedRelationalKey_eq.1 ha
  obtain ⟨-, ys, hys, rfl⟩ := encodeOrderedRelationalKey_eq.1 hb
  exact isOrderCode_value.compare_flatten hxs hys

/-- Keys of ordered kinds are encoded in their order, one for each class of equal keys; no value's
encoding starts another's; an encoding is decoded to an equal key, if its timestamps are dates; and
decimals are in the order of the numbers they stand for. -/
theorem ordered_key_encoding (a b : RelationalKey) (ha : a ≠ []) (hb : b ≠ [])
    (hordered : ∀ v ∈ a ++ b, v.isOrdered = true) :
    (∃ x y, encodeOrderedRelationalKey a = .ok x ∧ encodeOrderedRelationalKey b = .ok y ∧
      compare x y = compare a b ∧ (x = y ↔ RelationalKey.eq a b = true) ∧
      ((∀ v ∈ a, v.isDated = true) →
        ∃ a', decodeOrderedRelationalKey x = .ok a' ∧ RelationalKey.eq a' a = true)) ∧
    (∀ u ∈ a ++ b, ∀ v ∈ a ++ b, ∀ p q, encodeOrderedRelationalValue u = .ok p →
      encodeOrderedRelationalValue v = .ok q → p <+: q → p = q) ∧
    ∀ d e : Decimal, compare (RelationalValue.decimal d) (.decimal e) = compare d.value e.value := by
  obtain ⟨x, hx⟩ := exists_encodeOrderedRelationalKey ha fun v hv =>
    hordered v (mem_append_left _ hv)
  obtain ⟨y, hy⟩ := exists_encodeOrderedRelationalKey hb fun v hv =>
    hordered v (mem_append_right _ hv)
  have hcompare := compare_encodeOrderedRelationalKey hx hy
  refine ⟨⟨x, y, hx, hy, hcompare, ?_, decodeOrderedRelationalKey_encode hx⟩,
    fun u _ v _ p q hp hq => isOrderCode_value.prefixFree hp hq, fun d e => ?_⟩
  · rw [RelationalKey.eq, decide_eq_true_iff, ← hcompare, Std.compare_eq_iff_eq]
  · exact (show compare (decimal d) (.decimal e) = compare d e from rfl).trans
      (Decimal.compare_eq_compare_value d e)

theorem ordered_key_encoding_prefixKey :
    let a : RelationalKey := [.text "a", .decimal ⟨-15, 1, by decide, by decide⟩, .timestamp 7]
    let b : RelationalKey := [.text "a"]
    ∃ x y, encodeOrderedRelationalKey a = .ok x ∧ encodeOrderedRelationalKey b = .ok y ∧
      compare x y = .gt ∧ ∃ a', decodeOrderedRelationalKey x = .ok a' ∧
        RelationalKey.eq a' a = true := by
  intro a b
  obtain ⟨⟨x, y, hx, hy, hcompare, -, hdecode⟩, -, -⟩ :=
    ordered_key_encoding a b (cons_ne_nil _ _) (cons_ne_nil _ _) (by decide)
  exact ⟨x, y, hx, hy, hcompare.trans (by decide +kernel), hdecode (by decide)⟩

/-- A timestamp beyond the last date is encoded, and the encoding is not decoded. -/
theorem decode_rejects_encoded_timestamp :
    ∃ x, encodeOrderedRelationalKey [.timestamp Int64.maxValue] = .ok x ∧
      decodeOrderedRelationalKey x =
        .error (.corrupt "relational corruption: TIMESTAMP value is out of range") := by
  refine ⟨_, rfl, ?_⟩
  rw [decodeOrderedRelationalKey, OrderedKeyDecoder.keyLoop]
  rfl

end HawDB
