import HawDB.OrderedKeyWalk
import HawDB.Proofs.OrderedKey

/-!
# The walkers over ordered keys agree, up to texts

A decoder is undone by the encoder (`of_value`), so a key that decodes is the concatenation of the
encodings of its values, and every walker finds them there. The walkers that skip do not look into
texts (`ordered_key_walkers`).
-/

namespace HawDB

open List

namespace OrderedKeyDecoder

variable {n : ℕ} {encoded rest : Bytes} {β : Type}

section

lemma fixed_eq_ok {a : ByteArr n} (h : fixed n context encoded = .ok (a, rest)) :
    encoded = a.1 ++ rest := by
  unfold fixed at h
  split_ifs at h
  cases h
  exact (take_append_drop n encoded).symm

lemma andThen_eq_ok {α : Type} {decoder : OrderedKeyDecoder α}
    {convert : α → Except OrderedRelationalKeyError β} :
    decoder.andThen convert encoded = .ok (b, rest) ↔
      ∃ a, decoder encoded = .ok (a, rest) ∧ convert a = .ok b := by
  unfold andThen
  rcases decoder encoded with e | ⟨a, rest'⟩
  · simp
  · rcases hconvert : convert a with e | b' <;> simp [Except.map, hconvert]
    tauto

lemma of_walkEscaped : ∀ {x rest},
    walkEscaped encoded = .ok (x, rest) → encoded = escaped x ++ rest := by
  fun_induction walkEscaped encoded with
  | case1 | case2 | case4 | case6 | case8 => exact fun h => by cases h
  | case3 byte rest hbyte decoded rest' hwalk ih =>
    rintro x rest ⟨⟩
    rw [escaped, if_neg hbyte, ih hwalk]
    rfl
  | case5 byte hbyte rest =>
    rintro x rest ⟨⟩
    rw [not_not.1 hbyte]
    rfl
  | case7 byte hbyte rest decoded rest' hwalk _ ih =>
    rintro x rest ⟨⟩
    rw [not_not.1 hbyte, ih hwalk]
    rfl

lemma utf8_of_fromUtf8 (h : fromUtf8 bytes = .ok s) : utf8 s = bytes := by
  unfold fromUtf8 at h
  split at h <;> cases h
  exact utf8_of_textOfUtf8 ‹_›

lemma beBytes_toNat_ofNat (a : ByteArr 8) : beBytes 8 (UInt64.ofNat (beNat a.1)).toNat = a.1 := by
  have hlt : beNat a.1 < 2 ^ 64 := by
    have := beNat_lt a.1
    rwa [a.2] at this
  have hdigits := beDigits_beValue (by norm_num) le_rfl a.1 fun d _ => d.toNat_lt
  rw [a.2] at hdigits
  rw [UInt64.toNat_ofNat', Nat.mod_eq_of_lt hlt]
  exact hdigits

lemma orderedInt_signedOf (a : ByteArr 8) : orderedInt (signedOf a) = a.1 := by
  unfold orderedInt signedOf
  rw [UInt64.toUInt64_toInt64, xor_signBit_xor_signBit, beBytes_toNat_ofNat]

lemma orderedBits_bitsOf (a : ByteArr 8) : beBytes 8 (orderedBits (bitsOf a)).toNat = a.1 := by
  suffices h : orderedBits (bitsOf a) = UInt64.ofNat (beNat a.1) by rw [h, beBytes_toNat_ofNat]
  unfold orderedBits bitsOf
  generalize UInt64.ofNat (beNat a.1) = x
  have hx := x.toNat_lt
  by_cases hhigh : 2 ^ 63 ≤ x.toNat
  · rw [if_pos ((shiftRight_eq_one_iff x).2 hhigh), if_pos ((shiftRight_eq_zero_iff _).2 (by
      rw [toNat_xor_signBit, if_neg (by omega)]; omega)), xor_signBit_xor_signBit]
  rw [if_neg fun hone => hhigh ((shiftRight_eq_one_iff x).1 hone), if_neg fun hzero => ?_,
    UInt64.not_not]
  have hlt := (shiftRight_eq_zero_iff _).1 hzero
  rw [UInt64.toNat_not] at hlt
  simp only [UInt64.size] at hlt
  omega

end

lemma of_value {v : RelationalValue} (h : value encoded = .ok (v, rest)) :
    v.isDated = true ∧ ∃ x, encodeOrderedRelationalValue v = .ok x ∧ encoded = x ++ rest := by
  cases encoded with
  | nil => cases h
  | cons tag bytes =>
    have h : payload tag bytes = .ok (v, rest) := h
    generalize hdecoder : payload tag = decoder at h
    unfold payload at hdecoder
    split at hdecoder <;> subst hdecoder <;> rename_i htag
    case h_11 => cases h
    all_goals
      have htag := congrArg UInt8.ofNat htag
      rw [UInt8.ofNat_toNat] at htag
      subst htag
    case h_1 =>
      cases h
      exact ⟨rfl, _, rfl, rfl⟩
    case h_7 =>
      obtain ⟨a, ha, hd⟩ := andThen_eq_ok.1 h
      rcases hdecimal : Decimal.fromOrderedBytes a.1 with e | d
      · rw [hdecimal] at hd
        cases hd
      rw [hdecimal] at hd
      cases hd
      refine ⟨rfl, _, rfl, ?_⟩
      rw [fixed_eq_ok ha, Decimal.toOrderedBytes_of_fromOrderedBytes a.2 hdecimal]
      rfl
    all_goals obtain ⟨a, ha, hv⟩ := andThen_eq_ok.1 h
    case h_2 =>
      cases bytes with
      | nil => cases ha
      | cons b bytes =>
        cases ha
        unfold booleanOf at hv
        split_ifs at hv with hfalse htrue
        · cases hv
          exact ⟨rfl, _, rfl, by rw [hfalse]; rfl⟩
        · cases hv
          exact ⟨rfl, _, rfl, by rw [htrue]; rfl⟩
    case h_3 =>
      cases hv
      refine ⟨rfl, _, rfl, ?_⟩
      rw [fixed_eq_ok ha, orderedInt_signedOf]
      rfl
    case h_4 =>
      cases hv
      refine ⟨rfl, _, rfl, ?_⟩
      rw [fixed_eq_ok ha, orderedBits_bitsOf]
      rfl
    case h_5 =>
      rcases hs : fromUtf8 a with e | s
      · rw [hs] at hv
        cases hv
      rw [hs] at hv
      cases hv
      refine ⟨rfl, _, rfl, ?_⟩
      rw [of_walkEscaped ha, utf8_of_fromUtf8 hs]
      rfl
    case h_6 =>
      cases hv
      refine ⟨rfl, _, rfl, ?_⟩
      rw [of_walkEscaped ha]
      rfl
    case h_8 =>
      cases hv
      refine ⟨rfl, _, rfl, ?_⟩
      rw [fixed_eq_ok ha]
      rfl
    all_goals
      split_ifs at hv with hdated
      cases hv
      refine ⟨hdated, _, rfl, ?_⟩
      rw [fixed_eq_ok ha, orderedInt_signedOf]
      rfl

lemma andThen_andThen {α γ : Type} (decoder : OrderedKeyDecoder α)
    (f : α → Except OrderedRelationalKeyError β) (g : β → Except OrderedRelationalKeyError γ) :
    (decoder.andThen f).andThen g = decoder.andThen fun a => (f a).bind g := by
  funext encoded
  unfold andThen
  rcases decoder encoded with e | ⟨a, rest⟩
  · rfl
  · rcases hf : f a with e | b <;> simp [Except.map, Except.bind, hf]

lemma skipFixed_andThen (context : String) (b : β) :
    (skipFixed n context).andThen (fun _ => .ok b) = (fixed n context).andThen fun _ => .ok b := by
  funext encoded
  unfold andThen skipFixed fixed
  by_cases hn : n ≤ encoded.length
  · simp [Nat.not_lt.2 hn, hn, Except.map]
  · simp [Nat.not_le.1 hn, hn]

lemma skipPayload_eq (htag : tag ≠ 4) :
    skipPayload tag = (payload tag).andThen fun v => .ok (decide (v = .null)) := by
  have hne : tag.toNat ≠ 4 := fun h => htag (UInt8.toNat_inj.1 h)
  unfold skipPayload payload
  generalize tag.toNat = n at hne
  split
  case h_5 => exact absurd rfl hne
  case h_1 => rfl
  case h_11 => split <;> first | rfl | contradiction
  case h_2 =>
    simp only [andThen_andThen]
    congr 1
    funext b
    unfold booleanOf
    split_ifs <;> first | rfl | simp_all
  case h_8 =>
    simp only [decimal, andThen_andThen]
    congr 1
    funext a
    rcases Decimal.fromOrderedBytes a.1 with e | d <;> rfl
  case h_9 | h_10 =>
    simp only [timestamp, andThen_andThen]
    congr 1
    funext a
    split_ifs <;> rfl
  all_goals
    simp only [andThen_andThen, skipFixed_andThen]
    rfl

lemma skipValue_of_value (h : value encoded = .ok (v, rest)) :
    ∃ null, skipValue encoded = .ok (null, rest) := by
  cases encoded with
  | nil => cases h
  | cons tag bytes =>
    have h : payload tag bytes = .ok (v, rest) := h
    show ∃ null, skipPayload tag bytes = _
    by_cases htag : tag = 4
    · subst htag
      obtain ⟨a, ha, -⟩ := andThen_eq_ok.1 h
      exact ⟨_, andThen_eq_ok.2 ⟨a, ha, rfl⟩⟩
    · rw [skipPayload_eq htag]
      exact ⟨_, andThen_eq_ok.2 ⟨v, h, rfl⟩⟩

section

/-- A text that is not UTF-8. -/
def IsInvalidText (x : Bytes) : Prop :=
  ∃ bytes e, x = 4 :: escaped bytes ∧ fromUtf8 bytes = .error e

def IsEncoding (x : Bytes) : Prop :=
  ∃ v, encodeOrderedRelationalValue v = .ok x ∧ v.isDated

/-- The encoding of a value, or a text that is not UTF-8. -/
def IsKeyField (x : Bytes) : Prop := IsEncoding x ∨ IsInvalidText x

lemma skipValue_append (h : IsKeyField x) (rest : Bytes) :
    ∃ null, skipValue (x ++ rest) = .ok (null, rest) := by
  rcases h with ⟨v, hv, hdated⟩ | ⟨bytes, -, rfl, -⟩
  · obtain ⟨v', hv', -⟩ := value_append hv hdated rest
    exact skipValue_of_value hv'
  · exact ⟨false, andThen_eq_ok.2 ⟨bytes, walkEscaped_append bytes rest, rfl⟩⟩

lemma of_skipValue (h : skipValue encoded = .ok (null, rest)) :
    ∃ x, IsKeyField x ∧ encoded = x ++ rest := by
  cases encoded with
  | nil => cases h
  | cons tag bytes =>
    have h : skipPayload tag bytes = .ok (null, rest) := h
    by_cases htag : tag = 4
    · subst htag
      obtain ⟨a, ha, -⟩ := andThen_eq_ok.1 h
      refine ⟨4 :: escaped a, ?_, congrArg (cons 4) (of_walkEscaped ha)⟩
      rcases hs : fromUtf8 a with e | s
      · exact .inr ⟨a, e, rfl, hs⟩
      · exact .inl ⟨.text s, by rw [← utf8_of_fromUtf8 hs]; rfl, rfl⟩
    · rw [skipPayload_eq htag] at h
      obtain ⟨v, hv, -⟩ := andThen_eq_ok.1 h
      have hvalue : value (tag :: bytes) = .ok (v, rest) := hv
      obtain ⟨hdated, x, hx, heq⟩ := of_value hvalue
      exact ⟨x, .inl ⟨v, hx, hdated⟩, heq⟩

lemma IsKeyField.append_ne_nil (h : IsKeyField x) (rest : Bytes) : x ++ rest ≠ [] := by
  obtain ⟨null, hskip⟩ := skipValue_append h rest
  intro hnil
  rw [hnil] at hskip
  cases hskip

lemma eq_of_flatten_eq : ∀ {xs ys : List Bytes}, (∀ x ∈ xs, IsKeyField x) → (∀ y ∈ ys, IsKeyField y) →
    xs.flatten = ys.flatten → xs = ys
  | [], [], _, _, _ => rfl
  | [], y :: ys, _, hys, h => absurd h.symm ((hys y mem_cons_self).append_ne_nil _)
  | x :: xs, [], hxs, _, h => absurd h ((hxs x mem_cons_self).append_ne_nil _)
  | x :: xs, y :: ys, hxs, hys, h => by
    rw [forall_mem_cons] at hxs hys
    rw [flatten_cons, flatten_cons] at h
    obtain ⟨_, hx⟩ := skipValue_append hxs.1 xs.flatten
    obtain ⟨_, hy⟩ := skipValue_append hys.1 ys.flatten
    rw [h, hy] at hx
    have hrest : ys.flatten = xs.flatten := (Prod.mk.inj (Except.ok.inj hx)).2
    rw [← hrest, append_cancel_right_eq] at h
    rw [h, eq_of_flatten_eq hxs.2 hys.2 hrest.symm]

/-- The bytes are fields, one of them a text that is not UTF-8. -/
def HasInvalidText (encoded : Bytes) : Prop :=
  ∃ xs : List Bytes, (∀ x ∈ xs, IsKeyField x) ∧ encoded = xs.flatten ∧ ∃ x ∈ xs, IsInvalidText x

def IsFields (encoded : Bytes) : Prop :=
  ∃ xs : List Bytes, (∀ x ∈ xs, IsKeyField x) ∧ encoded = xs.flatten

lemma IsFields.of_skipValue (hskip : skipValue encoded = .ok (null, rest)) :
    IsFields rest → IsFields encoded := by
  rintro ⟨xs, hxs, rfl⟩
  obtain ⟨x, hx, rfl⟩ := OrderedKeyDecoder.of_skipValue hskip
  exact ⟨x :: xs, forall_mem_cons.2 ⟨hx, hxs⟩, rfl⟩

end

section

lemma of_validateLoop : validateLoop encoded n = .ok m → IsFields encoded := by
  fun_induction validateLoop encoded n with
  | case1 => exact fun _ => ⟨[], by simp, rfl⟩
  | case2 => exact nofun
  | case3 encoded n _ null rest hskip ih => exact fun h => .of_skipValue hskip (ih h)

lemma validateLoop_flatten : ∀ {xs : List Bytes}, (∀ x ∈ xs, IsKeyField x) → ∀ n,
    validateLoop xs.flatten n = .ok (n + xs.length)
  | [], _, n => by rw [validateLoop]; simp
  | x :: xs, hxs, n => by
    rw [forall_mem_cons] at hxs
    obtain ⟨_, hskip⟩ := skipValue_append hxs.1 xs.flatten
    rw [flatten_cons, validateLoop, if_neg (hxs.1.append_ne_nil _)]
    split <;> simp_all [validateLoop_flatten hxs.2]
    omega

lemma of_endsLoop : endsLoop total encoded ends leading sawNull = .ok r → IsFields encoded := by
  fun_induction endsLoop total encoded ends leading sawNull with
  | case1 => exact fun _ => ⟨[], by simp, rfl⟩
  | case2 => exact nofun
  | case3 encoded ends leading sawNull _ null rest hskip _ ih =>
    exact fun h => .of_skipValue hskip (ih h)

/-- The offsets at which fields end that follow each other from an offset on. -/
def fieldEnds (start : ℕ) : List Bytes → List ℕ
  | [] => []
  | x :: xs => (start + x.length) :: fieldEnds (start + x.length) xs

lemma endsLoop_flatten : ∀ {xs}, (∀ x ∈ xs, IsKeyField x) →
    ∀ {start}, start + xs.flatten.length = total → ∀ ends leading sawNull,
    ∃ leading', endsLoop total xs.flatten ends leading sawNull =
      .ok (ends ++ fieldEnds start xs, leading')
  | [], _, start, _, ends, leading, sawNull => ⟨leading, by rw [endsLoop]; simp [fieldEnds]⟩
  | x :: xs, hxs, start, htotal, ends, leading, sawNull => by
    rw [forall_mem_cons] at hxs
    obtain ⟨null, hskip⟩ := skipValue_append hxs.1 xs.flatten
    rw [flatten_cons, length_append] at htotal
    rw [flatten_cons, endsLoop, if_neg (hxs.1.append_ne_nil _)]
    split
    · rename_i e he
      cases hskip.symm.trans he
    rename_i _ rest hrest
    cases (hskip.symm.trans hrest)
    have hstart : start + x.length + xs.flatten.length = total := by omega
    obtain ⟨leading', h⟩ := endsLoop_flatten hxs.2 hstart (ends ++ [start + x.length])
      (if (sawNull || null) = true then leading else leading + 1) (sawNull || null)
    rw [← hstart, Nat.add_sub_cancel, hstart]
    exact ⟨leading', by rw [h, append_assoc]; rfl⟩

lemma of_keyLoop : keyLoop encoded decoded = .ok key → ∃ key' xs, key = decoded ++ key' ∧
      encoded = xs.flatten ∧ (∀ x ∈ xs, IsEncoding x) ∧ IsEncodings key' xs := by
  fun_induction keyLoop encoded decoded with
  | case1 decoded => exact fun h => ⟨[], [], by simpa using (Except.ok.inj h).symm, rfl, by simp, .nil⟩
  | case2 => exact nofun
  | case3 encoded decoded _ v rest hvalue ih =>
    intro h
    obtain ⟨hdated, x, hx, rfl⟩ := of_value hvalue
    obtain ⟨key', xs, rfl, rfl, hxs, hkey⟩ := ih h
    exact ⟨v :: key', x :: xs, by simp, rfl,
      forall_mem_cons.2 ⟨⟨v, hx, hdated⟩, hxs⟩, .cons hx hkey⟩

lemma elim_valueInto (target : Option RelationalValue) : target.elim value valueInto = value := by
  cases target with
  | none => rfl
  | some target => exact valueInto_eq target

lemma intoLoop_spec (encoded : Bytes) {key : RelationalKey} {count : ℕ} (h : count ≤ key.length) :
    match keyLoop encoded (key.take count) with
    | .error e => intoLoop encoded key count = .error e
    | .ok k => ∃ key', intoLoop encoded key count = .ok (key', k.length) ∧ key'.take k.length = k := by
  fun_induction intoLoop encoded key count with
  | case1 key count =>
    rw [keyLoop, if_pos rfl]
    exact ⟨key, by rw [length_take, Nat.min_eq_left h], by simp⟩
  | case2 encoded key count hne e hvalue =>
    rw [elim_valueInto] at hvalue
    rw [keyLoop_of_ne_nil hne, hvalue]
  | case3 encoded key count hne v rest hvalue ih =>
    rw [elim_valueInto] at hvalue
    have hcount : count + 1 ≤ (if count < key.length then key.set count v else key ++ [v]).length := by
      split_ifs <;> simp <;> omega
    have htake : (if count < key.length then key.set count v else key ++ [v]).take (count + 1) =
        key.take count ++ [v] := by
      split_ifs with hlt
      · rw [take_add_one, getElem?_set_self hlt, take_set_of_le le_rfl]
        rfl
      · obtain rfl : count = key.length := by omega
        simp
    rw [keyLoop_of_ne_nil hne, hvalue]
    dsimp only
    rw [← htake]
    simpa using ih (by simpa using hcount)

end

end OrderedKeyDecoder

open OrderedKeyDecoder

variable {encoded : Bytes}

lemma validateOrderedRelationalKey_eq :
    validateOrderedRelationalKey encoded = .ok () ↔
      ∃ xs : List Bytes, xs ≠ [] ∧ (∀ x ∈ xs, IsKeyField x) ∧ encoded = xs.flatten := by
  unfold validateOrderedRelationalKey
  constructor
  · intro h
    rcases hloop : validateLoop encoded 0 with e | n
    · rw [hloop] at h
      cases h
    obtain ⟨xs, hxs, rfl⟩ := of_validateLoop hloop
    refine ⟨xs, ?_, hxs, rfl⟩
    rintro rfl
    rw [validateLoop_flatten hxs] at h
    cases h
  · rintro ⟨xs, hne, hxs, rfl⟩
    rw [validateLoop_flatten hxs]
    simp [hne]

lemma orderedRelationalKeyPrefixEnds_flatten {xs : List Bytes} (hne : xs ≠ [])
    (hxs : ∀ x ∈ xs, IsKeyField x) :
    ∃ leading, orderedRelationalKeyPrefixEnds xs.flatten = .ok (fieldEnds 0 xs, leading) := by
  obtain ⟨leading, h⟩ := endsLoop_flatten hxs (Nat.zero_add _) [] 0 false
  have hends : fieldEnds 0 xs ≠ [] := by
    cases xs with
    | nil => exact absurd rfl hne
    | cons x xs => exact cons_ne_nil _ _
  rw [nil_append] at h
  exact ⟨leading, by rw [orderedRelationalKeyPrefixEnds, h]; exact if_neg hends⟩

lemma of_orderedRelationalKeyPrefixEnds (h : orderedRelationalKeyPrefixEnds encoded = .ok r) :
    validateOrderedRelationalKey encoded = .ok () := by
  unfold orderedRelationalKeyPrefixEnds at h
  rcases hloop : endsLoop encoded.length encoded [] 0 false with e | ⟨ends, leading⟩
  · rw [hloop] at h
    cases h
  obtain ⟨xs, hxs, rfl⟩ := of_endsLoop hloop
  refine validateOrderedRelationalKey_eq.2 ⟨xs, ?_, hxs, rfl⟩
  rintro rfl
  rw [flatten_nil, endsLoop, if_pos rfl] at h
  cases h

lemma decodeOrderedRelationalKeyInto_eq (encoded : Bytes) (target : RelationalKey) :
    decodeOrderedRelationalKeyInto encoded target = decodeOrderedRelationalKey encoded := by
  have h := intoLoop_spec encoded (Nat.zero_le target.length)
  rw [take_zero] at h
  unfold decodeOrderedRelationalKeyInto decodeOrderedRelationalKey
  rcases hloop : keyLoop encoded [] with e | key
  · rw [hloop] at h
    rw [h]
  rw [hloop] at h
  obtain ⟨key', hinto, htake⟩ := h
  rw [hinto]
  simp [htake, noValuesError]

lemma of_decodeOrderedRelationalKey (h : decodeOrderedRelationalKey encoded = .ok key) :
    key ≠ [] ∧ ∃ xs, xs ≠ [] ∧ encoded = xs.flatten ∧ (∀ x ∈ xs, IsEncoding x) ∧
      IsEncodings key xs := by
  unfold decodeOrderedRelationalKey at h
  rcases hloop : keyLoop encoded [] with e | key'
  · rw [hloop] at h
    cases h
  rw [hloop] at h
  dsimp only at h
  split_ifs at h with hempty
  cases h
  obtain ⟨decoded, xs, heq, rfl, hxs, hkey⟩ := of_keyLoop hloop
  obtain rfl : key = decoded := heq
  have hne : key ≠ [] := by simpa using hempty
  refine ⟨hne, xs, ?_, rfl, hxs, hkey⟩
  rintro rfl
  cases hkey
  exact hne rfl

lemma not_isInvalidText (h : IsEncoding x) : ¬IsInvalidText x := by
  rintro ⟨bytes, e, rfl, hbytes⟩
  obtain ⟨v, hv, -⟩ := h
  obtain ⟨-, hx⟩ := RelationalValue.of_encode hv
  cases v <;> simp [RelationalValue.kindRank] at hx
  rename_i s
  have hstart : escaped bytes <+: escaped (utf8 s) := ⟨[], (append_nil _).trans hx⟩
  rw [eq_of_escaped_append hstart, fromUtf8_utf8] at hbytes
  cases hbytes

lemma exists_decode_flatten {xs : List Bytes} (hne : xs ≠ []) (hxs : ∀ x ∈ xs, IsEncoding x) :
    ∃ key, decodeOrderedRelationalKey xs.flatten = .ok key := by
  have hkey : ∃ key, (∀ v ∈ key, v.isDated) ∧ IsEncodings key xs := by
    clear hne
    induction xs with
    | nil => exact ⟨[], by simp, .nil⟩
    | cons x xs ih =>
      rw [forall_mem_cons] at hxs
      obtain ⟨v, hv, hdated⟩ := hxs.1
      obtain ⟨key, hkey, hforall⟩ := ih hxs.2
      exact ⟨v :: key, forall_mem_cons.2 ⟨hdated, hkey⟩, .cons hv hforall⟩
  obtain ⟨key, hdated, hforall⟩ := hkey
  have hkey : key ≠ [] := by
    rintro rfl
    cases hforall
    exact hne rfl
  obtain ⟨key', hkey', -⟩ := decodeOrderedRelationalKey_encode
    (encodeOrderedRelationalKey_eq.2 ⟨hkey, xs, hforall, rfl⟩) hdated
  exact ⟨key', hkey'⟩

lemma exists_decode_iff (encoded : Bytes) :
    (∃ key, decodeOrderedRelationalKey encoded = .ok key) ↔
      validateOrderedRelationalKey encoded = .ok () ∧ ¬HasInvalidText encoded := by
  constructor
  · rintro ⟨key, hkey⟩
    obtain ⟨-, xs, hne, rfl, hxs, -⟩ := of_decodeOrderedRelationalKey hkey
    have hfields : ∀ x ∈ xs, IsKeyField x := fun x hx => .inl (hxs x hx)
    refine ⟨validateOrderedRelationalKey_eq.2 ⟨xs, hne, hfields, rfl⟩, ?_⟩
    rintro ⟨ys, hys, heq, x, hx, hinvalid⟩
    obtain rfl := eq_of_flatten_eq hfields hys heq
    exact not_isInvalidText (hxs x hx) hinvalid
  · rintro ⟨hvalid, hinvalid⟩
    obtain ⟨xs, hne, hxs, rfl⟩ := validateOrderedRelationalKey_eq.1 hvalid
    exact exists_decode_flatten hne fun x hx =>
      (hxs x hx).resolve_right fun htext => hinvalid ⟨xs, hxs, rfl, x, hx, htext⟩

/-- Skipping and decoding accept the same bytes unless these are fields one of which is a text that
is not UTF-8. The ends are found in the bytes that are skipped, what a key is decoded into does not
matter, and a key that decodes is encoded in its bytes and its ends are those of its values. -/
theorem ordered_key_walkers (encoded : Bytes) : ((validateOrderedRelationalKey encoded = .ok () ↔
        ∃ key, decodeOrderedRelationalKey encoded = .ok key) ↔ ¬HasInvalidText encoded) ∧
    ((∃ r, orderedRelationalKeyPrefixEnds encoded = .ok r) ↔
      validateOrderedRelationalKey encoded = .ok ()) ∧
    (∀ target, decodeOrderedRelationalKeyInto encoded target = decodeOrderedRelationalKey encoded) ∧
    ∀ key, decodeOrderedRelationalKey encoded = .ok key →
      encodeOrderedRelationalKey key = .ok encoded ∧
      ∃ xs leading, IsEncodings key xs ∧ encoded = xs.flatten ∧
        orderedRelationalKeyPrefixEnds encoded = .ok (fieldEnds 0 xs, leading) := by
  refine ⟨?_, ⟨fun ⟨r, hr⟩ => of_orderedRelationalKeyPrefixEnds hr, fun h => ?_⟩,
    decodeOrderedRelationalKeyInto_eq encoded, fun key hkey => ?_⟩
  · rw [exists_decode_iff]
    constructor
    · rintro h ⟨xs, hxs, rfl, x, hx, hinvalid⟩
      have hne : xs ≠ [] := ne_nil_of_mem hx
      have hvalid := validateOrderedRelationalKey_eq.2 ⟨xs, hne, hxs, rfl⟩
      exact (h.1 hvalid).2 ⟨xs, hxs, rfl, x, hx, hinvalid⟩
    · exact fun h => ⟨fun hvalid => ⟨hvalid, h⟩, And.left⟩
  · obtain ⟨xs, hne, hxs, rfl⟩ := validateOrderedRelationalKey_eq.1 h
    obtain ⟨leading, hends⟩ := orderedRelationalKeyPrefixEnds_flatten hne hxs
    exact ⟨_, hends⟩
  · obtain ⟨hne, xs, hne', rfl, hxs, hforall⟩ := of_decodeOrderedRelationalKey hkey
    obtain ⟨leading, hends⟩ :=
      orderedRelationalKeyPrefixEnds_flatten hne' fun x hx => .inl (hxs x hx)
    exact ⟨encodeOrderedRelationalKey_eq.2 ⟨hne, xs, hforall, rfl⟩, xs, leading, hforall, rfl, hends⟩

/-- At a byte string that escapes a zero byte, before a NULL. -/
theorem ordered_key_walkers_bytea :
    ∃ key, decodeOrderedRelationalKey [5, 0, 255, 0, 0, 0] = .ok key ∧
      encodeOrderedRelationalKey key = .ok [5, 0, 255, 0, 0, 0] := by
  have hencode : encodeOrderedRelationalKey [.bytea [0], .null] = .ok [5, 0, 255, 0, 0, 0] := rfl
  obtain ⟨key, hkey, -⟩ := decodeOrderedRelationalKey_encode hencode (by decide)
  exact ⟨key, hkey, ((ordered_key_walkers _).2.2.2 key hkey).1⟩

/-- A text of one byte that no UTF-8 string has is skipped and not decoded. -/
theorem validate_accepts_invalid_text :
    validateOrderedRelationalKey [4, 255, 0, 0] = .ok () ∧
      ¬∃ key, decodeOrderedRelationalKey [4, 255, 0, 0] = .ok key := by
  have hinvalid : IsInvalidText [4, 255, 0, 0] := ⟨[255], _, rfl, rfl⟩
  have hfields : ∀ x ∈ [[4, 255, 0, 0]], IsKeyField x := by simp [IsKeyField, hinvalid]
  refine ⟨validateOrderedRelationalKey_eq.2 ⟨_, cons_ne_nil _ _, hfields, rfl⟩, ?_⟩
  rw [exists_decode_iff]
  exact fun h => h.2 ⟨_, hfields, rfl, _, mem_cons_self, hinvalid⟩

end HawDB
