import HawDB.CanonicalRecord
import HawDB.Proofs.CanonicalValue

/-!
# The walkers of an encoded value

The check accepts the bytes of every valid tree (`validateEncodedValue_render`) and no others
(`tree_of_validateEncodedValue`). There the skip by length goes past the tree exactly when it holds
no decimal, whose tag it does not know (`skipValidatedValue_render`).
-/

namespace HawDB

open List HawDB.Tree

namespace Canonical

/-! ## What a successful read has read -/

variable {n : ℕ} {a : Bytes}

section

variable {cursor rest : Bytes}

lemma readExact_eq_ok :
    readExact n cursor = .ok (a, rest) ↔ cursor = a ++ rest ∧ a.length = n := by
  constructor
  · intro h
    unfold readExact at h
    split_ifs at h with hle
    · cases h
      exact ⟨(take_append_drop n cursor).symm, by rw [length_take]; omega⟩
    · cases h
  · rintro ⟨rfl, h⟩
    exact readExact_append h

lemma readU8_eq_ok : readU8 cursor = .ok (byte, rest) ↔ cursor = byte :: rest := by
  cases cursor with
  | nil => simp [readU8, corrupt]
  | cons b c => simp [readU8]

lemma readU32_eq_ok :
    readU32 cursor = .ok (n, rest) ↔ cursor = leBytes 4 n ++ rest ∧ n < 2 ^ 32 := by
  constructor
  · intro h
    obtain ⟨⟨a, _⟩, hread, heq⟩ := map_eq_ok.1 h
    cases heq
    obtain ⟨rfl, hlength⟩ := readExact_eq_ok.1 hread
    have hlt := leNat_lt a
    rw [hlength] at hlt
    exact ⟨by rw [leBytes_leNat a hlength], by omega⟩
  · rintro ⟨rfl, h⟩
    exact readU32_append h rest

lemma readU64_eq_ok : readU64 cursor = .ok (n, rest) ↔
    ∃ id : UInt64, id.toNat = n ∧ cursor = leBytes 8 id.toNat ++ rest := by
  constructor
  · intro h
    obtain ⟨⟨a, _⟩, hread, heq⟩ := map_eq_ok.1 h
    cases heq
    obtain ⟨rfl, hlength⟩ := readExact_eq_ok.1 hread
    have hlt := leNat_lt a
    rw [hlength] at hlt
    have hnat : (UInt64.ofNat (leNat a)).toNat = leNat a := by
      rw [UInt64.toNat_ofNat']
      omega
    exact ⟨UInt64.ofNat (leNat a), hnat, by rw [hnat, leBytes_leNat a hlength]⟩
  · rintro ⟨id, rfl, rfl⟩
    exact readU64_append id rest

lemma readSized_eq_ok {bytes : Bytes} : readSized cursor = .ok (bytes, rest) ↔
    cursor = leBytes 4 bytes.length ++ (bytes ++ rest) ∧ bytes.length < 2 ^ 32 := by
  constructor
  · intro h
    obtain ⟨⟨n, c⟩, hn, hread⟩ := bind_eq_ok.1 h
    obtain ⟨rfl, hlt⟩ := readU32_eq_ok.1 hn
    obtain ⟨rfl, rfl⟩ := readExact_eq_ok.1 hread
    exact ⟨rfl, hlt⟩
  · rintro ⟨rfl, h⟩
    exact readSized_append h rest

lemma readString_eq_ok : readString cursor = .ok (s, rest) ↔
    cursor = keyBytes s ++ rest ∧ (utf8 s).length < 2 ^ 32 := by
  constructor
  · intro h
    obtain ⟨⟨bytes, c⟩, hbytes, value, hvalue, heq⟩ := bind₂_eq_ok.1 h
    cases heq
    obtain ⟨rfl, hlt⟩ := readSized_eq_ok.1 hbytes
    have htext : textOfUtf8 bytes = some s := by
      unfold textOf at hvalue
      split at hvalue
      · next htext => rw [htext, Except.ok.inj hvalue]
      · cases hvalue
    obtain rfl := utf8_of_textOfUtf8 htext
    exact ⟨by rw [keyBytes, append_assoc], hlt⟩
  · rintro ⟨rfl, h⟩
    exact readString_append h rest

lemma readBool_eq_ok :
    readBool cursor = .ok (b, rest) ↔ cursor = (if b then 1 else 0) :: rest := by
  constructor
  · intro h
    obtain ⟨⟨byte, c⟩, hbyte, hnext⟩ := bind_eq_ok.1 h
    obtain rfl := readU8_eq_ok.1 hbyte
    simp only at hnext
    split_ifs at hnext with hzero hone
    · cases hnext
      rw [hzero]
      rfl
    · cases hnext
      rw [hone]
      rfl
    · cases hnext
  · rintro rfl
    cases b <;> rfl

lemma readUuid_eq_ok {u : ByteArr 16} : readUuid cursor = .ok (u, rest) ↔ cursor = u.1 ++ rest := by
  constructor
  · intro h
    unfold readUuid at h
    split_ifs at h
    · cases h
      exact (take_append_drop 16 cursor).symm
    · cases h
  · rintro rfl
    exact readUuid_append u rest

lemma readDecimalValue_eq_ok {d : Decimal} :
    readDecimalValue cursor = .ok (d, rest) ↔ cursor = d.toLeBytes ++ rest := by
  constructor
  · intro h
    obtain ⟨⟨bytes, c⟩, hbytes, hnext⟩ := bind_eq_ok.1 h
    obtain ⟨rfl, hlength⟩ := readExact_eq_ok.1 hbytes
    cases hd : Decimal.fromLeBytes bytes with
    | error e =>
      simp only [hd] at hnext
      cases hnext
    | ok value =>
      simp only [hd] at hnext
      cases hnext
      rw [(Decimal.fromLeBytes_eq_ok hlength).1 hd]
  · rintro rfl
    exact readDecimalValue_append d rest

lemma readVector_eq_ok {v : GraphVector} : readVector cursor = .ok (v, rest) ↔
    cursor = leBytes 4 v.encoded.length ++ (v.encoded ++ rest) ∧ v.encoded.length < 2 ^ 32 := by
  constructor
  · intro h
    obtain ⟨⟨bytes, c⟩, hbytes, hnext⟩ := bind_eq_ok.1 h
    obtain ⟨rfl, hlt⟩ := readSized_eq_ok.1 hbytes
    cases hv : GraphVector.fromEncoded bytes with
    | error e =>
      simp only [hv] at hnext
      cases hnext
    | ok value =>
      simp only [hv] at hnext
      cases hnext
      obtain rfl := GraphVector.fromEncoded_eq_ok.1 hv
      exact ⟨rfl, hlt⟩
  · rintro ⟨rfl, h⟩
    exact readVector_append h rest

lemma readTemporalValue_eq_ok {value : TemporalValue} :
    readTemporalValue kind cursor = .ok (value, rest) ↔ value.kind = kind ∧
      cursor = TemporalCodec.encodePayload value ++ rest ∧ value.Restorable := by
  constructor
  · intro h
    obtain ⟨⟨bytes, c⟩, hbytes, hnext⟩ := bind_eq_ok.1 h
    obtain ⟨rfl, hlength⟩ := readExact_eq_ok.1 hbytes
    cases hv : TemporalCodec.decodePayload kind bytes with
    | error e =>
      simp only [hv] at hnext
      cases hnext
    | ok decoded =>
      simp only [hv] at hnext
      cases hnext
      obtain ⟨hkind, rfl, hrestorable⟩ := TemporalValue.decodePayload_eq_ok.1 hv
      exact ⟨hkind, rfl, hrestorable⟩
  · rintro ⟨rfl, rfl, h⟩
    rw [readTemporalValue_append, (TemporalCodec.decodePayload_encodePayload value).2 h]

end

/-! ## Scalars -/

variable {tag : UInt8}

lemma canonicalTemporalKind_eq_some :
    canonicalTemporalKind tag = some kind ↔ tag = canonicalTemporalTag kind := by
  constructor
  · intro h
    obtain ⟨entry, hentry, rfl⟩ := Option.map_eq_some_iff.1 h
    have htag := find?_some hentry
    have hmem := mem_of_find?_eq_some hentry
    rw [decide_eq_true_eq] at htag
    subst htag
    simp only [temporalValueTags, mem_cons, not_mem_nil, or_false] at hmem
    rcases hmem with rfl | rfl | rfl | rfl | rfl <;> rfl
  · rintro rfl
    cases kind <;> rfl

/-- The scalar that the decoder reads is one that was written, and that a payload gives back. -/
theorem decodeScalar_eq_ok : decodeScalar tag cursor = .ok (s, rest) ↔
      tag :: cursor = scalarBytes s ++ rest ∧ scalarFits s ∧ s.Restorable := by
  constructor
  · intro h
    unfold decodeScalar at h
    split at h
    · next htag =>
      cases h
      obtain rfl : tag = 0 := UInt8.toNat_inj.1 htag
      exact ⟨rfl, trivial, trivial⟩
    · next htag =>
      obtain ⟨⟨b, c⟩, hread, ⟨⟩⟩ := map_eq_ok.1 h
      obtain rfl : tag = 1 := UInt8.toNat_inj.1 htag
      obtain rfl := readBool_eq_ok.1 hread
      exact ⟨rfl, trivial, trivial⟩
    · next htag =>
      obtain ⟨⟨a, c⟩, hread, ⟨⟩⟩ := map_eq_ok.1 h
      obtain rfl : tag = 2 := UInt8.toNat_inj.1 htag
      obtain ⟨rfl, hlength⟩ := readExact_eq_ok.1 hread
      refine ⟨?_, trivial, trivial⟩
      rw [scalarBytes, scalarPayload, TemporalCodec.int64_of_leInt hlength]
      rfl
    · next htag =>
      obtain ⟨⟨d, c⟩, hread, ⟨⟩⟩ := map_eq_ok.1 h
      obtain rfl : tag = 16 := UInt8.toNat_inj.1 htag
      obtain rfl := readDecimalValue_eq_ok.1 hread
      exact ⟨rfl, trivial, trivial⟩
    · next htag =>
      obtain ⟨⟨n, c⟩, hread, ⟨⟩⟩ := map_eq_ok.1 h
      obtain rfl : tag = 3 := UInt8.toNat_inj.1 htag
      obtain ⟨bits, rfl, rfl⟩ := readU64_eq_ok.1 hread
      refine ⟨?_, trivial, trivial⟩
      rw [UInt64.ofNat_toNat]
      rfl
    · next htag =>
      obtain ⟨⟨value, c⟩, hread, ⟨⟩⟩ := map_eq_ok.1 h
      obtain rfl : tag = 4 := UInt8.toNat_inj.1 htag
      obtain ⟨rfl, hfits⟩ := readString_eq_ok.1 hread
      exact ⟨rfl, hfits, trivial⟩
    · next htag =>
      obtain ⟨⟨value, c⟩, hread, ⟨⟩⟩ := map_eq_ok.1 h
      obtain rfl : tag = 8 := UInt8.toNat_inj.1 htag
      obtain ⟨rfl, hfits⟩ := readSized_eq_ok.1 hread
      refine ⟨?_, hfits, trivial⟩
      rw [← append_assoc]
      rfl
    · next htag =>
      obtain ⟨⟨value, c⟩, hread, ⟨⟩⟩ := map_eq_ok.1 h
      obtain rfl : tag = 10 := UInt8.toNat_inj.1 htag
      obtain ⟨rfl, hfits⟩ := readVector_eq_ok.1 hread
      refine ⟨?_, hfits, trivial⟩
      rw [← append_assoc]
      rfl
    · next htag =>
      obtain ⟨⟨value, c⟩, hread, ⟨⟩⟩ := map_eq_ok.1 h
      obtain rfl : tag = 9 := UInt8.toNat_inj.1 htag
      obtain rfl := readUuid_eq_ok.1 hread
      exact ⟨rfl, trivial, trivial⟩
    · cases hkind : canonicalTemporalKind tag with
      | none =>
        simp only [hkind] at h
        cases h
      | some kind =>
        simp only [hkind] at h
        obtain ⟨⟨value, c⟩, hread, ⟨⟩⟩ := map_eq_ok.1 h
        obtain ⟨rfl, rfl, hrestorable⟩ := readTemporalValue_eq_ok.1 hread
        obtain rfl := canonicalTemporalKind_eq_some.1 hkind
        exact ⟨rfl, trivial, hrestorable⟩
  · rintro ⟨heq, hfits, hrestorable⟩
    cases heq
    exact (decodeScalar_append hfits).2 ⟨(readScalar_eq_self_iff s).2 hrestorable, rfl⟩

lemma discard_eq_ok {α : Type} {read : CanonicalResult (α × Bytes)} :
    discard read = .ok rest ↔ ∃ a, read = .ok (a, rest) := by
  rw [discard, map_eq_ok]
  constructor
  · rintro ⟨⟨a, _⟩, h, rfl⟩
    exact ⟨a, h⟩
  · rintro ⟨a, h⟩
    exact ⟨(a, rest), h, rfl⟩

lemma validateScalar_eq_ok {count : Option ℕ} (hspill : tag ≠ 7) :
    validateScalar count tag cursor = .ok rest ↔ ∃ s, decodeScalar tag cursor = .ok (s, rest) := by
  have hmap : ∀ {α : Type} (read : CanonicalResult (α × Bytes)) (f : α → Scalar),
      discard read = .ok rest ↔ ∃ s, (read.map fun read => (f read.1, read.2)) = .ok (s, rest) := by
    intro α read f
    cases read with
    | error e => simp [discard, Except.map]
    | ok read => simp [discard, Except.map]
  unfold validateScalar
  split
  · next htag =>
    obtain rfl : tag = 0 := UInt8.toNat_inj.1 htag
    simp [decodeScalar]
  · next htag =>
    obtain rfl : tag = 1 := UInt8.toNat_inj.1 htag
    exact hmap (readBool cursor) .bool
  · next htag =>
    obtain rfl : tag = 2 := UInt8.toNat_inj.1 htag
    refine Iff.trans ?_ (hmap (readExact 8 cursor) fun a => .int (Int64.ofInt (leInt a)))
    rw [discard_eq_ok, discard_eq_ok]
    simp [readU64, map_eq_ok]
  · next htag =>
    obtain rfl : tag = 3 := UInt8.toNat_inj.1 htag
    exact hmap (readU64 cursor) fun n => .float (UInt64.ofNat n)
  · next htag =>
    obtain rfl : tag = 4 := UInt8.toNat_inj.1 htag
    exact hmap (readString cursor) .string
  · next htag => exact absurd (UInt8.toNat_inj.1 htag) hspill
  · next htag =>
    obtain rfl : tag = 8 := UInt8.toNat_inj.1 htag
    exact hmap (readSized cursor) .binary
  · next htag =>
    obtain rfl : tag = 9 := UInt8.toNat_inj.1 htag
    refine Iff.trans ?_ (hmap (readUuid cursor) .uuid)
    rw [discard_eq_ok, discard_eq_ok]
    constructor
    · rintro ⟨a, h⟩
      obtain ⟨rfl, hlength⟩ := readExact_eq_ok.1 h
      exact ⟨⟨a, hlength⟩, readUuid_eq_ok.2 rfl⟩
    · rintro ⟨u, h⟩
      obtain rfl := readUuid_eq_ok.1 h
      exact ⟨u.1, readExact_append u.2⟩
  · next htag =>
    obtain rfl : tag = 10 := UInt8.toNat_inj.1 htag
    exact hmap (readVector cursor) .vector
  · next htag =>
    obtain rfl : tag = 16 := UInt8.toNat_inj.1 htag
    exact hmap (readDecimalValue cursor) .decimal
  · cases hkind : canonicalTemporalKind tag with
    | some kind =>
      obtain rfl := canonicalTemporalKind_eq_some.1 hkind
      rw [decodeScalar_temporal]
      exact hmap (readTemporalValue kind cursor) .temporal
    | none =>
      refine ⟨by rintro ⟨⟩, ?_⟩
      rintro ⟨s, hs⟩
      unfold decodeScalar at hs
      split at hs
      case h_10 => simp [hkind, corrupt] at hs
      all_goals contradiction

lemma validateScalar_spill {count : Option ℕ} :
    validateScalar count 7 cursor = .ok rest ↔ ∃ id : UInt64,
      cursor = leBytes 8 id.toNat ++ rest ∧ validateSpill count id.toNat = .ok () := by
  show (readU64 cursor >>= fun read => validateSpill count read.1 >>= fun _ => .ok read.2) = _ ↔ _
  simp only [bind_eq_ok]
  constructor
  · rintro ⟨⟨n, c⟩, hread, ⟨⟩, hspill, ⟨⟩⟩
    obtain ⟨id, rfl, rfl⟩ := readU64_eq_ok.1 hread
    exact ⟨id, rfl, hspill⟩
  · rintro ⟨id, rfl, hspill⟩
    exact ⟨(id.toNat, rest), readU64_append id rest, (), hspill, rfl⟩

def wireFits (count : Option ℕ) : WireLeaf → Prop
  | .scalar s => scalarFits s ∧ s.Restorable
  | .spill id => validateSpill count id.toNat = .ok ()

lemma validateScalar_iff {count : Option ℕ} : validateScalar count tag cursor = .ok rest ↔
      ∃ l, tag :: cursor = wireBytes l ++ rest ∧ wireFits count l := by
  by_cases htag : tag = 7
  · subst htag
    rw [validateScalar_spill]
    constructor
    · rintro ⟨id, rfl, hspill⟩
      exact ⟨.spill id, rfl, hspill⟩
    · rintro ⟨l, heq, hfits⟩
      cases l with
      | spill id => exact ⟨id, (cons.inj heq).2, hfits⟩
      | scalar s => exact absurd (cons.inj heq).1.symm (scalarTag_ne s).2.2
  · rw [validateScalar_eq_ok htag]
    constructor
    · rintro ⟨s, hs⟩
      exact ⟨.scalar s, decodeScalar_eq_ok.1 hs⟩
    · rintro ⟨l, heq, hfits⟩
      cases l with
      | spill id => exact absurd (cons.inj heq).1 htag
      | scalar s => exact ⟨s, decodeScalar_eq_ok.2 ⟨heq, hfits⟩⟩

lemma wireBytes_ne (l : WireLeaf) : ∃ tag payload, wireBytes l = tag :: payload ∧
    tag ≠ 5 ∧ tag ≠ 6 := by
  cases l with
  | scalar s => exact ⟨_, _, rfl, (scalarTag_ne s).1, (scalarTag_ne s).2.1⟩
  | spill id => exact ⟨_, _, rfl, by decide, by decide⟩

/-! ## The check -/

/-- A node that the check accepts: it fits, and a map has no key twice. -/
def ValidNode (count : Option ℕ) (depth : ℕ) (w : Wire) : Prop :=
  FitsNode (wireFits count) depth w ∧ w.KeysIn List.Nodup

section

variable {count : Option ℕ}

lemma insertSeen_eq_ok : insertSeen seen key = .ok out ↔ key ∉ seen ∧ out = key :: seen := by
  unfold insertSeen
  split_ifs with h
  · simp [corrupt, h]
  · simp [h, eq_comm]

section

variable {depth : ℕ} (hdepth : depth ≤ maxValueDepth)

include hdepth

lemma validateEncodedValue_scalar (hlist : tag ≠ 5) (hmap : tag ≠ 6) (cursor : Bytes) :
    validateEncodedValue count depth (tag :: cursor) = validateScalar count tag cursor := by
  rw [validateEncodedValue, dif_neg hdepth.not_gt, readU8, ok_bind]
  simp only [if_neg hlist, if_neg hmap]

lemma validateEncodedValue_list (cursor : Bytes) :
    validateEncodedValue count depth (5 :: cursor) =
      readU32 cursor >>= fun read => validateItems count (depth + 1) read.1 read.2 := by
  rw [validateEncodedValue, dif_neg hdepth.not_gt, readU8, ok_bind]
  rfl

lemma validateEncodedValue_map (cursor : Bytes) :
    validateEncodedValue count depth (6 :: cursor) =
      readU32 cursor >>= fun read => validateEntries count (depth + 2) read.1 read.2 [] := by
  rw [validateEncodedValue, dif_neg hdepth.not_gt, readU8, ok_bind]
  rfl

end

lemma validateItems_render : ∀ {ws rest},
    (∀ w ∈ ws, ∀ rest, validateEncodedValue count depth (render wireBytes w ++ rest) = .ok rest) →
      validateItems count depth ws.length (renderItems wireBytes ws ++ rest) = .ok rest
  | [], rest, _ => by
    rw [renderItems, nil_append, length_nil, validateItems]
  | w :: ws, rest, h => by
    rw [forall_mem_cons] at h
    rw [renderItems, append_assoc, length_cons, validateItems, h.1, ok_bind,
      validateItems_render h.2]

lemma validateEntries_render : ∀ {es seen} {rest : Bytes}, (∀ e ∈ es, ∀ rest,
      validateEncodedValue count depth (render wireBytes e.2 ++ rest) = .ok rest) →
    (∀ e ∈ es, (utf8 e.1).length < 2 ^ 32) → (es.map Prod.fst).Nodup → (∀ e ∈ es, e.1 ∉ seen) →
      validateEntries count depth es.length (renderEntries wireBytes es ++ rest) seen = .ok rest
  | [], seen, rest, _, _, _, _ => by
    rw [renderEntries, nil_append, length_nil, validateEntries]
  | (key, w) :: es, seen, rest, h, hlength, hnodup, hseen => by
    rw [forall_mem_cons] at h hlength hseen
    rw [map_cons, nodup_cons] at hnodup
    have hnext : ∀ e ∈ es, e.1 ∉ key :: seen := by
      intro e he hmem
      rcases mem_cons.1 hmem with heq | hmem
      · exact hnodup.1 (mem_map.2 ⟨e, he, heq⟩)
      · exact hseen.2 e he hmem
    rw [renderEntries, append_assoc, append_assoc, length_cons, validateEntries,
      readString_append hlength.1, ok_bind]
    simp only [insertSeen_eq_ok.2 ⟨hseen.1, rfl⟩, ok_bind, h.1]
    exact validateEntries_render h.2 hlength.2 hnodup.2 hnext

lemma validateEncodedValue_render {depth : ℕ} (h : w.Everywhere (ValidNode count) depth)
    (rest : Bytes) : validateEncodedValue count depth (render wireBytes w ++ rest) = .ok rest := by
  induction w using induct generalizing depth rest with
  | leaf l =>
    obtain ⟨⟨hdepth, hfits⟩, -⟩ := everywhere_leaf.1 h
    obtain ⟨tag, payload, hl, hlist, hmap⟩ := wireBytes_ne l
    rw [render, hl, cons_append, validateEncodedValue_scalar hdepth hlist hmap, validateScalar_iff]
    exact ⟨l, by rw [hl, cons_append], hfits⟩
  | list ws ih =>
    obtain ⟨⟨⟨hdepth, hcount⟩, -⟩, hws⟩ := everywhere_list.1 h
    rw [render, cons_append, append_assoc, validateEncodedValue_list hdepth,
      readU32_append hcount, ok_bind]
    exact validateItems_render fun w hmem rest => ih w hmem (hws w hmem) rest
  | map es ih =>
    obtain ⟨⟨⟨hdepth, hcount, hlength⟩, hnodup⟩, hes⟩ := everywhere_map.1 h
    rw [render, cons_append, append_assoc, validateEncodedValue_map hdepth,
      readU32_append hcount, ok_bind]
    exact validateEntries_render (fun e hmem rest => ih e hmem (hes e hmem) rest) hlength hnodup
      (by simp)

mutual

theorem tree_of_validateEncodedValue (depth : ℕ) (cursor rest : Bytes)
    (h : validateEncodedValue count depth cursor = .ok rest) :
    ∃ w, cursor = render wireBytes w ++ rest ∧ w.Everywhere (ValidNode count) depth := by
  by_cases hdeep : maxValueDepth < depth
  · rw [validateEncodedValue, dif_pos hdeep] at h
    cases h
  have hdepth : depth ≤ maxValueDepth := not_lt.1 hdeep
  cases cursor with
  | nil =>
    rw [validateEncodedValue, dif_neg hdeep] at h
    cases h
  | cons tag cursor =>
    by_cases hlist : tag = 5
    · subst hlist
      rw [validateEncodedValue_list hdepth, bind_eq_ok] at h
      obtain ⟨⟨n, c⟩, hn, hitems⟩ := h
      obtain ⟨rfl, hcount⟩ := readU32_eq_ok.1 hn
      obtain ⟨ws, rfl, rfl, hws⟩ := trees_of_validateItems (depth + 1) n c rest hitems
      exact ⟨.list ws, by rw [render, cons_append, append_assoc],
        everywhere_list.2 ⟨⟨⟨hdepth, hcount⟩, trivial⟩, hws⟩⟩
    · by_cases hmap : tag = 6
      · subst hmap
        rw [validateEncodedValue_map hdepth, bind_eq_ok] at h
        obtain ⟨⟨n, c⟩, hn, hentries⟩ := h
        obtain ⟨rfl, hcount⟩ := readU32_eq_ok.1 hn
        obtain ⟨es, rfl, rfl, hlength, hnodup, -, hes⟩ :=
          trees_of_validateEntries (depth + 2) n c rest [] hentries
        exact ⟨.map es, by rw [render, cons_append, append_assoc],
          everywhere_map.2 ⟨⟨⟨hdepth, hcount, hlength⟩, hnodup⟩, hes⟩⟩
      · rw [validateEncodedValue_scalar hdepth hlist hmap, validateScalar_iff] at h
        obtain ⟨l, hl, hfits⟩ := h
        exact ⟨.leaf l, by rw [render, hl], everywhere_leaf.2 ⟨⟨hdepth, hfits⟩, trivial⟩⟩
termination_by (maxValueDepth + 2 - depth, 0)

theorem trees_of_validateItems (depth n : ℕ) (cursor rest : Bytes)
    (h : validateItems count depth n cursor = .ok rest) :
    ∃ ws, ws.length = n ∧ cursor = renderItems wireBytes ws ++ rest ∧
      ∀ w ∈ ws, w.Everywhere (ValidNode count) depth := by
  cases n with
  | zero =>
    rw [validateItems] at h
    exact ⟨[], rfl, Except.ok.inj h, by simp⟩
  | succ n =>
    rw [validateItems, bind_eq_ok] at h
    obtain ⟨c, hvalue, hitems⟩ := h
    obtain ⟨w, rfl, hw⟩ := tree_of_validateEncodedValue depth cursor c hvalue
    obtain ⟨ws, rfl, rfl, hws⟩ := trees_of_validateItems depth n c rest hitems
    exact ⟨w :: ws, rfl, by rw [renderItems, append_assoc], forall_mem_cons.2 ⟨hw, hws⟩⟩
termination_by (maxValueDepth + 2 - depth, n + 1)

theorem trees_of_validateEntries (depth n : ℕ) (cursor rest : Bytes) (seen : List String)
    (h : validateEntries count depth n cursor seen = .ok rest) :
    ∃ es, es.length = n ∧ cursor = renderEntries wireBytes es ++ rest ∧
      (∀ e ∈ es, (utf8 e.1).length < 2 ^ 32) ∧ (es.map Prod.fst).Nodup ∧ (∀ e ∈ es, e.1 ∉ seen) ∧
        ∀ e ∈ es, e.2.Everywhere (ValidNode count) depth := by
  cases n with
  | zero =>
    rw [validateEntries] at h
    exact ⟨[], rfl, Except.ok.inj h, by simp⟩
  | succ n =>
    rw [validateEntries] at h
    simp only [bind_eq_ok] at h
    obtain ⟨⟨key, c⟩, hkey, seen', hseen, c', hvalue, hentries⟩ := h
    obtain ⟨rfl, hlt⟩ := readString_eq_ok.1 hkey
    obtain ⟨hnew, rfl⟩ := insertSeen_eq_ok.1 hseen
    obtain ⟨w, rfl, hw⟩ := tree_of_validateEncodedValue depth _ c' hvalue
    obtain ⟨es, rfl, rfl, hlength, hnodup, hnotseen, hes⟩ :=
      trees_of_validateEntries depth n c' rest (key :: seen) hentries
    refine ⟨(key, w) :: es, rfl, by simp only [renderEntries, append_assoc],
      forall_mem_cons.2 ⟨hlt, hlength⟩, ?_, forall_mem_cons.2 ⟨hnew, ?_⟩,
      forall_mem_cons.2 ⟨hw, hes⟩⟩
    · rw [map_cons, nodup_cons]
      refine ⟨fun hmem => ?_, hnodup⟩
      obtain ⟨e, he, heq⟩ := mem_map.1 hmem
      exact hnotseen e he (heq ▸ mem_cons_self)
    · exact fun e he hmem => hnotseen e he (mem_cons_of_mem _ hmem)
termination_by (maxValueDepth + 2 - depth, n + 1)

end

end

/-! ## The skip -/

/-- A node that the skip knows: every one but a decimal. -/
def Skippable : Wire → Prop
  | .leaf (.scalar (.decimal _)) => False
  | _ => True

/-- The bytes behind a tag, passed over by their length. -/
def skipPayload (tag : UInt8) (cursor : Bytes) : CanonicalResult Bytes :=
  skipLength tag cursor >>= fun read => discard (readExact read.1 read.2)

lemma discard_readExact_append (h : a.length = n) :
    discard (readExact n (a ++ rest)) = .ok rest := by
  rw [readExact_append h]
  rfl

lemma skipPayload_fixed (hlength : ∀ cursor, skipLength tag cursor = .ok (n, cursor))
    (h : a.length = n) : skipPayload tag (a ++ rest) = .ok rest := by
  rw [skipPayload, hlength, ok_bind, discard_readExact_append h]

lemma skipPayload_sized (hlength : ∀ cursor, skipLength tag cursor = readU32 cursor)
    (h : a.length < 2 ^ 32) : skipPayload tag ((leBytes 4 a.length ++ a) ++ rest) = .ok rest := by
  rw [skipPayload, hlength, append_assoc, readU32_append h, ok_bind, discard_readExact_append rfl]

lemma skipPayload_scalar (hfits : scalarFits s) (hs : ∀ d, s ≠ .decimal d)
    (rest : Bytes) : skipPayload (scalarTag s) (scalarPayload s ++ rest) = .ok rest := by
  cases s with
  | null => exact skipPayload_fixed (fun _ => rfl) rfl
  | bool value => exact skipPayload_fixed (fun _ => rfl) rfl
  | int value => exact skipPayload_fixed (fun _ => rfl) (length_leIntBytes 8 _)
  | float bits => exact skipPayload_fixed (fun _ => rfl) (length_leBytes 8 _)
  | string value => exact skipPayload_sized (fun _ => rfl) hfits
  | binary value => exact skipPayload_sized (fun _ => rfl) hfits
  | vector value => exact skipPayload_sized (fun _ => rfl) hfits
  | uuid value => exact skipPayload_fixed (fun _ => rfl) value.2
  | decimal value => exact absurd rfl (hs value)
  | temporal value =>
    have hlength := TemporalCodec.length_encodePayload value
    rw [scalarTag, scalarPayload]
    cases hkind : value.kind <;> rw [hkind] at hlength <;>
      exact skipPayload_fixed (fun _ => rfl) hlength

section

variable {depth : ℕ} (hdepth : depth ≤ maxValueDepth)

include hdepth

lemma skipValidatedValue_scalar (hlist : tag ≠ 5) (hmap : tag ≠ 6) (cursor : Bytes) :
    skipValidatedValue depth (tag :: cursor) = skipPayload tag cursor := by
  rw [skipValidatedValue, dif_neg hdepth.not_gt, readU8, ok_bind]
  simp only [if_neg hlist, if_neg hmap]
  rfl

lemma skipValidatedValue_list (cursor : Bytes) : skipValidatedValue depth (5 :: cursor) =
    readU32 cursor >>= fun read => skipItems (depth + 1) read.1 read.2 := by
  rw [skipValidatedValue, dif_neg hdepth.not_gt, readU8, ok_bind]
  rfl

lemma skipValidatedValue_map (cursor : Bytes) : skipValidatedValue depth (6 :: cursor) =
    readU32 cursor >>= fun read => skipEntries (depth + 2) read.1 read.2 := by
  rw [skipValidatedValue, dif_neg hdepth.not_gt, readU8, ok_bind]
  rfl

end

section

variable {count : Option ℕ}

lemma skipValidatedValue_leaf (hdepth : depth ≤ maxValueDepth) (hfits : wireFits count l) :
    skipValidatedValue depth (wireBytes l ++ rest) = .ok rest' ↔
      Skippable (.leaf l) ∧ rest' = rest := by
  have hok : ∀ {r : CanonicalResult Bytes}, r = .ok rest → Skippable (.leaf l) →
      (r = .ok rest' ↔ Skippable (.leaf l) ∧ rest' = rest) := by
    rintro _ rfl hskip
    simp [hskip, eq_comm]
  cases l with
  | spill id =>
    rw [wireBytes, cons_append, skipValidatedValue_scalar hdepth (by decide) (by decide)]
    exact hok (skipPayload_fixed (fun _ => rfl) (length_leBytes 8 _)) trivial
  | scalar s =>
    obtain ⟨hlist, hmap, -⟩ := scalarTag_ne s
    rw [wireBytes, scalarBytes, cons_append, skipValidatedValue_scalar hdepth hlist hmap]
    cases s with
    | decimal value => exact ⟨by rintro ⟨⟩, fun h => h.1.elim⟩
    | _ => exact hok (skipPayload_scalar hfits.1 (by simp) rest) trivial

lemma skipItems_render : ∀ {ws rest rest'},
    (∀ w ∈ ws, ∀ {rest rest'}, skipValidatedValue depth (render wireBytes w ++ rest) = .ok rest' ↔
      w.Everywhere (fun _ => Skippable) depth ∧ rest' = rest) →
    (skipItems depth ws.length (renderItems wireBytes ws ++ rest) = .ok rest' ↔
      (∀ w ∈ ws, w.Everywhere (fun _ => Skippable) depth) ∧ rest' = rest)
  | [], rest, rest', _ => by simp [skipItems, renderItems, eq_comm]
  | w :: ws, rest, rest', h => by
    rw [forall_mem_cons] at h
    rw [renderItems, append_assoc, length_cons, skipItems, bind_eq_ok, forall_mem_cons]
    simp only [h.1]
    constructor
    · rintro ⟨_, ⟨hw, rfl⟩, hskip⟩
      obtain ⟨hws, rfl⟩ := (skipItems_render h.2).1 hskip
      exact ⟨⟨hw, hws⟩, rfl⟩
    · rintro ⟨⟨hw, hws⟩, rfl⟩
      exact ⟨_, ⟨hw, rfl⟩, (skipItems_render h.2).2 ⟨hws, rfl⟩⟩

lemma skipEntries_render : ∀ {es rest rest'},
    (∀ e ∈ es, ∀ {rest rest'}, skipValidatedValue depth (render wireBytes e.2 ++ rest) = .ok rest' ↔
      e.2.Everywhere (fun _ => Skippable) depth ∧ rest' = rest) →
    (∀ e ∈ es, (utf8 e.1).length < 2 ^ 32) →
    (skipEntries depth es.length (renderEntries wireBytes es ++ rest) = .ok rest' ↔
      (∀ e ∈ es, e.2.Everywhere (fun _ => Skippable) depth) ∧ rest' = rest)
  | [], rest, rest', _, _ => by simp [skipEntries, renderEntries, eq_comm]
  | (key, w) :: es, rest, rest', h, hlength => by
    rw [forall_mem_cons] at h hlength
    have hkey : ∀ rest, discard (readSized (keyBytes key ++ rest)) = .ok rest := by
      intro rest
      rw [keyBytes, append_assoc, readSized_append hlength.1]
      rfl
    rw [renderEntries, append_assoc, append_assoc, length_cons, skipEntries, hkey,
      ok_bind, bind_eq_ok, forall_mem_cons]
    simp only [h.1]
    constructor
    · rintro ⟨_, ⟨hw, rfl⟩, hskip⟩
      obtain ⟨hes, rfl⟩ := (skipEntries_render h.2 hlength.2).1 hskip
      exact ⟨⟨hw, hes⟩, rfl⟩
    · rintro ⟨⟨hw, hes⟩, rfl⟩
      exact ⟨_, ⟨hw, rfl⟩, (skipEntries_render h.2 hlength.2).2 ⟨hes, rfl⟩⟩

lemma skipValidatedValue_render (h : w.Everywhere (ValidNode count) depth) :
    skipValidatedValue depth (render wireBytes w ++ rest) = .ok rest' ↔
      w.Everywhere (fun _ => Skippable) depth ∧ rest' = rest := by
  induction w using induct generalizing depth rest rest' with
  | leaf l =>
    obtain ⟨⟨hdepth, hfits⟩, -⟩ := everywhere_leaf.1 h
    rw [render, everywhere_leaf]
    exact skipValidatedValue_leaf hdepth hfits
  | list ws ih =>
    obtain ⟨⟨⟨hdepth, hcount⟩, -⟩, hws⟩ := everywhere_list.1 h
    rw [render, cons_append, append_assoc, skipValidatedValue_list hdepth,
      readU32_append hcount, ok_bind, everywhere_list,
      skipItems_render fun w hmem => ih w hmem (hws w hmem)]
    simp [Skippable]
  | map es ih =>
    obtain ⟨⟨⟨hdepth, hcount, hlength⟩, -⟩, hes⟩ := everywhere_map.1 h
    rw [render, cons_append, append_assoc, skipValidatedValue_map hdepth,
      readU32_append hcount, ok_bind, everywhere_map,
      skipEntries_render (fun e hmem => ih e hmem (hes e hmem)) hlength]
    simp [Skippable]

end

end Canonical

end HawDB
