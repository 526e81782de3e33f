import HawDB.CanonicalFormat
import HawDB.Proofs.GraphValue

/-!
# Decoding a rendered tree

The decoder takes exactly the bytes of a rendered tree and reads the tree's `reading`
(`decodeValue_render`). This holds for trees over any kind of leaf whose bytes the decoder takes
one leaf at a time (`ReadsLeaves`): the scalars of a value, or scalars and references to spilled
values.
-/

namespace HawDB

open List Option

namespace Canonical

/-! ## The cursor -/

lemma readExact_append {a rest : Bytes} (h : a.length = n) :
    readExact n (a ++ rest) = .ok (a, rest) := by
  rw [readExact, if_pos (by rw [length_append]; omega), take_left' h, drop_left' h]

lemma readU32_append (h : n < 2 ^ 32) (rest : Bytes) :
    readU32 (leBytes 4 n ++ rest) = .ok (n, rest) := by
  rw [readU32, readExact_append (length_leBytes 4 n), map_ok, leNat_leBytes (by omega)]

lemma readU64_append (n : UInt64) (rest : Bytes) :
    readU64 (leBytes 8 n.toNat ++ rest) = .ok (n.toNat, rest) := by
  have hlt := n.toNat_lt
  rw [readU64, readExact_append (length_leBytes 8 _), map_ok, leNat_leBytes (by omega)]

lemma readSized_append {bytes : Bytes} (h : bytes.length < 2 ^ 32) (rest : Bytes) :
    readSized (leBytes 4 bytes.length ++ (bytes ++ rest)) = .ok (bytes, rest) := by
  rw [readSized, readU32_append h]
  exact readExact_append rfl

lemma textOf_utf8 (s : String) : textOf (utf8 s) = .ok s := by rw [textOf, textOfUtf8_utf8]

lemma readString_append (h : (utf8 s).length < 2 ^ 32) (rest : Bytes) :
    readString (keyBytes s ++ rest) = .ok (s, rest) := by
  rw [readString, keyBytes, append_assoc, readSized_append h]
  simp only [ok_bind, textOf_utf8]
  rfl

lemma readUuid_append (u : ByteArr 16) (rest : Bytes) :
    readUuid (u.1 ++ rest) = .ok (u, rest) := by
  rw [readUuid, dif_pos (by rw [length_append, u.2]; omega)]
  simp only [take_left' u.2, drop_left' u.2]

lemma readDecimalValue_append (d : Decimal) (rest : Bytes) :
    readDecimalValue (d.toLeBytes ++ rest) = .ok (d, rest) := by
  rw [readDecimalValue, readExact_append d.length_toLeBytes]
  simp only [ok_bind, (Decimal.fromLeBytes_eq_ok d.length_toLeBytes).2 rfl]
  rfl

lemma readVector_append {v : GraphVector} (h : v.encoded.length < 2 ^ 32) (rest : Bytes) :
    readVector (leBytes 4 v.encoded.length ++ (v.encoded ++ rest)) = .ok (v, rest) := by
  rw [readVector, readSized_append h]
  simp only [ok_bind, GraphVector.fromEncoded_eq_ok.2 rfl]
  rfl

lemma readTemporalValue_append (value : TemporalValue) (rest : Bytes) :
    readTemporalValue value.kind (TemporalCodec.encodePayload value ++ rest) =
      match TemporalCodec.decodePayload value.kind (TemporalCodec.encodePayload value) with
      | .ok value => .ok (value, rest)
      | .error message => corrupt message := by
  rw [readTemporalValue, readExact_append (TemporalCodec.length_encodePayload value)]
  rfl

/-! ## Scalars -/

lemma scalarTag_ne (s : Scalar) : scalarTag s ≠ 5 ∧ scalarTag s ≠ 6 ∧ scalarTag s ≠ 7 := by
  cases s with
  | temporal value =>
    rw [scalarTag]
    cases value.kind <;> decide
  | _ =>
    rw [scalarTag]
    decide

lemma decodeScalar_temporal (kind : TemporalValueKind) (cursor : Bytes) :
    decodeScalar (canonicalTemporalTag kind) cursor =
      (readTemporalValue kind cursor).map fun read => (.temporal read.1, read.2) := by
  cases kind <;> rfl

lemma decodeScalar_append (h : scalarFits s) :
    decodeScalar (scalarTag s) (scalarPayload s ++ rest) = .ok (s', rest') ↔
      readScalar s = some s' ∧ rest' = rest := by
  have hok : ∀ {r : CanonicalResult (Scalar × Bytes)} (t : Scalar), r = .ok (t, rest) →
      (r = .ok (s', rest') ↔ some t = some s' ∧ rest' = rest) := by
    rintro _ t rfl
    rw [Except.ok.injEq, Prod.mk.injEq, some.injEq, eq_comm (a := rest)]
  have hmap : ∀ {α : Type} (read : CanonicalResult (α × Bytes)) (f : α → Scalar) {a : α},
      read = .ok (a, rest) → ((read.map fun read => (f read.1, read.2)) = .ok (s', rest') ↔
        some (f a) = some s' ∧ rest' = rest) := by
    rintro α _ f a rfl
    exact hok (f a) rfl
  cases s with
  | null => exact hok .null rfl
  | bool value => exact hok (.bool value) (by cases value <;> rfl)
  | int value =>
    refine hok (.int value) ?_
    simp only [scalarTag, scalarPayload, decodeScalar, UInt8.reduceToNat,
      readExact_append (length_leIntBytes 8 _), map_ok, TemporalCodec.leInt_int64,
      Int64.ofInt_toInt]
  | float bits =>
    refine hok (.float bits) ?_
    simp only [scalarTag, scalarPayload, decodeScalar, UInt8.reduceToNat, readU64_append, map_ok,
      UInt64.ofNat_toNat]
  | string value => exact hmap (readString _) .string (readString_append h rest)
  | binary value =>
    rw [scalarPayload, append_assoc]
    exact hmap (readSized _) .binary (readSized_append h rest)
  | vector value =>
    rw [scalarPayload, append_assoc]
    exact hmap (readVector _) .vector (readVector_append h rest)
  | decimal value =>
    refine hok (.decimal value) ?_
    simp only [scalarTag, scalarPayload, decodeScalar, UInt8.reduceToNat, readDecimalValue_append,
      map_ok]
  | uuid value => exact hmap (readUuid _) .uuid (readUuid_append value rest)
  | temporal value =>
    rw [scalarTag, scalarPayload, decodeScalar_temporal, readTemporalValue_append, readScalar]
    cases TemporalCodec.decodePayload value.kind (TemporalCodec.encodePayload value) with
    | error message => simp [Except.map, corrupt, Except.toOption]
    | ok decoded => exact hok (.temporal decoded) rfl

/-! ## One step of the decoder -/

section

variable {spills : Option PropertySpillReader} {depth : ℕ} (hdepth : depth ≤ maxValueDepth)

include hdepth

lemma decodeValue_scalar (htag : tag ≠ 5 ∧ tag ≠ 6 ∧ tag ≠ 7) (cursor : Bytes) :
    decodeValue spills depth (tag :: cursor) =
      decodeScalar tag cursor >>= fun read => .ok (.leaf read.1, read.2) := by
  rw [decodeValue, dif_neg hdepth.not_gt, readU8, ok_bind]
  simp only [if_neg htag.1, if_neg htag.2.1, if_neg htag.2.2]
  rfl

lemma decodeValue_list (cursor : Bytes) : decodeValue spills depth (5 :: cursor) =
    readU32 cursor >>= fun read => decodeItems spills (depth + 1) read.1 read.2 >>= fun read =>
      .ok (.list read.1, read.2) := by
  rw [decodeValue, dif_neg hdepth.not_gt, readU8, ok_bind]
  rfl

lemma decodeValue_map (cursor : Bytes) : decodeValue spills depth (6 :: cursor) =
    readCount (depth + 1) cursor >>= fun read =>
      decodeEntries spills (depth + 2) none read.1 read.2 [] >>= fun read =>
        .ok (.map read.1, read.2) := by
  rw [decodeValue, dif_neg hdepth.not_gt, readU8, ok_bind]
  rfl

lemma decodeValue_spill (reader : PropertySpillReader) (cursor : Bytes) :
    decodeValue (some reader) depth (7 :: cursor) =
      readU64 cursor >>= fun read => readSpill reader read.1 >>= fun encoded =>
        decodeValue none depth encoded >>= fun spilled => finishSpill read.1 spilled >>= fun value =>
          .ok (value, read.2) := by
  rw [decodeValue, dif_neg hdepth.not_gt, readU8, ok_bind]
  rfl

end

/-! ## Trees -/

section

variable {L : Type} {leafBytes : L → Bytes} {leafFits : L → Prop}
  {spills : Option PropertySpillReader} {readLeaf : ℕ → L → Option Value}

variable (leafBytes leafFits spills readLeaf) in
/-- The decoder takes the bytes of a leaf, and nothing more, and reads what the leaf reads as. -/
def ReadsLeaves : Prop :=
  ∀ {depth : ℕ} {l : L}, depth ≤ maxValueDepth → leafFits l → ∀ {rest rest' : Bytes} {v : Value},
    decodeValue spills depth (leafBytes l ++ rest) = .ok (v, rest') ↔
      readLeaf depth l = some v ∧ rest' = rest

lemma decodeItems_render : ∀ {ts vs} {rest rest' : Bytes}, (∀ t ∈ ts, ∀ {rest rest' v},
      decodeValue spills depth (render leafBytes t ++ rest) = .ok (v, rest') ↔
        reading readLeaf depth t = some v ∧ rest' = rest) →
    (decodeItems spills depth ts.length (renderItems leafBytes ts ++ rest) = .ok (vs, rest') ↔
      Tree.traverseList readLeaf readMap depth ts = some vs ∧ rest' = rest)
  | [], vs, rest, rest', _ => by
    simp [decodeItems, renderItems, Tree.traverseList, eq_comm]
  | t :: ts, vs, rest, rest', h => by
    rw [forall_mem_cons] at h
    simp only [length_cons, decodeItems, renderItems, append_assoc, bind_eq_ok, h.1,
      Tree.traverseList, bind_eq_some_iff, map_eq_some_iff]
    constructor
    · rintro ⟨⟨v, _⟩, ⟨hv, rfl⟩, ⟨vs', _⟩, hitems, heq⟩
      obtain ⟨hvs, rfl⟩ := (decodeItems_render h.2).1 hitems
      cases heq
      exact ⟨⟨v, hv, vs', hvs, rfl⟩, rfl⟩
    · rintro ⟨⟨v, hv, vs', hvs, rfl⟩, rfl⟩
      exact ⟨(v, _), ⟨hv, rfl⟩, (vs', _), (decodeItems_render h.2).2 ⟨hvs, rfl⟩, rfl⟩

lemma insertNew_eq_ok (h : ∀ e ∈ output, e.1 ≠ key) :
    insertNew output key v = .ok out ↔ insertEntry key v output = out := by
  rw [insertNew, findEntry_eq_none fun e he heq => h e he (compare_eq_iff_eq.1 heq)]
  simp

lemma decodeEntries_render : ∀ {es} {output out : List (String × Value)} {rest rest' : Bytes},
    (∀ e ∈ es, ∀ {rest rest' v},
      decodeValue spills depth (render leafBytes e.2 ++ rest) = .ok (v, rest') ↔
        reading readLeaf depth e.2 = some v ∧ rest' = rest) →
    (∀ e ∈ es, (utf8 e.1).length < 2 ^ 32) → (es.map Prod.fst).Nodup →
    (∀ e ∈ es, ∀ o ∈ output, o.1 ≠ e.1) →
    (decodeEntries spills depth none es.length (renderEntries leafBytes es ++ rest) output =
        .ok (out, rest') ↔ (∃ es', Tree.traverseMap readLeaf readMap depth es = some es' ∧
        es'.foldl (fun entries e => insertEntry e.1 e.2 entries) output = out) ∧ rest' = rest)
  | [], output, out, rest, rest', _, _, _, _ => by
    simp [decodeEntries, renderEntries, Tree.traverseMap, eq_comm]
  | (key, t) :: es, output, out, rest, rest', h, hlength, hnodup, hnew => by
    rw [forall_mem_cons] at h hlength hnew
    rw [map_cons, nodup_cons] at hnodup
    simp only [length_cons, decodeEntries, renderEntries, append_assoc, readKey,
      readString_append hlength.1, ok_bind, bind_eq_ok, h.1, Tree.traverseMap,
      bind_eq_some_iff, map_eq_some_iff]
    have hnext : ∀ v, ∀ e ∈ es, ∀ o ∈ insertEntry key v output, o.1 ≠ e.1 := by
      intro v e he
      refine (forall_key_insertEntry (P := (· ≠ e.1))).2 ⟨?_, hnew.2 e he⟩
      rintro rfl
      exact hnodup.1 (mem_map.2 ⟨e, he, rfl⟩)
    constructor
    · rintro ⟨⟨v, _⟩, ⟨hv, rfl⟩, out', hout, hentries⟩
      obtain rfl := (insertNew_eq_ok hnew.1).1 hout
      obtain ⟨⟨es', hes, rfl⟩, rfl⟩ :=
        (decodeEntries_render h.2 hlength.2 hnodup.2 (hnext v)).1 hentries
      exact ⟨⟨_, ⟨v, hv, es', hes, rfl⟩, rfl⟩, rfl⟩
    · rintro ⟨⟨_, ⟨v, hv, es', hes, rfl⟩, rfl⟩, rfl⟩
      exact ⟨(v, _), ⟨hv, rfl⟩, _, (insertNew_eq_ok hnew.1).2 rfl,
        (decodeEntries_render h.2 hlength.2 hnodup.2 (hnext v)).2 ⟨⟨es', hes, rfl⟩, rfl⟩⟩

lemma readCount_append {depth count : ℕ} (h : count < 2 ^ 32) (rest : Bytes) :
    readCount depth (leBytes 4 count ++ rest) =
      if maxValueDepth < depth then corrupt s!"canonical value nesting exceeds {maxValueDepth}"
      else .ok (count, rest) := by
  unfold readCount ensureDepth
  split_ifs
  · rfl
  · exact readU32_append h rest

lemma decodeValue_render (hleaf : ReadsLeaves leafBytes leafFits spills readLeaf) {depth : ℕ}
    (hfits : t.Everywhere (FitsNode leafFits) depth)
    (hkeys : t.Everywhere (fun _ => Tree.KeysIn List.Nodup) depth)
    {rest rest' : Bytes} {v : Value} :
    decodeValue spills depth (render leafBytes t ++ rest) = .ok (v, rest') ↔
      reading readLeaf depth t = some v ∧ rest' = rest := by
  induction t using Tree.induct generalizing depth rest rest' v with
  | leaf l =>
    obtain ⟨hdepth, hl⟩ := Tree.everywhere_leaf.1 hfits
    rw [render, reading, Tree.traverse]
    exact hleaf hdepth hl
  | list ts ih =>
    obtain ⟨⟨hdepth, hcount⟩, hts⟩ := Tree.everywhere_list.1 hfits
    have hitems := fun t hmem {rest rest' v} =>
      @ih t hmem (depth + 1) (hts t hmem) ((Tree.everywhere_list.1 hkeys).2 t hmem) rest rest' v
    rw [render, cons_append, append_assoc, decodeValue_list hdepth,
      readU32_append hcount, ok_bind, reading, Tree.traverse, bind_eq_ok]
    simp only [map_eq_some_iff]
    constructor
    · rintro ⟨⟨vs, _⟩, hdecode, heq⟩
      obtain ⟨hvs, rfl⟩ := (decodeItems_render hitems).1 hdecode
      cases heq
      exact ⟨⟨vs, hvs, rfl⟩, rfl⟩
    · rintro ⟨⟨vs, hvs, rfl⟩, rfl⟩
      exact ⟨(vs, _), (decodeItems_render hitems).2 ⟨hvs, rfl⟩, rfl⟩
  | map es ih =>
    obtain ⟨⟨hdepth, hcount, hlength⟩, hes⟩ := Tree.everywhere_map.1 hfits
    obtain ⟨hnodup, hkeys⟩ := Tree.everywhere_map.1 hkeys
    have hentries := fun e hmem {rest rest' v} =>
      @ih e hmem (depth + 2) (hes e hmem) (hkeys e hmem) rest rest' v
    rw [render, cons_append, append_assoc, decodeValue_map hdepth,
      readCount_append hcount, reading, Tree.traverse]
    simp only [bind_eq_some_iff, map_eq_some_iff, readMap]
    split_ifs with hdeep hshallow
    · omega
    · refine ⟨by rintro ⟨⟩, ?_⟩
      rintro ⟨⟨_, -, _, h, -⟩, -⟩
      cases h
    · rw [ok_bind, bind_eq_ok]
      constructor
      · rintro ⟨⟨out, _⟩, hdecode, heq⟩
        obtain ⟨⟨es', hes', rfl⟩, rfl⟩ :=
          (decodeEntries_render hentries hlength hnodup (by simp)).1 hdecode
        cases heq
        exact ⟨⟨es', hes', _, congrArg some (OrdMap.ofList_entries_eq_foldl es'), rfl⟩, rfl⟩
      · rintro ⟨⟨es', hes', _, hout, rfl⟩, rfl⟩
        refine ⟨(_, _), (decodeEntries_render hentries hlength hnodup (by simp)).2
          ⟨⟨es', hes', ?_⟩, rfl⟩, rfl⟩
        rw [← OrdMap.ofList_entries_eq_foldl]
        exact some.inj hout
    · omega

end

end Canonical

end HawDB
