import HawDB.Proofs.CanonicalFormat

/-!
# Writing a value and reading it back

An admitted value fits the format (`fits_of_encodedValueLen`), and both writers give the bytes of
its tree (`encodeValue_render`, `writeValueStreaming_eq`). The decoder checks one depth more than
they do: an empty map at the limit is written and not read. With the temporal values that a payload
does not give back, that is all that is lost (`canonical_round_trip_iff`).
-/

namespace HawDB

open List TemporalCodec

namespace Canonical

/-! ## Scalars -/

lemma u32Len_eq_ok {length n : ℕ} :
    u32Len length name = .ok n ↔ length < 2 ^ 32 ∧ n = length := by
  unfold u32Len
  split_ifs with h
  · simp only [h, true_and, Except.ok.injEq, eq_comm]
  · exact ⟨nofun, fun hn => absurd hn.1 h⟩

variable {depth : ℕ}

lemma ensureDepth_eq_ok : ensureDepth depth = .ok u ↔ depth ≤ maxValueDepth := by
  unfold ensureDepth
  split_ifs with h
  · simp [corrupt, h]
  · simp only [not_lt.1 h]

lemma ensureDepth_eq (h : depth ≤ maxValueDepth) : ensureDepth depth = .ok () :=
  ensureDepth_eq_ok.2 h

lemma encodeSized_eq {bytes : Bytes} (h : bytes.length < 2 ^ 32) (name : String) :
    encodeSized bytes name = .ok (leBytes 4 bytes.length ++ bytes) := by
  rw [encodeSized, u32Len_eq_ok.2 ⟨h, rfl⟩]
  rfl

lemma encodeScalar_eq (h : scalarFits s) : encodeScalar s = .ok (scalarBytes s) := by
  cases s with
  | string value => rw [encodeScalar, encodeString, encodeSized_eq h]; rfl
  | binary value => rw [encodeScalar, encodeSized_eq h]; rfl
  | vector value => rw [encodeScalar, encodeSized_eq h]; rfl
  | _ => rfl

lemma encodedScalarLen_eq_ok {s : Scalar} :
    encodedScalarLen s = .ok n ↔ scalarFits s ∧ n = (scalarBytes s).length := by
  have hsized : ∀ bytes name,
      ((u32Len bytes.length name).map fun _ => 1 + 4 + bytes.length) = .ok n ↔
        bytes.length < 2 ^ 32 ∧ n = (leBytes 4 bytes.length ++ bytes).length + 1 := by
    intro bytes name
    simp only [map_eq_ok, u32Len_eq_ok, length_append, length_leBytes]
    constructor
    · rintro ⟨_, ⟨h, -⟩, rfl⟩
      exact ⟨h, by omega⟩
    · rintro ⟨h, rfl⟩
      exact ⟨_, ⟨h, rfl⟩, by omega⟩
  have hfixed : ∀ m, m = (scalarBytes s).length → scalarFits s →
      ((Except.ok m : CanonicalResult ℕ) = .ok n ↔ scalarFits s ∧ n = (scalarBytes s).length) := by
    rintro m rfl hs
    simp only [hs, true_and, Except.ok.injEq, eq_comm]
  cases s with
  | string value => exact hsized (utf8 value) "string"
  | binary value => exact hsized value "binary"
  | vector value => exact hsized value.encoded "vector"
  | null => exact hfixed 1 rfl trivial
  | bool value => exact hfixed 2 rfl trivial
  | int value => exact hfixed 9 (by simp [scalarBytes, scalarPayload]) trivial
  | float bits => exact hfixed 9 (by simp [scalarBytes, scalarPayload]) trivial
  | uuid value => exact hfixed 17 (by simp [scalarBytes, scalarPayload, value.2]) trivial
  | decimal value =>
    exact hfixed 18 (by simp [scalarBytes, scalarPayload, value.length_toLeBytes]; rfl) trivial
  | temporal value =>
    refine hfixed _ ?_ trivial
    rw [scalarBytes, scalarPayload, length_cons, length_encodePayload]
    omega

lemma length_scalarBytes_le (s : Scalar) : (scalarBytes s).length ≤ 32 + s.heapBytes := by
  cases s with
  | temporal value =>
    rw [scalarBytes, scalarPayload, length_cons, TemporalCodec.length_encodePayload]
    cases value <;> simp [TemporalValue.kind, TemporalValueKind.payloadLen, Scalar.heapBytes]
  | decimal value =>
    have hlength := value.length_toLeBytes
    unfold Decimal.encodedLen at hlength
    simp [scalarBytes, scalarPayload, Scalar.heapBytes, hlength]
  | uuid value => simp [scalarBytes, scalarPayload, Scalar.heapBytes, value.2]
  | _ => simp [scalarBytes, scalarPayload, Scalar.heapBytes]

/-! ## What admission accepts -/

mutual

theorem fits_of_encodedValueLen : ∀ {v depth n}, encodedValueLen depth v = .ok n →
    v.Everywhere (FitsNode scalarFits) depth
  | .leaf s, depth, n, h => by
    simp only [encodedValueLen, bind_eq_ok, ensureDepth_eq_ok, encodedScalarLen_eq_ok] at h
    obtain ⟨_, hdepth, hfits, -⟩ := h
    exact Tree.everywhere_leaf.2 ⟨hdepth, hfits⟩
  | .list vs, depth, n, h => by
    simp only [encodedValueLen, bind_eq_ok, ensureDepth_eq_ok, u32Len_eq_ok] at h
    obtain ⟨_, hdepth, _, ⟨hcount, -⟩, hitems⟩ := h
    exact Tree.everywhere_list.2 ⟨⟨hdepth, hcount⟩, fits_of_encodedItemsLen hitems⟩
  | .map es, depth, n, h => by
    simp only [encodedValueLen, bind_eq_ok, ensureDepth_eq_ok, u32Len_eq_ok] at h
    obtain ⟨_, hdepth, _, ⟨hcount, -⟩, hentries⟩ := h
    obtain ⟨hkeys, hvalues⟩ := fits_of_encodedEntriesLen hentries
    exact Tree.everywhere_map.2 ⟨⟨hdepth, hcount, hkeys⟩, hvalues⟩

theorem fits_of_encodedItemsLen : ∀ {vs depth total n},
    encodedItemsLen depth total vs = .ok n → ∀ v ∈ vs, v.Everywhere (FitsNode scalarFits) depth
  | [], _, _, _, _ => by simp
  | v :: vs, depth, total, n, h => by
    simp only [encodedItemsLen, bind_eq_ok] at h
    obtain ⟨_, hv, hvs⟩ := h
    exact forall_mem_cons.2 ⟨fits_of_encodedValueLen hv, fits_of_encodedItemsLen hvs⟩

theorem fits_of_encodedEntriesLen : ∀ {es depth total n},
    encodedEntriesLen depth total es = .ok n → (∀ e ∈ es, (utf8 e.1).length < 2 ^ 32) ∧
      ∀ e ∈ es, e.2.Everywhere (FitsNode scalarFits) depth
  | [], _, _, _, _ => by simp
  | (key, v) :: es, depth, total, n, h => by
    simp only [encodedEntriesLen, bind_eq_ok, u32Len_eq_ok] at h
    obtain ⟨_, ⟨hkey, -⟩, _, hv, hes⟩ := h
    obtain ⟨hkeys, hvalues⟩ := fits_of_encodedEntriesLen hes
    exact ⟨forall_mem_cons.2 ⟨hkey, hkeys⟩, forall_mem_cons.2 ⟨fits_of_encodedValueLen hv, hvalues⟩⟩

end

/-! ## What the writers give -/

variable {v : Value}

lemma encodeValue_render (h : v.Everywhere (FitsNode scalarFits) depth) :
    encodeValue depth v = .ok (render scalarBytes v) := by
  induction v using Tree.induct generalizing depth with
  | leaf s =>
    obtain ⟨hdepth, hs⟩ := Tree.everywhere_leaf.1 h
    rw [encodeValue, ensureDepth_eq hdepth, ok_bind, encodeScalar_eq hs, render]
  | list vs ih =>
    obtain ⟨⟨hdepth, hcount⟩, hvs⟩ := Tree.everywhere_list.1 h
    have hitems : ∀ us, (∀ u ∈ us, u ∈ vs) →
        encodeItems (depth + 1) us = .ok (renderItems scalarBytes us) := by
      intro us hsub
      induction us with
      | nil => rfl
      | cons u us ihu =>
        rw [forall_mem_cons] at hsub
        rw [encodeItems, ih u hsub.1 (hvs u hsub.1), ok_bind, ihu hsub.2]
        rfl
    rw [encodeValue, ensureDepth_eq hdepth, ok_bind, u32Len_eq_ok.2 ⟨hcount, rfl⟩, ok_bind,
      hitems vs fun _ hu => hu]
    rfl
  | map es ih =>
    obtain ⟨⟨hdepth, hcount, hkeys⟩, hes⟩ := Tree.everywhere_map.1 h
    have hentries : ∀ us : List (String × Value), (∀ u ∈ us, u ∈ es) →
        encodeProperties (depth + 1) us = .ok (renderEntries scalarBytes us) := by
      intro us hsub
      induction us with
      | nil => rfl
      | cons u us ihu =>
        obtain ⟨key, u⟩ := u
        rw [forall_mem_cons] at hsub
        rw [encodeProperties, encodeString, encodeSized_eq (hkeys _ hsub.1), ok_bind,
          ih _ hsub.1 (hes _ hsub.1), ok_bind, ihu hsub.2]
        rfl
    rw [encodeValue, ensureDepth_eq hdepth, ok_bind, u32Len_eq_ok.2 ⟨hcount, rfl⟩, ok_bind,
      hentries es fun _ hu => hu]
    rfl

lemma writeScalarStreaming_eq (s : Scalar) : writeScalarStreaming s = encodeScalar s := by
  cases s <;> rfl

mutual

theorem writeValueStreaming_eq : ∀ v depth, writeValueStreaming depth v = encodeValue depth v
  | .leaf s, depth => by rw [writeValueStreaming, encodeValue, writeScalarStreaming_eq]
  | .list vs, depth => by
    rw [writeValueStreaming, encodeValue, writeItemsStreaming_eq vs]
    rfl
  | .map es, depth => by
    rw [writeValueStreaming, encodeValue, writeEntriesStreaming_eq es]
    rfl

theorem writeItemsStreaming_eq : ∀ vs depth, writeItemsStreaming depth vs = encodeItems depth vs
  | [], _ => rfl
  | v :: vs, depth => by
    rw [writeItemsStreaming, encodeItems, writeValueStreaming_eq v, writeItemsStreaming_eq vs]

theorem writeEntriesStreaming_eq : ∀ (es : List (String × Value)) (depth : ℕ),
    writeEntriesStreaming (depth + 1) es = encodeProperties depth es
  | [], _ => rfl
  | (key, v) :: es, depth => by
    rw [writeEntriesStreaming, encodeProperties, writeValueStreaming_eq v,
      writeEntriesStreaming_eq es]
    rfl

end

/-! ## The length that admission computes -/

lemma satAdd_eq (h : a + b ≤ usizeMax) : satAdd a b = a + b := min_eq_left h

mutual

theorem length_render_le : ∀ v : Value, (render scalarBytes v).length ≤ v.heldBytes
  | .leaf s => by
    rw [render, Value.heldBytes]
    exact length_scalarBytes_le s
  | .list vs => by
    have hitems := length_renderItems_le vs
    simp only [render, Value.heldBytes, length_cons, length_append, length_leBytes]
    omega
  | .map es => by
    have hentries := length_renderEntries_le es
    simp only [render, Value.heldBytes, length_cons, length_append, length_leBytes]
    omega

theorem length_renderItems_le : ∀ vs, (renderItems scalarBytes vs).length ≤ Value.heldItems vs
  | [] => by simp [renderItems]
  | v :: vs => by
    have hv := length_render_le v
    have hvs := length_renderItems_le vs
    simp only [renderItems, Value.heldItems, length_append]
    omega

theorem length_renderEntries_le : ∀ es : List (String × Value),
    (renderEntries scalarBytes es).length ≤ Value.heldEntries es
  | [] => by simp [renderEntries]
  | (key, v) :: es => by
    have hv := length_render_le v
    have hes := length_renderEntries_le es
    simp only [renderEntries, keyBytes, Value.heldEntries, length_append, length_leBytes]
    omega

end

mutual

/-- Admission computes the length of the encoding: in memory, no sum saturates. -/
theorem encodedValueLen_eq : ∀ {v depth n}, v.heldBytes ≤ usizeMax →
    encodedValueLen depth v = .ok n → n = (render scalarBytes v).length
  | .leaf s, depth, n, _, h => by
    simp only [encodedValueLen, bind_eq_ok, encodedScalarLen_eq_ok] at h
    obtain ⟨_, -, -, hn⟩ := h
    rw [hn, render]
  | .list vs, depth, n, hheld, h => by
    simp only [encodedValueLen, bind_eq_ok] at h
    obtain ⟨_, -, _, -, hitems⟩ := h
    rw [Value.heldBytes] at hheld
    have hn := encodedItemsLen_eq (by omega) hitems
    simp only [render, length_cons, length_append, length_leBytes]
    omega
  | .map es, depth, n, hheld, h => by
    simp only [encodedValueLen, bind_eq_ok] at h
    obtain ⟨_, -, _, -, hentries⟩ := h
    rw [Value.heldBytes] at hheld
    have hn := encodedEntriesLen_eq (by omega) hentries
    simp only [render, length_cons, length_append, length_leBytes]
    omega

theorem encodedItemsLen_eq : ∀ {vs depth total n},
    total + Value.heldItems vs ≤ usizeMax → encodedItemsLen depth total vs = .ok n →
      n = total + (renderItems scalarBytes vs).length
  | [], _, total, n, _, h => (Except.ok.inj h).symm
  | v :: vs, depth, total, n, hheld, h => by
    simp only [encodedItemsLen, bind_eq_ok] at h
    obtain ⟨length, hv, hvs⟩ := h
    rw [Value.heldItems] at hheld
    have hlength := encodedValueLen_eq (by omega) hv
    have hle := length_render_le v
    rw [satAdd_eq (by omega)] at hvs
    have hn := encodedItemsLen_eq (by omega) hvs
    simp only [renderItems, length_append]
    omega

theorem encodedEntriesLen_eq : ∀ {es depth total n},
    total + Value.heldEntries es ≤ usizeMax → encodedEntriesLen depth total es = .ok n →
      n = total + (renderEntries scalarBytes es).length
  | [], _, total, n, _, h => (Except.ok.inj h).symm
  | (key, v) :: es, depth, total, n, hheld, h => by
    simp only [encodedEntriesLen, bind_eq_ok] at h
    obtain ⟨_, -, length, hv, hes⟩ := h
    rw [Value.heldEntries] at hheld
    have hlength := encodedValueLen_eq (by omega) hv
    have hle := length_render_le v
    have hkey : satAdd total (4 + (utf8 key).length) = total + (4 + (utf8 key).length) :=
      satAdd_eq (by omega)
    rw [hkey, satAdd_eq (by omega)] at hes
    have hn := encodedEntriesLen_eq (by omega) hes
    simp only [renderEntries, keyBytes, length_append, length_leBytes]
    omega

end

/-! ## Reading back -/

lemma readsLeaves_scalar (spills : Option PropertySpillReader) :
    ReadsLeaves scalarBytes scalarFits spills fun _ s => (readScalar s).map .leaf := by
  intro depth s hdepth hs rest rest' v
  rw [scalarBytes, cons_append, decodeValue_scalar hdepth (scalarTag_ne s), bind_eq_ok]
  simp only [Option.map_eq_some_iff]
  constructor
  · rintro ⟨⟨s', _⟩, hread, heq⟩
    obtain ⟨hs', rfl⟩ := (decodeScalar_append hs).1 hread
    cases heq
    exact ⟨⟨s', hs', rfl⟩, rfl⟩
  · rintro ⟨⟨s', hs', rfl⟩, rfl⟩
    exact ⟨(s', _), (decodeScalar_append hs).2 ⟨hs', rfl⟩, rfl⟩

lemma readScalar_eq_self_iff (s : Scalar) : readScalar s = some s ↔ s.Restorable := by
  cases s with
  | temporal value =>
    rw [readScalar, Scalar.Restorable, ← decodePayload_encodePayload,
      ← toOption_eq_some_iff]
    cases (decodePayload value.kind
      (encodePayload value)).toOption <;> simp
  | _ => simp [readScalar, Scalar.Restorable]

/-- A node that is read back: the format holds its scalars, and a map lies above the depth that
the decoder checks for the map itself. -/
def RestorableNode (depth : ℕ) : Value → Prop
  | .leaf s => s.Restorable
  | .list _ => True
  | .map _ => depth < maxValueDepth

instance (depth : ℕ) : DecidablePred (RestorableNode depth)
  | .leaf s => inferInstanceAs (Decidable s.Restorable)
  | .list _ => inferInstanceAs (Decidable True)
  | .map _ => inferInstanceAs (Decidable (depth < maxValueDepth))

lemma sortedKeys_of_keys {es : List (String × Value)}
    (h : (es.map Prod.fst).Pairwise fun a b => compare a b = .lt) : SortedKeys es :=
  sortedKeys_iff_keys.2 h

lemma reading_eq_self_iff (h : v.Everywhere
      (fun _ => Tree.KeysIn fun keys => keys.Pairwise fun a b => compare a b = .lt) depth) :
    reading (fun _ s => (readScalar s).map .leaf) depth v = some v ↔
      v.Everywhere RestorableNode depth := by
  have hmap : ∀ d (es : List (String × Value)),
      (es.map Prod.fst).Pairwise (fun a b => compare a b = .lt) →
        (readMap d es = some es ↔ d < maxValueDepth) ∧ (readMap d es = some es ∨ readMap d es = none) := by
    intro d es hes
    unfold readMap
    split_ifs with hd <;> simp [hd, OrdMap.ofList_entries (sortedKeys_of_keys hes)]
  rw [reading, Tree.traverse_eq_self_iff (fun d es hes => (hmap d es hes).2) h]
  refine Tree.Everywhere.congr (fun d t ht => ?_) h
  cases t with
  | leaf s =>
    rw [Tree.Fixed, RestorableNode, ← readScalar_eq_self_iff]
    cases readScalar s <;> simp
  | list vs => rfl
  | map es => exact (hmap d es ht).1

/-! ## The round trip -/

/-- Both writers give the same bytes, as many as admission computed, and the decoder takes them
all and reads the value. -/
def RoundTrips (v : Value) : Prop :=
  ∃ bytes, encodeValue 1 v = .ok bytes ∧ writeValueStreaming 1 v = .ok bytes ∧
    encodedValueLen 1 v = .ok bytes.length ∧ ∀ spills, decodeValue spills 1 bytes = .ok (v, [])

lemma nodup_of_sorted (h : v.SortedMaps) : v.Everywhere (fun _ => Tree.KeysIn List.Nodup) 1 := by
  refine h.imp fun _ t ht => ?_
  cases t with
  | map es =>
    refine Pairwise.imp (fun hlt heq => ?_) ht
    rw [heq, Std.ReflOrd.compare_self] at hlt
    cases hlt
  | _ => trivial

lemma decodeValue_eq_self_iff (hfits : v.Everywhere (FitsNode scalarFits) 1)
    (hsorted : v.SortedMaps) (spills : Option PropertySpillReader) :
    decodeValue spills 1 (render scalarBytes v) = .ok (v, []) ↔ v.Everywhere RestorableNode 1 := by
  have hdecode : decodeValue spills 1 (render scalarBytes v ++ []) = .ok (v, []) ↔
      reading (fun _ s => (readScalar s).map .leaf) 1 v = some v ∧ ([] : Bytes) = [] :=
    decodeValue_render (readsLeaves_scalar spills) hfits (nodup_of_sorted hsorted)
  rw [append_nil, reading_eq_self_iff hsorted] at hdecode
  rw [hdecode]
  simp

/-- An admitted value is restored exactly when every map lies above the depth limit, no time is in
a leap second and every zoned datetime has a local reading. -/
theorem canonical_round_trip_iff (v : PropertyValue) (h : validatePropertyValue v.value = .ok ()) :
    RoundTrips v.value ↔ v.value.Everywhere RestorableNode 1 := by
  obtain ⟨n, hn, -⟩ := map_eq_ok.1 h
  have hfits := fits_of_encodedValueLen hn
  have hencode := encodeValue_render hfits
  constructor
  · rintro ⟨bytes, hbytes, -, -, hdecode⟩
    cases hencode.symm.trans hbytes
    exact (decodeValue_eq_self_iff hfits v.sorted none).1 (hdecode none)
  · intro hrestorable
    refine ⟨_, hencode, ?_, ?_,
      fun spills => (decodeValue_eq_self_iff hfits v.sorted spills).2 hrestorable⟩
    · rw [writeValueStreaming_eq, hencode]
    · rw [hn, encodedValueLen_eq v.addressable hn]

/-- A value inside lists of one item. -/
def nested : ℕ → Value → Value
  | 0, v => v
  | n + 1, v => .list [nested n v]

/-- An empty map at a depth of 31 is restored. -/
theorem canonical_round_trip_iff_above : validatePropertyValue (nested 30 (.map [])) = .ok () ∧
    RoundTrips (nested 30 (.map [])) :=
  ⟨rfl, (canonical_round_trip_iff ⟨nested 30 (.map []), by decide, by decide⟩ rfl).2 (by decide)⟩

/-- An empty map at a depth of 32 is admitted and written, and its bytes do not decode. -/
theorem deep_empty_map_not_restored : validatePropertyValue (nested 31 (.map [])) = .ok () ∧
    (nested 31 (.map [])).SortedMaps ∧ (nested 31 (.map [])).heldBytes ≤ usizeMax ∧
      ¬ RoundTrips (nested 31 (.map [])) := by
  refine ⟨rfl, by decide, by decide, ?_⟩
  rintro ⟨bytes, hbytes, -, hlength, hdecode⟩
  have hfits := fits_of_encodedValueLen hlength
  cases (encodeValue_render hfits).symm.trans hbytes
  have hrestorable := (decodeValue_eq_self_iff hfits (by decide) none).1 (hdecode none)
  exact absurd hrestorable (by decide)

end Canonical

end HawDB
