import HawDB.Proofs.CanonicalWalk

/-!
# The projected read of a node record

The check of a record accepts exactly the bytes of a valid record (`validateRecordPayload_eq_ok`).
The skip by length has no case for the tag of a decimal (`projection_agrees_iff`).
-/

namespace HawDB

open List Option

namespace Canonical

/-! ## Valid records -/

/-- A property that the check accepts: its number names its key, and its value is valid. -/
structure WireProperty.Valid (keys : List String) (count : Option ℕ) (p : WireProperty) : Prop where
  keyId : p.keyId < 2 ^ 32
  named : keys[p.keyId]? = some p.key
  value : p.wire.Everywhere (ValidNode count) 1

/-- A record that the check accepts. -/
structure NodePayload.Valid (keys : List String) (count : Option ℕ) (record : NodePayload) :
    Prop where
  labelCount : record.labels.length < 2 ^ 32
  labels : ∀ label ∈ record.labels, label < 2 ^ 32
  propertyCount : record.properties.length < 2 ^ 32
  properties : ∀ p ∈ record.properties, p.Valid keys count
  keyIds : (record.properties.map (·.keyId)).Nodup

section

variable {keys : List String} {count : Option ℕ}

lemma skipLabels_eq_ok : ∀ {n cursor rest}, skipLabels n cursor = .ok rest ↔
    ∃ labels, labels.length = n ∧ (∀ label ∈ labels, label < 2 ^ 32) ∧
      cursor = labelBytes labels ++ rest
  | 0, cursor, rest => by
    rw [skipLabels, Except.ok.injEq]
    constructor
    · rintro rfl
      exact ⟨[], rfl, by simp, rfl⟩
    · rintro ⟨labels, hlength, -, rfl⟩
      rw [length_eq_zero_iff.1 hlength]
      rfl
  | n + 1, cursor, rest => by
    rw [skipLabels, bind_eq_ok]
    constructor
    · rintro ⟨c, hread, hskip⟩
      obtain ⟨label, hlabel⟩ := discard_eq_ok.1 hread
      obtain ⟨rfl, hlt⟩ := readU32_eq_ok.1 hlabel
      obtain ⟨labels, rfl, hlabels, rfl⟩ := skipLabels_eq_ok.1 hskip
      exact ⟨label :: labels, rfl, forall_mem_cons.2 ⟨hlt, hlabels⟩,
        by rw [labelBytes, append_assoc]⟩
    · rintro ⟨_ | ⟨label, labels⟩, hlength, hlabels, rfl⟩
      · cases hlength
      · rw [forall_mem_cons] at hlabels
        refine ⟨labelBytes labels ++ rest, discard_eq_ok.2 ⟨label, ?_⟩,
          skipLabels_eq_ok.2 ⟨labels, Nat.succ.inj hlength, hlabels.2, rfl⟩⟩
        rw [labelBytes, append_assoc, readU32_append hlabels.1]

lemma validateProperties_eq_ok : ∀ {n cursor rest seen},
    validateProperties count keys n cursor seen = .ok rest ↔
      ∃ ps, ps.length = n ∧ (∀ p ∈ ps, p.Valid keys count) ∧
        (ps.map (·.keyId)).Nodup ∧ (∀ p ∈ ps, p.keyId ∉ seen) ∧ cursor = propertyBytes ps ++ rest
  | 0, cursor, rest, seen => by
    rw [validateProperties, Except.ok.injEq]
    constructor
    · rintro rfl
      exact ⟨[], rfl, by simp, by simp, by simp, rfl⟩
    · rintro ⟨ps, hlength, -, -, -, rfl⟩
      rw [length_eq_zero_iff.1 hlength]
      rfl
  | n + 1, cursor, rest, seen => by
    rw [validateProperties, bind_eq_ok]
    constructor
    · rintro ⟨⟨keyId, c⟩, hread, h⟩
      obtain ⟨rfl, hlt⟩ := readU32_eq_ok.1 hread
      simp only at h
      split_ifs at h with hbad
      · cases h
      rw [not_or] at hbad
      have hsome : keys[keyId]?.isSome := by simpa using hbad.1
      obtain ⟨key, hkey⟩ := isSome_iff_exists.1 hsome
      obtain ⟨c', hvalue, hnext⟩ := bind_eq_ok.1 h
      obtain ⟨w, rfl, hw⟩ := tree_of_validateEncodedValue 1 _ c' hvalue
      obtain ⟨ps, rfl, hps, hnodup, hseen, rfl⟩ := validateProperties_eq_ok.1 hnext
      refine ⟨⟨keyId, key, w⟩ :: ps, rfl, forall_mem_cons.2 ⟨⟨hlt, hkey, hw⟩, hps⟩, ?_,
        forall_mem_cons.2 ⟨hbad.2, fun p hp hmem => hseen p hp (.tail _ hmem)⟩,
        by simp only [propertyBytes, append_assoc]⟩
      rw [map_cons, nodup_cons]
      refine ⟨fun hmem => ?_, hnodup⟩
      obtain ⟨p, hp, heq⟩ := mem_map.1 hmem
      exact hseen p hp (heq ▸ mem_cons_self)
    · rintro ⟨_ | ⟨p, ps⟩, hlength, hps, hnodup, hseen, rfl⟩
      · cases hlength
      · rw [forall_mem_cons] at hps hseen
        rw [map_cons, nodup_cons] at hnodup
        refine ⟨(p.keyId, render wireBytes p.wire ++ (propertyBytes ps ++ rest)), ?_, ?_⟩
        · rw [propertyBytes, append_assoc, append_assoc, readU32_append hps.1.keyId]
        · simp only
          rw [if_neg (by simp [hps.1.named, hseen.1]),
            validateEncodedValue_render hps.1.value, ok_bind, validateProperties_eq_ok]
          refine ⟨ps, Nat.succ.inj hlength, hps.2, hnodup.2, fun q hq hmem => ?_, rfl⟩
          rcases mem_cons.1 hmem with heq | hmem
          · exact hnodup.1 (mem_map.2 ⟨q, hq, heq⟩)
          · exact hseen.2 q hq hmem

lemma validateRecordPayload_eq_ok : validateRecordPayload .nodes payload keys count = .ok () ↔
      ∃ record : NodePayload, record.Valid keys count ∧ record.bytes = payload := by
  simp only [validateRecordPayload, skipHead, bind_eq_ok]
  constructor
  · rintro ⟨c, ⟨⟨labelCount, c₁⟩, hcount, hlabels⟩, ⟨propertyCount, c₂⟩, hproperties, c₃, hvalid,
      hend⟩
    obtain ⟨rfl, hlabelCount⟩ := readU32_eq_ok.1 hcount
    obtain ⟨labels, rfl, hlt, rfl⟩ := skipLabels_eq_ok.1 hlabels
    obtain ⟨rfl, hpropertyCount⟩ := readU32_eq_ok.1 hproperties
    obtain ⟨ps, rfl, hps, hnodup, -, rfl⟩ := validateProperties_eq_ok.1 hvalid
    split_ifs at hend with hempty
    · subst hempty
      exact ⟨⟨labels, ps⟩, ⟨hlabelCount, hlt, hpropertyCount, hps, hnodup⟩,
        by rw [NodePayload.bytes, append_nil]⟩
    · cases hend
  · rintro ⟨record, h, rfl⟩
    refine ⟨_, ⟨_, readU32_append h.labelCount _,
      skipLabels_eq_ok.2 ⟨record.labels, rfl, h.labels, rfl⟩⟩, _,
      readU32_append h.propertyCount _, [], validateProperties_eq_ok.2
        ⟨record.properties, rfl, h.properties, h.keyIds, by simp, (append_nil _).symm⟩, ?_⟩
    rfl

end

/-! ## What the decoders read from a record -/

/-- A leaf of a valid record reads as its scalar, or as the spilled value. -/
theorem readsLeaves_wire (count : Option ℕ) (spills : Option PropertySpillReader) :
    ReadsLeaves wireBytes (wireFits count) spills (readWire spills) := by
  intro depth l hdepth hl rest rest' v
  cases l with
  | scalar s => exact readsLeaves_scalar spills hdepth hl.1
  | spill id =>
    rw [wireBytes, cons_append, readWire]
    cases spills with
    | none =>
      rw [decodeValue, dif_neg hdepth.not_gt, readU8, ok_bind]
      simp [spilledValue, readU64_append, ok_bind, corrupt]
    | some reader =>
      rw [decodeValue_spill hdepth, readU64_append, ok_bind, spilledValue, toOption_eq_some_iff]
      simp only [bind_eq_ok]
      constructor
      · rintro ⟨encoded, hencoded, read, hread, value, hvalue, heq⟩
        cases heq
        exact ⟨⟨encoded, hencoded, read, hread, hvalue⟩, rfl⟩
      · rintro ⟨⟨encoded, hencoded, read, hread, hvalue⟩, rfl⟩
        exact ⟨encoded, hencoded, read, hread, v, hvalue, rfl⟩

def WireProperty.read (spills : Option PropertySpillReader) (p : WireProperty) :
    Option (String × Value) :=
  (reading (readWire spills) 1 p.wire).map (p.key, ·)

/-- The properties as the decoder reads them, in the order of the record. -/
def readProperties (spills : Option PropertySpillReader) :
    List WireProperty → Option (List (String × Value))
  | [] => some []
  | p :: ps => (p.read spills).bind fun e => (readProperties spills ps).map (e :: ·)

variable {p : WireProperty}

section

variable {keys : List String} {count : Option ℕ} {spills : Option PropertySpillReader}

lemma WireProperty.read_fst {e : String × Value} (h : p.read spills = some e) : e.1 = p.key := by
  obtain ⟨v, -, rfl⟩ := map_eq_some_iff.1 h
  rfl

lemma readProperties_isSome_iff : ∀ {ps},
    (readProperties spills ps).isSome ↔ ∀ p ∈ ps, (p.read spills).isSome
  | [] => by simp [readProperties]
  | p :: ps => by
    rw [forall_mem_cons, ← readProperties_isSome_iff, readProperties]
    cases p.read spills <;> simp

lemma readProperties_filter {q : String → Bool} : ∀ {ps}
    {es : List (String × Value)}, readProperties spills ps = some es →
      readProperties spills (ps.filter fun p => q p.key) = some (es.filter fun e => q e.1)
  | [], es, h => by
    obtain rfl : es = [] := (some.inj h).symm
    rfl
  | p :: ps, es, h => by
    obtain ⟨e, he, hmap⟩ := bind_eq_some_iff.1 h
    obtain ⟨es', hes', rfl⟩ := map_eq_some_iff.1 hmap
    rw [filter_cons, filter_cons, WireProperty.read_fst he]
    split_ifs
    · rw [readProperties, he, bind_some, readProperties_filter hes', map_some]
    · exact readProperties_filter hes'

lemma decodeValue_wire (h : p.Valid keys count) :
    decodeValue spills 1 (render wireBytes p.wire ++ rest) = .ok (v, rest') ↔
      p.read spills = some (p.key, v) ∧ rest' = rest := by
  rw [decodeValue_render (readsLeaves_wire count spills) (h.value.imp fun _ _ h => h.1)
    (h.value.imp fun _ _ h => h.2), WireProperty.read]
  simp

lemma readKey_append (h : p.Valid keys count) (rest : Bytes) :
    readKey (some keys) (leBytes 4 p.keyId ++ rest) = .ok (p.key, rest) := by
  rw [readKey, readU32_append h.keyId, ok_bind]
  simp only [h.named]
  rfl

lemma insertNew_iff : insertNew output key v = .ok out ↔
      (∀ e ∈ output, e.1 ≠ key) ∧ insertEntry key v output = out := by
  by_cases hnew : ∀ e ∈ output, e.1 ≠ key
  · rw [insertNew_eq_ok hnew]
    exact (and_iff_right hnew).symm
  have hfound : (findEntry key output).isSome := by
    rw [findEntry_isSome_iff]
    push Not at hnew
    obtain ⟨e, he, rfl⟩ := hnew
    exact ⟨e, he, compare_eq_iff_eq.2 rfl⟩
  rw [insertNew, if_pos hfound]
  exact ⟨by rintro ⟨⟩, fun h => absurd h.1 hnew⟩

/-- The full decode of the properties succeeds exactly when all can be read and no name comes
twice. -/
theorem decodeEntries_propertyBytes : ∀ {ps}
    {output out : List (String × Value)} {rest rest' : Bytes}, (∀ p ∈ ps, p.Valid keys count) →
    (decodeEntries spills 1 (some keys) ps.length (propertyBytes ps ++ rest) output =
        .ok (out, rest') ↔ ((ps.map (·.key)).Nodup ∧ (∀ p ∈ ps, ∀ e ∈ output, e.1 ≠ p.key) ∧
        ∃ es, readProperties spills ps = some es ∧
          es.foldl (fun entries e => insertEntry e.1 e.2 entries) output = out) ∧ rest' = rest)
  | [], output, out, rest, rest', _ => by
    simp [decodeEntries, propertyBytes, readProperties, eq_comm]
  | p :: ps, output, out, rest, rest', h => by
    rw [forall_mem_cons] at h
    rw [length_cons, decodeEntries, propertyBytes, append_assoc, readKey_append h.1, ok_bind]
    simp only [append_assoc, bind_eq_ok, decodeValue_wire h.1, insertNew_iff,
      map_cons, nodup_cons, forall_mem_cons, readProperties, bind_eq_some_iff, map_eq_some_iff]
    constructor
    · rintro ⟨⟨v, _⟩, ⟨hv, rfl⟩, _, ⟨hnew, rfl⟩, hrest⟩
      obtain ⟨⟨hnodup, hdisjoint, es, hes, rfl⟩, rfl⟩ := (decodeEntries_propertyBytes h.2).1 hrest
      have hkeys := fun q hq =>
        (forall_key_insertEntry (P := (· ≠ q.key))).1 (hdisjoint q hq)
      refine ⟨⟨⟨fun hmem => ?_, hnodup⟩, ⟨hnew, fun q hq => (hkeys q hq).2⟩,
        _, ⟨_, hv, es, hes, rfl⟩, rfl⟩, rfl⟩
      obtain ⟨q, hq, heq⟩ := mem_map.1 hmem
      exact (hkeys q hq).1 heq.symm
    · rintro ⟨⟨⟨hname, hnodup⟩, ⟨hnew, hdisjoint⟩, _, ⟨e, he, es, hes, rfl⟩, rfl⟩, rfl⟩
      obtain ⟨key, v⟩ := e
      obtain rfl : key = p.key := WireProperty.read_fst he
      refine ⟨(v, _), ⟨he, rfl⟩, _, ⟨hnew, rfl⟩, (decodeEntries_propertyBytes h.2).2
        ⟨⟨hnodup, fun q hq => (forall_key_insertEntry (P := (· ≠ q.key))).2
          ⟨fun heq => ?_, hdisjoint q hq⟩, es, hes, rfl⟩, rfl⟩⟩
      exact hname (mem_map.2 ⟨q, hq, heq.symm⟩)

end

/-! ## The projected read -/

section

variable {keys required : List String} {spills : Option PropertySpillReader} {validated : Bool}

/-- A value that is not selected is passed over when it is checked, and when it is skipped unless
it holds a decimal. -/
theorem passValue_eq_ok (h : p.Valid keys (spills.map (·.valueCount))) :
    passValue spills validated (render wireBytes p.wire ++ rest) = .ok rest' ↔
      (validated → p.wire.Everywhere (fun _ => Skippable) 1) ∧ rest' = rest := by
  unfold passValue
  split_ifs with hvalidated
  · rw [skipValidatedValue_render h.value, hvalidated]
    simp
  · rw [validateEncodedValue_render h.value, Except.ok.injEq]
    simp [hvalidated, eq_comm]

lemma projectEntries_propertyBytes : ∀ {ps seen}
    {output out : List (String × Value)} {rest rest' : Bytes},
    (∀ p ∈ ps, p.Valid keys (spills.map (·.valueCount))) → (ps.map (·.keyId)).Nodup →
    (∀ p ∈ ps, p.keyId ∉ seen) →
    (projectEntries spills required validated keys ps.length (propertyBytes ps ++ rest) seen output =
        .ok (out, rest') ↔ ((validated →
          ∀ p ∈ ps, p.key ∉ required → p.wire.Everywhere (fun _ => Skippable) 1) ∧
        ∃ es, readProperties spills (ps.filter (·.key ∈ required)) = some es ∧
          es.foldl (fun entries e => insertEntry e.1 e.2 entries) output = out) ∧ rest' = rest)
  | [], seen, output, out, rest, rest', _, _, _ => by
    simp [projectEntries, propertyBytes, readProperties, eq_comm]
  | p :: ps, seen, output, out, rest, rest', h, hnodup, hseen => by
    rw [forall_mem_cons] at h hseen
    rw [map_cons, nodup_cons] at hnodup
    have hnext : ∀ q ∈ ps, q.keyId ∉ p.keyId :: seen := by
      intro q hq hmem
      rcases mem_cons.1 hmem with heq | hmem
      · exact hnodup.1 (mem_map.2 ⟨q, hq, heq⟩)
      · exact hseen.2 q hq hmem
    have ih := fun output => @projectEntries_propertyBytes ps (p.keyId :: seen) output out rest rest'
      h.2 hnodup.2 hnext
    rw [length_cons, projectEntries, propertyBytes, append_assoc, readU32_append h.1.keyId, ok_bind]
    simp only [h.1.named, hseen.1, and_false, if_false, append_assoc, bind_eq_ok]
    by_cases hkey : p.key ∈ required
    · simp only [projectValue, bind_eq_ok, decodeValue_wire h.1, filter_cons,
        hkey, decide_true, if_true, readProperties, bind_eq_some_iff,
        map_eq_some_iff, forall_mem_cons, not_true, false_imp_iff, true_and]
      constructor
      · rintro ⟨_, ⟨⟨v, _⟩, ⟨hv, rfl⟩, heq⟩, hrest⟩
        cases heq
        obtain ⟨⟨hskip, es, hes, rfl⟩, rfl⟩ := (ih _).1 hrest
        exact ⟨⟨hskip, _, ⟨_, hv, es, hes, rfl⟩, rfl⟩, rfl⟩
      · rintro ⟨⟨hskip, _, ⟨⟨key, v⟩, he, es, hes, rfl⟩, rfl⟩, rfl⟩
        obtain rfl : key = p.key := WireProperty.read_fst he
        exact ⟨(_, _), ⟨(v, _), ⟨he, rfl⟩, rfl⟩, (ih _).2 ⟨⟨hskip, es, hes, rfl⟩, rfl⟩⟩
    · simp only [projectValue, bind_eq_ok, passValue_eq_ok h.1, filter_cons,
        hkey, decide_false, Bool.false_eq_true, if_false, forall_mem_cons, not_false_iff,
        true_imp_iff]
      constructor
      · rintro ⟨_, ⟨_, ⟨hpass, rfl⟩, heq⟩, hrest⟩
        cases heq
        obtain ⟨⟨hskip, hes⟩, rfl⟩ := (ih _).1 hrest
        exact ⟨⟨fun hv => ⟨hpass hv, hskip hv⟩, hes⟩, rfl⟩
      · rintro ⟨⟨hskip, hes⟩, rfl⟩
        exact ⟨(_, _), ⟨_, ⟨fun hv => (hskip hv).1, rfl⟩, rfl⟩,
          (ih _).2 ⟨⟨fun hv => (hskip hv).2, hes⟩, rfl⟩⟩

end

/-! ## Nodes -/

lemma readLabels_labelBytes : ∀ {ls labels rest},
    (∀ label ∈ ls, label < 2 ^ 32) → readLabels labels ls.length (labelBytes ls ++ rest) =
      .ok (ls.foldl (fun labels label => labels.insert label ()) labels, rest)
  | [], labels, rest, _ => rfl
  | label :: ls, labels, rest, h => by
    rw [forall_mem_cons] at h
    rw [labelBytes, append_assoc, length_cons, readLabels, readU32_append h.1, ok_bind]
    exact readLabels_labelBytes h.2

def NodePayload.labelSet (record : NodePayload) : Labels :=
  record.labels.foldl (fun labels label => labels.insert label ()) .empty

section

variable {keys required : List String} {spills : Option PropertySpillReader} {id : ℕ}
  {record : NodePayload} {node : CanonicalNode}

lemma decodeNode_bytes (h : record.Valid keys (spills.map (·.valueCount))) :
    decodeNode id record.bytes spills (some keys) = .ok node ↔
      (record.properties.map (·.key)).Nodup ∧ ∃ es, readProperties spills record.properties = some es ∧
        node = ⟨id, record.labelSet,
          es.foldl (fun entries e => insertEntry e.1 e.2 entries) []⟩ := by
  have hcount : ∀ rest, readCount 1 (leBytes 4 record.properties.length ++ rest) =
      .ok (record.properties.length, rest) := by
    intro rest
    rw [readCount_append h.propertyCount, if_neg (by decide)]
  rw [decodeNode, NodePayload.bytes, readU32_append h.labelCount, ok_bind]
  simp only [readLabels_labelBytes h.labels, ok_bind, decodeProperties, hcount, bind_eq_ok]
  constructor
  · rintro ⟨⟨out, c⟩, hdecode, hend⟩
    rw [← append_nil (propertyBytes _)] at hdecode
    obtain ⟨⟨hnodup, -, es, hes, rfl⟩, rfl⟩ := (decodeEntries_propertyBytes h.properties).1 hdecode
    exact ⟨hnodup, es, hes, (Except.ok.inj hend).symm⟩
  · rintro ⟨hnodup, es, hes, rfl⟩
    refine ⟨(_, []), ?_, rfl⟩
    rw [← append_nil (propertyBytes _)]
    exact (decodeEntries_propertyBytes h.properties).2 ⟨⟨hnodup, by simp, es, hes, rfl⟩, rfl⟩

lemma decodeProjectedNode_bytes (h : record.Valid keys (spills.map (·.valueCount))) :
    decodeProjectedNode spills required validated id record.bytes (some keys) = .ok node ↔
      (validated → ∀ p ∈ record.properties, p.key ∉ required →
        p.wire.Everywhere (fun _ => Skippable) 1) ∧
      ∃ es, readProperties spills (record.properties.filter (·.key ∈ required)) = some es ∧
        node = ⟨id, record.labelSet,
          es.foldl (fun entries e => insertEntry e.1 e.2 entries) []⟩ := by
  rw [decodeProjectedNode, NodePayload.bytes, readU32_append h.labelCount, ok_bind]
  simp only [readLabels_labelBytes h.labels, ok_bind, projectProperties,
    readU32_append h.propertyCount, bind_eq_ok]
  constructor
  · rintro ⟨⟨out, c⟩, hproject, hend⟩
    rw [← append_nil (propertyBytes _)] at hproject
    obtain ⟨⟨hskip, es, hes, rfl⟩, rfl⟩ :=
      (projectEntries_propertyBytes h.properties h.keyIds (by simp)).1 hproject
    exact ⟨hskip, es, hes, (Except.ok.inj hend).symm⟩
  · rintro ⟨hskip, es, hes, rfl⟩
    refine ⟨(_, []), ?_, rfl⟩
    rw [← append_nil (propertyBytes _)]
    exact (projectEntries_propertyBytes h.properties h.keyIds (by simp)).2
      ⟨⟨hskip, es, hes, rfl⟩, rfl⟩

/-- A node that the full decode reads: a map lies above the depth that the decoder checks for the
map itself, and a spilled value is there and decodes to its end. -/
def ReadableNode (spills : Option PropertySpillReader) (depth : ℕ) : Wire → Prop
  | .leaf (.scalar _) => True
  | .leaf (.spill id) => (spilledValue spills depth id.toNat).isSome
  | .list _ => True
  | .map _ => depth < maxValueDepth

lemma WireProperty.read_isSome_iff {count : Option ℕ} (h : p.Valid keys count) :
    (p.read spills).isSome ↔ p.wire.Everywhere (ReadableNode spills) 1 := by
  have hmap : ∀ d es, (readMap d es).isSome ↔ d < maxValueDepth := by
    intro d es
    unfold readMap
    split_ifs with hd <;> simp [hd]
  rw [WireProperty.read, isSome_map, reading, Tree.traverse_isSome_iff hmap]
  refine Tree.Everywhere.congr (fun d w hw => ?_) h.value
  rcases w with (s | _) | _ | _
  · have hs := (readScalar_eq_self_iff s).2 hw.1.2.2
    simp [Tree.Passes, ReadableNode, readWire, hs]
  all_goals exact Iff.rfl

/-- The projected read gives the labels and the selected properties of the full decode, whether the
other values are skipped or checked. -/
def ProjectionAgrees (id : ℕ) (payload : Bytes) (spills : Option PropertySpillReader)
    (keys required : List String) : Prop :=
  ∃ node, decodeNode id payload spills (some keys) = .ok node ∧ ∀ validated : Bool,
    decodeProjectedNode spills required validated id payload (some keys) =
      .ok ⟨id, node.labels, node.properties.filter (·.1 ∈ required)⟩

lemma projectionAgrees_bytes (h : record.Valid keys (spills.map (·.valueCount))) :
    ProjectionAgrees id record.bytes spills keys required ↔
      (record.properties.map (·.key)).Nodup ∧
      (∀ p ∈ record.properties, p.wire.Everywhere (ReadableNode spills) 1) ∧
      ∀ p ∈ record.properties, p.key ∉ required → p.wire.Everywhere (fun _ => Skippable) 1 := by
  have hreadable : (∀ p ∈ record.properties, p.wire.Everywhere (ReadableNode spills) 1) ↔
      (readProperties spills record.properties).isSome := by
    rw [readProperties_isSome_iff]
    exact forall₂_congr fun p hp => (WireProperty.read_isSome_iff (h.properties p hp)).symm
  rw [hreadable]
  constructor
  · rintro ⟨node, hnode, hproject⟩
    obtain ⟨hnodup, es, hes, -⟩ := (decodeNode_bytes h).1 hnode
    exact ⟨hnodup, by rw [hes, isSome_some],
      ((decodeProjectedNode_bytes h).1 (hproject true)).1 rfl⟩
  · rintro ⟨hnodup, hsome, hskip⟩
    obtain ⟨es, hes⟩ := isSome_iff_exists.1 hsome
    refine ⟨_, (decodeNode_bytes h).2 ⟨hnodup, es, hes, rfl⟩, fun validated => ?_⟩
    rw [decodeProjectedNode_bytes h]
    refine ⟨fun _ => hskip, es.filter fun e => e.1 ∈ required,
      readProperties_filter (q := fun key => key ∈ required) hes, ?_⟩
    have hcongr : ∀ a b : String, compare a b = .eq →
        decide (a ∈ required) = decide (b ∈ required) := by
      intro a b hab
      rw [compare_eq_iff_eq.1 hab]
    simp only [filter_foldl_insertEntry hcongr Pairwise.nil, filter_nil]

/-- A payload that the check accepts is the bytes of a valid record, and the projected read agrees
with the full decode exactly when that record is read in full, names its properties differently, and
holds no decimal in a value that is not selected. -/
theorem projection_agrees_iff {payload : Bytes}
    (haccepted : validateRecordPayload .nodes payload keys (spills.map (·.valueCount)) = .ok ())
    (id : ℕ) (required : List String) :
    (∃ record : NodePayload, record.Valid keys (spills.map (·.valueCount)) ∧
      record.bytes = payload) ∧
    ∀ record : NodePayload, record.Valid keys (spills.map (·.valueCount)) → record.bytes = payload →
      (ProjectionAgrees id payload spills keys required ↔
        (record.properties.map (·.key)).Nodup ∧
        (∀ p ∈ record.properties, p.wire.Everywhere (ReadableNode spills) 1) ∧
        ∀ p ∈ record.properties, p.key ∉ required → p.wire.Everywhere (fun _ => Skippable) 1) := by
  refine ⟨validateRecordPayload_eq_ok.1 haccepted, ?_⟩
  rintro record hrecord rfl
  exact projectionAgrees_bytes hrecord

end

def price : Decimal := ⟨1999, 2, by decide, by decide⟩

/-- A record with a decimal that is selected and a list that is not. -/
def taggedRecord : NodePayload :=
  ⟨[], [⟨0, "price", .leaf (.scalar (.decimal price))⟩,
    ⟨1, "tags", .list [.leaf (.scalar (.int 3))]⟩]⟩

lemma taggedRecord_valid : taggedRecord.Valid ["price", "tags"] none where
  labelCount := by simp [taggedRecord]
  labels := by simp [taggedRecord]
  propertyCount := by simp [taggedRecord]
  properties := forall_mem_cons.2
    ⟨⟨by simp, rfl, Tree.everywhere_leaf.2 ⟨⟨by decide, trivial, trivial⟩, trivial⟩⟩,
      forall_mem_singleton.2 ⟨by simp, rfl, Tree.everywhere_list.2 ⟨⟨⟨by decide, by decide⟩, trivial⟩,
        forall_mem_singleton.2 (Tree.everywhere_leaf.2 ⟨⟨by decide, trivial, trivial⟩, trivial⟩)⟩⟩⟩
  keyIds := by decide

theorem projection_agrees_iff_tagged :
    validateRecordPayload .nodes taggedRecord.bytes ["price", "tags"] none = .ok () ∧
      ProjectionAgrees 7 taggedRecord.bytes none ["price", "tags"] ["price"] := by
  have haccepted : validateRecordPayload .nodes taggedRecord.bytes ["price", "tags"]
      ((none : Option PropertySpillReader).map (·.valueCount)) = .ok () :=
    validateRecordPayload_eq_ok.2 ⟨_, taggedRecord_valid, rfl⟩
  refine ⟨haccepted, ((projection_agrees_iff haccepted 7 ["price"]).2 taggedRecord
    taggedRecord_valid rfl).2 ⟨by decide, ?_, ?_⟩⟩ <;>
    simp [taggedRecord, ReadableNode, Skippable]

/-- A record without labels that holds one decimal, under the key `price`. -/
def pricedRecord : NodePayload := ⟨[], [⟨0, "price", .leaf (.scalar (.decimal price))⟩]⟩

lemma pricedRecord_valid : pricedRecord.Valid ["price"] none where
  labelCount := by simp [pricedRecord]
  labels := by simp [pricedRecord]
  propertyCount := by simp [pricedRecord]
  properties := forall_mem_singleton.2
    ⟨by simp, rfl, Tree.everywhere_leaf.2 ⟨⟨by decide, trivial, trivial⟩, trivial⟩⟩
  keyIds := by simp [pricedRecord]

/-- A decimal that is not selected: the record is accepted, decoded in full and projected while its
values are checked, and is unreadable once they are skipped. -/
theorem unselected_decimal_not_projected :
    validateRecordPayload .nodes pricedRecord.bytes ["price"] none = .ok () ∧
      (∃ node, decodeNode 7 pricedRecord.bytes none (some ["price"]) = .ok node) ∧
      decodeProjectedNode none [] false 7 pricedRecord.bytes (some ["price"]) =
        .ok ⟨7, .empty, []⟩ ∧
      (∀ node, decodeProjectedNode none [] true 7 pricedRecord.bytes
        (some ["price"]) ≠ .ok node) ∧
      ¬ ProjectionAgrees 7 pricedRecord.bytes none ["price"] [] := by
  have hvalid : pricedRecord.Valid ["price"]
      ((none : Option PropertySpillReader).map (·.valueCount)) :=
    pricedRecord_valid
  have hskip : ¬ ∀ p ∈ pricedRecord.properties, p.key ∉ [] →
      p.wire.Everywhere (fun _ => Skippable) 1 := fun h =>
    Tree.everywhere_leaf.1 (h _ (mem_singleton_self _) (not_mem_nil))
  refine ⟨validateRecordPayload_eq_ok.2 ⟨_, hvalid, rfl⟩,
    ⟨_, (decodeNode_bytes hvalid).2 ⟨by simp [pricedRecord], _, rfl, rfl⟩⟩,
    (decodeProjectedNode_bytes hvalid).2 ⟨nofun, _, rfl, rfl⟩, ?_, ?_⟩
  · exact fun node hnode => hskip (((decodeProjectedNode_bytes hvalid).1 hnode).1 rfl)
  · exact fun hagrees => hskip ((projectionAgrees_bytes hvalid).1 hagrees).2.2

end Canonical

end HawDB
