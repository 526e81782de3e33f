import HawDB.GraphIndexRead
import HawDB.Proofs.PropertyProjection

/-!
# Index reads answer for the merged graph

A read by values visits each node of the merged graph with the label and one of the values once,
whichever source it comes from, as far as the filters of the segments let it
(`equalityReadExact_iff`).
-/

namespace HawDB

open List Option

lemma get_eq_some_iff_mem {V : Type} {m : OrdMap ℕ V} {id : ℕ} {v : V} :
    m.get id = some v ↔ (id, v) ∈ m.entries := by
  rw [OrdMap.get_eq_some_iff]
  constructor
  · rintro ⟨k, hk, hcmp⟩
    rwa [Std.LawfulEqOrd.eq_of_compare hcmp] at hk
  · exact fun h => ⟨id, h, Std.ReflOrd.compare_self⟩

lemma nodup_keys {V : Type} (m : OrdMap ℕ V) : (m.entries.map Prod.fst).Nodup := by
  refine pairwise_map.2 (m.sorted.imp fun {a b} hlt heq => ?_)
  rw [heq, Std.ReflOrd.compare_self] at hlt
  cases hlt

def CanonicalBase.Has (base : CanonicalBase Value) (labelId : UInt32) (property : String)
    (value : Value) (id : ℕ) : Prop :=
  ∃ node, base.nodes.get id = some node ∧ labelId.toNat ∈ node.labels ∧
    node.properties.get property = some value

section

variable [Checksum]

/-- What a segment that has been written admits. -/
lemma NodeSegment.mightContain_of_mem {segment : NodeSegment} {id : ℕ} {node : NodeRecord Value}
    (h : NodeSegment.write segment.nodes = .ok segment) (hmem : (id, node) ∈ segment.nodes)
    (hlabel : label ∈ node.labels) (hvalue : node.properties.get property = some value) :
    ∃ key, nodePropertyBloomKey label property value = .ok key ∧
      segment.nodePropertyBloom.mightContain key := by
  obtain ⟨keys, hkeys, hsegment⟩ := bind_eq_ok.1 h
  obtain ⟨name, hentry, hname⟩ := OrdMap.get_eq_some_iff.1 hvalue
  obtain rfl := Std.LawfulEqOrd.eq_of_compare hname
  have hpair : (label, name, value) ∈ segment.nodes.flatMap fun e => labelledProperties e.2 :=
    mem_flatMap.2 ⟨_, hmem, mem_flatMap.2 ⟨label, hlabel, mem_map_of_mem hentry⟩⟩
  obtain ⟨key, hkey, hok⟩ := exists_of_mem_forall₂ (mapM_eq_ok hkeys) hpair
  refine ⟨key, hok, ?_⟩
  rw [← Except.ok.inj hsegment]
  exact CanonicalEndpointBloom.mightContain_fromKeys hkey

end

/-- The complete definitions of a projection hold exactly the entries of the base. -/
structure PropertyProjection.ExactFor (projection : PropertyProjection)
    (base : CanonicalBase Value) : Prop where
  equality : ∀ labelId property, projection.supports labelId property .equality →
    ∃ entries, projection.Indexes .equality labelId property entries ∧
      ∀ v id, (v, id) ∈ entries ↔ base.Has labelId property v id
  range : ∀ labelId property, projection.supports labelId property .range →
    ∃ entries, projection.Indexes .range labelId property entries ∧
      ∀ v id, (v, id) ∈ entries ↔ base.Has labelId property v id ∧ isRangeValue v

/-- The projection and the segments are those of the base, and what the store holds it has not
deleted. -/
structure IndexedStore.WellFormed [Checksum] (store : IndexedStore) : Prop where
  exact : ∀ base ∈ store.canonicalBase, ∀ projection ∈ store.persistentPropertyProjection,
    projection.ExactFor base
  segments : ∀ base ∈ store.canonicalBase,
    (store.nodeSegments.flatMap (·.nodes)) = base.nodes.entries
  written : ∀ segment ∈ store.nodeSegments, NodeSegment.write segment.nodes = .ok segment
  disjoint : ∀ id ∈ store.nodeTombstones, store.nodes.get id = none

namespace IndexedStore

variable {store : IndexedStore} {labelId : UInt32} {property : String} {base : CanonicalBase Value}

/-! ### The merged graph -/

variable {id : ℕ} {node : NodeRecord Value}

lemma nodeOwned_of_held [Checksum] (h : store.WellFormed) (hnode : store.nodes.get id = some node) :
    store.nodeOwned id = some node := by
  have hlive : id ∉ store.nodeTombstones := fun hmem => by
    rw [h.disjoint id hmem] at hnode
    cases hnode
  rw [GraphStore.nodeOwned, if_neg hlive, hnode, some_or]

lemma nodeOwned_iff [Checksum] (h : store.WellFormed) :
    store.nodeOwned id = some node ↔ store.nodes.get id = some node ∨
      (store.masks id = false ∧ store.baseNode id = some node) := by
  constructor
  · intro howned
    rw [GraphStore.nodeOwned] at howned
    split_ifs at howned with hdeleted
    cases hnode : store.nodes.get id with
    | some node' =>
      rw [hnode, some_or] at howned
      exact .inl howned
    | none =>
      rw [hnode, none_or] at howned
      refine .inr ⟨?_, howned⟩
      rw [masks, hnode, decide_eq_false hdeleted]
      rfl
  · rintro (hnode | ⟨hmasks, hnode⟩)
    · exact nodeOwned_of_held h hnode
    · rw [masks, Bool.or_eq_false_iff, decide_eq_false_iff_not] at hmasks
      rw [GraphStore.nodeOwned, if_neg hmasks.1, not_isSome_iff_eq_none.1
        (Bool.eq_false_iff.1 hmasks.2), none_or, hnode]

/-! ### Reads by values -/

def HasOneOf (labelId : UInt32) (property : String) (values : List Value)
    (node : NodeRecord Value) : Prop :=
  labelId.toNat ∈ node.labels ∧ ∃ v, node.properties.get property = some v ∧ ∃ w ∈ values, v.eq w

variable {values : List Value}

lemma propertyIn_iff :
    propertyIn property values node ↔
      ∃ v, node.properties.get property = some v ∧ ∃ w ∈ values, v.eq w := by
  rw [propertyIn, Option.any_eq_true]
  exact exists_congr fun v => and_congr_right fun _ => any_eq_true

variable {σ : Type} {consumer : σ → ℕ × NodeRecord Value → σ × ScanControl}

/-- A consumer that cannot fail. -/
def infallible (consumer : σ → ℕ × NodeRecord Value → σ × ScanControl) (s : σ)
    (e : ℕ × NodeRecord Value) : Except HawDBError (σ × ScanControl) := .ok (consumer s e)

def heldMatches (store : IndexedStore) (labelId : UInt32) (property : String)
    (values : List Value) : List (ℕ × NodeRecord Value) :=
  store.nodes.entries.filter fun e => labelId.toNat ∈ e.2.labels ∧ propertyIn property values e.2

lemma mem_heldMatches : (id, node) ∈ heldMatches store labelId property values ↔
      store.nodes.get id = some node ∧ HasOneOf labelId property values node := by
  rw [heldMatches, mem_filter, ← get_eq_some_iff_mem, decide_eq_true_eq, propertyIn_iff]
  rfl

lemma visitHeldNodes_eq (values : List Value) (s : σ) :
    store.visitHeldNodes labelId property values consumer s =
      scanUntil (infallible consumer) (heldMatches store labelId property values) s := by
  rw [heldMatches, scanUntil_filter]
  simp only [decide_eq_true_eq]
  rfl

lemma hasOneOf_singleton : HasOneOf labelId property [value] node ↔
      labelId.toNat ∈ node.labels ∧ (node.properties.get property).any (·.eq value) := by
  rw [HasOneOf, Option.any_eq_true]
  simp only [mem_singleton, exists_eq_left]

lemma hasOneOf_iff :
    HasOneOf labelId property values node ↔ ∃ w ∈ values, HasOneOf labelId property [w] node := by
  simp only [HasOneOf, mem_singleton, exists_eq_left]
  constructor
  · rintro ⟨hlabel, v, hproperty, w, hw, hvalue⟩
    exact ⟨w, hw, hlabel, v, hproperty, hvalue⟩
  · rintro ⟨w, hw, hlabel, v, hproperty, hvalue⟩
    exact ⟨hlabel, v, hproperty, w, hw, hvalue⟩

/-- The part of a scan of the base that the store has not replaced. -/
def unmasked (store : IndexedStore) (candidates : List (ℕ × NodeRecord Value)) :
    List (ℕ × NodeRecord Value) := candidates.filter fun e => !store.masks e.1

def baseEntry (base : CanonicalBase Value) (e : IndexEntry) : Option (ℕ × NodeRecord Value) :=
  (base.nodes.get e.2).map fun node => (e.2, node)

lemma baseEntry_of_get (h : base.nodes.get id = some node) :
    baseEntry base (v, id) = some (id, node) := by
  rw [baseEntry, h, map_some]

/-- A consumer that keeps what it gets. -/
def keeping (kept : List (ℕ × NodeRecord Value)) (e : ℕ × NodeRecord Value) :
    List (ℕ × NodeRecord Value) × ScanControl := (kept ++ [e], .proceed)

lemma scanUntil_keeping (sequence : List (ℕ × NodeRecord Value)) :
    scanUntil (infallible keeping) sequence [] = .ok (sequence, .proceed) :=
  scanUntil_collect sequence []

lemma scanUntil_distinct_keeping : ∀ (l : List (ℕ × NodeRecord Value))
    (state : List (ℕ × NodeRecord Value) × Finset ℕ),
    ∃ state', scanUntil (distinctStep Prod.fst (infallible keeping)) l state =
      .ok (state', .proceed)
  | [], state => ⟨state, rfl⟩
  | e :: l, state => by
    rw [scanUntil_cons, distinctStep]
    split_ifs
    · exact scanUntil_distinct_keeping l state
    · exact scanUntil_distinct_keeping l (state.1 ++ [e], insert e.1 state.2)

variable [Checksum]

/-- A search for a value gets to a node of the base: through a projection, or in a segment whose
filter admits the value. -/
def Searches (store : IndexedStore) (labelId : UInt32) (property : String) (value : Value)
    (id : ℕ) : Prop :=
  (store.projectionFor labelId property .equality).isSome ∨
    ∃ segment ∈ store.nodeSegments, id ∈ segment.nodes.map Prod.fst ∧
      ∃ key, nodePropertyBloomKey labelId.toNat property value = .ok key ∧
        segment.nodePropertyBloom.mightContain key

/-- One of the values is that of the node, and a search for it gets to the node. -/
def Finds (store : IndexedStore) (labelId : UInt32) (property : String) (values : List Value)
    (id : ℕ) (node : NodeRecord Value) : Prop :=
  ∃ w ∈ values, HasOneOf labelId property [w] node ∧ store.Searches labelId property w id

/-- The base's nodes that a search for one value finds, in the order in which its projection or its
segments give them. -/
def BaseCandidates (store : IndexedStore) (base : CanonicalBase Value) (labelId : UInt32)
    (property : String) (value : Value) (candidates : List (ℕ × NodeRecord Value)) : Prop :=
  ∀ id node, (id, node) ∈ candidates ↔ base.nodes.get id = some node ∧
    HasOneOf labelId property [value] node ∧ store.Searches labelId property value id

lemma mem_segment_iff (h : store.WellFormed) (hbase : store.canonicalBase = some base)
    {segment : NodeSegment} (hsegment : segment ∈ store.nodeSegments) :
    (id, node) ∈ segment.nodes ↔
      base.nodes.get id = some node ∧ id ∈ segment.nodes.map Prod.fst := by
  have hget : ∀ {node}, (id, node) ∈ segment.nodes → base.nodes.get id = some node := fun hmem =>
    get_eq_some_iff_mem.2 (h.segments base hbase ▸ mem_flatMap.2 ⟨segment, hsegment, hmem⟩)
  constructor
  · exact fun hmem => ⟨hget hmem, mem_map.2 ⟨_, hmem, rfl⟩⟩
  · rintro ⟨hnode, hid⟩
    obtain ⟨⟨id', node'⟩, hmem, rfl⟩ := mem_map.1 hid
    rwa [some.inj (hnode.symm.trans (hget hmem))]

lemma visitEqualityScan_eq (h : store.WellFormed) (hbase : store.canonicalBase = some base)
    (hprojection : store.projectionFor labelId property .equality = none) {value : Value}
    (hkey : nodePropertyBloomKey labelId.toNat property value = .ok key) : ∃ candidates,
    BaseCandidates store base labelId property value candidates ∧
      ∀ {σ : Type} consumer (state : σ × Finset ℕ),
        store.visitEqualityScan labelId property value consumer state =
          scanUntil (distinctStep Prod.fst (infallible consumer)) (store.unmasked candidates)
            state := by
  refine ⟨((store.nodeSegments.filter (·.nodePropertyBloom.mightContain key)).flatMap
    (·.nodes)).filter fun e =>
      labelId.toNat ∈ e.2.labels ∧ (e.2.properties.get property).any (·.eq value), ?_, ?_⟩
  · intro id node
    rw [mem_filter, mem_flatMap, decide_eq_true_eq, ← hasOneOf_singleton, Searches, hprojection,
      hkey]
    simp only [mem_filter, isSome_none, Bool.false_eq_true, false_or, Except.ok.injEq,
      exists_eq_left']
    constructor
    · rintro ⟨⟨segment, ⟨hsegment, hadmits⟩, hmem⟩, hone⟩
      obtain ⟨hget, hid⟩ := (mem_segment_iff h hbase hsegment).1 hmem
      exact ⟨hget, hone, segment, hsegment, hid, hadmits⟩
    · rintro ⟨hget, hone, segment, hsegment, hid, hadmits⟩
      exact ⟨⟨segment, ⟨hsegment, hadmits⟩, (mem_segment_iff h hbase hsegment).2 ⟨hget, hid⟩⟩,
        hone⟩
  · intro σ consumer state
    rw [unmasked, scanUntil_filter, scanUntil_filter, scanUntil_flatMap, scanUntil_filter,
      visitEqualityScan, hkey]
    refine scanUntil_congr (fun segment _ state => ?_) state
    split_ifs
    · refine scanUntil_congr (fun e _ state => ?_) state
      simp only [decide_eq_true_eq]
      split_ifs with hmatch hskip hmasks hmasks
      · rcases hskip with hmasked | hseen
        · rw [hmasked] at hmasks
          cases hmasks
        · rw [distinctStep, if_pos hseen]
      · rfl
      · rw [distinctStep, if_neg fun hseen => hskip (.inr hseen)]
        rfl
      · exact absurd (.inl (by simpa using hmasks)) hskip
      · rfl
    · rfl

lemma visitEqualityProjection_eq
    (hprojection : store.projectionFor labelId property .equality = some projection)
    (hindexes : projection.Indexes .equality labelId property entries)
    (hentries : ∀ v id, (v, id) ∈ entries ↔ base.Has labelId property v id) (value : Value) :
    ∃ candidates, BaseCandidates store base labelId property value candidates ∧
      ∀ {σ : Type} consumer (state : σ × Finset ℕ),
        (store.visitEqualityProjection labelId property projection base value consumer
          state).mapError integrityError =
          scanUntil (distinctStep Prod.fst (infallible consumer)) (store.unmasked candidates)
            state := by
  refine ⟨(entries.filter fun e => e.1.eq value).filterMap (baseEntry base), ?_, ?_⟩
  · intro id node
    have hsearches : store.Searches labelId property value id := .inl (by rw [hprojection]; rfl)
    rw [mem_filterMap, and_iff_left hsearches, hasOneOf_singleton, Option.any_eq_true]
    constructor
    · rintro ⟨⟨v, id'⟩, he, hnode⟩
      obtain ⟨he, hvalue⟩ := mem_filter.1 he
      obtain ⟨node', hget, heq⟩ := map_eq_some_iff.1 hnode
      cases heq
      obtain ⟨node'', hget', hlabel, hproperty⟩ := (hentries v id').1 he
      cases hget.symm.trans hget'
      exact ⟨hget, hlabel, v, hproperty, hvalue⟩
    · rintro ⟨hget, hlabel, v, hproperty, hvalue⟩
      have he : (v, id) ∈ entries := (hentries v id).2 ⟨node, hget, hlabel, hproperty⟩
      exact ⟨(v, id), mem_filter.2 ⟨he, hvalue⟩, baseEntry_of_get hget⟩
  · intro σ consumer state
    rw [visitEqualityProjection, PropertyProjection.scanEqualityCandidates_eq hindexes,
      scanUntil_map, scanUntil_mapError, unmasked,
      scanUntil_filter (distinctStep Prod.fst (infallible consumer)), scanUntil_filterMap]
    refine scanUntil_congr (fun e he state => ?_) state
    obtain ⟨he, hvalue⟩ := mem_filter.1 he
    obtain ⟨node, hget, hlabel, hproperty⟩ := (hentries e.1 e.2).1 he
    rw [baseEntry_of_get (v := e.1) hget, hget]
    simp only [map_some, getD_some, hproperty, any_some, hvalue, hlabel]
    by_cases hmasks : store.masks e.2
    · rw [if_pos (.inl hmasks), if_neg (by rw [hmasks]; exact nofun)]
      rfl
    have hkept := Bool.eq_false_iff.2 hmasks
    simp only [hkept, Bool.not_false, if_true, Bool.false_eq_true, false_or, distinctStep]
    by_cases hseen : e.2 ∈ state.2
    · rw [if_pos hseen, if_pos hseen]
      rfl
    · rw [if_neg hseen, if_neg hseen]
      rfl

/-- A list that visits each node of the merged graph with the label and one of the values once. -/
structure EqualityAnswer (store : IndexedStore) (labelId : UInt32) (property : String)
    (values : List Value) (sequence : List (ℕ × NodeRecord Value)) : Prop where
  nodup : (sequence.map Prod.fst).Nodup
  exact : ∀ id node, (id, node) ∈ sequence ↔
    store.nodeOwned id = some node ∧ HasOneOf labelId property values node

/-- A list that visits the nodes the store holds with the label and one of the values once, and of
the base's those it has not replaced and finds. -/
structure EqualityVisits (store : IndexedStore) (base : CanonicalBase Value) (labelId : UInt32)
    (property : String) (values : List Value) (sequence : List (ℕ × NodeRecord Value)) : Prop where
  nodup : (sequence.map Prod.fst).Nodup
  visits : ∀ id node, (id, node) ∈ sequence ↔
    (store.nodes.get id = some node ∧ HasOneOf labelId property values node) ∨
      (store.masks id = false ∧ base.nodes.get id = some node ∧
        store.Finds labelId property values id node)

lemma equalityVisits_append {candidates : Value → List (ℕ × NodeRecord Value)}
    (hcandidates : ∀ w ∈ values, BaseCandidates store base labelId property w (candidates w)) :
    EqualityVisits store base labelId property values
      (distinct Prod.fst ∅ (values.flatMap fun value => store.unmasked (candidates value)) ++
        heldMatches store labelId property values) := by
  have hmem : ∀ id node, (id, node) ∈
      (values.flatMap fun value => store.unmasked (candidates value)) ↔
        store.masks id = false ∧ base.nodes.get id = some node ∧
          store.Finds labelId property values id node := by
    intro id node
    rw [mem_flatMap]
    constructor
    · rintro ⟨value, hvalue, hmem⟩
      obtain ⟨hmem, hmasks⟩ := mem_filter.1 hmem
      obtain ⟨hget, hone⟩ := (hcandidates value hvalue id node).1 hmem
      exact ⟨(Bool.not_eq_true' _).mp hmasks, hget, value, hvalue, hone⟩
    · rintro ⟨hmasks, hget, value, hvalue, hone⟩
      exact ⟨value, hvalue, mem_filter.2 ⟨(hcandidates value hvalue id node).2 ⟨hget, hone⟩, by
        rw [hmasks]; rfl⟩⟩
  have hdistinct : ∀ id node, (id, node) ∈ distinct Prod.fst ∅
      (values.flatMap fun value => store.unmasked (candidates value)) ↔
        (id, node) ∈ (values.flatMap fun value => store.unmasked (candidates value)) := by
    intro id node
    refine ⟨fun h => (mem_distinct_of_mem h).1, fun hin => ?_⟩
    obtain ⟨⟨id', node'⟩, hin', rfl⟩ : ∃ e ∈ distinct Prod.fst ∅ _, e.1 = id :=
      exists_mem_distinct hin (Finset.notMem_empty _)
    have hget := ((hmem id' node).1 hin).2.1
    have hget' := ((hmem id' node').1 (mem_distinct_of_mem hin').1).2.1
    rwa [some.inj (hget.symm.trans hget')]
  refine ⟨?_, fun id node => ?_⟩
  · rw [map_append, nodup_append]
    refine ⟨nodup_distinct _ _, (nodup_keys store.nodes).sublist (filter_sublist.map _), ?_⟩
    intro id hid id' hid' heq
    obtain ⟨⟨_, node⟩, hin, rfl⟩ := mem_map.1 hid
    obtain ⟨⟨_, node'⟩, hin', rfl⟩ := mem_map.1 hid'
    have hmasks := ((hmem _ _).1 ((hdistinct _ _).1 hin)).1
    dsimp only at heq
    rw [heq, masks, (mem_heldMatches.1 hin').1, isSome_some, Bool.or_true] at hmasks
    cases hmasks
  · rw [mem_append, hdistinct, hmem, mem_heldMatches, or_comm]

/-- The value can be looked for in the base: it has a projection, or the value has a key. -/
def Searchable (store : IndexedStore) (labelId : UInt32) (property : String) (value : Value) :
    Prop :=
  (store.projectionFor labelId property .equality).isSome ∨
    ∃ key, nodePropertyBloomKey labelId.toNat property value = .ok key

lemma visitBaseNodes_eq (h : store.WellFormed) (hbase : store.canonicalBase = some base)
    (hsearch : store.Searchable labelId property value) :
    ∃ candidates, BaseCandidates store base labelId property value candidates ∧
      ∀ {σ : Type} consumer (state : σ × Finset ℕ),
        store.visitBaseNodes labelId property base value consumer state =
          scanUntil (distinctStep Prod.fst (infallible consumer)) (store.unmasked candidates)
            state := by
  unfold visitBaseNodes
  cases hprojection : store.projectionFor labelId property .equality with
  | none =>
    rcases hsearch with hsome | ⟨key, hkey⟩
    · rw [hprojection] at hsome
      cases hsome
    · exact visitEqualityScan_eq h hbase hprojection hkey
  | some projection =>
    obtain ⟨hmem, hsupports⟩ := filter_eq_some_iff.1 hprojection
    obtain ⟨entries, hindexes, hentries⟩ :=
      (h.exact base hbase projection hmem).equality labelId property hsupports
    exact visitEqualityProjection_eq hprojection hindexes hentries value

lemma visitNodesByPropertyOwned_eq (h : store.WellFormed) (hbase : store.canonicalBase = some base)
    (hsearch : ∀ w ∈ values, store.Searchable labelId property w) :
    ∃ sequence, EqualityVisits store base labelId property values sequence ∧
      ∀ {σ : Type} consumer (s : σ),
        store.visitNodesByPropertyOwned labelId property values consumer s =
          scanUntil (infallible consumer) sequence s := by
  choose! candidates hcandidates using fun value (hvalue : value ∈ values) =>
    visitBaseNodes_eq h hbase (hsearch value hvalue)
  refine ⟨_, equalityVisits_append fun w hw => (hcandidates w hw).1, fun {σ} consumer s => ?_⟩
  rw [scanUntil_append, ← scanUntil_distinctStep, scanUntil_flatMap, visitNodesByPropertyOwned,
    hbase]
  dsimp only
  rw [scanUntil_congr fun value hvalue state => (hcandidates value hvalue).2 consumer state]
  rcases scanUntil _ values (s, ∅) with e | ⟨⟨s', seen⟩, control⟩
  · rfl
  · cases control with
    | stop => rfl
    | proceed => exact visitHeldNodes_eq values s'

/-- A read by values is that of a list with the nodes of the merged graph. -/
def EqualityReadExact (store : IndexedStore) (labelId : UInt32) (property : String)
    (values : List Value) : Prop :=
  ∃ sequence, EqualityAnswer store labelId property values sequence ∧
    ∀ {σ : Type} (consumer : σ → ℕ × NodeRecord Value → σ × ScanControl) (s : σ),
      store.visitNodesByPropertyOwned labelId property values consumer s =
        scanUntil (infallible consumer) sequence s

/-- The values can be looked for in the base, and every node of the base that has one of them is
found for one. -/
def FindsAll (store : IndexedStore) (base : CanonicalBase Value) (labelId : UInt32)
    (property : String) (values : List Value) : Prop :=
  (∀ w ∈ values, store.Searchable labelId property w) ∧
    ∀ id node, store.masks id = false → base.nodes.get id = some node →
      HasOneOf labelId property values node → store.Finds labelId property values id node

/-- The values of a read that returns what it keeps have been looked for. -/
lemma searchable_of_visits (h : store.WellFormed) (hbase : store.canonicalBase = some base) :
    ∀ {values state result}, scanUntil (fun state value =>
      store.visitBaseNodes labelId property base value keeping state) values state = .ok result →
        ∀ w ∈ values, store.Searchable labelId property w
  | [], _, _, _ => fun w hw => absurd hw not_mem_nil
  | value :: values, state, result, hvisits => by
    rw [scanUntil_cons] at hvisits
    by_cases hsearch : store.Searchable labelId property value
    · obtain ⟨candidates, -, hvisit⟩ := visitBaseNodes_eq h hbase hsearch
      obtain ⟨state', hstate'⟩ := scanUntil_distinct_keeping (store.unmasked candidates) state
      rw [hvisit, hstate', ok_bind] at hvisits
      exact forall_mem_cons.2 ⟨hsearch, searchable_of_visits h hbase hvisits⟩
    · rw [Searchable, not_or, Option.not_isSome_iff_eq_none] at hsearch
      rw [visitBaseNodes, hsearch.1] at hvisits
      cases hkey : nodePropertyBloomKey labelId.toNat property value with
      | ok key => exact absurd ⟨key, hkey⟩ hsearch.2
      | error e =>
        dsimp only at hvisits
        rw [visitEqualityScan, hkey] at hvisits
        cases hvisits

lemma equalityReadExact_of_none (h : store.WellFormed) (hbase : store.canonicalBase = none) :
    store.EqualityReadExact labelId property values := by
  refine ⟨heldMatches store labelId property values, ⟨?_, fun id node => ?_⟩, ?_⟩
  · exact (nodup_keys store.nodes).sublist (filter_sublist.map _)
  · rw [mem_heldMatches, nodeOwned_iff h, GraphStore.baseNode, hbase]
    simp
  · intro σ consumer s
    rw [visitNodesByPropertyOwned, hbase]
    exact visitHeldNodes_eq values s

/-- A read by values is exact where the filters of the base keep no node from it. -/
theorem equalityReadExact_iff (h : store.WellFormed) :
    store.EqualityReadExact labelId property values ↔
      ∀ base ∈ store.canonicalBase, store.FindsAll base labelId property values := by
  cases hbase : store.canonicalBase with
  | none => exact iff_of_true (equalityReadExact_of_none h hbase) fun base hmem => by cases hmem
  | some base =>
    simp only [Option.mem_def, some.injEq, forall_eq']
    have howned : ∀ {id node}, store.nodeOwned id = some node ↔ store.nodes.get id = some node ∨
        (store.masks id = false ∧ base.nodes.get id = some node) := by
      intro id node
      rw [nodeOwned_iff h, GraphStore.baseNode, hbase, bind_some]
    constructor
    · rintro ⟨claimed, hclaimed, hvisits'⟩
      have hkept := hvisits' keeping []
      rw [scanUntil_keeping, visitNodesByPropertyOwned, hbase] at hkept
      obtain ⟨result, hresult, -⟩ := bind_eq_ok.1 hkept
      have hsearch := searchable_of_visits h hbase hresult
      obtain ⟨sequence, hsequence, hvisits⟩ := visitNodesByPropertyOwned_eq h hbase hsearch
      have hsame := (hvisits keeping []).symm.trans (hvisits' keeping [])
      rw [scanUntil_keeping, scanUntil_keeping] at hsame
      obtain rfl : sequence = claimed := congrArg Prod.fst (Except.ok.inj hsame)
      refine ⟨hsearch, fun id node hmasks hget hone => ?_⟩
      rcases (hsequence.visits id node).1
        ((hclaimed.exact id node).2 ⟨howned.2 (.inr ⟨hmasks, hget⟩), hone⟩) with hheld | hfound
      · rw [masks, hheld.1, isSome_some, Bool.or_true] at hmasks
        cases hmasks
      · exact hfound.2.2
    · rintro ⟨hsearch, hfinds⟩
      obtain ⟨sequence, hsequence, hvisits⟩ := visitNodesByPropertyOwned_eq h hbase hsearch
      refine ⟨sequence, ⟨hsequence.nodup, fun id node => ?_⟩, hvisits⟩
      rw [hsequence.visits, howned, or_and_right]
      refine or_congr_right ⟨fun ⟨hmasks, hget, w, hw, hone, _⟩ => ?_, fun ⟨hnode, hone⟩ => ?_⟩
      · exact ⟨⟨hmasks, hget⟩, hasOneOf_iff.2 ⟨w, hw, hone⟩⟩
      · exact ⟨hnode.1, hnode.2, hfinds id node hnode.1 hnode.2 hone⟩

/-- There is a projection, or the values have keys and every node of the base that has one of them
has it in the form in which one of them is written. -/
def WrittenAlike (store : IndexedStore) (base : CanonicalBase Value) (labelId : UInt32)
    (property : String) (values : List Value) : Prop :=
  (store.projectionFor labelId property .equality).isSome ∨
    (∀ w ∈ values, ∃ key, nodePropertyBloomKey labelId.toNat property w = .ok key) ∧
      ∀ id node, base.nodes.get id = some node → HasOneOf labelId property values node →
        ∃ w ∈ values, ∃ v, node.properties.get property = some v ∧ v.eq w ∧
          Canonical.writeValueStreaming 0 v = Canonical.writeValueStreaming 0 w

lemma WrittenAlike.findsAll (h : store.WellFormed) (hbase : store.canonicalBase = some base)
    (halike : store.WrittenAlike base labelId property values) :
    store.FindsAll base labelId property values := by
  rcases halike with hprojection | ⟨hkeys, hwritten⟩
  · refine ⟨fun w _ => .inl hprojection, fun id node _ _ hone => ?_⟩
    obtain ⟨w, hw, hone⟩ := hasOneOf_iff.1 hone
    exact ⟨w, hw, hone, .inl hprojection⟩
  refine ⟨fun w hw => .inr (hkeys w hw), fun id node hmasks hget hone => ?_⟩
  obtain ⟨w, hw, v, hproperty, hvalue, hsame⟩ := hwritten id node hget hone
  refine ⟨w, hw, ⟨hone.1, v, hproperty, w, mem_singleton_self w, hvalue⟩, .inr ?_⟩
  have hmem := get_eq_some_iff_mem.1 hget
  rw [← h.segments base hbase] at hmem
  obtain ⟨segment, hsegment, hmem⟩ := mem_flatMap.1 hmem
  obtain ⟨key, hkey, hadmits⟩ :=
    NodeSegment.mightContain_of_mem (h.written segment hsegment) hmem hone.1 hproperty
  refine ⟨segment, hsegment, mem_map.2 ⟨_, hmem, rfl⟩, key, ?_, hadmits⟩
  rw [← hkey, nodePropertyBloomKey, nodePropertyBloomKey, hsame]

end IndexedStore

end HawDB
