import HawDB.Proofs.GraphIndexRead

/-!
# Ordered ranges over a base and a store

An ordered range visits the base's nodes and the store's own in one order of values and ids
(`exists_rangeDelivery`). The projection of the base holds only values that can be compared with a
bound, the index of the store all values (`index_reads_exact_iff`).
-/

namespace HawDB

open List RangeItem Std

instance : TransOrd PropertyIndexKey :=
  inferInstanceAs (TransCmp (compareLex (compareOn PropertyIndexKey.label)
    (compareLex (compareOn PropertyIndexKey.property) (compareOn PropertyIndexKey.value))))

instance : TransCmp entryCmp :=
  inferInstanceAs (TransCmp (compareLex (compareOn (Prod.fst : IndexEntry → Value))
    (compareOn Prod.snd)))

lemma entryCmp_eq_eq {a b : IndexEntry} :
    entryCmp a b = .eq ↔ compare a.1 b.1 = .eq ∧ a.2 = b.2 := by
  rw [entryCmp, Ordering.then_eq_eq, LawfulEqOrd.compare_eq_iff_eq (a := a.2)]

lemma nodup_ids_of_sorted {α : Type} (key : α → IndexEntry) {l : List α}
    (hsorted : l.Pairwise fun a b => entryCmp (key a) (key b) = .lt)
    (hvalue : ∀ a ∈ l, ∀ b ∈ l, (key a).2 = (key b).2 → compare (key a).1 (key b).1 = .eq) :
    (l.map fun a => (key a).2).Nodup := by
  refine pairwise_map.2 (hsorted.imp_of_mem fun {a b} ha hb hlt heq => ?_)
  rw [entryCmp_eq_eq.2 ⟨hvalue a ha b hb heq, heq⟩] at hlt
  cases hlt

lemma compare_propertyIndexKey (a b : PropertyIndexKey) : compare a b =
    (compare a.label b.label).then ((compare a.property b.property).then
      (compare a.value b.value)) := rfl

namespace IndexedStore

variable {store : IndexedStore} {labelId : UInt32} {property : String} {base : CanonicalBase Value}
  {lower upper : Option (Value × Bool)}

/-- The index has an id for a value exactly when the store holds a node of that id with the label
and the value. -/
def IndexAgrees (store : IndexedStore) (labelId : UInt32) (property : String) : Prop :=
  ∀ value id, (∃ ids, store.propertyIndex.get ⟨labelId.toNat, property, value⟩ = some ids ∧
      (ids.get id).isSome) ↔
    ∃ node v, store.nodes.get id = some node ∧ labelId.toNat ∈ node.labels ∧
      node.properties.get property = some v ∧ v.eq value

/-- A range is delivered from a base with a complete projection, and without a base when the index
has an entry for the property. -/
def DeliversRange (store : IndexedStore) (labelId : UInt32) (property : String) : Prop :=
  (store.canonicalBase.isSome ∧ (store.projectionFor labelId property .range).isSome) ∨
    (store.canonicalBase = none ∧
      ∃ e ∈ store.propertyIndex.entries, e.1.label = labelId.toNat ∧ e.1.property = property)

/-! ### The store's own entries -/

variable {item : RangeItem}

lemma mem_liveRange : item ∈ store.liveRange labelId property lower upper ↔
    ∃ key ids id node, (key, ids) ∈ store.propertyIndex.entries ∧ key.label = labelId.toNat ∧
      key.property = property ∧ rangeBoundsMatch key.value lower upper ∧ (id, ()) ∈ ids.entries ∧
        id ∉ store.nodeTombstones ∧ store.nodes.get id = some node ∧
          item = (key.value, .live id node) := by
  simp only [liveRange, mem_filterMap, mem_filter, mem_flatMap, mem_map,
    Bool.and_eq_true, decide_eq_true_eq, Option.map_eq_some_iff]
  constructor
  · rintro ⟨_, ⟨⟨⟨key, ids⟩, ⟨hentry, ⟨hlabel, hproperty⟩, hbounds⟩, ⟨id, _⟩, hid, rfl⟩, hlive⟩,
      node, hnode, rfl⟩
    exact ⟨key, ids, id, node, hentry, hlabel, hproperty, hbounds, hid, hlive, hnode, rfl⟩
  · rintro ⟨key, ids, id, node, hentry, hlabel, hproperty, hbounds, hid, hlive, hnode, rfl⟩
    exact ⟨_, ⟨⟨(key, ids), ⟨hentry, ⟨hlabel, hproperty⟩, hbounds⟩, (id, ()), hid, rfl⟩, hlive⟩,
      node, hnode, rfl⟩

lemma sorted_liveRange : (store.liveRange labelId property lower upper).Pairwise fun a b =>
    entryCmp (key a) (key b) = .lt := by
  -- The postings of one property are in the order of their values, and the ids of a posting too.
  have hpostings : ((store.propertyIndex.entries.filter fun e =>
      e.1.label = labelId.toNat && e.1.property = property &&
        rangeBoundsMatch e.1.value lower upper).flatMap fun e =>
          e.2.entries.map fun id => (e.1.value, id.1)).Pairwise fun a b => entryCmp a b = .lt := by
    rw [pairwise_flatMap]
    constructor
    · intro e _
      refine pairwise_map.2 (e.2.sorted.imp fun {a b} hlt => ?_)
      rw [entryCmp, ReflOrd.compare_self]
      exact hlt
    · refine (store.propertyIndex.sorted.filter _).imp_of_mem fun {d e} hd he hlt => ?_
      have hd := (mem_filter.1 hd).2
      have he := (mem_filter.1 he).2
      simp only [Bool.and_eq_true, decide_eq_true_eq] at hd he
      rw [compare_propertyIndexKey, hd.1.1, he.1.1, hd.1.2, he.1.2, ReflOrd.compare_self,
        ReflOrd.compare_self] at hlt
      intro a ha b hb
      obtain ⟨_, _, rfl⟩ := mem_map.1 ha
      obtain ⟨_, _, rfl⟩ := mem_map.1 hb
      rw [entryCmp, show compare d.1.value e.1.value = .lt from hlt]
      rfl
  refine Pairwise.filterMap _ (fun a b hlt x hx y hy => ?_) (hpostings.filter _)
  obtain ⟨node, -, rfl⟩ := Option.map_eq_some_iff.1 hx
  obtain ⟨node', -, rfl⟩ := Option.map_eq_some_iff.1 hy
  exact hlt

/-- A node the store holds with the label and a value within the bounds. -/
def HeldInRange (store : IndexedStore) (labelId : UInt32) (property : String)
    (lower upper : Option (Value × Bool)) (id : ℕ) (node : NodeRecord Value) (v : Value) : Prop :=
  store.nodes.get id = some node ∧ labelId.toNat ∈ node.labels ∧
    node.properties.get property = some v ∧ rangeBoundsMatch v lower upper

lemma heldInRange_of_mem (hindex : store.IndexAgrees labelId property)
    (h : item ∈ store.liveRange labelId property lower upper) : ∃ node v,
      item.2 = .live item.2.id node ∧ v.eq item.1 ∧
        store.HeldInRange labelId property lower upper item.2.id node v := by
  obtain ⟨key, ids, id, node, hentry, hlabel, hproperty, hbounds, hid, -, hnode, rfl⟩ :=
    mem_liveRange.1 h
  have hids : store.propertyIndex.get ⟨labelId.toNat, property, key.value⟩ = some ids :=
    OrdMap.get_eq_some_iff.2 ⟨key, hentry, by
      rw [compare_propertyIndexKey, hlabel, hproperty]
      simp only [ReflOrd.compare_self]
      rfl⟩
  obtain ⟨node', v, hnode', hmember, hget, hvalue⟩ := (hindex key.value id).1
    ⟨ids, hids, Option.isSome_iff_exists.2 ⟨(), get_eq_some_iff_mem.2 hid⟩⟩
  cases hnode.symm.trans hnode'
  refine ⟨node, v, rfl, hvalue, hnode, hmember, hget, ?_⟩
  rwa [rangeBoundsMatch_congr (Value.eq_iff.1 hvalue)]

variable {v : Value}

lemma exists_mem_of_heldInRange [Checksum] (hstore : store.WellFormed)
    (hindex : store.IndexAgrees labelId property) {id : ℕ}
    (h : store.HeldInRange labelId property lower upper id node v) :
    ∃ item ∈ store.liveRange labelId property lower upper, item.2.id = id := by
  obtain ⟨hnode, hmember, hget, hbounds⟩ := h
  obtain ⟨ids, hids, hid⟩ := (hindex v id).2 ⟨node, v, hnode, hmember, hget, Value.eq_self v⟩
  obtain ⟨key, hentry, hkey⟩ := OrdMap.get_eq_some_iff.1 hids
  rw [compare_propertyIndexKey, Ordering.then_eq_eq, Ordering.then_eq_eq] at hkey
  obtain ⟨⟨⟩, hid⟩ := Option.isSome_iff_exists.1 hid
  have hlive : id ∉ store.nodeTombstones := fun hdeleted => by
    rw [hstore.disjoint id hdeleted] at hnode
    cases hnode
  refine ⟨(key.value, .live id node), mem_liveRange.2 ⟨key, ids, id, node, hentry,
    LawfulEqOrd.eq_of_compare hkey.1, LawfulEqOrd.eq_of_compare hkey.2.1, ?_,
    get_eq_some_iff_mem.1 hid, hlive, hnode, rfl⟩, rfl⟩
  rwa [rangeBoundsMatch_congr hkey.2.2]

lemma nodup_liveRange (hindex : store.IndexAgrees labelId property) :
    ((store.liveRange labelId property lower upper).map fun item => item.2.id).Nodup := by
  refine nodup_ids_of_sorted key sorted_liveRange fun a ha b hb heq => ?_
  obtain ⟨node, v, -, hv, hnode, -, hget, -⟩ := heldInRange_of_mem hindex ha
  obtain ⟨node', v', -, hv', hnode', -, hget', -⟩ := heldInRange_of_mem hindex hb
  have hid : a.2.id = b.2.id := heq
  rw [hid] at hnode
  cases hnode.symm.trans hnode'
  cases hget.symm.trans hget'
  exact (TransCmp.congr_left (Value.eq_iff.1 hv)).symm.trans (Value.eq_iff.1 hv')

/-! ### The base's entries -/

/-- The entries of the projection within the bounds that the store has not replaced. -/
def baseRange (store : IndexedStore) (entries : List IndexEntry)
    (lower upper : Option (Value × Bool)) : List RangeItem :=
  ((entries.filter fun e => rangeBoundsMatch e.1 lower upper).filter fun e =>
    !store.masks e.2).map fun e => (e.1, .canonical e.2)

variable {entries : List IndexEntry}

lemma mem_baseRange :
    item ∈ store.baseRange entries lower upper ↔ ∃ e ∈ entries, rangeBoundsMatch e.1 lower upper ∧
      store.masks e.2 = false ∧ item = (e.1, .canonical e.2) := by
  simp only [baseRange, mem_map, mem_filter, Bool.not_eq_true']
  constructor
  · rintro ⟨e, ⟨⟨he, hbounds⟩, hmasks⟩, rfl⟩
    exact ⟨e, he, hbounds, hmasks, rfl⟩
  · rintro ⟨e, he, hbounds, hmasks, rfl⟩
    exact ⟨e, ⟨⟨he, hbounds⟩, hmasks⟩, rfl⟩

lemma sorted_baseRange (h : entries.Pairwise fun a b => entryCmp a b = .lt) :
    (store.baseRange entries lower upper).Pairwise fun a b =>
      entryCmp (key a) (key b) = .lt :=
  pairwise_map.2 ((h.filter _).filter _)

/-! ### The two together -/

lemma isLE_trans (a b c : RangeItem) (hab : le a b) (hbc : le b c) : le a c := by
  have hcmp : TransCmp entryCmp := inferInstance
  exact hcmp.isLE_trans hab hbc

lemma isLE_total (a b : RangeItem) : le a b || le b a := by
  rw [Bool.or_eq_true_iff, le, le]
  rcases h : entryCmp (key a) (key b) with _ | _ | _
  · exact .inl rfl
  · exact .inl rfl
  · exact .inr (by rw [OrientedCmp.gt_iff_lt.1 h]; rfl)

lemma sorted_merge {l m : List RangeItem}
    (hl : l.Pairwise fun a b => entryCmp (key a) (key b) = .lt)
    (hm : m.Pairwise fun a b => entryCmp (key a) (key b) = .lt)
    (hnodup : ((l.merge m le).map fun item => item.2.id).Nodup) : (l.merge m le).Pairwise fun a b =>
      entryCmp (key a) (key b) = .lt := by
  have hle : (l.merge m le).Pairwise fun a b => le a b :=
    pairwise_merge isLE_trans isLE_total l m
      (hl.imp fun h => by rw [le, h]; rfl) (hm.imp fun h => by rw [le, h]; rfl)
  refine (hle.and (pairwise_map.1 hnodup)).imp fun {a b} ⟨hle, hne⟩ => ?_
  rw [le] at hle
  rcases h : entryCmp (key a) (key b) with _ | _ | _
  · rfl
  · exact absurd (entryCmp_eq_eq.1 h).2 hne
  · rw [h] at hle
    cases hle

def resolve (store : IndexedStore) : RangeRecord → Option (NodeRecord Value)
  | .live _ node => some node
  | .canonical id => store.baseNode id

/-- What an ordered range visits: nodes of the merged graph, once each and in order, with the label
and a value that is within the bounds and that the source of the node admits. -/
structure RangeDelivery (store : IndexedStore) (labelId : UInt32) (property : String)
    (lower upper : Option (Value × Bool)) (admits : ℕ → Value → Prop)
    (sequence : List RangeItem) : Prop where
  sorted : sequence.Pairwise fun a b => entryCmp (key a) (key b) = .lt
  nodup : (sequence.map fun item => item.2.id).Nodup
  resolves : ∀ item ∈ sequence, ∃ node v, store.nodeOwned item.2.id = some node ∧
    store.resolve item.2 = some node ∧ node.properties.get property = some v ∧ v.eq item.1
  exact : ∀ id, (∃ item ∈ sequence, item.2.id = id) ↔
    ∃ node v, store.nodeOwned id = some node ∧ labelId.toNat ∈ node.labels ∧
      node.properties.get property = some v ∧ rangeBoundsMatch v lower upper ∧ admits id v

/-- The base's part of a range admits values that a bound can be compared with, and the store's own
part admits all. -/
def AdmitsAsStored (store : IndexedStore) (id : ℕ) (v : Value) : Prop :=
  isRangeValue v ∨ (store.nodes.get id).isSome

lemma nodup_baseRange (hsorted : entries.Pairwise fun a b => entryCmp a b = .lt)
    (hentries : ∀ v id, (v, id) ∈ entries ↔ base.Has labelId property v id ∧ isRangeValue v) :
    ((store.baseRange entries lower upper).map fun item => item.2.id).Nodup := by
  refine nodup_ids_of_sorted key (sorted_baseRange hsorted) fun a ha b hb heq => ?_
  obtain ⟨⟨v, id⟩, he, -, -, rfl⟩ := mem_baseRange.1 ha
  obtain ⟨⟨v', id'⟩, he', -, -, rfl⟩ := mem_baseRange.1 hb
  obtain rfl : id = id' := heq
  obtain ⟨⟨node, hnode, -, hget⟩, -⟩ := (hentries v id).1 he
  obtain ⟨⟨node', hnode', -, hget'⟩, -⟩ := (hentries v' id).1 he'
  cases hnode.symm.trans hnode'
  cases hget.symm.trans hget'
  exact ReflOrd.compare_self

lemma tryVisitOrderedRange_eq_none (h : ¬ store.DeliversRange labelId property) {σ : Type}
    (consumer : σ → RangeItem → Except ProjectionError (σ × ScanControl)) (s : σ) :
    store.tryVisitOrderedRange labelId property lower upper consumer s = .ok none := by
  rw [DeliversRange, not_or] at h
  obtain ⟨hbased, hheld⟩ := h
  unfold tryVisitOrderedRange
  cases hbase : store.canonicalBase with
  | some base =>
    have hnone : (store.projectionFor labelId property .range).isNone := by
      rw [Option.isNone_iff_eq_none, ← Option.not_isSome_iff_eq_none]
      exact fun hsome => hbased ⟨by rw [hbase]; rfl, hsome⟩
    simp [hnone]
  | none =>
    have hkey : (store.propertyIndex.entries.any fun e =>
        e.1.label = labelId.toNat && e.1.property = property) = false := by
      rw [any_eq_false]
      intro e he hmatch
      rw [Bool.and_eq_true, decide_eq_true_eq, decide_eq_true_eq] at hmatch
      exact hheld ⟨hbase, e, he, hmatch⟩
    simp [hkey]

lemma isRangeValue_of_bound (h : rangeBoundsMatch v lower upper)
    (hbound : lower.isSome ∨ upper.isSome) : isRangeValue v := by
  rw [rangeBoundsMatch, Bool.and_eq_true] at h
  rcases hbound with hlower | hupper
  · obtain ⟨⟨b, inclusive⟩, rfl⟩ := Option.isSome_iff_exists.1 hlower
    obtain ⟨o, ho, -⟩ := (exists_of_meets _ _ _).1 h.1
    exact (isRangeValue_of_comparable ho).1
  · obtain ⟨⟨b, inclusive⟩, rfl⟩ := Option.isSome_iff_exists.1 hupper
    obtain ⟨o, ho, -⟩ := (exists_of_meets _ _ _).2 h.2
    exact (isRangeValue_of_comparable ho).1

section

variable [Checksum]

section

variable (hstore : store.WellFormed) (hindex : store.IndexAgrees labelId property)

include hstore hindex

lemma delivers_of_mem_liveRange (h : item ∈ store.liveRange labelId property lower upper) :
    ∃ node v, store.nodeOwned item.2.id = some node ∧ store.resolve item.2 = some node ∧
      v.eq item.1 ∧ labelId.toNat ∈ node.labels ∧ node.properties.get property = some v ∧
      rangeBoundsMatch v lower upper ∧ store.AdmitsAsStored item.2.id v := by
  obtain ⟨node, v, hrecord, hv, hnode, hmember, hget, hbounds⟩ := heldInRange_of_mem hindex h
  refine ⟨node, v, nodeOwned_of_held hstore hnode, ?_, hv, hmember, hget, hbounds, .inr ?_⟩
  · rw [hrecord]
    rfl
  · rw [hnode]
    rfl

lemma rangeDelivery_merge (hbaseNode : ∀ id, store.baseNode id = base.nodes.get id)
    (hsorted : entries.Pairwise fun a b => entryCmp a b = .lt)
    (hentries : ∀ v id, (v, id) ∈ entries ↔ base.Has labelId property v id ∧ isRangeValue v) :
    store.RangeDelivery labelId property lower upper store.AdmitsAsStored
      ((store.liveRange labelId property lower upper).merge (store.baseRange entries lower upper)
        le) := by
  refine ⟨sorted_merge sorted_liveRange (sorted_baseRange hsorted) ?nodup, ?nodup,
    fun item hitem => ?_, fun id => ?_⟩
  case nodup =>
    refine ((merge_perm_append le).map _).nodup_iff.2 ?_
    rw [map_append, nodup_append]
    refine ⟨nodup_liveRange hindex, nodup_baseRange hsorted hentries, fun id hid id' hid' heq => ?_⟩
    obtain ⟨a, ha, rfl⟩ := mem_map.1 hid
    obtain ⟨b, hb, rfl⟩ := mem_map.1 hid'
    obtain ⟨node, v, -, -, hnode, -⟩ := heldInRange_of_mem hindex ha
    obtain ⟨e, -, -, hmasks, rfl⟩ := mem_baseRange.1 hb
    rw [show e.2 = a.2.id from heq.symm, masks, hnode, Option.isSome_some, Bool.or_true] at hmasks
    cases hmasks
  · rcases mem_merge.1 hitem with hitem | hitem
    · obtain ⟨node, v, howned, hresolve, hv, -, hget, -⟩ :=
        delivers_of_mem_liveRange hstore hindex hitem
      exact ⟨node, v, howned, hresolve, hget, hv⟩
    · obtain ⟨⟨v, id⟩, he, -, hmasks, rfl⟩ := mem_baseRange.1 hitem
      obtain ⟨⟨node, hnode, -, hget⟩, -⟩ := (hentries v id).1 he
      have hresolve : store.baseNode id = some node := (hbaseNode id).trans hnode
      exact ⟨node, v, (nodeOwned_iff hstore).2 (.inr ⟨hmasks, hresolve⟩), hresolve, hget,
        Value.eq_self v⟩
  · constructor
    · rintro ⟨item, hitem, rfl⟩
      rcases mem_merge.1 hitem with hitem | hitem
      · obtain ⟨node, v, howned, -, -, hdelivered⟩ := delivers_of_mem_liveRange hstore hindex hitem
        exact ⟨node, v, howned, hdelivered⟩
      obtain ⟨⟨v, id⟩, he, hbounds, hmasks, rfl⟩ := mem_baseRange.1 hitem
      obtain ⟨⟨node, hnode, hmember, hget⟩, hrange⟩ := (hentries v id).1 he
      exact ⟨node, v, (nodeOwned_iff hstore).2 (.inr ⟨hmasks, (hbaseNode id).trans hnode⟩),
        hmember, hget, hbounds, .inl hrange⟩
    · rintro ⟨node, v, howned, hmember, hget, hbounds, hadmits⟩
      rcases (nodeOwned_iff hstore).1 howned with hnode | ⟨hmasks, hnode⟩
      · obtain ⟨item, hitem, hid⟩ :=
          exists_mem_of_heldInRange hstore hindex ⟨hnode, hmember, hget, hbounds⟩
        exact ⟨item, mem_merge.2 (.inl hitem), hid⟩
      have hrange : isRangeValue v := hadmits.resolve_right fun hheld => by
        rw [masks, hheld, Bool.or_true] at hmasks
        cases hmasks
      have he : (v, id) ∈ entries := (hentries v id).2
        ⟨⟨node, (hbaseNode id).symm.trans hnode, hmember, hget⟩, hrange⟩
      exact ⟨_, mem_merge.2 (.inr (mem_baseRange.2 ⟨(v, id), he, hbounds, hmasks, rfl⟩)), rfl⟩

end

/-- The visits of an ordered range go through one list. -/
def VisitsInOrder (store : IndexedStore) (labelId : UInt32) (property : String)
    (lower upper : Option (Value × Bool)) (sequence : List RangeItem) : Prop :=
  ∀ {σ : Type} (consumer : σ → RangeItem → Except ProjectionError (σ × ScanControl)) (s : σ),
    store.tryVisitOrderedRange labelId property lower upper consumer s =
      ((scanUntil consumer sequence s).mapError integrityError).map some

lemma exists_rangeDelivery (hstore : store.WellFormed)
    (hdelivers : store.DeliversRange labelId property)
    (hindex : store.IndexAgrees labelId property) (lower upper : Option (Value × Bool)) :
    ∃ sequence, store.RangeDelivery labelId property lower upper store.AdmitsAsStored sequence ∧
      store.VisitsInOrder labelId property lower upper sequence := by
  rcases hdelivers with ⟨hbase, hprojection⟩ | ⟨hbase, e, he, hlabel, hproperty⟩
  · obtain ⟨base, hbase⟩ := Option.isSome_iff_exists.1 hbase
    obtain ⟨projection, hprojection⟩ := Option.isSome_iff_exists.1 hprojection
    obtain ⟨hmem, hsupports⟩ := Option.filter_eq_some_iff.1 hprojection
    obtain ⟨entries, hindexes, hentries⟩ :=
      (hstore.exact base hbase projection hmem).range labelId property hsupports
    have hbaseNode : ∀ id, store.baseNode id = base.nodes.get id := fun id => by
      rw [GraphStore.baseNode, hbase]
      rfl
    refine ⟨_, rangeDelivery_merge hstore hindex hbaseNode hindexes.sorted hentries,
      fun {σ} consumer s => ?_⟩
    rw [tryVisitOrderedRange, hbase, hprojection]
    simp only [Option.isSome_some, Option.isNone_some, Bool.and_false, Bool.false_eq_true,
      if_false, Bool.false_and]
    rw [PropertyProjection.scanRangeEntries_eq hindexes, ← scanUntil_mergeStep, baseRange,
      scanUntil_map, scanUntil_filter _ fun e : IndexEntry => !store.masks e.2]
    congr 4
    funext state e
    cases store.masks e.2 <;> rfl
  · -- Without a base there is nothing to merge the held nodes with.
    let base : CanonicalBase Value := ⟨.empty, .empty, fun _ _ => 0⟩
    have hbaseNode : ∀ id, store.baseNode id = base.nodes.get id := fun id => by
      rw [GraphStore.baseNode, hbase]
      rfl
    have hnone : ∀ v id, (v, id) ∈ ([] : List IndexEntry) ↔
        base.Has labelId property v id ∧ isRangeValue v := by
      refine fun v id => ⟨by simp, ?_⟩
      rintro ⟨⟨_, hnode, -⟩, -⟩
      cases hnode
    refine ⟨_, rangeDelivery_merge hstore hindex hbaseNode .nil hnone, fun {σ} consumer s => ?_⟩
    have hkey : store.propertyIndex.entries.any fun e =>
        e.1.label = labelId.toNat && e.1.property = property :=
      any_eq_true.2 ⟨e, he, by rw [hlabel, hproperty]; simp⟩
    rw [tryVisitOrderedRange, hbase, hkey, baseRange, filter_nil, filter_nil, map_nil, merge_right]
    rfl

/-- When an ordered range returns a result, it has visited exactly the nodes of the merged graph
with the label and a value within the bounds that can be compared with a bound, once each and in
order. -/
def RangeReadExact (store : IndexedStore) (labelId : UInt32) (property : String)
    (lower upper : Option (Value × Bool)) : Prop :=
  (∀ {σ : Type} (consumer : σ → RangeItem → Except ProjectionError (σ × ScanControl)) (s : σ),
    store.tryVisitOrderedRange labelId property lower upper consumer s = .ok none) ∨
  ∃ sequence, store.RangeDelivery labelId property lower upper (fun _ v => isRangeValue v)
    sequence ∧ store.VisitsInOrder labelId property lower upper sequence

/-- A bound is given, or all values the store holds for the property can be compared with one. -/
def BoundedOrComparable (store : IndexedStore) (labelId : UInt32) (property : String)
    (lower upper : Option (Value × Bool)) : Prop :=
  lower.isSome ∨ upper.isSome ∨ ∀ id node v, store.nodes.get id = some node →
    labelId.toNat ∈ node.labels → node.properties.get property = some v → isRangeValue v


lemma RangeDelivery.comparable {sequence : List RangeItem} (hstore : store.WellFormed)
    (h : store.RangeDelivery labelId property lower upper store.AdmitsAsStored sequence)
    (hcondition : store.BoundedOrComparable labelId property lower upper) :
    store.RangeDelivery labelId property lower upper (fun _ v => isRangeValue v) sequence := by
  refine ⟨h.sorted, h.nodup, h.resolves, fun id => (h.exact id).trans ?_⟩
  refine exists_congr fun node => exists_congr fun v => and_congr_right fun howned =>
    and_congr_right fun hmember => and_congr_right fun hget => and_congr_right fun hbounds => ?_
  refine ⟨fun hadmits => ?_, .inl⟩
  rcases hcondition with hlower | hupper | hheld
  · exact isRangeValue_of_bound hbounds (.inl hlower)
  · exact isRangeValue_of_bound hbounds (.inr hupper)
  · rcases hadmits with hrange | hsome
    · exact hrange
    · obtain ⟨node', hnode⟩ := Option.isSome_iff_exists.1 hsome
      cases howned.symm.trans (nodeOwned_of_held hstore hnode)
      exact hheld id node v hnode hmember hget

lemma rangeReadExact_iff (hstore : store.WellFormed)
    (hindex : store.DeliversRange labelId property → store.IndexAgrees labelId property) :
    store.RangeReadExact labelId property lower upper ↔
      (store.DeliversRange labelId property →
        store.BoundedOrComparable labelId property lower upper) := by
  constructor
  · intro hexact hdelivers
    by_contra hcondition
    simp only [BoundedOrComparable, not_or, not_forall] at hcondition
    obtain ⟨hlower, hupper, id, node, v, hnode, hmember, hget, hrange⟩ := hcondition
    obtain rfl := Option.not_isSome_iff_eq_none.1 hlower
    obtain rfl := Option.not_isSome_iff_eq_none.1 hupper
    obtain ⟨sequence, hdelivery, hvisits⟩ :=
      exists_rangeDelivery hstore hdelivers (hindex hdelivers) none none
    -- A consumer that keeps all it gets tells the list of the visits.
    have hkept : store.tryVisitOrderedRange labelId property none none
        (fun kept item => .ok (kept ++ [item], .proceed)) [] = .ok (some (sequence, .proceed)) := by
      rw [hvisits, scanUntil_collect]
      rfl
    rcases hexact with hnone | ⟨claimed, hclaimed, hvisits'⟩
    · rw [hnone] at hkept
      cases hkept
    rw [hvisits', scanUntil_collect] at hkept
    obtain rfl : claimed = sequence := congrArg Prod.fst (Option.some.inj (Except.ok.inj hkept))
    have howned := nodeOwned_of_held hstore hnode
    have hvisited := (hdelivery.exact id).2
      ⟨node, v, howned, hmember, hget, rfl, .inr (by rw [hnode]; rfl)⟩
    obtain ⟨node', v', howned', -, hget', -, hrange'⟩ := (hclaimed.exact id).1 hvisited
    cases howned.symm.trans howned'
    cases hget.symm.trans hget'
    exact hrange hrange'
  · intro hcondition
    by_cases hdelivers : store.DeliversRange labelId property
    · obtain ⟨sequence, hdelivery, hvisits⟩ :=
        exists_rangeDelivery hstore hdelivers (hindex hdelivers) lower upper
      exact .inr ⟨sequence, hdelivery.comparable hstore (hcondition hdelivers), hvisits⟩
    · exact .inl (tryVisitOrderedRange_eq_none hdelivers)

end

/-! ### A store beside its base -/

/-- A node with one property. -/
def sizeNode (value : Value) : NodeRecord Value :=
  ⟨[1], ⟨[("n", value)], pairwise_singleton _ _⟩⟩

def sizeEntries : List IndexEntry :=
  [(.leaf (.int 5), 1), (.leaf (.int 7), 2), (.leaf (.int 9), 3)]

def sizeBlock : ProjectionBlock :=
  ⟨0, 1, "n", .range, .leaf (.int 5), .leaf (.int 9), sizeEntries⟩

def sizeProjection : PropertyProjection :=
  ⟨[⟨1, "n", .range, true⟩], [(sizeBlock.descriptorTreeKey, sizeBlock)]⟩

def sizeNodes : OrdMap ℕ (NodeRecord Value) :=
  ⟨sizeEntries.map fun e => (e.2, sizeNode e.1), by rw [SortedKeys]; decide⟩

lemma get_sizeNode {v w : Value} : (sizeNode v).properties.get "n" = some w ↔ w = v := by
  rw [OrdMap.get_eq_some_iff]
  simp [sizeNode, eq_comm]

lemma get_singleton_iff {V : Type} {n id : ℕ} {v w : V} :
    (⟨[(n, v)], pairwise_singleton _ _⟩ : OrdMap ℕ V).get id = some w ↔ id = n ∧ w = v := by
  rw [get_eq_some_iff_mem, mem_singleton, Prod.mk.injEq]

lemma mem_sizeNodes {id : ℕ} {node : NodeRecord Value} : (id, node) ∈ sizeNodes.entries ↔
    ∃ v, (v, id) ∈ sizeEntries ∧ node = sizeNode v := by
  simp only [sizeNodes, mem_map, Prod.mk.injEq, Prod.exists]
  constructor
  · rintro ⟨v, _, hmem, rfl, rfl⟩
    exact ⟨v, hmem, rfl⟩
  · rintro ⟨v, hmem, rfl⟩
    exact ⟨v, id, hmem, rfl, rfl⟩

lemma isRangeValue_sizeEntries : ∀ e ∈ sizeEntries, isRangeValue e.1 := by decide

lemma compare_sizeKey (v w : Value) :
    compare (⟨1, "n", v⟩ : PropertyIndexKey) ⟨(1 : UInt32).toNat, "n", w⟩ = compare v w := by
  rw [compare_propertyIndexKey, show (1 : UInt32).toNat = 1 from rfl]
  simp only [ReflOrd.compare_self]
  rfl

local instance zeroChecksum : Checksum := ⟨fun _ => 0⟩

/-- Of the nodes 1, 2 and 3 of the base the store has deleted the last and holds the second, with a
boolean. -/
def sizeStore : IndexedStore :=
  letI : TypeSizes := ⟨136, 24, 24, 40, 56, 80, 16, 1, 32⟩
  { versions := .new 0 0 0
    versionSnapshotPin := none
    readersId := 0
    readDependencyReaders := 0
    poisoned := none
    nodes := ⟨[(2, sizeNode (.leaf (.bool true)))], pairwise_singleton _ _⟩
    relationships := .empty
    nodeTombstones := {3}
    relationshipTombstones := ∅
    canonicalBase := some ⟨sizeNodes, .empty, fun _ _ => 0⟩
    propertyIndex := ⟨[(⟨1, "n", .leaf (.bool true)⟩, ⟨[(2, ())], pairwise_singleton _ _⟩)],
      pairwise_singleton _ _⟩
    nodeSegments := (NodeSegment.write sizeNodes.entries).toOption.toList
    persistentPropertyProjection := some sizeProjection }

lemma exists_sizeSegment : ∃ segment, NodeSegment.write sizeNodes.entries = .ok segment ∧
    segment.nodes = sizeNodes.entries := ⟨_, rfl, rfl⟩

lemma sizeStore_wellFormed : sizeStore.WellFormed := by
  obtain ⟨segment, hsegment, hnodes⟩ := exists_sizeSegment
  have hsegments : sizeStore.nodeSegments = [segment] := by
    show (NodeSegment.write sizeNodes.entries).toOption.toList = _
    rw [hsegment]
    rfl
  refine ⟨?_, ?_, fun s hs => ?_, fun id hid => ?_⟩
  · rintro base ⟨⟩ projection ⟨⟩
    refine ⟨fun labelId property hsupports => ?_, fun labelId property hsupports => ?_⟩
    · simp [PropertyProjection.supports, sizeProjection] at hsupports
    obtain ⟨rfl, rfl⟩ : 1 = labelId ∧ "n" = property := by
      simpa [PropertyProjection.supports, sizeProjection] using hsupports
    have hscan : sizeProjection.scanPrefix (propertyProjectionDescriptorPrefix .range 1 "n") =
        [(sizeBlock.descriptorTreeKey, sizeBlock)] := rfl
    have hsorted : sizeEntries.Pairwise fun a b => entryCmp a b = .lt := by decide +kernel
    refine ⟨sizeEntries, ⟨hsupports, fun d hd => ?_, by rw [hscan]; rfl, hsorted⟩, fun v id => ?_⟩
    · rw [hscan, mem_singleton] at hd
      subst hd
      exact ⟨rfl, rfl, rfl, rfl, by
        refine ⟨fun h => ?_, fun e he => ?_, fun e he => ?_, hsorted, fun h => ?_⟩
        · cases h
        · cases he
          rfl
        · cases he
          rfl
        · cases h⟩
    · constructor
      · intro hmem
        exact ⟨⟨_, get_eq_some_iff_mem.2 (mem_sizeNodes.2 ⟨v, hmem, rfl⟩), mem_singleton_self _,
          get_sizeNode.2 rfl⟩, isRangeValue_sizeEntries _ hmem⟩
      · rintro ⟨⟨node, hnode, -, hget⟩, -⟩
        obtain ⟨v', hmem, rfl⟩ := mem_sizeNodes.1 (get_eq_some_iff_mem.1 hnode)
        rwa [get_sizeNode.1 hget]
  · rintro base ⟨⟩
    rw [hsegments, flatMap_singleton, hnodes]
  · rw [hsegments, mem_singleton] at hs
    rw [hs, hnodes, hsegment]
  · obtain rfl := Finset.mem_singleton.1 hid
    rfl

lemma sizeStore_indexAgrees : sizeStore.IndexAgrees 1 "n" := by
  intro value id
  constructor
  · rintro ⟨ids, hids, hid⟩
    obtain ⟨key, hkey, hcmp⟩ := OrdMap.get_eq_some_iff.1 hids
    cases mem_singleton.1 hkey
    obtain ⟨⟨⟩, hid⟩ := Option.isSome_iff_exists.1 hid
    obtain ⟨rfl, -⟩ := get_singleton_iff.1 hid
    exact ⟨_, _, get_singleton_iff.2 ⟨rfl, rfl⟩, mem_singleton_self _, get_sizeNode.2 rfl,
      Value.eq_iff.2 ((compare_sizeKey _ _).symm.trans hcmp)⟩
  · rintro ⟨node, v, hnode, -, hget, hvalue⟩
    obtain ⟨rfl, rfl⟩ := get_singleton_iff.1 hnode
    rw [get_sizeNode.1 hget] at hvalue
    exact ⟨_, OrdMap.get_eq_some_iff.2 ⟨_, mem_singleton_self _,
      (compare_sizeKey _ _).trans (Value.eq_iff.1 hvalue)⟩, rfl⟩

end IndexedStore

end HawDB
