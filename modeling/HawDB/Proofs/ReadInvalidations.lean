import HawDB.ReadDependencies
import HawDB.Proofs.GraphStore

/-!
# What a batch changes is stamped

If an operation of a batch adds an element to a read scope, takes one out or changes one inside, the
collectors stamp the scope or the read barrier (`nodes_unchanged_of_not_stamped`,
`rels_unchanged_of_not_stamped`).
-/

namespace HawDB

open List Function Option

section

variable {V : Type*} [Ord V]

def NodeRecord.InScope (catalog : Catalog) (node : NodeRecord V) : VersionKey V → Prop
  | .readNodeDomain none => True
  | .readNodeDomain (some label) => ∃ l ∈ node.labels, catalog.labelName l = some label
  | .readNodeProperty label property value =>
    (∃ l ∈ node.labels, catalog.labelName l = some label) ∧
      ∃ w, node.properties.get property = some w ∧ compare w value = .eq
  | _ => False

def RelRecord.InScope (catalog : Catalog) (rel : RelRecord V) : VersionKey V → Prop
  | .readRelationshipDomain none => True
  | .readRelationshipDomain (some kind) => catalog.relTypeName rel.relType = some kind
  | _ => False

/-- The scopes writers look after: domains, and exact keys of a declared scalar index. -/
def Catalog.Watches [CowPageWeight V] [GraphValue V] [TypeSizes] (catalog : Catalog) :
    VersionKey V → Prop
  | .readNodeProperty label property value =>
    (nodePropertyReadKey label property value).isSome ∧
      ∃ index ∈ catalog.namedPropertyIndexes, catalog.labelId label = some index.labelId ∧
        index.property = property ∧ index.kind ≠ .fullText
  | _ => True

def Stamped (stamps : List (VersionKey V)) (key : VersionKey V) : Prop :=
  ∃ k ∈ stamps, compare k key = .eq ∨ k = .readBarrier

variable {catalog later : Catalog} {key : VersionKey V}

lemma Stamped.mono (h : Stamped stamps key) (hsub : stamps ⊆ stamps') : Stamped stamps' key := by
  obtain ⟨k, hk, hkey⟩ := h
  exact ⟨k, hsub hk, hkey⟩

lemma stamped_of_barrier (h : .readBarrier ∈ stamps) : Stamped stamps key :=
  ⟨_, h, .inr rfl⟩

lemma stamped_of_mem [Std.TransOrd V] (h : key ∈ stamps) : Stamped stamps key :=
  ⟨key, h, .inl Std.ReflCmp.compare_self⟩

omit [Ord V] in
lemma Catalog.Watches.extends [CowPageWeight V] [GraphValue V] [TypeSizes]
    (h : catalog.Watches key) (hext : catalog.Extends later) : later.Watches key := by
  cases key with
  | readNodeProperty label property value =>
    obtain ⟨hkey, index, hindex, hlabel, hrest⟩ := h
    exact ⟨hkey, index, hext.namedPropertyIndexes hindex, hext.labelId hlabel, hrest⟩
  | _ => trivial

def NodeRecord.Named (catalog : Catalog) (node : NodeRecord V) : Prop :=
  ∀ l ∈ node.labels, ∃ name, catalog.labelName l = some name

lemma NodeRecord.inScope_extends {node : NodeRecord V} (hnamed : node.Named catalog)
    (hext : catalog.Extends later) : node.InScope later key ↔ node.InScope catalog key := by
  have hlabel : ∀ label, (∃ l ∈ node.labels, later.labelName l = some label) ↔
      ∃ l ∈ node.labels, catalog.labelName l = some label := by
    refine fun label => exists_congr fun l => and_congr_right fun hl => ⟨fun h => ?_, hext.labelName⟩
    obtain ⟨name, hname⟩ := hnamed l hl
    rw [hname, ← h]
    exact (hext.labelName hname).symm
  cases key with
  | readNodeDomain label =>
    cases label with
    | none => exact Iff.rfl
    | some label => exact hlabel label
  | readNodeProperty label property value => exact and_congr_left' (hlabel label)
  | _ => exact Iff.rfl

lemma NodeRecord.inScope_setProperty {node : NodeRecord V}
    (h : (node.setProperty property value).InScope catalog key) :
    node.InScope catalog key ∨ ∃ label v, key = .readNodeProperty label property v ∧
      compare value v = .eq ∧ ∃ l ∈ node.labels, catalog.labelName l = some label := by
  cases key with
  | readNodeDomain label => cases label <;> exact .inl h
  | readNodeProperty label property' v =>
    obtain ⟨hlabel, w, hw, heq⟩ := h
    rw [NodeRecord.setProperty, OrdMap.get_insert_eq] at hw
    split_ifs at hw with hp
    · cases hw
      exact .inr ⟨label, v, by rw [hp], heq, hlabel⟩
    · exact .inl ⟨hlabel, w, hw, heq⟩
  | _ => exact h.elim

end

namespace IndexedNodeReadInvalidations

variable {V : Type*} [Ord V] [CowPageWeight V] [GraphValue V] [TypeSizes]

section

lemma newLoop_catalog : ∀ l position bytes (result : IndexedNodeReadInvalidations),
      (newLoop l position bytes result).catalog = result.catalog
  | [], _, _, _ => rfl
  | index :: rest, position, bytes, result => by
    unfold newLoop
    dsimp only
    split_ifs
    · rfl
    · exact newLoop_catalog rest _ _ _
    · exact newLoop_catalog rest _ _ _
    · rfl
    · exact newLoop_catalog rest _ _ _

lemma newLoop_indexes : ∀ l position bytes
    (result : IndexedNodeReadInvalidations), (newLoop l position bytes result).qualified →
      result.indexes ⊆ (newLoop l position bytes result).indexes ∧
        result.requiredProperties ⊆ (newLoop l position bytes result).requiredProperties ∧
        ∀ index ∈ l, index.kind ≠ .fullText → index ∈ (newLoop l position bytes result).indexes ∧
            index.property ∈ (newLoop l position bytes result).requiredProperties
  | [], _, _, _, _ =>
    ⟨Subset.refl _, Subset.refl _, fun _ h => absurd h not_mem_nil⟩
  | index :: rest, position, bytes, result, h => by
    unfold newLoop at h ⊢
    dsimp only at h ⊢
    split_ifs at h ⊢ with hposition hkind hmem hbytes
    · obtain ⟨hindexes, hrequired, hrest⟩ := newLoop_indexes rest _ _ _ h
      refine ⟨hindexes, hrequired, fun i hi hscalar => ?_⟩
      rcases mem_cons.1 hi with rfl | hi
      · exact absurd hkind hscalar
      · exact hrest i hi hscalar
    · obtain ⟨hindexes, hrequired, hrest⟩ := newLoop_indexes rest _ _ _ h
      refine ⟨fun i hi => hindexes (mem_append_left _ hi), hrequired, fun i hi hscalar => ?_⟩
      rcases mem_cons.1 hi with rfl | hi
      · exact ⟨hindexes (mem_append_right _ mem_cons_self), hrequired hmem⟩
      · exact hrest i hi hscalar
    · obtain ⟨hindexes, hrequired, hrest⟩ := newLoop_indexes rest _ _ _ h
      refine ⟨fun i hi => hindexes (mem_append_left _ hi),
        fun p hp => hrequired (mem_append_left _ hp), fun i hi hscalar => ?_⟩
      rcases mem_cons.1 hi with rfl | hi
      · exact ⟨hindexes (mem_append_right _ mem_cons_self),
          hrequired (mem_append_right _ mem_cons_self)⟩
      · exact hrest i hi hscalar

lemma new_catalog (catalog : Catalog) : (new catalog).catalog = catalog := newLoop_catalog _ _ _ _

end

variable {catalog : Catalog} {label property : String} {value w : V}

lemma nodePropertyReadKey_of_compare [LawfulGraphValue V] (hw : compare w value = .eq)
    (h : (nodePropertyReadKey label property value).isSome) :
    nodePropertyReadKey label property w = some (.readNodeProperty label property w) := by
  unfold nodePropertyReadKey at h ⊢
  split_ifs at h with hcollection
  · cases h
  have hscalar : GraphValue.isCollection w = false := by
    rw [LawfulGraphValue.isCollection_eq hw]
    exact Bool.eq_false_iff.2 hcollection
  rw [if_neg (by rw [hscalar]; exact Bool.false_ne_true), LawfulGraphValue.cowPageBytes_eq hw hscalar]
  dsimp only at h ⊢
  split_ifs at h ⊢ with hbytes
  · rfl
  · cases h

omit [CowPageWeight V] [GraphValue V] [TypeSizes] in
lemma compare_readNodeProperty (hw : compare w value = .eq) :
    compare (VersionKey.readNodeProperty label property w) (.readNodeProperty label property value) =
      .eq := by
  change (compare label label).then ((compare property property).then
    ((compare w value).then .eq)) = .eq
  have hself : ∀ name : String, compare name name = .eq := fun _ => Std.ReflCmp.compare_self
  rw [hself, hself, hw]
  rfl

lemma stamped_recordLabel [LawfulGraphValue V] {properties : Option (OrdMap String V)}
    (hwatch : catalog.Watches (.readNodeProperty label property value)) (hw : compare w value = .eq)
    (hgiven : (properties.bind fun properties => properties.get property) = some w ∨
      changed = some (property, w)) : Stamped ((new catalog).recordLabel label properties changed)
      (.readNodeProperty label property value) := by
  obtain ⟨hsome, index, hindex, hlabel, rfl, hkind⟩ := hwatch
  unfold recordLabel
  rcases hqualified : (new catalog).qualified with _ | _
  · exact stamped_of_barrier (mem_cons_of_mem _ mem_cons_self)
  obtain ⟨-, -, hindexes⟩ := newLoop_indexes _ _ _ _ hqualified
  rw [new_catalog, hlabel]
  refine ⟨.readNodeProperty label index.property w, mem_cons_of_mem _ ?_,
    .inl (compare_readNodeProperty hw)⟩
  refine mem_flatMap.2 ⟨index, mem_filter.2 ⟨(hindexes index hindex hkind).1,
    decide_eq_true rfl⟩, ?_⟩
  have hkey : .readNodeProperty label index.property w ∈ recordKey label index.property w := by
    rw [recordKey, nodePropertyReadKey_of_compare hw hsome]
    exact mem_cons_self
  unfold recordIndex
  rcases hgiven with hproperties | rfl
  · rw [hproperties]
    exact mem_append_left _ hkey
  · rw [filter_some, if_pos (decide_eq_true rfl)]
    exact mem_append_right _ hkey

variable {properties : OrdMap String V} {changed : Option (String × V)}

omit [Ord V] in
lemma recordLabel_subset_recordNode (hl : l ∈ labels) (hname : catalog.labelName l = some label) :
    (new catalog).recordLabel label (some properties) changed ⊆
      (new catalog).recordNode labels properties changed := by
  intro k hk
  refine mem_flatMap.2 ⟨l, hl, ?_⟩
  rwa [new_catalog, hname]

lemma stamped_recordNode_changed [LawfulGraphValue V]
    (hwatch : catalog.Watches (.readNodeProperty label property value))
    (hw : compare w value = .eq) (hlabel : ∃ l ∈ labels, catalog.labelName l = some label) :
    Stamped ((new catalog).recordNode labels properties (some (property, w)))
      (.readNodeProperty label property value) := by
  obtain ⟨l, hl, hname⟩ := hlabel
  exact (stamped_recordLabel hwatch hw (.inr rfl)).mono (recordLabel_subset_recordNode hl hname)

lemma stamped_recordNode [Std.TransOrd V] [LawfulGraphValue V]
    {node : NodeRecord V} (hwatch : catalog.Watches key) (hscope : node.InScope catalog key)
    (hproperties : (new catalog).qualified → ∀ p ∈ (new catalog).requiredProperties,
      properties.get p = node.properties.get p) :
    Stamped (.readNodeDomain none :: (new catalog).recordNode node.labels properties changed)
      key := by
  cases key with
  | readNodeDomain label =>
    cases label with
    | none => exact stamped_of_mem mem_cons_self
    | some label =>
      obtain ⟨l, hl, hname⟩ := hscope
      exact stamped_of_mem (mem_cons_of_mem _
        (recordLabel_subset_recordNode hl hname mem_cons_self))
  | readNodeProperty label property value =>
    obtain ⟨⟨l, hl, hname⟩, w, hw, heq⟩ := hscope
    have hsub : (new catalog).recordLabel label (some properties) changed ⊆
        .readNodeDomain none :: (new catalog).recordNode node.labels properties changed :=
      fun k hk => mem_cons_of_mem _ (recordLabel_subset_recordNode hl hname hk)
    rcases hqualified : (new catalog).qualified with _ | _
    · refine stamped_of_barrier (hsub ?_)
      unfold recordLabel
      rw [hqualified]
      exact mem_cons_of_mem _ mem_cons_self
    · have hget : properties.get property = some w := by
        obtain ⟨-, index, hindex, -, rfl, hkind⟩ := hwatch
        have hrequired := ((newLoop_indexes _ _ _ _ hqualified).2.2 index hindex hkind).2
        exact (hproperties hqualified _ hrequired).trans hw
      exact (stamped_recordLabel hwatch heq (.inl (by rw [bind_some, hget]))).mono hsub
  | _ => exact hscope.elim

end IndexedNodeReadInvalidations

section

variable {V : Type*} [Ord V]

/-- What is known of an element of one identifier within a batch, by the label it was created with
if the batch created it, the record before the batch and the record now. -/
def NodeTracked (before now : Catalog) (key : VersionKey V) (stamps : List (VersionKey V))
    (created : Option String) (old cur : Option (NodeRecord V)) : Prop :=
  match created with
  | some label =>
    old = none ∧ ∀ node, cur = some node →
      (∃ l, node.labels = [l] ∧ now.labelName l = some label) ∧
        (node.InScope now key → Stamped stamps key)
  | none =>
    cur = old ∨
      (∀ node, old = some node → node.InScope before key → Stamped stamps key) ∧
        ∀ node, cur = some node → (∃ node', old = some node' ∧ node.labels = node'.labels) ∧
          (node.InScope now key → Stamped stamps key)

variable {before now later : Catalog} {key : VersionKey V} {stamps stamps' : List (VersionKey V)}
  {created : Option String} {old cur : Option (NodeRecord V)}

lemma NodeTracked.mono (h : NodeTracked before now key stamps created old cur)
    (hold : ∀ node, old = some node → node.Named before) (hnow : before.Extends now)
    (hlater : now.Extends later) (hsub : stamps ⊆ stamps') :
    NodeTracked before later key stamps' created old cur := by
  cases created with
  | some label =>
    refine ⟨h.1, fun node hnode => ?_⟩
    obtain ⟨⟨l, hl, hname⟩, hstamped⟩ := h.2 node hnode
    have hnamed : node.Named now := by
      intro l' hl'
      rw [hl, mem_singleton] at hl'
      exact ⟨label, hl' ▸ hname⟩
    exact ⟨⟨l, hl, hlater.labelName hname⟩, fun hscope =>
      (hstamped ((NodeRecord.inScope_extends hnamed hlater).1 hscope)).mono hsub⟩
  | none =>
    refine h.imp_right fun ⟨hleft, hnew⟩ =>
      ⟨fun node hnode hscope => (hleft node hnode hscope).mono hsub, fun node hnode => ?_⟩
    obtain ⟨⟨node', hnode', hlabels⟩, hstamped⟩ := hnew node hnode
    have hnamed : node.Named now := by
      intro l hl
      rw [hlabels] at hl
      exact (hold node' hnode' l hl).imp fun _ hname => hnow.labelName hname
    exact ⟨⟨node', hnode', hlabels⟩, fun hscope =>
      (hstamped ((NodeRecord.inScope_extends hnamed hlater).1 hscope)).mono hsub⟩

variable [Std.TransOrd V] [CowPageWeight V] [GraphValue V] [TypeSizes] [LawfulGraphValue V]

open IndexedNodeReadInvalidations in
lemma nodeTracked_create (hwatch : before.Watches key) (hold : old = none)
    (hname : now.labelName l = some label) : NodeTracked before now key
      (stamps ++ .readNodeDomain none :: (new before).recordLabel label (some properties) none)
      (some label) old (some ⟨[l], properties⟩) := by
  refine ⟨hold, fun node hnode => ?_⟩
  cases hnode
  have hlabel : ∀ {label'}, (∃ l' ∈ [l], now.labelName l' = some label') → label = label' := by
    rintro label' ⟨l', hl', hname'⟩
    rw [mem_singleton] at hl'
    rw [hl', hname] at hname'
    exact some.inj hname'
  refine ⟨⟨l, rfl, hname⟩, fun hscope => Stamped.mono ?_ (subset_append_right stamps _)⟩
  cases key with
  | readNodeDomain label' =>
    cases label' with
    | none => exact stamped_of_mem mem_cons_self
    | some label' =>
      rw [← hlabel hscope]
      exact stamped_of_mem (mem_cons_of_mem _ mem_cons_self)
  | readNodeProperty label' property value =>
    obtain ⟨hlabel', w, hw, heq⟩ := hscope
    obtain rfl := hlabel hlabel'
    exact (stamped_recordLabel hwatch heq (.inl (by rw [bind_some, hw]))).mono
      (subset_cons_self _ _)
  | _ => exact hscope.elim

omit [Std.TransOrd V] [LawfulGraphValue V] in
open IndexedNodeReadInvalidations in
/-- A write to a node of before the batch is a write to its labels and indexed properties, unless
these are not known. -/
theorem nodeWriteKeys_eq (before : Catalog) {store : GraphStore V} {createdNodes : OrdMap ℕ String} {id : ℕ}
    (hcreated : createdNodes.get id = none) {node : NodeRecord V}
    (hnode : store.nodeOwned id = some node) (changed : Option (String × V)) :
    nodeWriteKeys (new before) store createdNodes id changed = [.readBarrier] ∨
      ∃ properties, nodeWriteKeys (new before) store createdNodes id changed =
        (new before).recordNode node.labels properties changed ∧
          ∀ p ∈ (new before).requiredProperties, properties.get p = node.properties.get p := by
  unfold GraphStore.nodeOwned at hnode
  split_ifs at hnode with htomb
  unfold nodeWriteKeys
  rw [hcreated]
  rcases hget : store.nodes.get id with _ | held
  · rw [hget, none_or] at hnode
    rcases hprojected : (new before).projectedBefore store id with _ | projected
    · exact .inl rfl
    unfold projectedBefore at hprojected
    obtain ⟨base, hbase, hbaseNode⟩ := bind_eq_some_iff.1 hnode
    simp only [hbase, hbaseNode, bind_eq_bind, bind_some, htomb, if_false] at hprojected
    split_ifs at hprojected
    cases hprojected
    refine .inr ⟨_, rfl, fun p hp => ?_⟩
    rw [OrdMap.get_filter (p := fun p => decide (p ∈ (new before).requiredProperties))
      (fun a b h => by rw [Std.LawfulEqOrd.compare_eq_iff_eq.1 h]), if_pos (decide_eq_true hp)]
  · rw [hget, some_or] at hnode
    cases hnode
    exact .inr ⟨_, rfl, fun _ _ => rfl⟩

open IndexedNodeReadInvalidations in
lemma stamped_nodeWriteKeys {store : GraphStore V} {createdNodes : OrdMap ℕ String} {id : ℕ}
    (hwatch : before.Watches key) (hcreated : createdNodes.get id = none) {node : NodeRecord V}
    (hnode : store.nodeOwned id = some node) (changed : Option (String × V)) :
    (node.InScope before key → Stamped
      (.readNodeDomain none :: nodeWriteKeys (new before) store createdNodes id changed) key) ∧
      ∀ label property value v, key = .readNodeProperty label property v →
        changed = some (property, value) → compare value v = .eq →
        (∃ l ∈ node.labels, before.labelName l = some label) → Stamped
          (.readNodeDomain none :: nodeWriteKeys (new before) store createdNodes id changed) key := by
  rcases nodeWriteKeys_eq before hcreated hnode changed with h | ⟨properties, h, hget⟩
  · have hbarrier : Stamped [.readNodeDomain none, .readBarrier] key :=
      stamped_of_barrier (mem_cons_of_mem _ mem_cons_self)
    rw [h]
    exact ⟨fun _ => hbarrier, fun _ _ _ _ _ _ _ _ => hbarrier⟩
  · rw [h]
    refine ⟨fun hscope => stamped_recordNode hwatch hscope fun _ => hget, ?_⟩
    rintro label property value v rfl rfl heq hlabel
    exact (stamped_recordNode_changed hwatch heq hlabel).mono (subset_cons_self _ _)

omit [Std.TransOrd V] [CowPageWeight V] [GraphValue V] [TypeSizes] [LawfulGraphValue V] in
lemma NodeTracked.labels_eq (h : NodeTracked before now key stamps none old cur)
    {node : NodeRecord V} (hnode : cur = some node) :
    ∃ node', old = some node' ∧ node.labels = node'.labels := by
  rcases h with heq | ⟨-, hcur⟩
  · exact ⟨node, heq ▸ hnode, rfl⟩
  · exact (hcur node hnode).1

open IndexedNodeReadInvalidations in
lemma NodeTracked.setProperty {store : GraphStore V} {createdNodes : OrdMap ℕ String} {id : ℕ}
    (h : NodeTracked before now key stamps (createdNodes.get id) (store.nodeOwned id) cur)
    (hold : ∀ node, store.nodeOwned id = some node → node.Named before)
    (hnow : before.Extends now) (hwatch : before.Watches key) (property : String) (value : V) :
    NodeTracked before now key (stamps ++ .readNodeDomain none ::
      nodeWriteKeys (new before) store createdNodes id (some (property, value)))
      (createdNodes.get id) (store.nodeOwned id) (cur.map (NodeRecord.setProperty property value)) := by
  rcases hcreated : createdNodes.get id with _ | label
  · rw [hcreated] at h
    rcases hnode : store.nodeOwned id with _ | node
    · -- there is nothing to write to
      refine .inl ?_
      rcases cur with _ | cur
      · rfl
      · obtain ⟨node', hnode', -⟩ := h.labels_eq rfl
        rw [hnode] at hnode'
        cases hnode'
    · obtain ⟨hscopes, hvalue⟩ :=
        stamped_nodeWriteKeys hwatch hcreated hnode (some (property, value))
      refine .inr ⟨fun node' hnode' hscope => ?_, fun changed hchanged => ?_⟩
      · cases hnode'
        exact (hscopes hscope).mono (subset_append_right _ _)
      · obtain ⟨cur', rfl, rfl⟩ := map_eq_some_iff.1 hchanged
        obtain ⟨node', hnode', hlabels⟩ := h.labels_eq rfl
        rw [hnode] at hnode'
        cases hnode'
        have hnamed : cur'.Named before := fun l hl => hold node hnode l (hlabels ▸ hl)
        have hnamed' : (cur'.setProperty property value).Named before := hnamed
        refine ⟨⟨node, rfl, hlabels⟩, fun hscope => ?_⟩
        rw [NodeRecord.inScope_extends hnamed' hnow] at hscope
        rcases NodeRecord.inScope_setProperty hscope with hscope | ⟨label, v, hkey, heq, hlabel⟩
        · rcases h with heq | ⟨-, hcur⟩
          · rw [hnode] at heq
            cases heq
            exact (hscopes hscope).mono (subset_append_right _ _)
          · exact ((hcur cur' rfl).2 ((NodeRecord.inScope_extends hnamed hnow).2 hscope)).mono
              (subset_append_left _ _)
        · rw [hlabels] at hlabel
          exact (hvalue label property value v hkey rfl heq hlabel).mono (subset_append_right _ _)
  · rw [hcreated] at h
    refine ⟨h.1, fun changed hchanged => ?_⟩
    obtain ⟨cur', rfl, rfl⟩ := map_eq_some_iff.1 hchanged
    obtain ⟨⟨l, hl, hname⟩, hstamped⟩ := h.2 cur' rfl
    refine ⟨⟨l, hl, hname⟩, fun hscope => ?_⟩
    rcases NodeRecord.inScope_setProperty hscope with hscope | ⟨label', v, rfl, heq, l', hl', hname'⟩
    · exact (hstamped hscope).mono (subset_append_left _ _)
    rw [hl, mem_singleton] at hl'
    rw [hl', hname] at hname'
    cases hname'
    refine Stamped.mono ?_ (subset_append_right _ _)
    unfold nodeWriteKeys
    rw [hcreated]
    exact (stamped_recordLabel hwatch heq (.inr rfl)).mono (subset_cons_self _ _)

open IndexedNodeReadInvalidations in
lemma NodeTracked.delete {store : GraphStore V} {createdNodes : OrdMap ℕ String} {id : ℕ}
    (h : NodeTracked before now key stamps (createdNodes.get id) (store.nodeOwned id) cur)
    (hwatch : before.Watches key) :
    NodeTracked before now key (stamps ++ .readNodeDomain none ::
      nodeWriteKeys (new before) store createdNodes id none)
      (createdNodes.get id) (store.nodeOwned id) none := by
  rcases hcreated : createdNodes.get id with _ | label
  · rcases hnode : store.nodeOwned id with _ | node
    · exact .inl rfl
    · refine .inr ⟨fun node' hnode' hscope => ?_, nofun⟩
      cases hnode'
      exact ((stamped_nodeWriteKeys hwatch hcreated hnode none).1 hscope).mono
        (subset_append_right _ _)
  · rw [hcreated] at h
    exact ⟨h.1, nofun⟩

/-- What is known within a batch: the state, and what the collector has gathered so far. -/
structure CollectsNodes (store : GraphStore V) (before : Catalog) (key : VersionKey V)
    (s : GraphState V) (c : NodeCollector V) : Prop where
  extended : before.Extends s.catalog
  tracked : ∀ id, NodeTracked before s.catalog key c.stamps (c.created.get id)
    (store.nodeOwned id) (s.store.nodeOwned id)

open IndexedNodeReadInvalidations in
lemma CollectsNodes.step {store : GraphStore V} {s : GraphState V} {c : NodeCollector V}
    (h : CollectsNodes store before key s c)
    (hold : ∀ id node, store.nodeOwned id = some node → node.Named before)
    (hwatch : before.Watches key) {op : WalOp V} (hfresh : op.isFresh store) :
    CollectsNodes store before key (s.applyWalOp op) (collectNodeOp (new before) store c op) := by
  have hextended := s.extends_applyWalOp op
  refine ⟨h.extended.trans hextended, fun id => ?_⟩
  have hother : ∀ stamps, c.stamps ⊆ stamps →
      NodeTracked before (s.applyWalOp op).catalog key stamps (c.created.get id)
        (store.nodeOwned id) (s.store.nodeOwned id) := fun stamps hsub =>
    (h.tracked id).mono (hold id) h.extended hextended hsub
  have hgraph : (s.applyWalOp op).store.nodeOwned = (s.store.graph.apply s.catalog op).node :=
    congrArg Graph.node (s.graph_applyWalOp op)
  rw [hgraph]
  cases op with
  | createNode id' label properties =>
    simp only [collectNodeOp, OrdMap.get_insert_eq, Graph.apply, Graph.setNode]
    by_cases hid : id = id'
    · subst hid
      rw [if_pos rfl, update_self]
      exact nodeTracked_create hwatch (isNone_iff_eq_none.1 hfresh)
        (SymbolTable.nameOf_getOrCreate label)
    · rw [if_neg hid, update_of_ne hid]
      exact hother _ (subset_append_left _ _)
  | setNodeProperty id' property value =>
    simp only [collectNodeOp, Graph.apply, Graph.setNode]
    by_cases hid : id = id'
    · subst hid
      rw [update_self]
      exact (h.tracked id).setProperty (hold id) h.extended hwatch property value
    · rw [update_of_ne hid]
      exact hother _ (subset_append_left _ _)
  | deleteNode id' =>
    simp only [collectNodeOp, Graph.apply, Graph.setNode]
    by_cases hid : id = id'
    · subst hid
      rw [update_self]
      exact (h.tracked id).delete hwatch
    · rw [update_of_ne hid]
      exact hother _ (subset_append_left _ _)
  | _ => exact hother _ (Subset.refl _)

/-- Elements inside a scope, before or now, are what they were. -/
def Unchanged {E : Type*} (old new : ℕ → Option E) (oldScope newScope : E → Prop) : Prop :=
  ∀ id, (∃ e, old id = some e ∧ oldScope e) ∨ (∃ e, new id = some e ∧ newScope e) → new id = old id

open IndexedNodeReadInvalidations in
lemma nodes_unchanged_of_not_stamped (s : GraphState V) (ops : WalOps V)
    (hold : ∀ id node, s.store.nodeOwned id = some node → node.Named s.catalog)
    (hwatch : s.catalog.Watches key) (hfresh : ∀ op ∈ ops.toList, op.isFresh s.store)
    (hstamped : ¬Stamped (collectNodeReadInvalidations (new s.catalog) s.store ops) key) :
    Unchanged s.store.nodeOwned (s.applyWalOps ops).store.nodeOwned
      (fun node => node.InScope s.catalog key)
      (fun node => node.InScope (s.applyWalOps ops).catalog key) := by
  have hrun : CollectsNodes s.store s.catalog key (s.applyWalOps ops)
      (ops.foldl (collectNodeOp (new s.catalog) s.store) ⟨.empty, []⟩) := by
    unfold GraphState.applyWalOps
    rw [WalOps.foldl_eq_foldl_toList, WalOps.foldl_eq_foldl_toList]
    exact foldl_rel (r := CollectsNodes s.store s.catalog key)
      ⟨.refl _, fun id => .inl rfl⟩ fun op hop s' c h => h.step hold hwatch (hfresh op hop)
  intro id hscope
  have htracked := hrun.tracked id
  rcases hcreated : (ops.foldl (collectNodeOp (new s.catalog) s.store) ⟨.empty, []⟩).created.get id
    with _ | label
  · rw [hcreated] at htracked
    rcases htracked with heq | ⟨hleft, hcur⟩
    · exact heq
    · rcases hscope with ⟨node, hnode, hscope⟩ | ⟨node, hnode, hscope⟩
      · exact absurd (hleft node hnode hscope) hstamped
      · exact absurd ((hcur node hnode).2 hscope) hstamped
  · rw [hcreated] at htracked
    rcases hscope with ⟨node, hnode, -⟩ | ⟨node, hnode, hscope⟩
    · rw [htracked.1] at hnode
      cases hnode
    · exact absurd ((htracked.2 node hnode).2 hscope) hstamped

end

section

variable {V : Type*} [Ord V]

def RelRecord.Named (catalog : Catalog) (rel : RelRecord V) : Prop :=
  ∃ kind, catalog.relTypeName rel.relType = some kind

def KindStamped (stamps : List (VersionKey V)) (kind : String) : Prop :=
  .readRelationshipDomain none ∈ stamps ∧ .readRelationshipDomain (some kind) ∈ stamps

variable {before now later : Catalog} {key : VersionKey V} {stamps stamps' : List (VersionKey V)}
  {kind : String}

omit [Ord V] in
lemma KindStamped.mono (h : KindStamped stamps kind) (hsub : stamps ⊆ stamps') :
    KindStamped stamps' kind :=
  ⟨hsub h.1, hsub h.2⟩

lemma KindStamped.stamped [Std.TransOrd V] (h : KindStamped stamps kind) {rel : RelRecord V}
    (hkind : now.relTypeName rel.relType = some kind) (hscope : rel.InScope now key) :
    Stamped stamps key := by
  cases key with
  | readRelationshipDomain kind' =>
    cases kind' with
    | none => exact stamped_of_mem h.1
    | some kind' =>
      cases hkind.symm.trans hscope
      exact stamped_of_mem h.2
  | _ => exact hscope.elim

omit [Ord V] in
lemma RelRecord.inScope_extends {rel : RelRecord V} (hnamed : rel.Named now)
    (hext : now.Extends later) : rel.InScope later key ↔ rel.InScope now key := by
  cases key with
  | readRelationshipDomain kind =>
    cases kind with
    | none => exact Iff.rfl
    | some kind =>
      refine ⟨fun h => ?_, hext.relTypeName⟩
      obtain ⟨kind', hkind⟩ := hnamed
      exact hkind.trans ((hext.relTypeName hkind).symm.trans h)
  | _ => exact Iff.rfl

/-- What is known of a relationship within a batch, by the type it was created with if the batch
created it, the record before the batch and the record now. -/
def RelTracked (before now : Catalog) (stamps : List (VersionKey V))
    (created : Option String) (old cur : Option (RelRecord V)) : Prop :=
  match created with
  | some kind =>
    old = none ∧ KindStamped stamps kind ∧
      ∀ rel, cur = some rel → now.relTypeName rel.relType = some kind
  | none =>
    cur = old ∨ ∃ rel kind, old = some rel ∧ before.relTypeName rel.relType = some kind ∧
      KindStamped stamps kind ∧ ∀ rel', cur = some rel' → rel'.relType = rel.relType

omit [Ord V] in
lemma RelTracked.mono (h : RelTracked before now stamps created old cur)
    (hlater : now.Extends later) (hsub : stamps ⊆ stamps') :
    RelTracked before later stamps' created old cur := by
  cases created with
  | some kind =>
    exact ⟨h.1, h.2.1.mono hsub, fun rel hrel => hlater.relTypeName (h.2.2 rel hrel)⟩
  | none =>
    refine h.imp_right ?_
    rintro ⟨rel, kind, hrel, hkind, hstamped, hcur⟩
    exact ⟨rel, kind, hrel, hkind, hstamped.mono hsub, hcur⟩

omit [Ord V] in
lemma RelTracked.write (h : RelTracked before now stamps created old cur)
    (hkind : created = some kind ∨
      created = none ∧ ∃ rel, old = some rel ∧ before.relTypeName rel.relType = some kind)
    (hstamped : KindStamped stamps kind)
    (hcur' : ∀ rel', cur' = some rel' → ∃ rel, cur = some rel ∧ rel'.relType = rel.relType) :
    RelTracked before now stamps created old cur' := by
  rcases hkind with rfl | ⟨rfl, rel, rfl, hkind⟩
  · refine ⟨h.1, h.2.1, fun rel' hrel' => ?_⟩
    obtain ⟨rel, hrel, htype⟩ := hcur' rel' hrel'
    rw [htype]
    exact h.2.2 rel hrel
  · refine .inr ⟨rel, kind, rfl, hkind, hstamped, fun rel' hrel' => ?_⟩
    obtain ⟨cur, rfl, htype⟩ := hcur' rel' hrel'
    rw [htype]
    rcases h with heq | ⟨rel₀, kind₀, hrel₀, -, -, hcur⟩
    · cases heq
      rfl
    · cases hrel₀
      exact hcur cur rfl

namespace RelCollector

def Stamps (c : RelCollector V) : Prop := ∀ kind, c.lastKind = some kind → KindStamped c.stamps kind

variable [TypeSizes] {c c' : RelCollector V}

omit [Ord V] in
lemma stamp_spec (hc : c.Stamps) (h : c.stamp kind = (c', true)) :
    c'.created = c.created ∧ c.stamps ⊆ c'.stamps ∧ c'.Stamps ∧ KindStamped c'.stamps kind := by
  unfold stamp at h
  split_ifs at h with hlast
  · cases h
    exact ⟨rfl, Subset.refl _, hc, hc kind hlast⟩
  split at h
  · cases congrArg Prod.snd h
  rename_i hadmit
  cases h
  obtain ⟨rfl, -⟩ := Prod.mk.inj hadmit
  have hkind : KindStamped (c.stamps ++
      [.readRelationshipDomain none, .readRelationshipDomain (some kind)]) kind := by
    constructor <;> simp
  refine ⟨rfl, subset_append_left _ _, fun kind' hkind' => ?_, hkind⟩
  cases hkind'
  exact hkind

omit [TypeSizes] in
lemma existingKind_spec {store : GraphStore V} {id : ℕ}
    (h : c.existingKind store before id = .ok (some kind)) :
    c.created.get id = some kind ∨ c.created.get id = none ∧
      ∃ rel, store.relationshipOwned id = some rel ∧ before.relTypeName rel.relType = some kind := by
  unfold existingKind at h
  rcases hcreated : c.created.get id with _ | kind'
  · rw [hcreated] at h
    refine .inr ⟨rfl, ?_⟩
    unfold GraphStore.relationshipOwned
    dsimp only at h
    split_ifs at h ⊢
    · cases h
    split at h
    · cases h
    rename_i rel hrel
    rcases hname : before.relTypeName rel.relType with _ | name
    · rw [hname] at h
      cases h
    · rw [hname] at h
      cases h
      exact ⟨rel, hrel, hname⟩
  · rw [hcreated] at h
    cases h
    exact .inl rfl

/-- What is known within a batch: the state, and what the collector has gathered so far. -/
structure Collects (store : GraphStore V) (before : Catalog) (s : GraphState V)
    (c : RelCollector V) : Prop where
  stamps : c.Stamps
  tracked : ∀ id, RelTracked before s.catalog c.stamps (c.created.get id)
    (store.relationshipOwned id) (s.store.relationshipOwned id)

omit [TypeSizes] in
lemma Collects.visit (h : Collects store before s c)
    (hvisit : c.visit = (c', true)) : Collects store before s c' := by
  obtain ⟨rfl, -⟩ := Prod.mk.inj hvisit
  exact ⟨h.stamps, h.tracked⟩

lemma Collects.write {store : GraphStore V} {s : GraphState V} {id : ℕ}
    (h : Collects store before s c) (s' : GraphState V) (hwrite : c.collectWrite store before id = .ok (c', true))
    (hcatalog : s.catalog = s'.catalog)
    (hother : ∀ id', id' ≠ id → s'.store.relationshipOwned id' = s.store.relationshipOwned id')
    (hid : ∀ rel', s'.store.relationshipOwned id = some rel' →
      ∃ rel, s.store.relationshipOwned id = some rel ∧ rel'.relType = rel.relType) :
    Collects store before s' c' := by
  unfold collectWrite at hwrite
  split at hwrite
  · cases hwrite
  rename_i c₁ hvisit
  have h₁ := h.visit hvisit
  rcases hkind : c₁.existingKind store before id with e | _ | kind
  · rw [hkind] at hwrite
    cases hwrite
  · rw [hkind] at hwrite
    cases hwrite
  · rw [hkind] at hwrite
    obtain ⟨hcreated, hsub, hstamps, hstamped⟩ := stamp_spec h₁.stamps (Except.ok.inj hwrite)
    refine ⟨hstamps, fun id' => ?_⟩
    have htracked := (h₁.tracked id').mono (.refl _) hsub
    rw [hcatalog] at htracked
    rw [hcreated]
    by_cases heq : id' = id
    · subst heq
      exact htracked.write (existingKind_spec hkind) hstamped hid
    · rw [hother id' heq]
      exact htracked

lemma Collects.op {s : GraphState V} {op : WalOp V}
    (h : Collects store before s c) (hop : c.collectOp store before op = .ok (c', true))
    (hfresh : op.isFresh store) : Collects store before (s.applyWalOp op) c' := by
  have hgraph : (s.applyWalOp op).store.relationshipOwned =
      (s.store.graph.apply s.catalog op).rel := congrArg Graph.rel (s.graph_applyWalOp op)
  have hsame : c = c' → (s.store.graph.apply s.catalog op).rel = s.store.relationshipOwned →
      Collects store before (s.applyWalOp op) c' := by
    rintro rfl heq
    refine ⟨h.stamps, fun id => ?_⟩
    rw [hgraph, heq]
    exact (h.tracked id).mono (s.extends_applyWalOp op) (Subset.refl _)
  cases op with
  | createRelationship id source target relType properties =>
    have hcreate := Except.ok.inj hop
    unfold collectCreate admitBytes at hcreate
    split at hcreate
    · cases congrArg Prod.snd hcreate
    rename_i c₁ hadmit
    obtain ⟨rfl, -⟩ := Prod.mk.inj hadmit
    split at hcreate
    · cases congrArg Prod.snd hcreate
    rename_i c₂ hstamp
    cases hcreate
    have hc₁ : Stamps { c with bytes := satAdd c.bytes (8 + 16 + 3 * 8) } := h.stamps
    obtain ⟨hcreated, hsub, hstamps, hstamped⟩ := stamp_spec hc₁ hstamp
    refine ⟨hstamps, fun id' => ?_⟩
    rw [hgraph]
    simp only [Graph.apply, Graph.setRel, OrdMap.get_insert_eq]
    by_cases hid : id' = id
    · subst hid
      rw [if_pos rfl, update_self]
      refine ⟨isNone_iff_eq_none.1 hfresh, hstamped, fun rel hrel => ?_⟩
      cases hrel
      exact SymbolTable.nameOf_getOrCreate relType
    · rw [if_neg hid, update_of_ne hid, hcreated]
      exact (h.tracked id').mono (s.extends_applyWalOp _) hsub
  | setRelationshipProperty id | deleteRelationship id =>
    refine h.write (s.applyWalOp _) hop rfl (fun id' hid => ?_) fun rel' hrel' => ?_
    · rw [hgraph]
      exact update_of_ne hid _ _
    · rw [hgraph] at hrel'
      simp only [Graph.apply, Graph.setRel, update_self] at hrel'
      first
      | cases hrel'
      | obtain ⟨rel, hrel, rfl⟩ := map_eq_some_iff.1 hrel'
        exact ⟨rel, hrel, rfl⟩
  | _ => exact hsame (Prod.mk.inj (Except.ok.inj hop)).1 rfl

lemma Collects.collect : ∀ ops {depth}
    {c c' : RelCollector V} {s : GraphState V}, Collects store before s c →
      RelCollector.collect store before ops depth c = .ok (c', true) →
      (∀ op ∈ ops.toList, op.isFresh store) → Collects store before (s.applyWalOps ops) c'
  | .nil, _, _, _, _, h, hcollect, _ => by
    cases hcollect
    exact h
  | .op op rest, depth, c, c', s, h, hcollect, hfresh => by
    unfold RelCollector.collect at hcollect
    split at hcollect
    · cases hcollect
    rename_i c₁ hvisit
    rcases hop : c₁.collectOp store before op with e | ⟨c₂, _ | _⟩
    · rw [hop] at hcollect
      cases hcollect
    · rw [hop] at hcollect
      cases hcollect
    · rw [hop] at hcollect
      exact Collects.collect rest
        ((h.visit hvisit).op hop (hfresh op mem_cons_self)) hcollect
        fun o ho => hfresh o (mem_cons_of_mem _ ho)
  | .batch ops rest, depth, c, c', s, h, hcollect, hfresh => by
    unfold RelCollector.collect at hcollect
    split at hcollect
    · cases hcollect
    rename_i c₁ hvisit
    split_ifs at hcollect
    · cases hcollect
    rcases hops : RelCollector.collect store before ops (depth + 1) c₁ with e | ⟨c₂, _ | _⟩
    · rw [hops] at hcollect
      cases hcollect
    · rw [hops] at hcollect
      cases hcollect
    · rw [hops] at hcollect
      have hinner := Collects.collect ops (h.visit hvisit) hops fun o ho =>
        hfresh o (mem_append_left _ ho)
      exact Collects.collect rest hinner hcollect fun o ho =>
        hfresh o (mem_append_right _ ho)

end RelCollector

lemma rels_unchanged_of_not_stamped [Std.TransOrd V] [TypeSizes] (s : GraphState V)
    (ops : WalOps V) {writes : VersionWriteSet V} (hdatabase : writes.containsKey .database = false)
    (hfresh : ∀ op ∈ ops.toList, op.isFresh s.store)
    (hcollect : s.store.relationshipReadInvalidations s.catalog ops writes = .ok stamps)
    (hstamped : ¬Stamped stamps key) :
    Unchanged s.store.relationshipOwned (s.applyWalOps ops).store.relationshipOwned
      (fun rel => rel.InScope s.catalog key)
      (fun rel => rel.InScope (s.applyWalOps ops).catalog key) := by
  unfold GraphStore.relationshipReadInvalidations at hcollect
  rw [hdatabase] at hcollect
  split at hcollect
  · rename_i h
    cases h
  split at hcollect
  · cases hcollect
  · rename_i c hc
    cases hcollect
    have hstart : RelCollector.Collects s.store s.catalog s ⟨.empty, none, 0, 0, []⟩ :=
      ⟨nofun, fun _ => Or.inl rfl⟩
    have hrun := hstart.collect ops hc hfresh
    intro id hscope
    have htracked := hrun.tracked id
    rcases hcreated : c.created.get id with _ | kind
    · rw [hcreated] at htracked
      rcases htracked with heq | ⟨rel, kind, hrel, hkind, hkinds, hcur⟩
      · exact heq
      refine absurd ?_ hstamped
      rcases hscope with ⟨rel', hrel', hscope⟩ | ⟨rel', hrel', hscope⟩
      · rw [hrel] at hrel'
        cases hrel'
        exact hkinds.stamped hkind hscope
      · refine hkinds.stamped ?_ hscope
        rw [hcur rel' hrel']
        exact (s.extends_applyWalOps ops).relTypeName hkind
    · rw [hcreated] at htracked
      obtain ⟨hnone, hkinds, hcur⟩ := htracked
      rcases hscope with ⟨rel', hrel', -⟩ | ⟨rel', hrel', hscope⟩
      · rw [hnone] at hrel'
        cases hrel'
      · exact absurd (hkinds.stamped (hcur rel' hrel') hscope) hstamped
  · cases hcollect
    exact absurd (stamped_of_barrier (mem_append_right _ mem_cons_self)) hstamped

end

end HawDB
