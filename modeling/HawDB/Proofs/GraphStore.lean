import HawDB.GraphStore
import HawDB.Overlay

/-!
# The graph a store shows

What a reader sees of a store is a graph: its nodes and relationships by identifier, whether held
in the store or read from the base. Every log operation changes it as one would expect of a graph
without a base (`GraphState.graph_applyWalOp`), and only adds to the catalog
(`GraphState.extends_applyWalOps`).
-/

namespace HawDB

open List SymbolTable

namespace SymbolTable

variable {table : SymbolTable}

lemma idOf_eq_some_iff {id : ℕ} : table.idOf name = some id ↔ table.nameOf id = some name := by
  unfold idOf nameOf
  constructor
  · intro h
    split_ifs at h with hmem
    cases h
    exact List.getElem?_idxOf hmem
  · intro h
    obtain ⟨hid, rfl⟩ := List.getElem?_eq_some_iff.1 h
    rw [if_pos (getElem_mem hid), table.nodup.idxOf_getElem]

lemma nameOf_mono {later : SymbolTable} (h : table.names <+: later.names)
    {id : ℕ} (hn : table.nameOf id = some name) : later.nameOf id = some name := by
  obtain ⟨added, hadded⟩ := h
  unfold nameOf at hn ⊢
  rw [← hadded, List.getElem?_append_left (List.getElem?_eq_some_iff.1 hn).1, hn]

lemma names_getOrCreate (name : String) : table.names <+: (table.getOrCreate name).1.names := by
  unfold getOrCreate
  split_ifs
  · exact prefix_rfl
  · exact prefix_append _ _

lemma nameOf_getOrCreate (name : String) :
    (table.getOrCreate name).1.nameOf (table.getOrCreate name).2 = some name := by
  unfold getOrCreate nameOf
  split_ifs with h
  · exact getElem?_idxOf h
  · simp

end SymbolTable

namespace Catalog

/-- A later catalog has everything where it was. -/
structure Extends (catalog later : Catalog) : Prop where
  labels : catalog.labels.names <+: later.labels.names
  relTypes : catalog.relTypes.names <+: later.relTypes.names
  propertyIndexes : catalog.propertyIndexes <+: later.propertyIndexes

lemma isExtendedBy_iff {catalog later : Catalog} :
    catalog.isExtendedBy later = true ↔ catalog.Extends later := by
  simp only [isExtendedBy, Bool.and_eq_true, isPrefixOf_iff_prefix]
  exact ⟨fun h => ⟨h.1.1, h.1.2, h.2⟩, fun h => ⟨⟨h.labels, h.relTypes⟩, h.propertyIndexes⟩⟩

namespace Extends

variable {c c' c'' : Catalog}

lemma refl (c : Catalog) : c.Extends c := ⟨prefix_rfl, prefix_rfl, prefix_rfl⟩

lemma trans (h : c.Extends c') (h' : c'.Extends c'') : c.Extends c'' :=
  ⟨h.labels.trans h'.labels, h.relTypes.trans h'.relTypes,
    h.propertyIndexes.trans h'.propertyIndexes⟩

lemma labelName (h : c.Extends c') {id : ℕ} {name : String} (hn : c.labelName id = some name) :
    c'.labelName id = some name :=
  nameOf_mono h.labels hn

lemma relTypeName (h : c.Extends c') {id : ℕ} {name : String}
    (hn : c.relTypeName id = some name) : c'.relTypeName id = some name :=
  nameOf_mono h.relTypes hn

lemma labelId (h : c.Extends c') {id : ℕ} {name : String} (hn : c.labelId name = some id) :
    c'.labelId name = some id :=
  idOf_eq_some_iff.2 (h.labelName (idOf_eq_some_iff.1 hn))

lemma namedPropertyIndexes (h : c.Extends c')
    (hi : index ∈ c.namedPropertyIndexes) : index ∈ c'.namedPropertyIndexes := by
  have hmem := mem_filter.1 hi
  exact mem_filter.2 ⟨h.propertyIndexes.subset hmem.1, hmem.2⟩

end Extends

variable (catalog : Catalog)

lemma extends_getOrCreateLabel (name : String) :
    catalog.Extends (catalog.getOrCreateLabel name).1 :=
  ⟨names_getOrCreate name, prefix_rfl, prefix_rfl⟩

lemma extends_getOrCreateRelType (name : String) :
    catalog.Extends (catalog.getOrCreateRelType name).1 :=
  ⟨prefix_rfl, names_getOrCreate name, prefix_rfl⟩

lemma extends_getOrCreatePropertyIndexWithKind (labelId : ℕ) (property : String)
    (kind : IndexKind) :
    catalog.Extends (catalog.getOrCreatePropertyIndexWithKind labelId property kind) := by
  unfold getOrCreatePropertyIndexWithKind
  split_ifs
  · exact .refl catalog
  · exact ⟨prefix_rfl, prefix_rfl, prefix_append _ _⟩

lemma extends_applySchemaOp (op : SchemaOp) : catalog.Extends (catalog.applySchemaOp op) := by
  cases op with
  | createPropertyIndex label property kind =>
    exact (catalog.extends_getOrCreateLabel label).trans
      (extends_getOrCreatePropertyIndexWithKind _ _ _ _)
  | alterOrGcDescriptor => exact .refl catalog
  | createRelationshipType relType | createRelationshipTable relType
  | createRelationshipProperty relType | createRelationshipConstraint relType =>
    exact catalog.extends_getOrCreateRelType relType
  | createNodeLabel label | createNodeTable label | createNodeProperty label
  | createCompositeIndex label | createNodeConstraint label =>
    exact catalog.extends_getOrCreateLabel label

end Catalog

/-- What a reader sees: the nodes and relationships by identifier. -/
@[ext]
structure Graph (V : Type*) where
  node : ℕ → Option (NodeRecord V)
  rel : ℕ → Option (RelRecord V)

def NodeRecord.setProperty {V : Type*} (property : String) (value : V) (node : NodeRecord V) :
    NodeRecord V :=
  { node with properties := node.properties.insert property value }

def RelRecord.setProperty {V : Type*} (property : String) (value : V) (rel : RelRecord V) :
    RelRecord V :=
  { rel with properties := rel.properties.insert property value }

namespace Graph

variable {V : Type*} (g : Graph V)

def setNode (id : ℕ) (node : Option (NodeRecord V)) : Graph V :=
  ⟨Function.update g.node id node, g.rel⟩

def setRel (id : ℕ) (rel : Option (RelRecord V)) : Graph V :=
  ⟨g.node, Function.update g.rel id rel⟩

def apply (catalog : Catalog) : WalOp V → Graph V
  | .createNode id label properties =>
    g.setNode id (some ⟨[(catalog.getOrCreateLabel label).2], properties⟩)
  | .setNodeProperty id property value =>
    g.setNode id ((g.node id).map (NodeRecord.setProperty property value))
  | .deleteNode id => g.setNode id none
  | .createRelationship id source target relType properties =>
    g.setRel id (some ⟨source, target, (catalog.getOrCreateRelType relType).2, properties⟩)
  | .setRelationshipProperty id property value =>
    g.setRel id ((g.rel id).map (RelRecord.setProperty property value))
  | .deleteRelationship id => g.setRel id none
  | .schema _ | .projectOrMark => g

end Graph

namespace GraphStore

variable {V : Type*} [Ord V] (store : GraphStore V)

def graph : Graph V := ⟨store.nodeOwned, store.relationshipOwned⟩

lemma materialize_spec (id : ℕ) :
    (∃ nodes, store.materializeNodeForWrite id = { store with nodes } ∧
      overlayGet store.nodeTombstones nodes store.baseNode = store.nodeOwned ∧
      (id ∈ store.nodeTombstones ∨ (nodes.get id).isSome = true ∨ store.baseNode id = none)) ∧
    ∃ relationships, store.materializeRelationshipForWrite id = { store with relationships } ∧
      overlayGet store.relationshipTombstones relationships store.baseRelationship =
        store.relationshipOwned ∧
      (id ∈ store.relationshipTombstones ∨ (relationships.get id).isSome = true ∨
        store.baseRelationship id = none) := by
  unfold materializeNodeForWrite materializeRelationshipForWrite
  constructor
  all_goals
    split_ifs with htomb hsome
    · exact ⟨_, rfl, rfl, .inl htomb⟩
    · exact ⟨_, rfl, rfl, .inr (.inl hsome)⟩
    split
    · exact ⟨_, rfl, rfl, .inr (.inr ‹_›)⟩
    · rename_i hbase
      refine ⟨_, rfl, overlayGet_copy (Option.not_isSome_iff_eq_none.1 hsome) hbase, .inr (.inl ?_)⟩
      rw [OrdMap.get_insert_eq, if_pos rfl]
      rfl

end GraphStore

namespace GraphState

variable {V : Type*} [Ord V] (s : GraphState V)

lemma graph_applyWalOp (op : WalOp V) :
    (s.applyWalOp op).store.graph = s.store.graph.apply s.catalog op := by
  cases op with
  | createNode id label properties =>
    refine Graph.ext ?_ rfl
    exact overlayGet_insert s.store.nodeTombstones
  | createRelationship id source target relType properties =>
    refine Graph.ext rfl ?_
    exact overlayGet_insert s.store.relationshipTombstones
  | setNodeProperty id property value =>
    obtain ⟨nodes, heq, hget, hheld⟩ := (s.store.materialize_spec id).1
    simp only [applyWalOp, heq]
    refine Graph.ext ((overlayGet_update (NodeRecord.setProperty property value) hheld).trans ?_) rfl
    rw [hget]
    rfl
  | setRelationshipProperty id property value =>
    obtain ⟨relationships, heq, hget, hheld⟩ := (s.store.materialize_spec id).2
    simp only [applyWalOp, heq]
    refine Graph.ext rfl ((overlayGet_update (RelRecord.setProperty property value) hheld).trans ?_)
    rw [hget]
    rfl
  | deleteNode id =>
    obtain ⟨nodes, heq, hget, -⟩ := (s.store.materialize_spec id).1
    simp only [applyWalOp, heq]
    refine Graph.ext ((overlayGet_remove s.store.nodeTombstones).trans ?_) rfl
    rw [hget]
    rfl
  | deleteRelationship id =>
    obtain ⟨relationships, heq, hget, -⟩ := (s.store.materialize_spec id).2
    simp only [applyWalOp, heq]
    refine Graph.ext rfl ((overlayGet_remove s.store.relationshipTombstones).trans ?_)
    rw [hget]
    rfl
  | schema op => rfl
  | projectOrMark => rfl

lemma extends_applyWalOp (op : WalOp V) : s.catalog.Extends (s.applyWalOp op).catalog := by
  cases op with
  | createNode id label properties => exact s.catalog.extends_getOrCreateLabel label
  | createRelationship id source target relType properties =>
    exact s.catalog.extends_getOrCreateRelType relType
  | schema op => exact s.catalog.extends_applySchemaOp op
  | _ => exact .refl _

lemma extends_applyWalOps (ops : WalOps V) : s.catalog.Extends (s.applyWalOps ops).catalog :=
  WalOps.foldl_induction (fun s' : GraphState V => s.catalog.Extends s'.catalog) (.refl _)
    fun s' h op _ => h.trans (s'.extends_applyWalOp op)

lemma applyWalOps_congr {s t : GraphState V} (hgraph : s.store.graph = t.store.graph)
    (hcatalog : s.catalog = t.catalog) (ops : WalOps V) :
    (s.applyWalOps ops).store.graph = (t.applyWalOps ops).store.graph ∧
      (s.applyWalOps ops).catalog = (t.applyWalOps ops).catalog := by
  unfold applyWalOps
  rw [WalOps.foldl_eq_foldl_toList, WalOps.foldl_eq_foldl_toList]
  refine foldl_rel (r := fun s t : GraphState V =>
    s.store.graph = t.store.graph ∧ s.catalog = t.catalog) ⟨hgraph, hcatalog⟩ ?_
  rintro op - s t ⟨hgraph, hcatalog⟩
  refine ⟨by rw [graph_applyWalOp, graph_applyWalOp, hgraph, hcatalog], ?_⟩
  cases op <;> simp only [applyWalOp, hcatalog]

lemma applyWalOps_store (ops : WalOps V) : (s.applyWalOps ops).store.versions = s.store.versions ∧
      (s.applyWalOps ops).store.versionSnapshotPin = s.store.versionSnapshotPin ∧
      (s.applyWalOps ops).store.readersId = s.store.readersId ∧
      (s.applyWalOps ops).store.readDependencyReaders = s.store.readDependencyReaders := by
  refine WalOps.foldl_induction (fun s' : GraphState V => s'.store.versions = s.store.versions ∧
    s'.store.versionSnapshotPin = s.store.versionSnapshotPin ∧
    s'.store.readersId = s.store.readersId ∧
    s'.store.readDependencyReaders = s.store.readDependencyReaders) ⟨rfl, rfl, rfl, rfl⟩
    fun s' h op _ => ?_
  cases op with
  | setNodeProperty id property value | deleteNode id =>
    obtain ⟨nodes, heq, -⟩ := (s'.store.materialize_spec id).1
    simp only [applyWalOp, heq]
    exact h
  | setRelationshipProperty id property value | deleteRelationship id =>
    obtain ⟨relationships, heq, -⟩ := (s'.store.materialize_spec id).2
    simp only [applyWalOp, heq]
    exact h
  | _ => exact h

end GraphState

end HawDB
