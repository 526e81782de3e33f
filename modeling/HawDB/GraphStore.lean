import HawDB.Catalog
import HawDB.VersionStore

/-!
# The graph store

A store keeps the nodes and relationships it has changed over an immutable canonical base, and
tombstones for the elements of the base it has deleted. Log operations are applied one by one; an
element of the base is first copied into the store when it is written.
-/

namespace HawDB

structure NodeRecord (V : Type*) where
  labels : List ℕ
  properties : OrdMap String V

structure RelRecord (V : Type*) where
  source : ℕ
  target : ℕ
  relType : ℕ
  properties : OrdMap String V

/-- The canonical segment a store reads what it does not hold itself from. -/
structure CanonicalBase (V : Type*) where
  nodes : OrdMap ℕ (NodeRecord V)
  relationships : OrdMap ℕ (RelRecord V)
  /-- The bytes a reader of some properties of a node would own. -/
  projectedBytes : ℕ → List String → ℕ

/-- Log operations on the schema. Only what they do to symbols and property indexes is kept. -/
inductive SchemaOp where
  | createNodeLabel (label : String)
  | createRelationshipType (relType : String)
  | createNodeTable (name : String)
  | createRelationshipTable (name : String)
  | createNodeProperty (table : String)
  | createRelationshipProperty (table : String)
  | createPropertyIndex (label property : String) (kind : IndexKind)
  | createCompositeIndex (label : String)
  | createNodeConstraint (label : String)
  | createRelationshipConstraint (relType : String)
  | alterOrGcDescriptor

/-- Log operations without the batches. -/
inductive WalOp (V : Type*) where
  | createNode (id : ℕ) (label : String) (properties : OrdMap String V)
  | setNodeProperty (id : ℕ) (property : String) (value : V)
  | deleteNode (id : ℕ)
  | createRelationship (id source target : ℕ) (relType : String) (properties : OrdMap String V)
  | setRelationshipProperty (id : ℕ) (property : String) (value : V)
  | deleteRelationship (id : ℕ)
  | schema (op : SchemaOp)
  /-- Projected graphs and import marks, which leave nodes and relationships alone. -/
  | projectOrMark

/-- A sequence of log operations, some of which are batches of operations again. -/
inductive WalOps (V : Type*) where
  | nil
  | op (op : WalOp V) (rest : WalOps V)
  | batch (ops rest : WalOps V)

namespace WalOps

variable {V : Type*}

def isEmpty : WalOps V → Bool
  | nil => true
  | _ => false

/-- The operations in the order in which they are applied. -/
def toList : WalOps V → List (WalOp V)
  | nil => []
  | op o rest => o :: rest.toList
  | batch ops rest => ops.toList ++ rest.toList

/-- A loop over the operations that enters the batches. -/
def foldl {σ : Type*} (f : σ → WalOp V → σ) : σ → WalOps V → σ
  | s, nil => s
  | s, op o rest => rest.foldl f (f s o)
  | s, batch ops rest => rest.foldl f (ops.foldl f s)

lemma foldl_eq_foldl_toList {σ : Type*} (f : σ → WalOp V → σ) : ∀ (s : σ) (ops : WalOps V),
    ops.foldl f s = ops.toList.foldl f s
  | _, nil => rfl
  | s, op o rest => foldl_eq_foldl_toList f (f s o) rest
  | s, batch ops rest => by
    rw [foldl, toList, List.foldl_append, foldl_eq_foldl_toList f s ops,
      foldl_eq_foldl_toList f _ rest]

/-- What holds at the start and is kept by every operation holds in the end. -/
theorem foldl_induction {σ : Type*} {f : σ → WalOp V → σ} {ops : WalOps V} {s : σ}
    (motive : σ → Prop) (start : motive s)
    (step : ∀ s, motive s → ∀ op ∈ ops.toList, motive (f s op)) : motive (ops.foldl f s) := by
  rw [foldl_eq_foldl_toList]
  exact List.foldlRecOn ops.toList f start step

end WalOps

/-- The store, as far as graph commits and captured reads go. A snapshot has a pin of its own; the
canonical store has none. -/
structure GraphStore (V : Type*) [Ord V] where
  versions : VersionStore V
  versionSnapshotPin : Option ℕ
  /-- Which counter of readers this is. -/
  readersId : ℕ
  readDependencyReaders : ℕ
  poisoned : Option HawDBError
  nodes : OrdMap ℕ (NodeRecord V)
  relationships : OrdMap ℕ (RelRecord V)
  nodeTombstones : Finset ℕ
  relationshipTombstones : Finset ℕ
  canonicalBase : Option (CanonicalBase V)

namespace GraphStore

variable {V : Type*} [Ord V]

def ensureUsable (store : GraphStore V) : Except HawDBError Unit :=
  match store.poisoned with
  | some e => .error e
  | none => .ok ()

section

def baseNode (store : GraphStore V) (id : ℕ) : Option (NodeRecord V) :=
  store.canonicalBase.bind fun base => base.nodes.get id

def baseRelationship (store : GraphStore V) (id : ℕ) : Option (RelRecord V) :=
  store.canonicalBase.bind fun base => base.relationships.get id

def nodeOwned (store : GraphStore V) (id : ℕ) : Option (NodeRecord V) :=
  if id ∈ store.nodeTombstones then none else (store.nodes.get id).or (store.baseNode id)

def relationshipOwned (store : GraphStore V) (id : ℕ) : Option (RelRecord V) :=
  if id ∈ store.relationshipTombstones then none
  else (store.relationships.get id).or (store.baseRelationship id)

def materializeNodeForWrite (store : GraphStore V) (id : ℕ) : GraphStore V :=
  if id ∈ store.nodeTombstones then store
  else if (store.nodes.get id).isSome then store
  else
    match store.baseNode id with
    | none => store
    | some node => { store with nodes := store.nodes.insert id node }

def materializeRelationshipForWrite (store : GraphStore V) (id : ℕ) : GraphStore V :=
  if id ∈ store.relationshipTombstones then store
  else if (store.relationships.get id).isSome then store
  else
    match store.baseRelationship id with
    | none => store
    | some rel => { store with relationships := store.relationships.insert id rel }

def applyCreateNode (store : GraphStore V) (id labelId : ℕ) (properties : OrdMap String V) :
    GraphStore V :=
  { store with
    nodeTombstones := store.nodeTombstones.erase id
    nodes := (store.nodes.remove id).insert id ⟨[labelId], properties⟩ }

def applyCreateRelationship (store : GraphStore V) (id source target relType : ℕ)
    (properties : OrdMap String V) : GraphStore V :=
  { store with
    relationshipTombstones := store.relationshipTombstones.erase id
    relationships := (store.relationships.remove id).insert id
      ⟨source, target, relType, properties⟩ }

def applySetNodeProperty (store : GraphStore V) (id : ℕ) (property : String) (value : V) :
    GraphStore V :=
  { store with nodes := store.nodes.update id fun node =>
      { node with properties := node.properties.insert property value } }

def applySetRelationshipProperty (store : GraphStore V) (id : ℕ) (property : String) (value : V) :
    GraphStore V :=
  { store with relationships := store.relationships.update id fun rel =>
      { rel with properties := rel.properties.insert property value } }

def applyDeleteNode (store : GraphStore V) (id : ℕ) : GraphStore V :=
  { store with nodes := store.nodes.remove id }

def applyDeleteRelationship (store : GraphStore V) (id : ℕ) : GraphStore V :=
  { store with relationships := store.relationships.remove id }

end

end GraphStore

/-- What a schema operation does to symbols and property indexes. -/
def Catalog.applySchemaOp (catalog : Catalog) : SchemaOp → Catalog
  | .createNodeLabel label | .createNodeTable label | .createNodeProperty label
  | .createCompositeIndex label | .createNodeConstraint label =>
    (catalog.getOrCreateLabel label).1
  | .createRelationshipType relType | .createRelationshipTable relType
  | .createRelationshipProperty relType | .createRelationshipConstraint relType =>
    (catalog.getOrCreateRelType relType).1
  | .createPropertyIndex label property kind =>
    let (catalog, labelId) := catalog.getOrCreateLabel label
    catalog.getOrCreatePropertyIndexWithKind labelId property kind
  | .alterOrGcDescriptor => catalog

/-- A store together with the catalog its identifiers refer to. -/
structure GraphState (V : Type*) [Ord V] where
  store : GraphStore V
  catalog : Catalog

namespace GraphState

variable {V : Type*} [Ord V]

def applyWalOp (s : GraphState V) : WalOp V → GraphState V
  | .createNode id label properties =>
    let (catalog, labelId) := s.catalog.getOrCreateLabel label
    ⟨s.store.applyCreateNode id labelId properties, catalog⟩
  | .createRelationship id source target relType properties =>
    let (catalog, relType) := s.catalog.getOrCreateRelType relType
    ⟨s.store.applyCreateRelationship id source target relType properties, catalog⟩
  | .setNodeProperty id property value =>
    let store := s.store.materializeNodeForWrite id
    { s with store := store.applySetNodeProperty id property value }
  | .setRelationshipProperty id property value =>
    let store := s.store.materializeRelationshipForWrite id
    { s with store := store.applySetRelationshipProperty id property value }
  | .deleteNode id =>
    let store := (s.store.materializeNodeForWrite id).applyDeleteNode id
    { s with store := { store with nodeTombstones :=
        if (s.store.baseNode id).isSome then insert id store.nodeTombstones
        else store.nodeTombstones } }
  | .deleteRelationship id =>
    let store := (s.store.materializeRelationshipForWrite id).applyDeleteRelationship id
    { s with store := { store with relationshipTombstones :=
        if (s.store.baseRelationship id).isSome then insert id store.relationshipTombstones
        else store.relationshipTombstones } }
  | .schema op => { s with catalog := s.catalog.applySchemaOp op }
  | .projectOrMark => s

def applyWalOps (s : GraphState V) (ops : WalOps V) : GraphState V := ops.foldl applyWalOp s

end GraphState

end HawDB
