import HawDB.GraphStore

/-!
# Read invalidation summaries of graph commits

While a reader has captured dependencies, a commit also stamps the read scopes its batch may change:
the node and relationship domains, and the exact keys of the declared scalar indexes. What cannot be
told within bounds is stamped with the read barrier.
-/

namespace HawDB

def maxIndexDescriptors : ℕ := 1024

/-- The bound on the metadata either collector owns. -/
def maxMetadataBytes : ℕ := 64 * 1024

/-- The scalar indexes a node write is checked against, unless there are too many. -/
structure IndexedNodeReadInvalidations where
  catalog : Catalog
  indexes : List IndexDescriptor
  requiredProperties : List String
  qualified : Bool

namespace IndexedNodeReadInvalidations

variable {V : Type*} [Ord V] [CowPageWeight V] [GraphValue V] [TypeSizes]

section

/-- The loop of `new` over the declared indexes, from a position and with the bytes so far. -/
def newLoop : List IndexDescriptor → ℕ → ℕ → IndexedNodeReadInvalidations →
    IndexedNodeReadInvalidations
  | [], _, _, result => result
  | index :: rest, position, bytes, result =>
    if maxIndexDescriptors ≤ position then { result with qualified := false }
    else if index.kind = .fullText then newLoop rest (position + 1) bytes result
    else if index.property ∈ result.requiredProperties then
      newLoop rest (position + 1) bytes { result with indexes := result.indexes ++ [index] }
    else
      let bytes := satAdd (satAdd bytes (utf8 index.property).length) (TypeSizes.string + 4 * 8)
      if maxMetadataBytes < bytes then { result with qualified := false }
      else
        newLoop rest (position + 1) bytes
          { result with
            indexes := result.indexes ++ [index]
            requiredProperties := result.requiredProperties ++ [index.property] }

def new (catalog : Catalog) : IndexedNodeReadInvalidations :=
  newLoop catalog.namedPropertyIndexes 0 0 ⟨catalog, [], [], true⟩

end

def recordKey (label property : String) (value : V) : List (VersionKey V) :=
  (nodePropertyReadKey label property value).toList

/-- The exact keys of one index for a node that has some properties or gets one. -/
def recordIndex (label : String) (properties : Option (OrdMap String V))
    (changed : Option (String × V)) (index : IndexDescriptor) : List (VersionKey V) :=
  (match properties.bind fun properties => properties.get index.property with
    | some value => recordKey label index.property value
    | none => []) ++
  match changed.filter fun change => change.1 = index.property with
  | some (property, value) => recordKey label property value
  | none => []

def recordLabel (indexes : IndexedNodeReadInvalidations) (label : String)
    (properties : Option (OrdMap String V)) (changed : Option (String × V)) :
    List (VersionKey V) :=
  .readNodeDomain (some label) ::
    if !indexes.qualified then [.readBarrier]
    else
      match indexes.catalog.labelId label with
      | none => [.readBarrier]
      | some labelId =>
        (indexes.indexes.filter fun index => index.labelId = labelId).flatMap
          (recordIndex label properties changed)

def recordNode (indexes : IndexedNodeReadInvalidations) (labels : List ℕ)
    (properties : OrdMap String V) (changed : Option (String × V)) : List (VersionKey V) :=
  labels.flatMap fun label =>
    match indexes.catalog.labelName label with
    | some name => indexes.recordLabel name (some properties) changed
    | none => [.readBarrier]

/-- The indexed properties of a node of the base, unless it is too large. -/
def projectedBefore (indexes : IndexedNodeReadInvalidations) (store : GraphStore V) (id : ℕ) :
    Option (NodeRecord V) :=
  if !indexes.qualified then none
  else if id ∈ store.nodeTombstones then none
  else do
    let base ← store.canonicalBase
    let node ← base.nodes.get id
    if maxMetadataBytes < base.projectedBytes id indexes.requiredProperties then none
    else some { node with properties :=
      node.properties.filter fun e => decide (e.1 ∈ indexes.requiredProperties) }

end IndexedNodeReadInvalidations

section

variable {V : Type*}

/-- The nodes a batch has created so far with their label, and what is to be stamped. -/
structure NodeCollector (V : Type*) where
  created : OrdMap ℕ String
  stamps : List (VersionKey V)

variable [Ord V] [CowPageWeight V] [GraphValue V] [TypeSizes]

/-- The keys of a write to a node, by what the batch or the state before it says of the node. -/
def nodeWriteKeys (indexes : IndexedNodeReadInvalidations) (store : GraphStore V)
    (created : OrdMap ℕ String) (id : ℕ) (changed : Option (String × V)) : List (VersionKey V) :=
  match created.get id with
  | some label => indexes.recordLabel label none changed
  | none =>
    match store.nodes.get id with
    | some node => indexes.recordNode node.labels node.properties changed
    | none =>
      match indexes.projectedBefore store id with
      | some node => indexes.recordNode node.labels node.properties changed
      | none => [.readBarrier]

/-- `collect_node_read_invalidations` for one operation. -/
def collectNodeOp (indexes : IndexedNodeReadInvalidations) (store : GraphStore V)
    (c : NodeCollector V) : WalOp V → NodeCollector V
  | .createNode id label properties =>
    ⟨c.created.insert id label,
      c.stamps ++ .readNodeDomain none :: indexes.recordLabel label (some properties) none⟩
  | .setNodeProperty id property value =>
    { c with stamps := c.stamps ++
        .readNodeDomain none :: nodeWriteKeys indexes store c.created id (some (property, value)) }
  | .deleteNode id =>
    { c with stamps := c.stamps ++
        .readNodeDomain none :: nodeWriteKeys indexes store c.created id none }
  | _ => c

def collectNodeReadInvalidations (indexes : IndexedNodeReadInvalidations) (store : GraphStore V)
    (ops : WalOps V) : List (VersionKey V) :=
  (ops.foldl (collectNodeOp indexes store) ⟨.empty, []⟩).stamps

end

section

def maxWork : ℕ := 65536

def maxDepth : ℕ := 32

structure RelCollector (V : Type*) where
  created : OrdMap ℕ String
  lastKind : Option String
  work : ℕ
  bytes : ℕ
  stamps : List (VersionKey V)

namespace RelCollector

variable {V : Type*}

/-- Counts a step; the flag says whether it is within bounds. -/
def visit (c : RelCollector V) : RelCollector V × Bool :=
  ({ c with work := c.work + 1 }, c.work + 1 ≤ maxWork)

def admitBytes (c : RelCollector V) (bytes : ℕ) : RelCollector V × Bool :=
  ({ c with bytes := satAdd c.bytes bytes }, satAdd c.bytes bytes ≤ maxMetadataBytes)

variable [TypeSizes]

def stamp (c : RelCollector V) (kind : String) : RelCollector V × Bool :=
  if c.lastKind = some kind then (c, true)
  else
    match c.admitBytes (2 * TypeSizes.versionKey + 2 * TypeSizes.versionWrite + (utf8 kind).length) with
    | (c, false) => (c, false)
    | (c, true) =>
      ({ c with
        stamps := c.stamps ++ [.readRelationshipDomain none, .readRelationshipDomain (some kind)]
        lastKind := some kind }, true)

variable [Ord V]

/-- The type of a relationship a batch writes to. -/
def existingKind (c : RelCollector V) (store : GraphStore V) (catalog : Catalog) (id : ℕ) :
    Except HawDBError (Option String) :=
  match c.created.get id with
  | some kind => .ok (some kind)
  | none =>
    if id ∈ store.relationshipTombstones then .ok none
    else
      match (store.relationships.get id).or (store.baseRelationship id) with
      | none => .ok none
      | some rel =>
        match catalog.relTypeName rel.relType with
        | some name => .ok (some name)
        | none => .error (.storageIntegrity "relationship summary type is absent from catalog")

def collectCreate (c : RelCollector V) (id : ℕ) (relType : String) : RelCollector V × Bool :=
  match c.admitBytes (8 + 16 + 3 * 8) with
  | (c, false) => (c, false)
  | (c, true) =>
    match c.stamp relType with
    | (c, false) => (c, false)
    | (c, true) => ({ c with created := c.created.insert id relType }, true)

def collectWrite (c : RelCollector V) (store : GraphStore V) (catalog : Catalog) (id : ℕ) :
    Except HawDBError (RelCollector V × Bool) :=
  match c.visit with
  | (c, false) => .ok (c, false)
  | (c, true) =>
    match c.existingKind store catalog id with
    | .error e => .error e
    | .ok none => .ok (c, false)
    | .ok (some kind) => .ok (c.stamp kind)

def collectOp (c : RelCollector V) (store : GraphStore V) (catalog : Catalog) :
    WalOp V → Except HawDBError (RelCollector V × Bool)
  | .createRelationship id _ _ relType _ => .ok (c.collectCreate id relType)
  | .setRelationshipProperty id _ _ | .deleteRelationship id => c.collectWrite store catalog id
  | _ => .ok (c, true)

/-- `collect`, which stops with a flag when a bound is reached or a relationship is not known. -/
def collect (store : GraphStore V) (catalog : Catalog) : WalOps V → ℕ → RelCollector V →
    Except HawDBError (RelCollector V × Bool)
  | .nil, _, c => .ok (c, true)
  | .op op rest, depth, c =>
    match c.visit with
    | (c, false) => .ok (c, false)
    | (c, true) =>
      match c.collectOp store catalog op with
      | .error e => .error e
      | .ok (c, false) => .ok (c, false)
      | .ok (c, true) => collect store catalog rest depth c
  | .batch ops rest, depth, c =>
    match c.visit with
    | (c, false) => .ok (c, false)
    | (c, true) =>
      if maxDepth < depth + 1 then .ok (c, false)
      else
        match collect store catalog ops (depth + 1) c with
        | .error e => .error e
        | .ok (c, false) => .ok (c, false)
        | .ok (c, true) => collect store catalog rest depth c

end RelCollector

end

variable {V : Type*} [Ord V] [CowPageWeight V] [GraphValue V] [TypeSizes]

/-- `extend_relationship_read_invalidations`. A write set with the whole database needs none. -/
def GraphStore.relationshipReadInvalidations (store : GraphStore V) (catalog : Catalog)
    (ops : WalOps V) (writes : VersionWriteSet V) : Except HawDBError (List (VersionKey V)) :=
  if writes.containsKey .database then .ok []
  else
    match RelCollector.collect store catalog ops 0 ⟨.empty, none, 0, 0, []⟩ with
    | .error e => .error e
    | .ok (c, true) => .ok c.stamps
    | .ok (c, false) => .ok (c.stamps ++ [.readBarrier])

/-- `extend_read_invalidation_stamps`: what is to be stamped besides the write set, nothing while
nobody reads. -/
def GraphStore.readInvalidationStamps (store : GraphStore V) (catalog : Catalog) (ops : WalOps V)
    (writes : VersionWriteSet V) : Except HawDBError (List (VersionKey V)) :=
  if store.versionSnapshotPin.isSome || store.readDependencyReaders = 0 then .ok []
  else do
    let nodes := collectNodeReadInvalidations (.new catalog) store ops
    let relationships ← store.relationshipReadInvalidations catalog ops writes
    return nodes ++ relationships

end HawDB
