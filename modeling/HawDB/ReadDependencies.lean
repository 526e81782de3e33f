import HawDB.GraphCommit

/-!
# Captured read dependencies

A reader of the canonical store registers the current epoch, records bounded keys of what it reads,
and later asks whether any of them has a stamp after that epoch. While it is registered, commits
stamp read summaries and keep the history back to its epoch.
-/

namespace HawDB

/-- What a reader has captured. It holds a registration of its epoch and one of the readers. -/
structure GraphReadDependencies (V : Type*) [Ord V] where
  sourceEpoch : ℕ
  keys : VersionWriteSet V
  refused : Bool
  readersId : ℕ

inductive GraphReadDependencyError (V : Type*) where
  | sourceChanged
  | captureRefused
  | conflict (conflict : VersionConflict V)
  | unavailable (error : HawDBError)

/-- The scope that protects a key already. -/
def VersionKey.coveringScope {V : Type*} : VersionKey V → Option (VersionKey V)
  | relationalRow table _ | readRelationalIndexPrefix table _ _ =>
    some (readRelationalTableDomain table)
  | readNodeProperty label _ _ => some (readNodeDomain (some label))
  | _ => none

namespace GraphReadDependencies

variable {V : Type*} [Ord V] [Std.TransOrd V] [CowPageWeight V] [TypeSizes]

/-- A key that is protected already is not recorded. A budget error refuses the capture for good. -/
def record (deps : GraphReadDependencies V) (key : VersionKey V) :
    GraphReadDependencies V × Except VersionWriteSetError Unit :=
  if !deps.refused && deps.keys.containsKey .database then (deps, .ok ())
  else if !deps.refused && key.coveringScope.any deps.keys.containsKey then (deps, .ok ())
  else
    match deps.keys.recordLive key with
    | .ok keys => ({ deps with keys }, .ok ())
    | .error e => ({ deps with refused := true }, .error e)

def recordAll (deps : GraphReadDependencies V) (keys : List (VersionKey V)) :
    GraphReadDependencies V :=
  keys.foldl (fun deps key => (deps.record key).1) deps

end GraphReadDependencies

namespace GraphStore

variable {V : Type*} [Ord V]

def captureReadDependencies (store : GraphStore V) (maxEntries maxBytes : ℕ) :
    Except HawDBError (GraphReadDependencies V × GraphStore V) :=
  match store.ensureUsable with
  | .error e => .error e
  | .ok () =>
    if store.versionSnapshotPin.isSome then
      .error (.execution "read dependencies must be captured from the canonical source")
    else
      match checkedAdd store.readDependencyReaders 1 with
      | none => .error (.execution "read dependency registration capacity exhausted")
      | some readers =>
        let epoch := store.versions.commitEpoch
        let pins := store.versions.versionSnapshotPins.pin epoch
        .ok (⟨epoch, .withLimits maxEntries maxBytes, false, store.readersId⟩,
          { store with
            readDependencyReaders := readers
            versions := { store.versions with versionSnapshotPins := pins } })

/-- `Drop` of what was captured at an epoch. -/
def dropReadDependencies (store : GraphStore V) (epoch : ℕ) : GraphStore V :=
  { store with
    readDependencyReaders := store.readDependencyReaders - 1
    versions := store.versions.dropSnapshot epoch }

/-- The keys that are looked up: those captured, then the barriers. -/
def validationKeys (captured : GraphReadDependencies V) : List (VersionKey V) :=
  captured.keys.keys ++ [.database, .schema] ++
    if captured.keys.keys.any VersionKey.isReadSummaryKey then [.readBarrier] else []

def validateReadDependencies (store : GraphStore V) (captured : GraphReadDependencies V) :
    Except (GraphReadDependencyError V) Unit :=
  match store.ensureUsable with
  | .error e => .error (.unavailable e)
  | .ok () =>
    let epoch := store.versions.commitEpoch
    if store.versionSnapshotPin.isSome || store.readersId != captured.readersId ||
        decide (epoch < captured.sourceEpoch) then
      .error .sourceChanged
    else if captured.refused then .error .captureRefused
    else if captured.keys.containsKey .database && epoch != captured.sourceEpoch then
      .error (.conflict ⟨.database, epoch⟩)
    else
      match (validationKeys captured).findSome? fun key =>
        (store.versions.versionIndex.stamp key).bind fun stamp =>
          if captured.sourceEpoch < stamp.commitEpoch then
            some (⟨key, stamp.commitEpoch⟩ : VersionConflict V)
          else none with
      | some conflict => .error (.conflict conflict)
      | none => .ok ()

end GraphStore

/-- What happens to a canonical store. Everything that registers is dropped by its owner only. -/
inductive GraphEvent (V : Type*) where
  | snapshot (inherited : Option ℕ)
  | dropSnapshot (epoch : ℕ)
  | capture (maxEntries maxBytes : ℕ)
  | dropCapture (epoch : ℕ)
  | commit (env : GraphCommitEnv) (batch : GraphBatch V)
  | commitNonRelational (ops : WalOps V)
  | reclaimVersionHistory (env : HistoryEnv)
  | pruneBefore (env : HistoryEnv) (oldestReaderEpoch : ℕ)
  | pruneTombstonesBefore (env : HistoryEnv) (oldestReaderEpoch : ℕ)
  | poison (error : HawDBError)

/-- An element an operation creates is new. -/
def WalOp.isFresh {V : Type*} [Ord V] (store : GraphStore V) : WalOp V → Bool
  | .createNode id _ _ => (store.nodeOwned id).isNone
  | .createRelationship id _ _ _ _ => (store.relationshipOwned id).isNone
  | _ => true

/-- A batch as it is staged: over a catalog that only adds to the current one, and with new
identifiers for what it creates. -/
def GraphBatch.isStagedOn {V : Type*} [Ord V] (batch : GraphBatch V) (s : GraphState V) : Bool :=
  s.catalog.isExtendedBy batch.workingCatalog && batch.ops.toList.all (WalOp.isFresh s.store)

/-- A store in use: its state and the epochs of the snapshots and captures others hold. -/
structure GraphRun (V : Type*) [Ord V] where
  state : GraphState V
  snapshots : List ℕ
  captures : List ℕ

namespace GraphRun

variable {V : Type*} [Ord V] [Std.TransOrd V] [CowPageWeight V] [GraphValue V] [TypeSizes]

def withVersions (s : GraphRun V) (versions : VersionStore V) : GraphRun V :=
  { s with state := ⟨{ s.state.store with versions }, s.state.catalog⟩ }

def withStore (s : GraphRun V) (store : GraphStore V) : GraphRun V :=
  { s with state := ⟨store, s.state.catalog⟩ }

/-- Pruning is limited by the oldest registration. -/
def pruneWith (s : GraphRun V) (oldestReaderEpoch : ℕ) (index : VersionIndex V) : GraphRun V :=
  let versions := s.state.store.versions
  if oldestReaderEpoch ≤ versions.watermark then
    s.withVersions { versions with versionIndex := index }
  else s

def step (s : GraphRun V) : GraphEvent V → GraphRun V
  | .snapshot inherited =>
    let versions := s.state.store.versions
    { s.withVersions (versions.snapshot inherited) with
      snapshots := versions.snapshotEpoch inherited :: s.snapshots }
  | .dropSnapshot epoch =>
    if epoch ∈ s.snapshots then
      { s.withVersions (s.state.store.versions.dropSnapshot epoch) with
        snapshots := s.snapshots.erase epoch }
    else s
  | .capture maxEntries maxBytes =>
    match s.state.store.captureReadDependencies maxEntries maxBytes with
    | .error _ => s
    | .ok (deps, store) =>
      { s.withStore store with captures := deps.sourceEpoch :: s.captures }
  | .dropCapture epoch =>
    if epoch ∈ s.captures then
      { s.withStore (s.state.store.dropReadDependencies epoch) with
        captures := s.captures.erase epoch }
    else s
  | .commit env batch =>
    if batch.isStagedOn s.state then { s with state := (s.state.commit env batch).1 } else s
  | .commitNonRelational ops =>
    let state := s.state.applyWalOps ops
    { s with state := ⟨{ state.store with
        versions := state.store.versions.finishNonRelationalCommit }, state.catalog⟩ }
  | .reclaimVersionHistory env =>
    s.withVersions (s.state.store.versions.reclaimVersionHistory env)
  | .pruneBefore env oldestReaderEpoch =>
    s.pruneWith oldestReaderEpoch
      (s.state.store.versions.versionIndex.pruneBefore env oldestReaderEpoch)
  | .pruneTombstonesBefore env oldestReaderEpoch =>
    s.pruneWith oldestReaderEpoch
      (s.state.store.versions.versionIndex.pruneTombstonesBefore env oldestReaderEpoch)
  | .poison error => s.withStore { s.state.store with poisoned := some error }

def opened (epoch maxEstimatedBytes maxHistoryBytes readersId : ℕ) (base : Option (CanonicalBase V))
    (catalog : Catalog) : GraphRun V where
  state := ⟨⟨.new epoch maxEstimatedBytes maxHistoryBytes, none, readersId, 0, none, .empty, .empty,
    ∅, ∅, base⟩, catalog⟩
  snapshots := []
  captures := []

end GraphRun

end HawDB
