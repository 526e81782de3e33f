import HawDB.VersionIndex
import HawDB.Error

/-!
# Commits and snapshots over the version index

Writable snapshots and dependency collectors register the epoch they protect; reclaiming and the
constant baseline of a commit respect the oldest registration. A commit validates its write set
against the transaction's read epoch, stages the stamps, appends to the log, and then installs what
it has staged.
-/

namespace HawDB

/-- The protected epochs with the number of their registrations. -/
abbrev VersionSnapshotPins := OrdMap ℕ ℕ

namespace VersionSnapshotPins

def pin (pins : VersionSnapshotPins) (epoch : ℕ) : VersionSnapshotPins :=
  pins.insert epoch ((pins.get epoch).getD 0 + 1)

def oldestEpoch (pins : VersionSnapshotPins) : Option ℕ := pins.entries.head?.map Prod.fst

/-- `Drop` of a registration. -/
def unpin (pins : VersionSnapshotPins) (epoch : ℕ) : VersionSnapshotPins :=
  match pins.get epoch with
  | none => pins
  | some count =>
    if count - 1 = 0 then pins.remove epoch else pins.update epoch fun count => count - 1

end VersionSnapshotPins

def versionKeyKind {V : Type*} : VersionKey V → String
  | .database => "database"
  | .schema => "schema"
  | .readBarrier => "read_barrier"
  | .readNodeDomain _ => "read_node_domain"
  | .readRelationshipDomain _ => "read_relationship_domain"
  | .readRelationalTableDomain _ => "read_relational_table_domain"
  | .readNodeProperty .. => "read_node_property"
  | .readRelationalIndexPrefix .. => "read_relational_index_prefix"
  | .graphNode _ => "graph_node"
  | .graphRelationship _ => "graph_relationship"
  | .graphAdjacency .. => "graph_adjacency"
  | .relationalRow .. => "relational_row"
  | .relationalIndex .. => "relational_index"
  | .foreignKey .. => "foreign_key"
  | .appendTable _ => "append_table"

def transactionConflictError {V : Type*} (readEpoch : ℕ) (conflict : VersionConflict V) :
    HawDBError :=
  .transactionConflict readEpoch conflict.committedEpoch (versionKeyKind conflict.key)

structure VersionStore (V : Type*) [Ord V] where
  commitEpoch : ℕ
  versionIndex : VersionIndex V
  versionSnapshotPins : VersionSnapshotPins

/-- What a commit is given. Its write set has no read summaries: those are added after the
validation, unless they could not be collected. -/
structure CommitRequest (V : Type*) [Ord V] where
  writes : VersionWriteSet V
  writerKeys : ∀ key ∈ writes.keys, key.isReadSummaryKey = false
  summaries : Option (List (VersionKey V))
  mvccReadEpoch : Option ℕ

/-- The write set with the read summaries, if they were collected and fit. -/
def CommitRequest.withReadSummaries {V : Type*} [Ord V] [Std.TransOrd V] [CowPageWeight V]
    [TypeSizes] (request : CommitRequest V) : Option (VersionWriteSet V) :=
  request.summaries.bind fun keys => (keys.foldlM VersionWriteSet.recordLive request.writes).toOption

/-- What happens around a commit: the history budget at each attempt to stage and at the reclaim
between them, and what the log answers to the batch. -/
structure CommitEnv where
  first : HistoryEnv
  reclaim : HistoryEnv
  second : HistoryEnv
  collapsed : HistoryEnv
  wal : Except HawDBError Unit

namespace VersionStore

variable {V : Type*} [Ord V]

section

/-- The part of `validate_version_writes` for one barrier key. -/
def validateBarrier (store : VersionStore V) (writes : VersionWriteSet V) (readEpoch : ℕ)
    (key : VersionKey V) : Except HawDBError Unit :=
  if writes.containsKey key && decide (readEpoch < store.commitEpoch) then
    .error (transactionConflictError readEpoch ⟨key, store.commitEpoch⟩)
  else
    match store.versionIndex.stamp key with
    | some stamp =>
      if readEpoch < stamp.commitEpoch then
        .error (transactionConflictError readEpoch ⟨key, stamp.commitEpoch⟩)
      else .ok ()
    | none => .ok ()

def validateVersionWrites (store : VersionStore V) (writes : VersionWriteSet V) (readEpoch : ℕ) :
    Except HawDBError Unit :=
  match store.versionIndex.firstConflict writes readEpoch with
  | some conflict =>
    if store.versionIndex.historyReclaimedAfter readEpoch then
      .error (.transactionConflict readEpoch conflict.committedEpoch "reclaimed_history")
    else .error (transactionConflictError readEpoch conflict)
  | none => do
    store.validateBarrier writes readEpoch .database
    store.validateBarrier writes readEpoch .schema

def validateCommit (store : VersionStore V) (request : CommitRequest V) : Except HawDBError Unit :=
  match request.mvccReadEpoch with
  | none => .ok ()
  | some readEpoch => store.validateVersionWrites request.writes readEpoch

end

variable [CowPageWeight V] [TypeSizes]

def new (epoch maxEstimatedBytes maxHistoryBytes : ℕ) : VersionStore V :=
  ⟨epoch, .withHistoryLimit maxEstimatedBytes maxHistoryBytes, .empty⟩

/-- The epoch a snapshot protects: that of the pin it descends from, or else the current one. -/
def snapshotEpoch (store : VersionStore V) (inherited : Option ℕ) : ℕ :=
  (inherited.map fun epoch => min epoch store.commitEpoch).getD store.commitEpoch

def snapshot (store : VersionStore V) (inherited : Option ℕ) : VersionStore V :=
  { store with versionSnapshotPins := store.versionSnapshotPins.pin (store.snapshotEpoch inherited) }

def dropSnapshot (store : VersionStore V) (epoch : ℕ) : VersionStore V :=
  { store with versionSnapshotPins := store.versionSnapshotPins.unpin epoch }

def watermark (store : VersionStore V) : ℕ :=
  store.versionSnapshotPins.oldestEpoch.getD (satAdd store.commitEpoch 1)

def reclaimVersionHistory (store : VersionStore V) (env : HistoryEnv) : VersionStore V :=
  { store with versionIndex := store.versionIndex.pruneBefore env store.watermark }

/-- Every protected snapshot is at the current epoch. -/
def usesBaseline (store : VersionStore V) : Bool :=
  store.versionSnapshotPins.oldestEpoch.all fun oldest => store.commitEpoch ≤ oldest

variable [Std.TransOrd V]

/-- `finish_non_relational_commit`, as far as versions go. -/
def finishNonRelationalCommit (store : VersionStore V) : VersionStore V :=
  { store with
    commitEpoch := store.commitEpoch + 1
    versionIndex := store.versionIndex.applyDatabaseBarrier (store.commitEpoch + 1) }

/-- The index `stage_version_index` stages from. -/
def baseVersions (store : VersionStore V) : VersionIndex V :=
  if store.usesBaseline then store.versionIndex.readBaseline store.commitEpoch
  else store.versionIndex

def admitsCommit (versions : VersionIndex V) (writes : VersionWriteSet V) (readBarrier : Bool) :
    Bool :=
  if readBarrier then versions.admitsAfterReadSummaryCollapse writes else versions.admits writes

def stageCommit (versions : VersionIndex V) (env : HistoryEnv) (writes : VersionWriteSet V)
    (epoch : ℕ) (readBarrier : Bool) : VersionIndex V × Option (VersionIndex V) :=
  if readBarrier then versions.stageWithReadBarrier env writes epoch
  else versions.stage env writes epoch

/-- Admission and staging of a commit on some index, which may get its pages charged. -/
def stageOn (versions : VersionIndex V) (env : HistoryEnv) (writes : VersionWriteSet V)
    (epoch : ℕ) (readBarrier : Bool) : VersionIndex V × Except HawDBError (VersionIndex V) :=
  if !admitsCommit versions writes readBarrier then
    (versions, .error (.storage "MVCC version index estimated payload budget exhausted; release old snapshots and checkpoint before retrying"))
  else
    match stageCommit versions env writes epoch readBarrier with
    | (versions, some staged) => (versions, .ok staged)
    | (versions, none) =>
      (versions, .error (.storage "MVCC retained version history budget exhausted; release old snapshots before retrying"))

/-- `stage_version_index`: the store, whose pages may have been charged, and what is staged. -/
def stageVersionIndex (store : VersionStore V) (env : HistoryEnv) (writes : VersionWriteSet V)
    (epoch : ℕ) (readBarrier : Bool) : VersionStore V × Except HawDBError (VersionIndex V) :=
  let (versions, staged) := stageOn store.baseVersions env writes epoch readBarrier
  (if store.usesBaseline then store else { store with versionIndex := versions }, staged)

def stageWithSummaries (store : VersionStore V) (env : HistoryEnv) (request : CommitRequest V)
    (epoch : ℕ) : VersionStore V × Option (VersionIndex V) :=
  match request.withReadSummaries with
  | none => (store, none)
  | some writes =>
    let (store, staged) := store.stageVersionIndex env writes epoch false
    (store, staged.toOption)

/-- The version index a commit installs: with the read summaries, if need be after a reclaim, and
else with a read barrier. -/
def prepareVersions (store : VersionStore V) (env : CommitEnv) (request : CommitRequest V)
    (epoch : ℕ) : VersionStore V × Except HawDBError (VersionIndex V) :=
  match store.stageWithSummaries env.first request epoch with
  | (store, some staged) => (store, .ok staged)
  | (store, none) =>
    let store := store.reclaimVersionHistory env.reclaim
    match store.stageWithSummaries env.second request epoch with
    | (store, some staged) => (store, .ok staged)
    | (store, none) => store.stageVersionIndex env.collapsed request.writes epoch true

/-- The end of `commit_prepared_mutation_ops`: validation, staging, the log, and the new epoch. -/
def commit (store : VersionStore V) (env : CommitEnv) (request : CommitRequest V) :
    VersionStore V × Except HawDBError ℕ :=
  match checkedAdd store.commitEpoch 1 with
  | none => (store, .error (.storage "commit epoch overflow"))
  | some epoch =>
    match store.validateCommit request with
    | .error e => (store, .error e)
    | .ok () =>
      match store.prepareVersions env request epoch with
      | (store, .error e) => (store, .error e)
      | (store, .ok staged) =>
        match env.wal with
        | .error e => (store, .error e)
        | .ok () => ({ store with commitEpoch := epoch, versionIndex := staged }, .ok epoch)

end VersionStore

/-- What happens to a store. Pruning is limited by the oldest protected snapshot. -/
inductive VersionEvent (V : Type*) [Ord V] where
  | snapshot (inherited : Option ℕ)
  | dropSnapshot (epoch : ℕ)
  | commit (env : CommitEnv) (request : CommitRequest V)
  | finishNonRelationalCommit
  | reclaimVersionHistory (env : HistoryEnv)
  | pruneBefore (env : HistoryEnv) (oldestReaderEpoch : ℕ)
  | pruneTombstonesBefore (env : HistoryEnv) (oldestReaderEpoch : ℕ)

/-- A commit that took place: its epoch and the keys it wrote. -/
structure CommitRecord (V : Type*) where
  epoch : ℕ
  keys : List (VersionKey V)

/-- A store and all commits so far. -/
structure VersionRun (V : Type*) [Ord V] where
  store : VersionStore V
  history : List (CommitRecord V)

namespace VersionRun

variable {V : Type*} [Ord V] [Std.TransOrd V] [CowPageWeight V] [TypeSizes]

def step (s : VersionRun V) : VersionEvent V → VersionRun V
  | .snapshot inherited => { s with store := s.store.snapshot inherited }
  | .dropSnapshot epoch => { s with store := s.store.dropSnapshot epoch }
  | .commit env request =>
    match s.store.commit env request with
    | (store, .ok epoch) => ⟨store, ⟨epoch, request.writes.keys⟩ :: s.history⟩
    | (store, .error _) => { s with store }
  | .finishNonRelationalCommit =>
    ⟨s.store.finishNonRelationalCommit, ⟨s.store.commitEpoch + 1, [.database]⟩ :: s.history⟩
  | .reclaimVersionHistory env => { s with store := s.store.reclaimVersionHistory env }
  | .pruneBefore env oldestReaderEpoch =>
    if oldestReaderEpoch ≤ s.store.watermark then
      { s with store := { s.store with
        versionIndex := s.store.versionIndex.pruneBefore env oldestReaderEpoch } }
    else s
  | .pruneTombstonesBefore env oldestReaderEpoch =>
    if oldestReaderEpoch ≤ s.store.watermark then
      { s with store := { s.store with
        versionIndex := s.store.versionIndex.pruneTombstonesBefore env oldestReaderEpoch } }
    else s

def run (epoch maxEstimatedBytes maxHistoryBytes : ℕ) (events : List (VersionEvent V)) : VersionRun V :=
  events.foldl step ⟨.new epoch maxEstimatedBytes maxHistoryBytes, []⟩

end VersionRun

end HawDB
