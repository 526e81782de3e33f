import HawDB.ReadInvalidations

/-!
# Graph commits

A commit derives its write set from the operations of the batch, adds the read invalidation
summaries, installs the version stamps as `VersionStore.commit` does, and then applies the batch.
Whatever it stamps is decided on the state before the batch.
-/

namespace HawDB

def defaultMaxVersionWriteSetEntries : ℕ := 100000

def defaultMaxVersionWriteSetBytes : ℕ := 16 * 1024 * 1024

section

variable {V : Type*} [Ord V] [Std.TransOrd V] [CowPageWeight V] [TypeSizes]

/-- `record_live_version` and `record_tombstone_version`. -/
def recordVersion (writes : VersionWriteSet V) (key : VersionKey V)
    (disposition : VersionDisposition) : Except HawDBError (VersionWriteSet V) :=
  match writes.record key disposition with
  | .ok writes => .ok writes
  | .error e => .error (.execution e.toString)

def adjacencyKeys (source target : ℕ) : List (VersionKey V × VersionDisposition) :=
  [(.graphAdjacency source .outgoing, .live), (.graphAdjacency target .incoming, .live)]

/-- The ends of the relationships a batch has created so far. -/
abbrev CreatedRelationships := OrdMap ℕ (ℕ × ℕ)

/-- What `collect_version_writes` records for one operation, in order. A deleted relationship whose
ends are not known stamps the whole database. -/
def versionWritesOf (relationships : OrdMap ℕ (RelRecord V)) (created : CreatedRelationships) :
    WalOp V → List (VersionKey V × VersionDisposition) × CreatedRelationships
  | .createNode id _ _ | .setNodeProperty id _ _ => ([(.graphNode id, .live)], created)
  | .deleteNode id => ([(.graphNode id, .tombstone)], created)
  | .createRelationship id source target _ _ =>
    ((.graphRelationship id, .live) :: adjacencyKeys source target,
      created.insert id (source, target))
  | .setRelationshipProperty id _ _ => ([(.graphRelationship id, .live)], created)
  | .deleteRelationship id =>
    let endpoints := (created.get id).or
      ((relationships.get id).map fun rel => (rel.source, rel.target))
    ((.graphRelationship id, .tombstone) ::
      (match endpoints with
        | some (source, target) => adjacencyKeys source target
        | none => [(.database, .live)]),
      created.remove id)
  | .schema _ => ([(.schema, .live)], created)
  | .projectOrMark => ([(.database, .live)], created)

/-- `collect_version_writes`: the keys of all operations, in order. -/
def collectVersionKeys (relationships : OrdMap ℕ (RelRecord V)) (ops : WalOps V) :
    List (VersionKey V × VersionDisposition) :=
  (ops.foldl (fun (s : List (VersionKey V × VersionDisposition) × CreatedRelationships) op =>
    let (keys, created) := versionWritesOf relationships s.2 op
    (s.1 ++ keys, created)) ([], .empty)).1

/-- `version_writes_for_ops`. -/
def GraphStore.versionWritesForOps (store : GraphStore V) (ops : WalOps V) :
    Except HawDBError (VersionWriteSet V) :=
  (collectVersionKeys store.relationships ops).foldlM
    (fun writes write => recordVersion writes write.1 write.2)
    (.withLimits defaultMaxVersionWriteSetEntries defaultMaxVersionWriteSetBytes)

lemma VersionWriteSet.mem_keys_record {writes writes' : VersionWriteSet V}
    (h : writes.record key disposition = .ok writes') (hk : k ∈ writes'.keys) :
    k ∈ writes.keys ∨ compare key k = .eq := by
  unfold record at h
  split_ifs at h
  · cases h
    rw [keys, OrdMap.update, updateEntry_keys] at hk
    exact .inl hk
  split at h
  · cases h
  cases h
  obtain ⟨e, he, rfl⟩ := List.mem_map.1 hk
  rcases mem_insertEntry he with rfl | he | ⟨-, heq⟩
  · exact .inr Std.ReflCmp.compare_self
  · exact .inl (List.mem_map_of_mem he)
  · exact .inr heq

omit [Ord V] [Std.TransOrd V] [CowPageWeight V] [TypeSizes] in
lemma versionWritesOf_writerKeys (relationships : OrdMap ℕ (RelRecord V))
    (created : CreatedRelationships) (op : WalOp V) :
    ∀ write ∈ (versionWritesOf relationships created op).1, write.1.isReadSummaryKey = false := by
  cases op with
  | deleteRelationship id =>
    simp only [versionWritesOf]
    split <;> simp [adjacencyKeys, VersionKey.isReadSummaryKey]
  | _ => simp [versionWritesOf, adjacencyKeys, VersionKey.isReadSummaryKey]

omit [Ord V] [Std.TransOrd V] [CowPageWeight V] [TypeSizes] in
lemma collectVersionKeys_writerKeys (relationships : OrdMap ℕ (RelRecord V)) (ops : WalOps V) :
    ∀ write ∈ collectVersionKeys relationships ops, write.1.isReadSummaryKey = false := by
  refine WalOps.foldl_induction
    (fun s : List (VersionKey V × VersionDisposition) × CreatedRelationships =>
      ∀ write ∈ s.1, write.1.isReadSummaryKey = false)
    (fun _ h => absurd h List.not_mem_nil) fun s hs op _ write hwrite => ?_
  rcases List.mem_append.1 hwrite with hwrite | hwrite
  · exact hs write hwrite
  · exact versionWritesOf_writerKeys relationships s.2 op write hwrite

lemma foldlM_recordVersion_writerKeys :
    ∀ (keys : List (VersionKey V × VersionDisposition)) {writes writes' : VersionWriteSet V},
      keys.foldlM (fun writes write => recordVersion writes write.1 write.2) writes = .ok writes' →
      (∀ key ∈ writes.keys, key.isReadSummaryKey = false) →
      (∀ write ∈ keys, write.1.isReadSummaryKey = false) →
      ∀ key ∈ writes'.keys, key.isReadSummaryKey = false
  | [], _, _, h, hwrites, _ => by
    cases h
    exact hwrites
  | write :: keys, writes, writes', h, hwrites, hkeys => by
    rw [List.foldlM_cons] at h
    rcases hrecord : recordVersion writes write.1 write.2 with e | writes₁
    · rw [hrecord] at h
      cases h
    rw [hrecord] at h
    refine foldlM_recordVersion_writerKeys keys h (fun key hkey => ?_)
      fun w hw => hkeys w (List.mem_cons_of_mem _ hw)
    unfold recordVersion at hrecord
    split at hrecord
    · cases hrecord
      rename_i hset
      rcases VersionWriteSet.mem_keys_record hset hkey with hkey | heq
      · exact hwrites key hkey
      · rw [← VersionKey.isReadSummaryKey_eq_of_compare heq]
        exact hkeys write List.mem_cons_self
    · cases hrecord

lemma GraphStore.versionWritesForOps_writerKeys {store : GraphStore V}
    {writes : VersionWriteSet V} (h : store.versionWritesForOps ops = .ok writes) :
    ∀ key ∈ writes.keys, key.isReadSummaryKey = false :=
  foldlM_recordVersion_writerKeys _ h (fun _ hkey => absurd hkey List.not_mem_nil)
    (collectVersionKeys_writerKeys store.relationships ops)

end

/-- A batch of operations with the catalog it was staged with. -/
structure GraphBatch (V : Type*) where
  ops : WalOps V
  workingCatalog : Catalog
  mvccReadEpoch : Option ℕ

/-- What happens around a graph commit: the limits and constraints the batch has to meet, and the
surroundings of its stamps. -/
structure GraphCommitEnv where
  checks : Except HawDBError Unit
  versions : CommitEnv

section

variable {V : Type*} [Ord V] [Std.TransOrd V] [CowPageWeight V] [GraphValue V] [TypeSizes]

/-- The write set of a batch and its read summaries, unless these could not be collected. -/
def GraphStore.commitRequest (store : GraphStore V) (batch : GraphBatch V) :
    Except HawDBError (CommitRequest V) :=
  match h : store.versionWritesForOps batch.ops with
  | .error e => .error e
  | .ok writes =>
    .ok ⟨writes, versionWritesForOps_writerKeys h,
      (store.readInvalidationStamps batch.workingCatalog batch.ops writes).toOption,
      batch.mvccReadEpoch⟩

/-- What `commit_prepared_mutation_ops` asks of a batch before anything is staged. -/
def GraphStore.admitBatch (store : GraphStore V) (env : GraphCommitEnv) (batch : GraphBatch V) :
    Except HawDBError (CommitRequest V) :=
  match store.commitRequest batch with
  | .error e => .error e
  | .ok request =>
    match store.versions.validateCommit request, env.checks with
    | .error e, _ => .error e
    | .ok (), .error e => .error e
    | .ok (), .ok () => .ok request

/-- `commit_prepared_mutation_ops` for a graph batch. An empty one changes nothing. -/
def GraphState.commit (s : GraphState V) (env : GraphCommitEnv) (batch : GraphBatch V) :
    GraphState V × Except HawDBError Unit :=
  match s.store.ensureUsable with
  | .error e => (s, .error e)
  | .ok () =>
    if batch.ops.isEmpty then (s, .ok ())
    else
      match s.store.admitBatch env batch with
      | .error e => (s, .error e)
      | .ok request =>
        match s.store.versions.commit env.versions request with
        | (versions, .error e) => (⟨{ s.store with versions }, s.catalog⟩, .error e)
        | (versions, .ok _) =>
          (GraphState.applyWalOps ⟨{ s.store with versions }, batch.workingCatalog⟩ batch.ops,
            .ok ())

end

end HawDB
