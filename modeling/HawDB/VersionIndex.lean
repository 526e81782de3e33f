import HawDB.Proofs.VersionKeyOrder

/-!
# The version index

The newest committed stamp of every mutable identity, in copy-on-write pages, with two barriers kept
outside the pages. What an operation finds used of the history budget, and which pages are shared
when it edits them, is given by a `HistoryEnv`. The credit an operation has reserved covers the
pages it charges, so charging does not fail.
-/

namespace HawDB

/-- What the rest of the process holds while an operation runs: the bytes leased from the history
budget, and the pages that are shared, by the number of the edit and their position. -/
structure HistoryEnv where
  used : ℕ
  shared : ℕ → ℕ → Bool

/-- `HistoryBudget::reserve` succeeds. -/
def historyReserves (used limit bytes : ℕ) : Bool :=
  ((checkedAdd used bytes).filter fun next => next ≤ limit).isSome

inductive VersionPageRetention where
  | keep
  | drop
  | mixed
deriving DecidableEq, Repr

namespace VersionWriteSet

variable {V : Type*} [Ord V] [Std.TransOrd V] [CowPageWeight V] [TypeSizes]

/-- Records a write. A key that is there keeps its place and takes the disposition. -/
def record (s : VersionWriteSet V) (key : VersionKey V) (disposition : VersionDisposition) :
    Except VersionWriteSetError (VersionWriteSet V) :=
  if s.containsKey key then
    .ok { s with writes := s.writes.update key fun _ => ⟨disposition⟩ }
  else if s.maxEntries ≤ s.len then .error (.limitExceeded s.maxEntries)
  else
    match ((checkedAdd (CowPageWeight.cowPageBytes key) TypeSizes.versionWrite).bind
        (checkedAdd s.estimatedBytes)).filter fun bytes => bytes ≤ s.maxBytes with
    | none => .error (.byteLimitExceeded s.maxBytes)
    | some nextBytes =>
      .ok { s with writes := s.writes.insert key ⟨disposition⟩, estimatedBytes := nextBytes }

def recordLive (s : VersionWriteSet V) (key : VersionKey V) :=
  s.record key .live

end VersionWriteSet

abbrev VersionPage (V : Type*) [Ord V] := CowMapPage (VersionKey V) VersionStamp

namespace VersionPage

variable {V : Type*} [Ord V]

/-- What `epoch_bounds` is set to when it is first asked for. -/
def computedBounds (page : VersionPage V) : ℕ × ℕ :=
  page.entries.entries.foldl
    (fun bounds e => (min bounds.1 e.2.commitEpoch, max bounds.2 e.2.commitEpoch)) (usizeMax, 0)

def boundsOf (page : VersionPage V) : ℕ × ℕ := page.epochBounds.getD page.computedBounds

/-- The element of `version_retention_plan` for a page. -/
def retention (keep : VersionStamp → Bool) (floor : Option ℕ) (page : VersionPage V) :
    VersionPageRetention :=
  match floor with
  | some floor =>
    if floor ≤ (boundsOf page).1 then .keep
    else if (boundsOf page).2 < floor then .drop
    else .mixed
  | none =>
    if page.entries.entries.all fun e => keep e.2 then .keep
    else if page.entries.entries.all fun e => !keep e.2 then .drop
    else .mixed

/-- A plan with a floor leaves the bounds of every page computed. -/
def cacheBounds (floor : Option ℕ) (page : VersionPage V) : VersionPage V :=
  if floor.isSome then { page with epochBounds := some (boundsOf page) } else page

variable [CowPageWeight V] [TypeSizes]

def charge (page : VersionPage V) : VersionPage V :=
  if page.historyLease.isNone then { page with historyLease := some page.payloadBytes } else page

/-- A mixed page after `retain`: its weight is computed again and its lease shrunk to it. -/
def retainMixed (shared : Bool) (keep : VersionStamp → Bool) (page : VersionPage V) :
    VersionPage V :=
  let kept : VersionPage V :=
    { page.detach shared with
      entries := page.entries.filter fun e => keep e.2, bytes := none, epochBounds := none }
  { kept with
    bytes := some kept.payloadBytes
    historyLease := kept.historyLease.map fun _ => kept.payloadBytes }

end VersionPage

abbrev VersionPages (V : Type*) [Ord V] := CowSegmentedMap (VersionKey V) VersionStamp

namespace VersionPages

variable {V : Type*} [Ord V] [CowPageWeight V] [TypeSizes]

def charge (m : VersionPages V) : VersionPages V :=
  { m with segments := m.segments.map VersionPage.charge }

def managed (m : VersionPages V) : Bool := m.segments.any fun page => page.historyLease.isSome

/-- The loop of `retain_version_pages` over the pages, from a position on. -/
def retainLoop (shared : ℕ → Bool) (keep : VersionStamp → Bool)
    (action : VersionPage V → VersionPageRetention) :
    ℕ → List (VersionPage V) → List (VersionPage V)
  | _, [] => []
  | index, page :: pages =>
    match action page with
    | .keep => page :: retainLoop shared keep action (index + 1) pages
    | .drop => retainLoop shared keep action (index + 1) pages
    | .mixed =>
      let page := page.retainMixed (shared index) keep
      if page.entries.entries = [] then retainLoop shared keep action (index + 1) pages
      else page :: retainLoop shared keep action (index + 1) pages

def retain (m : VersionPages V) (shared : ℕ → Bool) (keep : VersionStamp → Bool)
    (action : VersionPage V → VersionPageRetention) : VersionPages V :=
  let segments := retainLoop shared keep action 0 m.segments
  { m with segments, len := (segments.map fun page => page.entries.entries.length).sum }

/-- The weight of the shared pages that would be copied for a mixed retention. -/
def mixedBytes (m : VersionPages V) (shared : ℕ → Bool)
    (action : VersionPage V → VersionPageRetention) : ℕ :=
  ((m.segments.zipIdx.filter fun (page, index) => shared index && action page == .mixed).map
    fun (page, _) => page.payloadBytes).sum

end VersionPages

/-- Mutable version state shared by a live database handle. -/
structure VersionIndex (V : Type*) [Ord V] where
  historyFloor : ℕ
  databaseBarrier : Option VersionStamp
  readBarrier : Option VersionStamp
  stamps : VersionPages V
  estimatedBytes : ℕ
  maxEstimatedBytes : ℕ
  historyLimit : ℕ

/-- A conflict between a read epoch and a newer committed write. -/
structure VersionConflict (V : Type*) where
  key : VersionKey V
  committedEpoch : ℕ

namespace VersionIndex

variable {V : Type*} [Ord V]

section

def stamp (index : VersionIndex V) : VersionKey V → Option VersionStamp
  | .database => index.databaseBarrier
  | .readBarrier => index.readBarrier
  | key => index.stamps.get key

/-- The first write-write conflict under first-committer-wins. -/
def firstConflict (index : VersionIndex V) (writes : VersionWriteSet V) (readEpoch : ℕ) :
    Option (VersionConflict V) :=
  if !writes.isEmpty && decide (readEpoch < index.historyFloor) then
    some ⟨.database, index.historyFloor⟩
  else
    writes.keys.findSome? fun key => (index.stamp key).bind fun stamp =>
      if readEpoch < stamp.commitEpoch then some ⟨key, stamp.commitEpoch⟩ else none

def historyReclaimedAfter (index : VersionIndex V) (readEpoch : ℕ) : Bool :=
  readEpoch < index.historyFloor

end

variable [CowPageWeight V] [TypeSizes]

def inlineBarrierBytes (V : Type*) [CowPageWeight V] : ℕ :=
  versionStampBytes (.database : VersionKey V) + versionStampBytes (.readBarrier : VersionKey V)

def withHistoryLimit (maxEstimatedBytes maxHistoryBytes : ℕ) : VersionIndex V where
  historyFloor := 0
  databaseBarrier := none
  readBarrier := none
  stamps := .empty
  estimatedBytes := inlineBarrierBytes V
  maxEstimatedBytes
  historyLimit := maxHistoryBytes

/-- An index that knows only that everything may have changed at an epoch. -/
def readBaseline (index : VersionIndex V) (epoch : ℕ) : VersionIndex V where
  historyFloor := epoch
  databaseBarrier := if 0 < epoch then some ⟨epoch, .live⟩ else none
  readBarrier := none
  stamps := .empty
  estimatedBytes := inlineBarrierBytes V
  maxEstimatedBytes := index.maxEstimatedBytes
  historyLimit := index.historyLimit

/-- The loop of `admits` over the keys, with the bytes so far. -/
def admitsLoop (index : VersionIndex V) : ℕ → List (VersionKey V) → Bool
  | bytes, [] => bytes ≤ index.maxEstimatedBytes
  | bytes, key :: keys =>
    if !key.isInline && !index.stamps.containsKey key then
      match checkedAdd bytes (versionStampBytes key) with
      | none => false
      | some next =>
        if index.maxEstimatedBytes < next then false else admitsLoop index next keys
    else if index.maxEstimatedBytes < bytes then false
    else admitsLoop index bytes keys

def admits (index : VersionIndex V) (writes : VersionWriteSet V) : Bool :=
  index.admitsLoop index.estimatedBytes writes.keys

/-- Adds the stamps of the keys that have none yet. -/
def addNewBytes (index : VersionIndex V) (bytes : ℕ) (keys : List (VersionKey V)) : Option ℕ :=
  keys.foldlM (fun bytes key =>
    if !key.isInline && !index.stamps.containsKey key then
      checkedAdd bytes (versionStampBytes key)
    else some bytes) bytes

/-- Adds the pages that hold no lease. -/
def addUnchargedBytes (index : VersionIndex V) (bytes : ℕ) : Option ℕ :=
  index.stamps.segments.foldlM (fun bytes page =>
    if page.historyLease.isNone then checkedAdd bytes page.payloadBytes else some bytes) bytes

/-- The bytes `stage` reserves: new stamps, pages without a lease, and a copy of each page a write
touches. -/
def stageBytes (index : VersionIndex V) (writes : VersionWriteSet V) : Option ℕ :=
  let touched := (writes.keys.filter fun key => !key.isInline).filterMap index.stamps.segmentIndex
  (index.addNewBytes 0 writes.keys).bind fun bytes =>
    index.stamps.segments.zipIdx.foldlM (fun bytes (page, position) =>
      (if page.historyLease.isNone then checkedAdd bytes page.payloadBytes else some bytes).bind
        fun bytes =>
          if position ∈ touched then checkedAdd bytes page.payloadBytes else some bytes) bytes

def collapsedWriteBytes (index : VersionIndex V) (writes : VersionWriteSet V) :
    Option (ℕ × ℕ) :=
  let kept := index.stamps.iter.filter fun e => !e.1.isReadSummaryKey
  (kept.foldlM (fun bytes e => checkedAdd bytes (versionStampBytes e.1))
    (inlineBarrierBytes V)).bind fun retainedBytes =>
      (index.addNewBytes retainedBytes writes.keys).bind fun bytes =>
        if bytes ≤ index.maxEstimatedBytes then some (retainedBytes, bytes) else none

def admitsAfterReadSummaryCollapse (index : VersionIndex V) (writes : VersionWriteSet V) : Bool :=
  (index.collapsedWriteBytes writes).isSome

def recountBytes (index : VersionIndex V) : VersionIndex V :=
  { index with
    estimatedBytes := index.stamps.segments.foldl
      (fun bytes page => satAdd bytes page.payloadBytes) (inlineBarrierBytes V) }

/-- A reservation is made only for a positive number of bytes. -/
def reserves (index : VersionIndex V) (env : HistoryEnv) (bytes : ℕ) : Bool :=
  bytes = 0 || historyReserves env.used index.historyLimit bytes

section

/-- The end of `prune_map`, with the plan that is carried out. -/
def retainPages (index : VersionIndex V) (env : HistoryEnv) (keep : VersionStamp → Bool)
    (plan : VersionPage V → VersionPageRetention) : VersionIndex V :=
  let stamps := index.stamps.retain (env.shared 0) keep plan
  recountBytes { index with stamps := if index.stamps.managed then stamps.charge else stamps }

/-- The credit `prune_map` needs for the copies of shared pages. -/
def copyBytes (index : VersionIndex V) (env : HistoryEnv)
    (plan : VersionPage V → VersionPageRetention) : ℕ :=
  if index.stamps.managed then index.stamps.mixedBytes (env.shared 0) plan else 0

/-- `prune_map` by a plan that does not keep every page. -/
def pruneByPlan (index : VersionIndex V) (env : HistoryEnv) (keep : VersionStamp → Bool)
    (plan : VersionPage V → VersionPageRetention) : VersionIndex V :=
  if index.reserves env (index.copyBytes env plan) then index.retainPages env keep plan
  else
    -- without credit for their copies the mixed pages stay as they are
    let plan := fun page => if plan page = .mixed then .keep else plan page
    if index.stamps.segments.any fun page => plan page = .drop then
      index.retainPages env keep plan
    else index

def pruneMap (index : VersionIndex V) (env : HistoryEnv) (keep : VersionStamp → Bool)
    (floor : Option ℕ) : VersionIndex V :=
  let index := { index with
    stamps := { index.stamps with
      segments := index.stamps.segments.map (VersionPage.cacheBounds floor) } }
  if index.stamps.segments.all fun page => VersionPage.retention keep floor page = .keep then index
  else index.pruneByPlan env keep (VersionPage.retention keep floor)

/-- How both kinds of pruning begin: the floor rises and the barriers are filtered. -/
def raiseFloor (index : VersionIndex V) (keep : VersionStamp → Bool) (oldestReaderEpoch : ℕ) :
    VersionIndex V :=
  { index with
    historyFloor := max index.historyFloor (oldestReaderEpoch - 1)
    databaseBarrier := index.databaseBarrier.filter keep
    readBarrier := index.readBarrier.filter keep }

def pruneTombstonesBefore (index : VersionIndex V) (env : HistoryEnv) (oldestReaderEpoch : ℕ) :
    VersionIndex V :=
  let keep : VersionStamp → Bool := fun stamp =>
    stamp.disposition ≠ .tombstone || decide (oldestReaderEpoch ≤ stamp.commitEpoch)
  (index.raiseFloor keep oldestReaderEpoch).pruneMap env keep none

def pruneBefore (index : VersionIndex V) (env : HistoryEnv) (oldestReaderEpoch : ℕ) :
    VersionIndex V :=
  let keep : VersionStamp → Bool := fun stamp => oldestReaderEpoch ≤ stamp.commitEpoch
  (index.raiseFloor keep oldestReaderEpoch).pruneMap env keep (some oldestReaderEpoch)

end

variable [Std.TransOrd V]

def insertStamp (index : VersionIndex V) (shared : ℕ → Bool) (key : VersionKey V)
    (stamp : VersionStamp) : VersionIndex V :=
  match key with
  | .database => { index with databaseBarrier := some stamp }
  | .readBarrier => { index with readBarrier := some stamp }
  | key =>
    { index with
      estimatedBytes :=
        if index.stamps.containsKey key then index.estimatedBytes
        else satAdd index.estimatedBytes (versionStampBytes key)
      stamps := (index.stamps.insert shared key stamp).2 }

/-- The loop of `apply_prepared`, from the number of an edit on. -/
def applyLoop (shared : ℕ → ℕ → Bool) (commitEpoch : ℕ) :
    ℕ → List (VersionKey V × VersionWrite) → VersionIndex V → VersionIndex V
  | _, [], index => index
  | n, (key, write) :: rest, index =>
    applyLoop shared commitEpoch (n + 1) rest
      (index.insertStamp (shared n) key ⟨commitEpoch, write.disposition⟩)

def applyPrepared (index : VersionIndex V) (shared : ℕ → ℕ → Bool) (writes : VersionWriteSet V)
    (commitEpoch : ℕ) : VersionIndex V :=
  applyLoop shared commitEpoch 0 writes.writes.entries index

def applyDatabaseBarrier (index : VersionIndex V) (commitEpoch : ℕ) : VersionIndex V :=
  { index with databaseBarrier := some ⟨commitEpoch, .live⟩ }

/-- `stage`: the index with its pages charged, and what is staged unless it is refused. -/
def stage (index : VersionIndex V) (env : HistoryEnv) (writes : VersionWriteSet V) (epoch : ℕ) :
    VersionIndex V × Option (VersionIndex V) :=
  if !index.admits writes then (index, none)
  else
    match index.stageBytes writes with
    | none => (index, none)
    | some bytes =>
      if !index.reserves env bytes then (index, none)
      else
        let index := { index with stamps := index.stamps.charge }
        let staged := index.applyPrepared env.shared writes epoch
        (index, some { staged with stamps := staged.stamps.charge })

/-- `stage_with_read_barrier`: all read summaries are replaced by one barrier. -/
def stageWithReadBarrier (index : VersionIndex V) (env : HistoryEnv) (writes : VersionWriteSet V)
    (epoch : ℕ) : VersionIndex V × Option (VersionIndex V) :=
  match index.collapsedWriteBytes writes with
  | none => (index, none)
  | some (retainedBytes, bytes) =>
    match index.addUnchargedBytes (bytes - inlineBarrierBytes V) with
    | none => (index, none)
    | some historyBytes =>
      if !index.reserves env historyBytes then (index, none)
      else
        let index := { index with stamps := index.stamps.charge }
        let retained := OrdMap.ofList (index.stamps.iter.filter fun e => !e.1.isReadSummaryKey)
        let staged : VersionIndex V :=
          { index with stamps := .ofOrdMap retained, estimatedBytes := retainedBytes }
        let staged := staged.applyPrepared env.shared writes epoch
        let staged := { staged with stamps := staged.stamps.charge }
        (index, some (staged.insertStamp (env.shared 0) .readBarrier ⟨epoch, .live⟩))

end VersionIndex

end HawDB
