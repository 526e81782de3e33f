import HawDB.RowPageRead

/-!
# Row-page checkpoints

A checkpoint captures the keys changed since the base, each with the row its overlay shows
(`checkpointCapture`). The changes of a table are grouped by page, merged into the rows of the page
and packed again (`packRows`); a page that loses all its rows is deleted.

Rows are compared by the equality of relational values. The lengths of encoded rows and pages are
parameters of the configuration.
-/

namespace HawDB

/-- A page of a plan. -/
structure PlannedPage where
  pageId : ℕ
  columnCount : ℕ
  rows : List RowPageEntry

structure RowPageConfig where
  limits : RowPageLimits
  maxTableNameBytes : ℕ
  maxColumns : ℕ
  maxRows : ℕ
  maxRowBytes : ℕ
  maxPageBytes : ℕ
  maxDirtyPages : ℕ
  maxDirtyBytes : ℕ
  /-- The length of a row's encoding in a table of so many columns, if it can be encoded. -/
  rowLen : ℕ → RelationalRow → Option ℕ
  /-- The length of a page's encoding. -/
  pageLen : PlannedPage → Except RowPageError ℕ

/-! ### Capture -/

namespace RowPageView

variable (view : RowPageView)

abbrev CheckpointChangeKeys := OrdMap String (OrdMap RelationalKey Unit)

/-- `CheckpointChangeKeys::insert`. -/
def insertChangeKey (keys : CheckpointChangeKeys) (table : String) (key : RelationalKey) :
    CheckpointChangeKeys :=
  let known := (keys.get table).getD .empty
  match known.get key with
  | some _ => keys
  | none => keys.insert table (known.insert key ())

/-- The visit of the entries of the recovery delta. -/
def collectDeltaKeys (context : RowDeltaContext) : List RowDeltaEntry → CheckpointChangeKeys →
    Except RowPageError CheckpointChangeKeys
  | [], keys => .ok keys
  | (key, _) :: entries, keys =>
    match context.tables[key.tableOrdinal]? with
    | none => .error (.corrupt "invalid row delta entry descriptor")
    | some table => do
      let primaryKey ← RowDeltaContext.decodeDeltaPrimaryKey key.encodedPrimaryKey
      collectDeltaKeys context entries (insertChangeKey keys table.table primaryKey)

/-- A live batch is inside the epochs of the view and older than the batch before it. -/
def liveEpochIsOrdered (liveFloor : ℕ) (newer : Option ℕ) (batch : LiveBatch) : Bool :=
  liveFloor < batch.commitEpoch ∧ batch.commitEpoch ≤ view.visibleCommitEpoch ∧
    newer.all (batch.commitEpoch < ·)

def collectLiveKeys (liveFloor : ℕ) : List LiveBatch → Option ℕ → CheckpointChangeKeys →
    Except RowPageError CheckpointChangeKeys
  | [], _, keys => .ok keys
  | batch :: live, newer, keys =>
    if view.liveEpochIsOrdered liveFloor newer batch then
      collectLiveKeys liveFloor live (some batch.commitEpoch)
        (batch.changes.foldl (fun keys c => insertChangeKey keys c.table c.primaryKey) keys)
    else .error (.corrupt (s!"live batch epoch {batch.commitEpoch} is outside the ordered range " ++
      s!"({liveFloor}, {view.visibleCommitEpoch}]"))

def liveFloorEpoch : ℕ :=
  match view.delta with
  | none => view.baseCommitEpoch
  | some reader => reader.visibleCommitEpoch

/-- `checkpoint_overlay_row`. -/
def checkpointOverlayRow (table : String) (key : RelationalKey) :
    Except RowPageError (Option RelationalRow) := do
  match ← view.overlayValue table key with
  | none => .error (.corrupt s!"checkpoint change key {table} is missing from its overlay")
  | some value => .ok value

/-- The loop of `into_capture` over the keys of a table. -/
def captureKeys (table : String) : List RelationalKey →
    Except RowPageError (List RelationalRowChange)
  | [] => .ok []
  | key :: keys => do
    let row ← view.checkpointOverlayRow table key
    let rest ← captureKeys table keys
    .ok (⟨table, key, row⟩ :: rest)

/-- `into_capture`, over the tables that are left. -/
def intoCapture : List (String × OrdMap RelationalKey Unit) →
    Except RowPageError (List RelationalRowChange)
  | [] => .ok []
  | (table, keys) :: tables => do
    let changes ← view.captureKeys table (keys.entries.map Prod.fst)
    let rest ← intoCapture tables
    .ok (changes ++ rest)

def deltaKeys : Except RowPageError CheckpointChangeKeys :=
  match view.delta with
  | none => .ok .empty
  | some reader =>
    collectDeltaKeys reader.context (reader.runs.flatMap (·.entries.entries)) .empty

/-- `checkpoint_capture` with `checkpoint_overlay_row`. -/
def checkpointCapture : Except RowPageError (List RelationalRowChange) := do
  let keys ← view.deltaKeys
  let keys ← view.collectLiveKeys view.liveFloorEpoch view.live none keys
  view.intoCapture keys.entries

end RowPageView

/-! ### Packing -/

structure PendingPageSize where
  lowerKeyBytes : ℕ
  keyBytes : ℕ
  rowBytes : ℕ
  maxRowExtent : ℕ

namespace PendingPageSize

def empty : PendingPageSize := ⟨0, 0, 0, 0⟩

/-- The size with one more row, as row number `rows`; nothing when the row does not fit. -/
def withRow (config : RowPageConfig) (size : PendingPageSize) (rows keyLen : ℕ)
    (rowLen : Option ℕ) : Option PendingPageSize :=
  rowLen.bind fun rowLen =>
    if rows > config.maxRows ∨ keyLen > config.limits.maxKeyBytes ∨ rowLen > config.maxRowBytes ∨
        2 ^ 32 ≤ rows ∨ 2 ^ 32 ≤ size.keyBytes ∨ 2 ^ 32 ≤ keyLen ∨ 2 ^ 32 ≤ size.rowBytes ∨
        2 ^ 32 ≤ rowLen ∨ config.maxPageBytes < 140 then none
    else
      let lowerKeyBytes := if rows = 1 then keyLen else size.lowerKeyBytes
      let keyBytes := size.keyBytes + keyLen
      let rowBytes := size.rowBytes + rowLen
      let maxRowExtent := max size.maxRowExtent (keyLen + keyBytes + rowBytes)
      if 2 ^ 32 ≤ rows * 16 then none
      else if 140 + lowerKeyBytes + rows * 16 + maxRowExtent ≤ config.maxPageBytes then
        some ⟨lowerKeyBytes, keyBytes, rowBytes, maxRowExtent⟩
      else none

end PendingPageSize

/-- The state of packing: the id for the first page, the page that is filled, and what was emitted.
-/
structure PagePackState where
  firstPageId : Option ℕ
  pending : Option PlannedPage
  pendingSize : PendingPageSize
  previousKey : Option Bytes
  emittedPages : ℕ
  emittedBytes : ℕ
  nextPageId : ℕ
  dirtyPages : List PlannedPage
  dirtyBytes : ℕ

namespace PagePackState

variable (config : RowPageConfig) (columnCount : ℕ)

def new (firstPageId : Option ℕ) (nextPageId : ℕ) (dirtyPages : List PlannedPage)
    (dirtyBytes : ℕ) : PagePackState :=
  ⟨firstPageId, none, .empty, none, 0, 0, nextPageId, dirtyPages, dirtyBytes⟩

def admitDirtyPages (pages bytes : ℕ) : Except RowPageError Unit :=
  if pages > config.maxDirtyPages then
    .error (.admission (s!"row-page mutation emits {pages} dirty pages, " ++
      s!"exceeding limit {config.maxDirtyPages}"))
  else if bytes > config.maxDirtyBytes then
    .error (.admission (s!"row-page mutation reserves {bytes} encoded dirty bytes, " ++
      s!"exceeding limit {config.maxDirtyBytes}"))
  else .ok ()

def chargeDirtyPage (charged : ℕ) (page : PlannedPage) : Except RowPageError ℕ := do
  let bytes := charged + (← config.pageLen page)
  if 2 ^ 64 ≤ bytes then
    .error (.admission "row-page mutation dirty-byte reservation overflow")
  else .ok bytes

def peekPageId (state : PagePackState) : ℕ := state.firstPageId.getD state.nextPageId

def takePageId (state : PagePackState) : Except RowPageError (ℕ × ℕ) :=
  match state.firstPageId with
  | some id => .ok (id, state.nextPageId)
  | none =>
    if 2 ^ 64 ≤ state.nextPageId + 1 then
      .error (.admission "relational row-page id allocator is exhausted")
    else .ok (state.nextPageId, state.nextPageId + 1)

/-- `emit_pending`, with the emission of the plan. -/
def emitPending (state : PagePackState) (page : PlannedPage) : Except RowPageError PagePackState := do
  let (expectedPageId, nextPageId) ← state.takePageId
  if page.pageId ≠ expectedPageId then
    .error (.corrupt "row-page allocator changed while packing a page")
  else
    let emittedBytes ← chargeDirtyPage config state.emittedBytes page
    let dirtyBytes ← chargeDirtyPage config state.dirtyBytes page
    admitDirtyPages config (state.dirtyPages.length + 1) dirtyBytes
    admitDirtyPages config (state.emittedPages + 1) emittedBytes
    .ok { state with
      firstPageId := none
      pending := none
      emittedPages := state.emittedPages + 1
      emittedBytes
      nextPageId
      dirtyPages := state.dirtyPages ++ [page]
      dirtyBytes }

def startPage (state : PagePackState) (entry : RowPageEntry) (rowLen : Option ℕ) :
    Except RowPageError PagePackState :=
  match PendingPageSize.empty.withRow config 1 entry.1.length rowLen with
  | none => .error (.corrupt "row-page pack sizing rejected a row the codec accepts")
  | some size => .ok { state with
      pending := some ⟨state.peekPageId, columnCount, [entry]⟩
      pendingSize := size
      previousKey := some entry.1 }

def push (state : PagePackState) (entry : RowPageEntry) : Except RowPageError PagePackState :=
  if state.previousKey.any fun previous => (compare previous entry.1).isGE then
    .error (.admission "row-page pack input is not strictly ordered")
  else
    let rowLen := if columnCount ≠ 0 ∧ columnCount ≤ config.maxColumns then
      config.rowLen columnCount entry.2 else none
    match state.pending with
    | none => startPage config columnCount state entry rowLen
    | some page =>
      match state.pendingSize.withRow config (page.rows.length + 1) entry.1.length rowLen with
      | some size => .ok { state with
          pending := some { page with rows := page.rows ++ [entry] }
          pendingSize := size
          previousKey := some entry.1 }
      | none => do
        let state ← emitPending config state page
        startPage config columnCount state entry rowLen

/-- The loop of `pack_rows`, and `finish`. -/
def packRows : List RowPageEntry → PagePackState → Except RowPageError PagePackState
  | [], state =>
    match state.pending with
    | none => .ok state
    | some page => emitPending config state page
  | entry :: rows, state => do packRows rows (← push config columnCount state entry)

end PagePackState

/-! ### Planning -/

namespace RowPageMutation

abbrev PlannedChanges := OrdMap Bytes (Option RelationalRow)

/-- `collect_changes`, over the changes that are left. -/
def collectChanges (config : RowPageConfig) (table : String) : List RelationalRowChange →
    PlannedChanges → Except RowPageError PlannedChanges
  | [], collected => .ok collected
  | change :: changes, collected =>
    if change.table ≠ table then
      .error (.admission s!"row-page mutation for table {table} contains change for {change.table}")
    else
      match encodeOrderedRelationalKey change.primaryKey with
      | .error e => .error (.orderedKey "row-page mutation primary key cannot be encoded" e)
      | .ok encoded => do
        config.limits.checkKey "row-page mutation primary" encoded
        collectChanges config table changes (collected.insert encoded change.row)

/-- The changes of a base page. -/
structure MutationGroup where
  page : RowPage
  changes : PlannedChanges

/-- The page a change belongs to: the page of the change before it, if that reaches so far. -/
def targetPage (config : RowPageConfig) (table : String) (root : RowTableRoot)
    (current : Option RowPage) (encoded : Bytes) : Except RowPageError RowPage :=
  match current.filter fun page => (compare page.upperBound encoded).isGE with
  | some page => .ok page
  | none => do
    match ← root.findTablePage config.limits encoded with
    | none => .error (.corrupt s!"table {table} has a non-empty root without a target leaf")
    | some ordinal =>
      match root.pages[ordinal]? with
      | none => .error (.corrupt "row-page descriptor search did not select a page")
      | some page => .ok page

def groupChanges (config : RowPageConfig) (table : String) (root : RowTableRoot) :
    List (Bytes × Option RelationalRow) → Option RowPage → OrdMap Bytes MutationGroup →
      Except RowPageError (OrdMap Bytes MutationGroup)
  | [], _, groups => .ok groups
  | (encoded, row) :: changes, current, groups => do
    let page ← targetPage config table root current encoded
    let group := (groups.get page.lowerBound).getD ⟨page, .empty⟩
    groupChanges config table root changes (some page)
      (groups.insert page.lowerBound { group with changes := group.changes.insert encoded row })

def loadRows : List RowPageEntry → OrdMap Bytes RelationalRow →
    Except RowPageError (OrdMap Bytes RelationalRow)
  | [], merged => .ok merged
  | entry :: rows, merged =>
    match merged.get entry.1 with
    | some _ => .error (.corrupt "published row page contains duplicate primary keys")
    | none => loadRows rows (merged.insert entry.1 entry.2)

/-- The loop of `apply_changes` over the changes. -/
def applyLoop : List (Bytes × Option RelationalRow) → OrdMap Bytes RelationalRow × Bool →
    OrdMap Bytes RelationalRow × Bool
  | [], merged => merged
  | (encoded, some row) :: changes, (merged, changed) =>
    applyLoop changes (merged.insert encoded row,
      changed || !(merged.get encoded).any (compare · row = .eq))
  | (encoded, none) :: changes, (merged, changed) =>
    applyLoop changes (merged.remove encoded, changed || (merged.get encoded).isSome)

/-- `apply_changes`: the merged rows, and whether a row changed. -/
def applyChanges (rows : List RowPageEntry) (changes : PlannedChanges) :
    Except RowPageError (List RowPageEntry × Bool) := do
  let merged ← loadRows rows .empty
  let (merged, changed) := applyLoop changes.entries (merged, false)
  .ok (merged.entries, changed)

/-- What planning a table has written so far. -/
structure TablePlan where
  nextPageId : ℕ
  dirtyPages : List PlannedPage
  dirtyBytes : ℕ
  deletedPageIds : List ℕ

def packInto (config : RowPageConfig) (columnCount : ℕ) (firstPageId : Option ℕ)
    (rows : List RowPageEntry) (plan : TablePlan) : Except RowPageError TablePlan := do
  let state ← PagePackState.packRows config columnCount rows
    (.new firstPageId plan.nextPageId plan.dirtyPages plan.dirtyBytes)
  .ok { plan with
    nextPageId := state.nextPageId
    dirtyPages := state.dirtyPages
    dirtyBytes := state.dirtyBytes }

def planGroup (config : RowPageConfig) (columnCount : ℕ) (group : MutationGroup)
    (plan : TablePlan) : Except RowPageError TablePlan :=
  if group.page.columnCount ≠ columnCount then
    .error (.corrupt s!"row-page {group.page.pageId} does not match its table mutation contract")
  else do
    let (rows, changed) ← applyChanges group.page.rows group.changes
    if !changed then .ok plan
    else if rows.isEmpty then
      .ok { plan with deletedPageIds := plan.deletedPageIds ++ [group.page.pageId] }
    else packInto config columnCount (some group.page.pageId) rows plan

def planGroups (config : RowPageConfig) (columnCount : ℕ) : List MutationGroup → TablePlan →
    Except RowPageError TablePlan
  | [], plan => .ok plan
  | group :: groups, plan => do
    planGroups config columnCount groups (← planGroup config columnCount group plan)

/-- A page comes before another in the order of a plan. -/
def pageLE (a b : PlannedPage) : Bool :=
  (compare ((a.rows.head?.map Prod.fst).getD []) ((b.rows.head?.map Prod.fst).getD [])).isLE

def startPlan (base : Option RowTableRoot) : TablePlan :=
  ⟨(base.map (·.nextPageId)).getD 1, [], 0, []⟩

/-- The pages that the collected changes of a table make dirty. -/
def planChanges (config : RowPageConfig) (base : Option RowTableRoot) (table : String)
    (columnCount : ℕ) (changes : PlannedChanges) : Except RowPageError TablePlan :=
  match base.filter (!·.pages.isEmpty) with
  | some root => do
    let groups ← groupChanges config table root changes.entries none .empty
    planGroups config columnCount (groups.entries.map Prod.snd) (startPlan base)
  | none =>
    if changes.entries.isEmpty then .ok (startPlan base)
    else do
      let (rows, _) ← applyChanges [] changes
      packInto config columnCount none rows (startPlan base)

/-- `plan_table`. -/
def planTable (config : RowPageConfig) (base : Option RowTableRoot) (table : String)
    (columnCount : ℕ) (changes : List RelationalRowChange) : Except RowPageError TablePlan :=
  if table.isEmpty ∨ table.utf8ByteSize > config.maxTableNameBytes then
    .error (.admission (s!"row-page mutation table name contains {table.utf8ByteSize} bytes, " ++
      "outside admitted range"))
  else if columnCount = 0 ∨ columnCount > config.maxColumns then
    .error (.admission s!"row-page mutation column count {columnCount} is outside admitted range")
  else do
    let changes ← collectChanges config table changes .empty
    let plan ← planChanges config base table columnCount changes
    .ok { plan with dirtyPages := plan.dirtyPages.mergeSort pageLE }

end RowPageMutation

end HawDB
