import HawDB.RowPage
import Mathlib.Data.List.MinMax

/-!
# Snapshot reads of a row-page view

A view is a base root, at most one recovery delta and a chain of live batches, the newest first. A
point read takes the first of them that has the key; a range read runs the streaming overlay over
delta and batches and merges it with a cursor over the pages (`readPages`).

Visitors of a range read always continue. Overflow values are not hydrated.
-/

namespace HawDB

/-- The requested fields of a row, each with its ordinal. -/
abbrev ProjectedRow := List (ℕ × RelationalValue)

def validateFieldsLoop (columnCount : ℕ) : Option ℕ → List ℕ → Except RowPageError Unit
  | _, [] => .ok ()
  | previous, field :: fields =>
    if columnCount ≤ field then
      .error (.admission s!"requested field {field} is outside column count {columnCount}")
    else if previous.any (field ≤ ·) then
      .error (.admission "requested fields must be strictly increasing")
    else validateFieldsLoop columnCount (some field) fields

def validateRequestedFields (limits : RowPageLimits) (columnCount : ℕ) (fields : List ℕ) :
    Except RowPageError Unit :=
  if fields.length > limits.maxRequestedFields then
    .error (.admission (s!"requested {fields.length} fields, " ++
      s!"exceeding limit {limits.maxRequestedFields}"))
  else validateFieldsLoop columnCount none fields

/-- The loop of `decode_row_fields` over the values that are left, with the requested fields that
are left. -/
def decodeFieldsLoop : ℕ → List ℕ → RelationalRow → ProjectedRow
  | _, _, [] => []
  | _, [], _ => []
  | ordinal, field :: fields, value :: row =>
    if field = ordinal then (ordinal, value) :: decodeFieldsLoop (ordinal + 1) fields row
    else decodeFieldsLoop (ordinal + 1) (field :: fields) row

/-- `decode_row_fields`, with requested fields. -/
def decodeRowFields (columnCount : ℕ) (fields : List ℕ) (row : RelationalRow) :
    Except RowPageError ProjectedRow :=
  if row.length ≠ columnCount then
    .error (.corrupt s!"row declares {row.length} values, expected {columnCount}")
  else .ok (decodeFieldsLoop 0 fields row)

/-- The requested fields, by index; they are in range whenever a row is projected. -/
def projectFields (fields : List ℕ) (row : RelationalRow) : ProjectedRow :=
  fields.map fun field => (field, row.getD field .null)

/-- `validate_overlay_row` and `project_overlay_value`, on a row or a deletion. -/
def projectOverlayValue (columnCount : ℕ) (fields : List ℕ) :
    Option RelationalRow → Except RowPageError (Option ProjectedRow)
  | none => .ok none
  | some row =>
    if row.length ≠ columnCount then
      .error (.corrupt s!"overlay row contains {row.length} columns, expected {columnCount}")
    else .ok (some (projectFields fields row))

/-- `decode_projected_value` of the delta. -/
def decodeProjectedValue (columnCount : ℕ) (fields : List ℕ) :
    Option RelationalRow → Except RowPageError (Option ProjectedRow)
  | none => .ok none
  | some row => (decodeRowFields columnCount fields row).map some

abbrev RowChangeEntry := OverlayEntry RelationalKey (Option RelationalRow)

def compareChange (change : RelationalRowChange) (table : String) (key : RelationalKey) :
    Ordering :=
  (compare change.table table).then (compare change.primaryKey key)

structure LiveBatch where
  commitEpoch : ℕ
  changes : List RelationalRowChange
  sorted : changes.Pairwise fun a b => compareChange a b.table b.primaryKey = .lt

namespace LiveBatch

/-- The binary search for a change, by what it finds. -/
def overlayValue (batch : LiveBatch) (table : String) (key : RelationalKey) :
    Option (Option RelationalRow) :=
  (batch.changes.find? fun change => compareChange change table key = .eq).map (·.row)

/-- A change comes before a range of a table. -/
def precedes (table : String) (lower : KeyBound) (change : RelationalRowChange) : Bool :=
  match compare change.table table with
  | .lt => true
  | .gt => false
  | .eq => keyPrecedesLower change.primaryKey lower

/-- A change does not come after a range of a table. -/
def reaches (table : String) (upper : KeyBound) (change : RelationalRowChange) : Bool :=
  match compare change.table table with
  | .lt => true
  | .gt => false
  | .eq => !keyExceedsUpper change.primaryKey upper

/-- `range_cursor`: the changes between the two partition points. -/
def rangeEntries (batch : LiveBatch) (table : String) (lower upper : KeyBound) :
    List RowChangeEntry :=
  ((batch.changes.dropWhile (precedes table lower)).takeWhile (reaches table upper)).map
    fun change => ⟨change.primaryKey, batch.commitEpoch, change.row⟩

def changesOf (batch : LiveBatch) (table : String) : List RowChangeEntry :=
  (batch.changes.filter (·.table = table)).map
    fun change => ⟨change.primaryKey, batch.commitEpoch, change.row⟩

end LiveBatch

def RowDeltaReader.changeOf (entry : RowDeltaEntry) : Option RowChangeEntry :=
  (decodeOrderedRelationalKey entry.1.encodedPrimaryKey).toOption.map fun key =>
    ⟨key, entry.2.lastModifiedEpoch, entry.2.row⟩

def RowDeltaReader.changesOf (reader : RowDeltaReader) (table : String) : List RowChangeEntry :=
  reader.runs.flatMap fun run =>
    (run.entries.entries.filter fun entry =>
      reader.context.tableOrdinal table = some entry.1.tableOrdinal).filterMap changeOf

/-- What the reader of a delta has checked when it opened it. -/
structure RowDeltaReader.Opened (reader : RowDeltaReader) : Prop where
  entries : ∀ run ∈ reader.runs, ∀ entry ∈ run.entries.entries,
    entry.1.tableOrdinal < reader.context.tables.length ∧
      IsKeyBytes entry.1.encodedPrimaryKey ∧
      reader.context.baseCommitEpoch < entry.2.lastModifiedEpoch ∧
      entry.2.lastModifiedEpoch ≤ reader.visibleCommitEpoch
  epochs : reader.runs.Pairwise fun run later => ∀ entry ∈ run.entries.entries,
    ∀ entry' ∈ later.entries.entries, entry.2.lastModifiedEpoch ≤ entry'.2.lastModifiedEpoch

structure RowPageView where
  limits : RowPageLimits
  base : OrdMap String RowTableRoot
  baseCommitEpoch : ℕ
  delta : Option RowDeltaReader
  live : List LiveBatch
  visibleCommitEpoch : ℕ
  deltaOpened : ∀ reader ∈ delta, reader.Opened ∧ reader.context.baseCommitEpoch = baseCommitEpoch ∧
    reader.visibleCommitEpoch ≤ visibleCommitEpoch ∧
    ∀ table ∈ reader.context.tables, ∀ root, base.get table.table = some root →
      table.columnCount = root.columnCount
  liveEpochs : live.Pairwise fun batch older => older.commitEpoch < batch.commitEpoch
  liveFloor : ∀ batch ∈ live, baseCommitEpoch < batch.commitEpoch ∧
    batch.commitEpoch ≤ visibleCommitEpoch ∧
    ∀ reader ∈ delta, reader.visibleCommitEpoch < batch.commitEpoch

namespace RowPageView

variable (view : RowPageView)

def tableRoot (table : String) : Except RowPageError RowTableRoot :=
  match view.base.get table with
  | none => .error (.missingTable table)
  | some root => .ok root

/-! ### The map of newest rows -/

def deltaChanges (table : String) : List RowChangeEntry :=
  match view.delta with
  | none => []
  | some reader => reader.changesOf table

def changes (table : String) : List RowChangeEntry :=
  view.deltaChanges table ++ view.live.flatMap (·.changesOf table)

def baseRow (table : String) (key : RelationalKey) : Option RelationalRow :=
  (view.base.get table).bind fun root =>
    (root.rows.find? fun entry => match decodeOrderedRelationalKey entry.1 with
      | .ok candidate => compare candidate key = .eq
      | .error _ => false).map Prod.snd

/-- The newest row of a key: its change of greatest epoch, or its row in the base. -/
def rowAt (table : String) (key : RelationalKey) : Option RelationalRow :=
  match ((view.changes table).filter fun change => compare change.key key = .eq).argmax (·.epoch)
  with
  | some change => change.value
  | none => view.baseRow table key

def NoKeyTwiceAtEpoch : Prop :=
  ∀ table, (view.changes table).Pairwise fun a b =>
    compare a.key b.key = .eq → a.epoch ≠ b.epoch

/-! ### Point reads -/

/-- `overlay_value`: the newest live batch that has the key, or else the delta. -/
def overlayValue (table : String) (key : RelationalKey) :
    Except RowPageError (Option (Option RelationalRow)) :=
  match view.live.findSome? (·.overlayValue table key) with
  | some value => .ok (some value)
  | none =>
    match view.delta with
    | none => .ok none
    | some reader => reader.lookup table key

def validateColumnCount (table : String) (root : RowTableRoot) (page : RowPage) :
    Except RowPageError Unit :=
  if page.columnCount ≠ root.columnCount then
    .error (.corrupt (s!"table {table} binds {root.columnCount} columns " ++
      s!"but page {page.pageId} contains {page.columnCount}"))
  else .ok ()

/-- The row of an encoded key in a page that was read. -/
def pageRow (page : RowPage) (fields : List ℕ) (encoded : Bytes) :
    Except RowPageError (Option ProjectedRow) := do
  match ← page.findRowEncoded view.limits encoded with
  | none => .ok none
  | some entry => (decodeRowFields page.columnCount fields entry.2).map some

/-- The page whose bounds contain an encoded key. -/
def pageContaining (root : RowTableRoot) (encoded : Bytes) :
    Except RowPageError (Option (ℕ × RowPage)) := do
  match ← root.findTablePage view.limits encoded with
  | none => .ok none
  | some ordinal =>
    match root.pages[ordinal]? with
    | none => .error (.corrupt "row-page descriptor search did not select a page")
    | some page =>
      if compare encoded page.lowerBound = .lt ∨ compare encoded page.upperBound = .gt then
        .ok none
      else .ok (some (ordinal, page))

def encodeKey (key : RelationalKey) : Except RowPageError Bytes :=
  match encodeOrderedRelationalKey key with
  | .error e => .error (.orderedKey "" e)
  | .ok encoded => .ok encoded

def basePoint (table : String) (key : RelationalKey) (fields : List ℕ) :
    Except RowPageError (Option ProjectedRow) := do
  let root ← view.tableRoot table
  validateRequestedFields view.limits root.columnCount fields
  let encoded ← encodeKey key
  match ← view.pageContaining root encoded with
  | none => .ok none
  | some (_, page) => do
    validateColumnCount table root page
    view.pageRow page fields encoded

/-- `point_projected`. -/
def point (table : String) (key : RelationalKey) (fields : List ℕ) :
    Except RowPageError (Option ProjectedRow) := do
  match ← view.overlayValue table key with
  | some value =>
    let root ← view.tableRoot table
    validateRequestedFields view.limits root.columnCount fields
    projectOverlayValue root.columnCount fields value
  | none => view.basePoint table key fields

/-! ### Multi-point reads -/

abbrev PageGroup := List (Bytes × RelationalKey)

/-- `encoded_keys`: the keys by their encodings, the first of equal ones. -/
def encodeKeys : List RelationalKey → OrdMap Bytes RelationalKey →
    Except RowPageError (OrdMap Bytes RelationalKey)
  | [], encodedKeys => .ok encodedKeys
  | key :: keys, encodedKeys => do
    let encoded ← encodeKey key
    encodeKeys keys (match encodedKeys.get encoded with
      | some _ => encodedKeys
      | none => encodedKeys.insert encoded key)

/-- The keys that are inside a page, by the ordinal of the page. -/
def groupKeys (root : RowTableRoot) : PageGroup → OrdMap ℕ PageGroup →
    Except RowPageError (OrdMap ℕ PageGroup)
  | [], groups => .ok groups
  | (encoded, key) :: keys, groups => do
    match ← view.pageContaining root encoded with
    | none => groupKeys root keys groups
    | some (ordinal, _) =>
      groupKeys root keys (groups.insert ordinal ((groups.get ordinal).getD [] ++ [(encoded, key)]))

def readGroup (page : RowPage) (fields : List ℕ) :
    PageGroup → OrdMap RelationalKey ProjectedRow →
      Except RowPageError (OrdMap RelationalKey ProjectedRow)
  | [], rows => .ok rows
  | (encoded, key) :: keys, rows => do
    match ← view.pageRow page fields encoded with
    | none => readGroup page fields keys rows
    | some row => readGroup page fields keys (rows.insert key row)

def readGroups (table : String) (root : RowTableRoot) (fields : List ℕ) :
    List (ℕ × PageGroup) → OrdMap RelationalKey ProjectedRow →
      Except RowPageError (OrdMap RelationalKey ProjectedRow)
  | [], rows => .ok rows
  | (ordinal, keys) :: groups, rows =>
    match root.pages[ordinal]? with
    | none => .error (.corrupt "row-page descriptor search did not select a page")
    | some page => do
      validateColumnCount table root page
      let rows ← view.readGroup page fields keys rows
      readGroups table root fields groups rows

/-- The multi-point read of the base. -/
def basePoints (table : String) (keys : List RelationalKey) (fields : List ℕ) :
    Except RowPageError (OrdMap RelationalKey ProjectedRow) := do
  let root ← view.tableRoot table
  validateRequestedFields view.limits root.columnCount fields
  let encodedKeys ← encodeKeys keys .empty
  let groups ← view.groupKeys root encodedKeys.entries .empty
  view.readGroups table root fields groups.entries .empty

/-- The loop over the keys of a multi-point read: the rows of the overlay, and the keys that are
left to the base. -/
def overlayPoints (table : String) (columnCount : ℕ) (fields : List ℕ) :
    List RelationalKey → OrdMap RelationalKey ProjectedRow → List RelationalKey →
      Except RowPageError (OrdMap RelationalKey ProjectedRow × List RelationalKey)
  | [], rows, baseKeys => .ok (rows, baseKeys)
  | key :: keys, rows, baseKeys => do
    match ← view.overlayValue table key with
    | none => overlayPoints table columnCount fields keys rows (baseKeys ++ [key])
    | some value =>
      match ← projectOverlayValue columnCount fields value with
      | none => overlayPoints table columnCount fields keys rows baseKeys
      | some row => overlayPoints table columnCount fields keys (rows.insert key row) baseKeys

/-- `points_projected_fields`. -/
def points (table : String) (keys : List RelationalKey) (fields : List ℕ) :
    Except RowPageError (OrdMap RelationalKey ProjectedRow) := do
  let root ← view.tableRoot table
  validateRequestedFields view.limits root.columnCount fields
  let keys := (OrdMap.ofList (keys.map (·, ()))).entries.map Prod.fst
  let (rows, baseKeys) ← view.overlayPoints table root.columnCount fields keys .empty []
  if baseKeys.isEmpty then .ok rows
  else
    let baseRows ← view.basePoints table baseKeys fields
    .ok (baseRows.entries.foldl (fun rows entry => rows.insert entry.1 entry.2) rows)

/-! ### Range reads -/

abbrev OverlayCursor := StreamingOverlayCursor RelationalKey (Option ProjectedRow)

abbrev EmittedRow := RelationalKey × ProjectedRow

/-- `emit_overlay_row`: a deletion emits nothing. -/
def emitOverlayRow : RelationalKey × Option ProjectedRow → Option EmittedRow
  | (key, value) => value.map (key, ·)

/-- `emit_remaining_overlay`. -/
def emitRemainingOverlay (overlay : OverlayCursor) : Except RowPageError (List EmittedRow) :=
  overlay.collect.map (·.filterMap emitOverlayRow)

/-- `emit_overlay_before`: the rows of the overlay below a key of the base. -/
def emitOverlayBefore (overlay : OverlayCursor) (baseKey : RelationalKey) :
    Except RowPageError (List EmittedRow × OverlayCursor) :=
  match hpeek : overlay.peekKey with
  | .error e => .error e
  | .ok (none, peeked) => .ok ([], peeked)
  | .ok (some key, peeked) =>
    if compare key baseKey = .lt then
      match hnext : peeked.nextProjected with
      | .error e => .error e
      | .ok (none, _) => .error (.corrupt "overlay cursor lost a peeked row")
      | .ok (some row, next) =>
        (emitOverlayBefore next baseKey).map fun (rows, final) =>
          ((emitOverlayRow row).toList ++ rows, final)
    else .ok ([], peeked)
termination_by overlay.pending
decreasing_by
  have := StreamingOverlayCursor.pending_peekKey hpeek
  have := StreamingOverlayCursor.pending_nextProjected hnext
  omega

def peekPrimaryKey (entry : RowPageEntry) : Except RowPageError RelationalKey :=
  match decodeOrderedRelationalKey entry.1 with
  | .error e => .error (.orderedKey "row primary key" e)
  | .ok key => .ok key

/-- `next_row` of a page cursor. -/
def nextBaseRow (page : RowPage) (fields : List ℕ) (entry : RowPageEntry) :
    Except RowPageError EmittedRow := do
  let key ← peekPrimaryKey entry
  let row ← decodeRowFields page.columnCount fields entry.2
  .ok (key, row)

/-- The rows that are emitted at one row of a page: those of the overlay below it, and the row, or
the row of the overlay in its place. -/
def rowStep (page : RowPage) (fields : List ℕ) (hasOverlay : Bool) (entry : RowPageEntry)
    (overlay : OverlayCursor) : Except RowPageError (List EmittedRow × OverlayCursor) :=
  if hasOverlay then do
    let key ← peekPrimaryKey entry
    let (before, overlay) ← emitOverlayBefore overlay key
    let (peeked, overlay) ← overlay.peekKey
    if peeked.any (compare · key = .eq) then
      match ← overlay.nextProjected with
      | (none, _) => .error (.corrupt "overlay cursor lost a matching row")
      | (some row, overlay) => .ok (before ++ (emitOverlayRow row).toList, overlay)
    else
      let row ← nextBaseRow page fields entry
      .ok (before ++ [row], overlay)
  else do
    let row ← nextBaseRow page fields entry
    .ok ([row], overlay)

/-- The loop over the rows of a page; `next` goes on after its end. -/
def readRows (page : RowPage) (fields : List ℕ) (upper : EncodedBound) (hasOverlay : Bool)
    (next : OverlayCursor → Except RowPageError (List EmittedRow)) :
    List RowPageEntry → OverlayCursor → Except RowPageError (List EmittedRow)
  | [], overlay => next overlay
  | entry :: rows, overlay =>
    if upper.above entry.1 then emitRemainingOverlay overlay
    else do
      let (emitted, overlay) ← rowStep page fields hasOverlay entry overlay
      let rest ← readRows page fields upper hasOverlay next rows overlay
      .ok (emitted ++ rest)

/-- The first row of a page that is read; the lower bound is applied to one page only. -/
def rowStart (page : RowPage) (lower : KeyBound) (applyLowerBound : Bool) : Except RowPageError ℕ :=
  if applyLowerBound then
    match lower with
    | .unbounded => .ok 0
    | .included key => page.lowerBoundRow view.limits key true
    | .excluded key => page.lowerBoundRow view.limits key false
  else .ok 0

/-- The loop over the pages that are left; the lower bound is applied to the first of them. -/
def readPages (table : String) (root : RowTableRoot) (fields : List ℕ) (lower : KeyBound)
    (upper : EncodedBound) (hasOverlay : Bool) :
    List RowPage → Bool → OverlayCursor → Except RowPageError (List EmittedRow)
  | [], _, overlay => emitRemainingOverlay overlay
  | page :: pages, applyLowerBound, overlay =>
    if upper.above page.lowerBound then emitRemainingOverlay overlay
    else do
      validateColumnCount table root page
      let start ← view.rowStart page lower applyLowerBound
      validateRequestedFields view.limits page.columnCount fields
      readRows page fields upper hasOverlay
        (fun overlay => readPages table root fields lower upper hasOverlay pages false overlay)
        (page.rows.drop start) overlay

/-- The ordinal of the first page of a range. -/
def startOrdinal (root : RowTableRoot) (encodedLower : EncodedBound) :
    Except RowPageError (Option ℕ) :=
  match encodedLower with
  | none => .ok (some 0)
  | some (encoded, _) => do
    match ← root.findTablePage view.limits encoded with
    | none => .ok none
    | some ordinal =>
      match root.pages[ordinal]? with
      | none => .error (.corrupt "row-page descriptor search did not select a page")
      | some page =>
        if encodedLower.below page.upperBound then .ok (some (ordinal + 1))
        else .ok (some ordinal)

def encodeBound : KeyBound → Except RowPageError EncodedBound
  | .unbounded => .ok none
  | .included key => (encodeKey key).map fun encoded => some (encoded, true)
  | .excluded key => (encodeKey key).map fun encoded => some (encoded, false)

def projectEntry (project : Option RelationalRow → Except RowPageError (Option ProjectedRow))
    (entry : RowChangeEntry) :
    Except RowPageError (OverlayEntry RelationalKey (Option ProjectedRow)) := do
  let value ← project entry.value
  .ok ⟨entry.key, entry.epoch, value⟩

/-- The sources of the recovery runs, their rows projected. -/
def recoverySources (table : String) (lower upper : KeyBound) (fields : List ℕ) :
    Except RowPageError (List (List (OverlayEntry RelationalKey (Option ProjectedRow)))) :=
  match view.delta with
  | none => .ok []
  | some reader => do
    let sources ← reader.rangeSources table lower upper
    let columnCount := ((reader.context.tableOrdinal table).bind fun ordinal =>
      reader.context.tables[ordinal]?.map (·.columnCount)).getD 0
    sources.mapM (·.mapM (projectEntry (decodeProjectedValue columnCount fields)))

/-- The sources of the live batches, their rows projected. -/
def liveSources (table : String) (lower upper : KeyBound) (columnCount : ℕ) (fields : List ℕ) :
    Except RowPageError (List (List (OverlayEntry RelationalKey (Option ProjectedRow)))) :=
  ((view.live.map (·.rangeEntries table lower upper)).filter (!·.isEmpty)).mapM
    (·.mapM (projectEntry (projectOverlayValue columnCount fields)))

/-- The projected range read. -/
def range (table : String) (lower upper : KeyBound) (fields : List ℕ) :
    Except RowPageError (List EmittedRow) := do
  let root ← view.tableRoot table
  validateRequestedFields view.limits root.columnCount fields
  let recovery ← view.recoverySources table lower upper fields
  let live ← view.liveSources table lower upper root.columnCount fields
  let encodedLower ← encodeBound lower
  let encodedUpper ← encodeBound upper
  if EncodedBound.areEmpty encodedLower encodedUpper then .ok []
  else
    let overlay := StreamingOverlayCursor.new (recovery ++ live) view.baseCommitEpoch
      view.visibleCommitEpoch
    let (peeked, overlay) ← overlay.peekKey
    if root.pages.isEmpty then emitRemainingOverlay overlay
    else
      match ← view.startOrdinal root encodedLower with
      | none => emitRemainingOverlay overlay
      | some ordinal =>
        view.readPages table root fields lower encodedUpper peeked.isSome
          (root.pages.drop ordinal) encodedLower.isSome overlay

end RowPageView

end HawDB
