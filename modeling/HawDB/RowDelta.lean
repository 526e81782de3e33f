import HawDB.RowOverlay
import HawDB.OrderedMap
import HawDB.Proofs.RelationalOrder

/-!
# The recovery row delta

Recovery replays the row changes after a checkpoint into a sorted dirty map; when a change would
exceed the dirty limits, the map is flushed to an immutable run first (`insertChange`). A point
lookup takes the newest run that has the key (`lookupRuns`); a range read merges the runs with the
streaming overlay (`rangeRead`).

A row is kept as its values; the length of its encoding is a parameter of the configuration.
-/

namespace HawDB

/-- The values of a row, in column order. -/
abbrev RelationalRow := List RelationalValue

/-- A row to write, or a deletion. -/
structure RelationalRowChange where
  table : String
  primaryKey : RelationalKey
  row : Option RelationalRow
deriving DecidableEq

inductive RelationalRowChangeCapture where
  | captured (changes : List RelationalRowChange)
  | requiresCheckpoint (tables : List String)
  | invalidated (reason : String)

/-- `Bound<&RelationalKey>`. -/
inductive KeyBound where
  | unbounded
  | included (key : RelationalKey)
  | excluded (key : RelationalKey)

/-- `key_precedes_lower`. -/
def keyPrecedesLower (key : RelationalKey) : KeyBound → Bool
  | .unbounded => false
  | .included lower => compare key lower = .lt
  | .excluded lower => (compare key lower).isLE

/-- `key_exceeds_upper`. -/
def keyExceedsUpper (key : RelationalKey) : KeyBound → Bool
  | .unbounded => false
  | .included upper => compare key upper = .gt
  | .excluded upper => (compare key upper).isGE

def InRange (lower upper : KeyBound) (key : RelationalKey) : Prop :=
  keyPrecedesLower key lower = false ∧ keyExceedsUpper key upper = false

structure RowDeltaKey where
  tableOrdinal : ℕ
  encodedPrimaryKey : Bytes
deriving DecidableEq

instance : Ord RowDeltaKey where
  compare := compareLex (compareOn RowDeltaKey.tableOrdinal)
    (compareOn RowDeltaKey.encodedPrimaryKey)

instance : Std.TransOrd RowDeltaKey :=
  inferInstanceAs (Std.TransCmp (compareLex _ _))

instance : Std.LawfulEqOrd RowDeltaKey where
  eq_of_compare {a b} h := by
    obtain ⟨hordinal, hkey⟩ := Ordering.then_eq_eq.1 h
    cases a
    cases b
    rw [RowDeltaKey.mk.injEq]
    exact ⟨Std.LawfulEqOrd.eq_of_compare hordinal, Std.LawfulEqOrd.eq_of_compare hkey⟩

/-- A row to write, or a deletion, with the epoch that recorded it. -/
structure RowDeltaValue where
  row : Option RelationalRow
  lastModifiedEpoch : ℕ
  chargedBytes : ℕ
deriving DecidableEq

/-- A table of the delta, as far as lookups and changes read it. -/
structure RowDeltaTable where
  table : String
  columnCount : ℕ
deriving DecidableEq

structure RowDeltaConfig where
  maxDirtyEntries : ℕ
  maxDirtyBytes : ℕ
  maxRuns : ℕ
  maxKeyBytes : ℕ
  /-- The length of a row's encoding in a table of so many columns. -/
  rowLen : ℕ → RelationalRow → Except RowPageError ℕ

/-- `charged_entry_bytes`, with `DIRTY_ENTRY_OVERHEAD_BYTES` and `ENTRY_DESCRIPTOR_BYTES`. -/
def chargedEntryBytes (keyBytes rowBytes : ℕ) : ℕ := 96 + 80 + keyBytes + rowBytes

abbrev RowDeltaEntry := RowDeltaKey × RowDeltaValue

/-- An immutable run: the entries that were dirty when it was flushed. -/
structure RowDeltaRun where
  entries : OrdMap RowDeltaKey RowDeltaValue
  nonempty : entries.entries ≠ []

namespace RowDeltaRun

def lowerBound (run : RowDeltaRun) : RowDeltaKey := (run.entries.entries.head run.nonempty).1

def upperBound (run : RowDeltaRun) : RowDeltaKey := (run.entries.entries.getLast run.nonempty).1

end RowDeltaRun

/-- What the lookups of a delta read. -/
structure RowDeltaContext where
  config : RowDeltaConfig
  tables : List RowDeltaTable
  tablesSorted : tables.Pairwise fun a b => compare a.table b.table = .lt
  baseCommitEpoch : ℕ

namespace RowDeltaContext

variable (context : RowDeltaContext)

/-- The binary search for a table, by what it finds. -/
def tableOrdinal (table : String) : Option ℕ :=
  context.tables.findIdx? fun candidate => compare candidate.table table = .eq

def encodeLookupKey (primaryKey : RelationalKey) : Except RowPageError Bytes :=
  match encodeOrderedRelationalKey primaryKey with
  | .error e => .error (.orderedKey "row delta lookup key cannot be encoded" e)
  | .ok encoded =>
    if encoded.length > context.config.maxKeyBytes then
      .error (.admission (s!"row delta lookup key contains {encoded.length} bytes, " ++
        s!"exceeding limit {context.config.maxKeyBytes}"))
    else .ok encoded

def decodeDeltaPrimaryKey (encoded : Bytes) : Except RowPageError RelationalKey :=
  match decodeOrderedRelationalKey encoded with
  | .error e => .error (.orderedKey "row delta primary key cannot be decoded" e)
  | .ok key => .ok key

/-- The visit of a run in `lookup_runs`, over the entries that are left. -/
def lookupEntries (table : String) (primaryKey : RelationalKey) :
    List RowDeltaEntry → Except RowPageError (Option (Option RelationalRow))
  | [] => .ok none
  | (key, value) :: entries => do
    match context.tables[key.tableOrdinal]? with
    | none => .error (.corrupt "invalid row delta entry descriptor")
    | some candidate =>
      let candidateKey ← decodeDeltaPrimaryKey key.encodedPrimaryKey
      match (compare candidate.table table).then (compare candidateKey primaryKey) with
      | .lt => lookupEntries table primaryKey entries
      | .eq => .ok (some value.row)
      | .gt => .ok none

/-- The loop of `lookup_runs` over the runs that are left, the newest first. -/
def lookupRunsLoop (table : String) (primaryKey : RelationalKey) (target : RowDeltaKey) :
    List RowDeltaRun → Except RowPageError (Option (Option RelationalRow))
  | [] => .ok none
  | run :: runs =>
    if compare target run.lowerBound = .lt ∨ compare target run.upperBound = .gt then
      lookupRunsLoop table primaryKey target runs
    else do
      match ← context.lookupEntries table primaryKey run.entries.entries with
      | some value => .ok (some value)
      | none => lookupRunsLoop table primaryKey target runs

/-- `lookup_runs_with_allocations`. -/
def lookupRuns (runs : List RowDeltaRun) (table : String) (primaryKey : RelationalKey) :
    Except RowPageError (Option (Option RelationalRow)) :=
  match context.tableOrdinal table with
  | none => .ok none
  | some ordinal => do
    let encoded ← context.encodeLookupKey primaryKey
    context.lookupRunsLoop table primaryKey ⟨ordinal, encoded⟩ runs.reverse

end RowDeltaContext

structure RowDeltaBuilder where
  context : RowDeltaContext
  visibleCommitEpoch : ℕ
  dirty : OrdMap RowDeltaKey RowDeltaValue
  dirtyBytes : ℕ
  runs : List RowDeltaRun

namespace RowDeltaBuilder

def new (context : RowDeltaContext) : RowDeltaBuilder :=
  ⟨context, context.baseCommitEpoch, .empty, 0, []⟩

def requireCurrentOrNextEpoch (builder : RowDeltaBuilder) (epoch : ℕ) : Except RowPageError Unit :=
  if epoch = builder.visibleCommitEpoch then .ok ()
  else
    let expected := builder.visibleCommitEpoch + 1
    if 2 ^ 64 ≤ expected then .error (.corrupt "row delta visible commit epoch overflow")
    else if epoch ≠ expected then
      .error (.corrupt s!"row delta epoch gap: expected {expected}, found {epoch}")
    else .ok ()

def encodeChange (builder : RowDeltaBuilder) (epoch : ℕ) (change : RelationalRowChange) :
    Except RowPageError RowDeltaEntry :=
  let config := builder.context.config
  match builder.context.tableOrdinal change.table with
  | none => .error (.corrupt s!"row delta change references unknown table {change.table}")
  | some ordinal =>
    match encodeOrderedRelationalKey change.primaryKey with
    | .error e => .error (.orderedKey "row delta primary key cannot be encoded" e)
    | .ok encoded =>
      if encoded.length > config.maxKeyBytes then
        .error (.admission (s!"row delta key contains {encoded.length} bytes, " ++
          s!"exceeding limit {config.maxKeyBytes}"))
      else do
        let columnCount := (builder.context.tables[ordinal]?.map (·.columnCount)).getD 0
        let rowBytes ← match change.row with
          | some row => config.rowLen columnCount row
          | none => .ok 0
        .ok (⟨ordinal, encoded⟩, ⟨change.row, epoch, chargedEntryBytes encoded.length rowBytes⟩)

/-- `flush`: the dirty entries become a run. -/
def flush (builder : RowDeltaBuilder) : Except RowPageError RowDeltaBuilder :=
  if h : builder.dirty.entries = [] then .ok builder
  else if builder.context.config.maxRuns ≤ builder.runs.length then
    .error (.admission
      s!"row delta needs more than {builder.context.config.maxRuns} immutable runs")
  else .ok { builder with
    runs := builder.runs ++ [⟨builder.dirty, h⟩]
    dirty := .empty
    dirtyBytes := 0 }

def existingBytes (builder : RowDeltaBuilder) (key : RowDeltaKey) : ℕ :=
  ((builder.dirty.get key).map (·.chargedBytes)).getD 0

/-- The dirty map has to be flushed before an entry is inserted. -/
def exceedsDirtyLimits (builder : RowDeltaBuilder) (key : RowDeltaKey) (value : RowDeltaValue) :
    Bool :=
  let existingBytes := builder.existingBytes key
  let nextEntries := builder.dirty.entries.length + if existingBytes = 0 then 1 else 0
  let nextBytes := builder.dirtyBytes - existingBytes + value.chargedBytes
  builder.dirty.entries ≠ [] ∧ (nextEntries > builder.context.config.maxDirtyEntries ∨
    nextBytes > builder.context.config.maxDirtyBytes)

def insertChange (builder : RowDeltaBuilder) (entry : RowDeltaEntry) :
    Except RowPageError RowDeltaBuilder := do
  let (key, value) := entry
  let maxDirtyBytes := builder.context.config.maxDirtyBytes
  if value.chargedBytes > maxDirtyBytes then
    .error (.admission (s!"one row delta entry needs {value.chargedBytes} bytes, " ++
      s!"exceeding dirty limit {maxDirtyBytes}"))
  else
    let builder ← if builder.exceedsDirtyLimits key value then builder.flush else .ok builder
    .ok { builder with
      dirty := builder.dirty.insert key value
      dirtyBytes := builder.dirtyBytes - builder.existingBytes key + value.chargedBytes }

/-- The loop of `record`, over the changes that are left. -/
def recordChanges (epoch : ℕ) :
    List RelationalRowChange → RowDeltaBuilder → Except RowPageError RowDeltaBuilder
  | [], builder => .ok builder
  | change :: changes, builder => do
    recordChanges epoch changes (← builder.insertChange (← builder.encodeChange epoch change))

def record (builder : RowDeltaBuilder) (epoch : ℕ) (capture : RelationalRowChangeCapture) :
    Except RowPageError RowDeltaBuilder := do
  builder.requireCurrentOrNextEpoch epoch
  match capture with
  | .requiresCheckpoint tables => .error (.requiresCheckpoint tables)
  | .invalidated reason => .error (.invalidated reason)
  | .captured changes =>
    if epoch = builder.context.baseCommitEpoch ∧ changes ≠ [] then
      .error (.corrupt "row delta cannot apply changes at the immutable base epoch")
    else if changes.length > builder.context.config.maxDirtyEntries then
      .error (.admission (s!"row delta capture contains {changes.length} changes, " ++
        s!"exceeding limit {builder.context.config.maxDirtyEntries}"))
    else
      let builder ← recordChanges epoch changes builder
      .ok { builder with visibleCommitEpoch := epoch }

/-- A sequence of `record` calls, all of them accepted. -/
def recordAll : List (ℕ × RelationalRowChangeCapture) → RowDeltaBuilder →
    Except RowPageError RowDeltaBuilder
  | [], builder => .ok builder
  | (epoch, capture) :: calls, builder => do recordAll calls (← builder.record epoch capture)

def lookupStaged (builder : RowDeltaBuilder) (table : String) (primaryKey : RelationalKey) :
    Except RowPageError (Option (Option RelationalRow)) :=
  match builder.context.tableOrdinal table with
  | none => .ok none
  | some ordinal => do
    let encoded ← builder.context.encodeLookupKey primaryKey
    match builder.dirty.get ⟨ordinal, encoded⟩ with
    | some value => .ok (some value.row)
    | none => builder.context.lookupRuns builder.runs table primaryKey

end RowDeltaBuilder

/-- A published delta. -/
structure RowDeltaReader where
  context : RowDeltaContext
  visibleCommitEpoch : ℕ
  runs : List RowDeltaRun

/-- `finish`, as far as the runs go. -/
def RowDeltaBuilder.finish (builder : RowDeltaBuilder) : Except RowPageError RowDeltaReader := do
  let builder ← builder.flush
  .ok ⟨builder.context, builder.visibleCommitEpoch, builder.runs⟩

/-- A bound in encoded form: the key, and whether it is inside. -/
abbrev EncodedBound := Option (Bytes × Bool)

namespace EncodedBound

def below (lower : EncodedBound) (key : Bytes) : Bool :=
  lower.any fun (bound, inclusive) => compare key bound = .lt ∨ (!inclusive ∧ key = bound)

def above (upper : EncodedBound) (key : Bytes) : Bool :=
  upper.any fun (bound, inclusive) => compare key bound = .gt ∨ (!inclusive ∧ key = bound)

/-- `encoded_bounds_are_empty`. -/
def areEmpty : EncodedBound → EncodedBound → Bool
  | some (lower, lowerInclusive), some (upper, upperInclusive) =>
    compare lower upper = .gt ∨ (lower = upper ∧ !(lowerInclusive && upperInclusive))
  | _, _ => false

end EncodedBound

namespace RowDeltaReader

variable (reader : RowDeltaReader)

def lookup (table : String) (primaryKey : RelationalKey) :
    Except RowPageError (Option (Option RelationalRow)) :=
  reader.context.lookupRuns reader.runs table primaryKey

def encodeRangeKey (key : RelationalKey) (inclusive : Bool) : Except RowPageError EncodedBound :=
  match encodeOrderedRelationalKey key with
  | .error e => .error (.orderedKey "row delta range key cannot be encoded" e)
  | .ok encoded =>
    if encoded.length > reader.context.config.maxKeyBytes then
      .error (.admission (s!"row delta range key contains {encoded.length} bytes, " ++
        s!"exceeding limit {reader.context.config.maxKeyBytes}"))
    else .ok (some (encoded, inclusive))

def encodeRangeBound : KeyBound → Except RowPageError EncodedBound
  | .unbounded => .ok none
  | .included key => reader.encodeRangeKey key true
  | .excluded key => reader.encodeRangeKey key false

/-- `run_intersects_range`. -/
def runIntersectsRange (run : RowDeltaRun) (ordinal : ℕ) (lower upper : EncodedBound) : Bool :=
  if run.upperBound.tableOrdinal < ordinal ∨ ordinal < run.lowerBound.tableOrdinal then false
  else if run.upperBound.tableOrdinal = ordinal ∧ lower.below run.upperBound.encodedPrimaryKey then
    false
  else if run.lowerBound.tableOrdinal = ordinal ∧ upper.above run.lowerBound.encodedPrimaryKey then
    false
  else true

/-- The entries a range cursor of a run gives, one after another. -/
def runRangeEntries (ordinal : ℕ) (lower upper : EncodedBound) : List RowDeltaEntry →
    Except RowPageError (List (OverlayEntry RelationalKey (Option RelationalRow)))
  | [] => .ok []
  | (key, value) :: entries =>
    if key.tableOrdinal < ordinal then runRangeEntries ordinal lower upper entries
    else if ordinal < key.tableOrdinal then .ok []
    else if lower.below key.encodedPrimaryKey then runRangeEntries ordinal lower upper entries
    else if upper.above key.encodedPrimaryKey then .ok []
    else do
      let primaryKey ← RowDeltaContext.decodeDeltaPrimaryKey key.encodedPrimaryKey
      let rest ← runRangeEntries ordinal lower upper entries
      .ok (⟨primaryKey, value.lastModifiedEpoch, value.row⟩ :: rest)

/-- `range_sources`: a sorted source for each run that reaches into the range. -/
def rangeSources (table : String) (lower upper : KeyBound) :
    Except RowPageError (List (List (OverlayEntry RelationalKey (Option RelationalRow)))) :=
  match reader.context.tableOrdinal table with
  | none => .ok []
  | some ordinal => do
    let lower ← reader.encodeRangeBound lower
    let upper ← reader.encodeRangeBound upper
    if EncodedBound.areEmpty lower upper then .ok []
    else
      (reader.runs.filter fun run => runIntersectsRange run ordinal lower upper).mapM fun run =>
        runRangeEntries ordinal lower upper run.entries.entries

/-- The merged range read over the runs. -/
def rangeRead (table : String) (lower upper : KeyBound) :
    Except RowPageError (List (RelationalKey × Option RelationalRow)) := do
  let sources ← reader.rangeSources table lower upper
  (StreamingOverlayCursor.new sources reader.context.baseCommitEpoch
    reader.visibleCommitEpoch).collect

end RowDeltaReader

end HawDB
