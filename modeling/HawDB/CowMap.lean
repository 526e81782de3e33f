import HawDB.OrderedMap
import HawDB.Machine

/-!
# Copy-on-write segmented maps

The map keeps its entries in pages, in key order. A page caches the weight of its entries and the
epoch bounds of its stamps, and may hold a history lease; editing a page drops the bounds. A page
that something else still points at is copied before an edit, and the copy has no lease: `shared`
tells which pages those are, by position.
-/

namespace HawDB

class CowPageWeight (α : Type*) where
  cowPageBytes : α → ℕ
  deltaPressureBytes : α → ℕ := fun _ => 0

open CowPageWeight

/-- `COW_MAP_MAX_SEGMENT_ENTRIES`. -/
def cowMapMaxSegmentEntries : ℕ := 512

/-- `COW_MAP_TARGET_SEGMENT_BYTES`. -/
def cowMapTargetSegmentBytes : ℕ := 128 * 1024

/-- `4 * size_of::<usize>()`. -/
def cowMapEntryOverhead : ℕ := 32

structure CowMapPage (K V : Type*) [Ord K] where
  entries : OrdMap K V
  bytes : Option ℕ
  epochBounds : Option (ℕ × ℕ)
  historyLease : Option ℕ

structure CowSegmentedMap (K V : Type*) [Ord K] where
  segments : List (CowMapPage K V)
  len : ℕ
  deltaPressureBytes : ℕ

section

variable {K V : Type*} [CowPageWeight K] [CowPageWeight V]

/-- The weight of an entry's key and value. -/
def entryPayload (e : K × V) : ℕ := cowPageBytes e.1 + cowPageBytes e.2

def cowMapEntryBytes (e : K × V) : ℕ :=
  satAdd (satAdd cowMapEntryOverhead (cowPageBytes e.1)) (cowPageBytes e.2)

def entriesPressure (l : List (K × V)) : ℕ := (l.map fun e => deltaPressureBytes e.2).sum

end

namespace CowMapPage

variable {K V : Type*} [Ord K]

def ofEntries (entries : OrdMap K V) : CowMapPage K V := ⟨entries, none, none, none⟩

/-- The page to edit: the page itself, or its copy. -/
def detach (page : CowMapPage K V) (shared : Bool) : CowMapPage K V :=
  if shared then { page with historyLease := none } else page

variable [CowPageWeight K] [CowPageWeight V]

/-- What `payload_bytes` computes when it has no cached value. -/
def recomputedBytes (page : CowMapPage K V) : ℕ := (page.entries.entries.map entryPayload).sum

def payloadBytes (page : CowMapPage K V) : ℕ := page.bytes.getD page.recomputedBytes

def estimatedBytes (page : CowMapPage K V) : ℕ :=
  page.payloadBytes + page.entries.entries.length * cowMapEntryOverhead

def remove (page : CowMapPage K V) (key : K) : Option V × CowMapPage K V :=
  let removedBytes := ((findEntry key page.entries.entries).map entryPayload).getD 0
  (page.entries.get key,
    { page with
      entries := page.entries.remove key
      bytes := some (page.payloadBytes - removedBytes)
      epochBounds := none })

/-- The entries below the key stay, the others go to a new page. -/
def splitOff (page : CowMapPage K V) (key : K) : CowMapPage K V × CowMapPage K V :=
  let right := ofEntries (page.entries.filter fun e => !(compare e.1 key).isLT)
  ({ page with
      entries := page.entries.filter fun e => (compare e.1 key).isLT
      bytes := some (page.payloadBytes - right.payloadBytes)
      epochBounds := none },
    { right with bytes := some right.payloadBytes })

/-- The scan of `split_oversized_segment` for the first key of the right page. -/
def splitScan (splitAfterBytes : ℕ) : ℕ → ℕ → List (K × V) → Option K
  | _, _, [] => none
  | entryIndex, bytes, e :: l =>
    if 0 < entryIndex ∧
        (splitAfterBytes ≤ bytes ∨ cowMapMaxSegmentEntries / 2 ≤ entryIndex) then some e.1
    else splitScan splitAfterBytes (entryIndex + 1) (bytes + cowMapEntryBytes e) l

def splitKey (page : CowMapPage K V) : Option K :=
  (splitScan (page.estimatedBytes / 2) 0 0 page.entries.entries).or
    (page.entries.entries[page.entries.entries.length / 2]?.map Prod.fst)

/-- `split_oversized_segment` on the page itself: the page, its weight cached, or its two parts. -/
def splitOversized (page : CowMapPage K V) : CowMapPage K V × Option (CowMapPage K V) :=
  let count := page.entries.entries.length
  let page := { page with bytes := some page.payloadBytes }
  if count ≤ 1 ∨
      count ≤ cowMapMaxSegmentEntries ∧ page.estimatedBytes ≤ cowMapTargetSegmentBytes then
    (page, none)
  else
    match page.splitKey with
    | some key => ((page.splitOff key).1, some (page.splitOff key).2)
    | none => (page, none)

/-- A guard of `get_mut` from its creation to its drop, with `f` done to the value meanwhile. -/
def editValue (page : CowMapPage K V) (key : K) (f : V → V) : CowMapPage K V :=
  let previousEntryBytes := ((findEntry key page.entries.entries).map entryPayload).getD 0
  let entryBytes :=
    ((findEntry key page.entries.entries).map fun e => entryPayload (e.1, f e.2)).getD 0
  { page with
    entries := page.entries.update key f
    bytes := some (page.payloadBytes - previousEntryBytes + entryBytes)
    epochBounds := none }

variable [Std.TransOrd K]

def insert (page : CowMapPage K V) (key : K) (value : V) : Option V × CowMapPage K V :=
  let stored := findEntry key page.entries.entries
  let before := (stored.map entryPayload).getD 0
  let after := (stored.map fun e => entryPayload (e.1, value)).getD (entryPayload (key, value))
  (page.entries.get key,
    { page with
      entries := page.entries.insert key value
      bytes := some (page.payloadBytes - before + after)
      epochBounds := none })

end CowMapPage

/-- `partition_point`, on a list whose elements with the property come first. -/
def partitionPoint {α : Type*} (p : α → Bool) (l : List α) : ℕ := (l.takeWhile p).length

namespace CowSegmentedMap

variable {K V : Type*} [Ord K]

/-- `Default`. -/
def empty : CowSegmentedMap K V := ⟨[], 0, 0⟩

section

variable (m : CowSegmentedMap K V)

def lastKey (p : K → Bool) (page : CowMapPage K V) : Bool :=
  page.entries.entries.getLast?.any fun e => p e.1

def firstKey (p : K → Bool) (page : CowMapPage K V) : Bool :=
  page.entries.entries.head?.any fun e => p e.1

def segmentIndex (key : K) : Option ℕ :=
  if m.segments = [] then none
  else
    let index := partitionPoint (lastKey fun last => (compare last key).isLT) m.segments
    some (min index (m.segments.length - 1))

def segmentFor (key : K) : Option (ℕ × CowMapPage K V) :=
  (m.segmentIndex key).bind fun index => m.segments[index]?.map fun page => (index, page)

def get (key : K) : Option V := (m.segmentFor key).bind fun (_, page) => page.entries.get key

def containsKey (key : K) : Bool := (m.get key).isSome

def iter : List (K × V) := m.segments.flatMap fun page => page.entries.entries

def iterAfter (after : Option K) : List (K × V) :=
  let start := (after.bind m.segmentIndex).getD 0
  (m.segments.drop start).flatMap fun page => page.entries.iterAfter after

/-- `range`; without a result where the code panics. -/
def range (first last : K) : Option (List (K × V)) :=
  if (compare first last).isLE then
    let start := partitionPoint (lastKey fun key => (compare key first).isLT) m.segments
    let stop := partitionPoint (firstKey fun key => (compare key last).isLE) m.segments
    some (((m.segments.take stop).drop start).flatMap fun page =>
      (page.entries.range first last).getD [])
  else none

def firstAfter (lower : Option K) : Option (K × V) :=
  let start := (lower.map fun lower =>
    partitionPoint (lastKey fun key => (compare key lower).isLE) m.segments).getD 0
  (m.segments.drop start).findSome? fun page => (page.entries.iterAfter lower).head?

end

variable [CowPageWeight K] [CowPageWeight V]

/-- Puts a page, split when it has grown too large, in place of the one at a position. -/
def putSplit (segments : List (CowMapPage K V)) (index : ℕ) (page : CowMapPage K V) :
    List (CowMapPage K V) :=
  match page.splitOversized with
  | (left, some right) => (segments.set index left).insertIdx (index + 1) right
  | (left, none) => segments.set index left

def rebalanceKey (m : CowSegmentedMap K V) (shared : ℕ → Bool) (key : K) : CowSegmentedMap K V :=
  match m.segmentFor key with
  | none => m
  | some (index, page) =>
    { m with segments := putSplit m.segments index (page.detach (shared index)) }

/-- `get_mut`, with `f` done to the value before the guard is dropped. Gives the value found. -/
def getMut (m : CowSegmentedMap K V) (shared : ℕ → Bool) (key : K) (f : V → V) :
    Option V × CowSegmentedMap K V :=
  match m.segmentFor key with
  | none => (none, m)
  | some (index, page) =>
    match page.entries.get key with
    | none => (none, m)
    | some value =>
      (some value,
        { m with
          segments := m.segments.set index ((page.detach (shared index)).editValue key f)
          deltaPressureBytes :=
            m.deltaPressureBytes - CowPageWeight.deltaPressureBytes value +
              CowPageWeight.deltaPressureBytes (f value) })

def remove (m : CowSegmentedMap K V) (shared : ℕ → Bool) (key : K) :
    Option V × CowSegmentedMap K V :=
  match m.segmentFor key with
  | none => (none, m)
  | some (index, page) =>
    match page.entries.get key with
    | none => (none, m)
    | some value =>
      let page := ((page.detach (shared index)).remove key).2
      (some value,
        { segments :=
            if page.entries.entries = [] then m.segments.eraseIdx index
            else m.segments.set index page
          len := m.len - 1
          deltaPressureBytes := m.deltaPressureBytes - CowPageWeight.deltaPressureBytes value })

/-- The loop of `retain` over the pages, from a position on. -/
def retainLoop {σ : Type*} (shared : ℕ → Bool) (keep : σ → K → V → σ × V × Bool) :
    ℕ → σ → List (CowMapPage K V) → ℕ × ℕ → σ × List (CowMapPage K V) × ℕ × ℕ
  | _, s, [], (len, pressure) => (s, [], len, pressure)
  | index, s, page :: pages, (len, pressure) =>
    let (s, entries) := page.entries.retain keep s
    let len := len - page.entries.entries.length + entries.entries.length
    let pressure :=
      pressure - entriesPressure page.entries.entries + entriesPressure entries.entries
    let page := { page.detach (shared index) with entries, bytes := none, epochBounds := none }
    let (s, pages, len, pressure) := retainLoop shared keep (index + 1) s pages (len, pressure)
    (s, page :: pages, len, pressure)

def retain {σ : Type*} (m : CowSegmentedMap K V) (shared : ℕ → Bool)
    (keep : σ → K → V → σ × V × Bool) (s : σ) : σ × CowSegmentedMap K V :=
  let (s, segments, len, deltaPressureBytes) :=
    retainLoop shared keep 0 s m.segments (m.len, m.deltaPressureBytes)
  (s, ⟨segments.filter fun page => page.entries.entries ≠ [], len, deltaPressureBytes⟩)

variable [Std.TransOrd K]

def insert (m : CowSegmentedMap K V) (shared : ℕ → Bool) (key : K) (value : V) :
    Option V × CowSegmentedMap K V :=
  match m.segmentFor key with
  | none =>
    (none, ⟨[.ofEntries (OrdMap.empty.insert key value)], 1,
      CowPageWeight.deltaPressureBytes value⟩)
  | some (index, page) =>
    let (previous, page) := (page.detach (shared index)).insert key value
    (previous,
      { segments := putSplit m.segments index page
        len := if previous.isNone then m.len + 1 else m.len
        deltaPressureBytes :=
          m.deltaPressureBytes - (previous.map CowPageWeight.deltaPressureBytes).getD 0 +
            CowPageWeight.deltaPressureBytes value })

/-- `entry_or_default`, with `f` done to the value before the guard is dropped. The second sharing
is the one after a default has been inserted. -/
def entryOrDefault [Inhabited V] (m : CowSegmentedMap K V) (shared shared' : ℕ → Bool) (key : K)
    (f : V → V) : Option V × CowSegmentedMap K V :=
  if m.containsKey key then m.getMut shared key f
  else (m.insert shared key default).2.getMut shared' key f

/-- The loop of `from_ordered_entries`: the entries left, the open segment and its weight. -/
def fromOrderedLoop : List (K × V) → OrdMap K V → ℕ → List (CowMapPage K V)
  | [], segment, _ => if segment.entries = [] then [] else [.ofEntries segment]
  | e :: rest, segment, segmentBytes =>
    let entryBytes := cowMapEntryBytes e
    if segment.entries ≠ [] ∧ (cowMapMaxSegmentEntries ≤ segment.entries.length ∨
        cowMapTargetSegmentBytes < satAdd segmentBytes entryBytes) then
      .ofEntries segment :: fromOrderedLoop rest (OrdMap.empty.insert e.1 e.2) (satAdd 0 entryBytes)
    else fromOrderedLoop rest (segment.insert e.1 e.2) (satAdd segmentBytes entryBytes)

/-- `From<BTreeMap>`. -/
def ofOrdMap (values : OrdMap K V) : CowSegmentedMap K V where
  segments := fromOrderedLoop values.entries OrdMap.empty 0
  len := values.entries.length
  deltaPressureBytes := entriesPressure values.entries

end CowSegmentedMap

end HawDB
