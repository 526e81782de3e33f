import HawDB.ArcHeap
import HawDB.CowMap

/-!
# Segmented maps in shared memory

A handle on a segmented map owns its counts and shares its page directory, and through it the
pages, with the clones it was made from or into. Every operation makes the directory and the page
it edits the handle's own first. The other functions are those of `CowSegmentedMap`, page by page.
-/

namespace HawDB

/-- `Clone` for a page: a copy does not hold the page's history lease. -/
def CowMapPage.copy {K V : Type*} [Ord K] (page : CowMapPage K V) : CowMapPage K V :=
  { page with historyLease := none }

/-- The memory of all handles, and the entry count and the pressure each handle keeps. -/
structure CowStore (K V : Type*) [Ord K] where
  heap : ArcHeap (CowMapPage K V)
  counts : List (ℕ × ℕ)

namespace CowStore

variable {K V : Type*} [Ord K]

def view (s : CowStore K V) (i : ℕ) : CowSegmentedMap K V where
  segments := s.heap.contents i
  len := (s.counts.getD i (0, 0)).1
  deltaPressureBytes := (s.counts.getD i (0, 0)).2

def init : CowStore K V where
  heap := ⟨fun _ => .ofEntries OrdMap.empty, fun _ => [], 0, []⟩
  counts := []

variable [CowPageWeight K] [CowPageWeight V]

/-- Edits a page and splits it when it has grown too large. -/
def editSplit (heap : ArcHeap (CowMapPage K V)) (i index : ℕ) (page : CowMapPage K V)
    (edit : CowMapPage K V → CowMapPage K V) : ArcHeap (CowMapPage K V) :=
  let heap := (heap.makeDirMut i).cellMut CowMapPage.copy i index
    fun page => (edit page).splitOversized.1
  match (edit page).splitOversized.2 with
  | some right => heap.insertCell i (index + 1) right
  | none => heap

def rebalanceKey (s : CowStore K V) (i : ℕ) (key : K) : CowStore K V :=
  match (s.view i).segmentFor key with
  | none => s
  | some (index, page) => { s with heap := editSplit s.heap i index page id }

def getMut (s : CowStore K V) (i : ℕ) (key : K) (f : V → V) : Option V × CowStore K V :=
  match (s.view i).segmentFor key with
  | none => (none, s)
  | some (index, page) =>
    match page.entries.get key with
    | none => (none, s)
    | some value =>
      (some value,
        { heap := (s.heap.makeDirMut i).cellMut CowMapPage.copy i index fun page =>
            page.editValue key f
          counts := s.counts.set i ((s.view i).len,
            (s.view i).deltaPressureBytes - CowPageWeight.deltaPressureBytes value +
              CowPageWeight.deltaPressureBytes (f value)) })

def remove (s : CowStore K V) (i : ℕ) (key : K) : Option V × CowStore K V :=
  match (s.view i).segmentFor key with
  | none => (none, s)
  | some (index, page) =>
    match page.entries.get key with
    | none => (none, s)
    | some value =>
      let heap := (s.heap.makeDirMut i).cellMut CowMapPage.copy i index fun page =>
        (page.remove key).2
      (some value,
        { heap :=
            if (page.remove key).2.entries.entries = [] then
              heap.setDir i ((heap.dirs (heap.dirOf i)).eraseIdx index)
            else heap
          counts := s.counts.set i ((s.view i).len - 1,
            (s.view i).deltaPressureBytes - CowPageWeight.deltaPressureBytes value) })

/-- The loop of `retain` over the pages left, from a position on. -/
def retainLoop {σ : Type*} (i : ℕ) (keep : σ → K → V → σ × V × Bool) :
    List (CowMapPage K V) → ℕ → σ → ArcHeap (CowMapPage K V) → ℕ × ℕ →
      σ × ArcHeap (CowMapPage K V) × ℕ × ℕ
  | [], _, s, heap, (len, pressure) => (s, heap, len, pressure)
  | page :: pages, index, s, heap, (len, pressure) =>
    let (s, entries) := page.entries.retain keep s
    let heap := heap.cellMut CowMapPage.copy i index fun page =>
      { page with entries, bytes := none, epochBounds := none }
    retainLoop i keep pages (index + 1) s heap
      (len - page.entries.entries.length + entries.entries.length,
        pressure - entriesPressure page.entries.entries + entriesPressure entries.entries)

def retain {σ : Type*} (s : CowStore K V) (i : ℕ) (keep : σ → K → V → σ × V × Bool) (state : σ) :
    σ × CowStore K V :=
  let (state, heap, counts) := retainLoop i keep (s.view i).segments 0 state
    (s.heap.makeDirMut i) ((s.view i).len, (s.view i).deltaPressureBytes)
  (state,
    { heap := heap.setDir i ((heap.dirs (heap.dirOf i)).filter fun p =>
        (heap.cells p).entries.entries ≠ [])
      counts := s.counts.set i counts })

variable [Std.TransOrd K]

def insert (s : CowStore K V) (i : ℕ) (key : K) (value : V) : Option V × CowStore K V :=
  match (s.view i).segmentFor key with
  | none =>
    (none,
      { heap := s.heap.replaceDir i [.ofEntries (OrdMap.empty.insert key value)]
        counts := s.counts.set i (1, CowPageWeight.deltaPressureBytes value) })
  | some (index, page) =>
    let previous := page.entries.get key
    (previous,
      { heap := editSplit s.heap i index page fun page => (page.insert key value).2
        counts := s.counts.set i
          (if previous.isNone then (s.view i).len + 1 else (s.view i).len,
            (s.view i).deltaPressureBytes -
              (previous.map CowPageWeight.deltaPressureBytes).getD 0 +
                CowPageWeight.deltaPressureBytes value) })

def entryOrDefault [Inhabited V] (s : CowStore K V) (i : ℕ) (key : K) (f : V → V) :
    Option V × CowStore K V :=
  if (s.view i).containsKey key then s.getMut i key f
  else (s.insert i key default).2.getMut i key f

/-- What is done to the handle of a map. -/
inductive Op (K V σ : Type*) where
  | insert (key : K) (value : V)
  | getMut (key : K) (f : V → V)
  | remove (key : K)
  | retain (keep : σ → K → V → σ × V × Bool) (state : σ)
  | entryOrDefault (key : K) (f : V → V)
  | rebalanceKey (key : K)
  | clone
  | drop

/-- What happens: a map is made from an ordered one, or something is done to a handle. -/
inductive Event (K V σ : Type*) [Ord K] where
  | new (values : OrdMap K V)
  | op (handle : ℕ) (op : Op K V σ)

/-- What an operation gives back: a value, or the state the closure of `retain` ends in. -/
inductive Output (V σ : Type*) where
  | value (value : Option V)
  | state (state : σ)
  | done

variable {σ : Type*} [Inhabited V]

/-- An operation on an existing handle. -/
def apply (s : CowStore K V) (i : ℕ) : Op K V σ → Output V σ × CowStore K V
  | .insert key value => let (v, s) := s.insert i key value; (.value v, s)
  | .getMut key f => let (v, s) := s.getMut i key f; (.value v, s)
  | .remove key => let (v, s) := s.remove i key; (.value v, s)
  | .retain keep state => let (state, s) := s.retain i keep state; (.state state, s)
  | .entryOrDefault key f => let (v, s) := s.entryOrDefault i key f; (.value v, s)
  | .rebalanceKey key => (.done, s.rebalanceKey i key)
  | .clone => (.done, ⟨s.heap.share i, s.counts ++ [s.counts.getD i (0, 0)]⟩)
  | .drop => (.done, ⟨s.heap.drop i, s.counts.eraseIdx i⟩)

def step (s : CowStore K V) : Event K V σ → Output V σ × CowStore K V
  | .new values =>
    let m := CowSegmentedMap.ofOrdMap values
    (.done, ⟨s.heap.addRoot m.segments, s.counts ++ [(m.len, m.deltaPressureBytes)]⟩)
  | .op i op => if i < s.counts.length then s.apply i op else (.done, s)

/-- All outputs, in order, and the end. -/
def run : CowStore K V → List (Event K V σ) → List (Output V σ) × CowStore K V
  | s, [] => ([], s)
  | s, event :: events =>
    let (output, s) := s.step event
    let (outputs, s) := run s events
    (output :: outputs, s)

end CowStore

/-! The same operations on a list of independent ordered maps. -/

namespace OrdMapStore

variable {K V σ : Type*} [Ord K] [Std.TransOrd K] [Inhabited V]

open CowStore (Op Event Output)

def apply (maps : List (OrdMap K V)) (i : ℕ) (m : OrdMap K V) :
    Op K V σ → Output V σ × List (OrdMap K V)
  | .insert key value => (.value (m.get key), maps.set i (m.insert key value))
  | .getMut key f => (.value (m.get key), maps.set i (m.update key f))
  | .remove key => (.value (m.get key), maps.set i (m.remove key))
  | .retain keep state => (.state (m.retain keep state).1, maps.set i (m.retain keep state).2)
  | .entryOrDefault key f =>
    let m := if (m.get key).isSome then m else m.insert key default
    (.value (m.get key), maps.set i (m.update key f))
  | .rebalanceKey _ => (.done, maps)
  | .clone => (.done, maps ++ [m])
  | .drop => (.done, maps.eraseIdx i)

def step (maps : List (OrdMap K V)) : Event K V σ → Output V σ × List (OrdMap K V)
  | .new values => (.done, maps ++ [values])
  | .op i op =>
    match maps[i]? with
    | some m => apply maps i m op
    | none => (.done, maps)

def run : List (OrdMap K V) → List (Event K V σ) → List (Output V σ) × List (OrdMap K V)
  | maps, [] => ([], maps)
  | maps, event :: events =>
    let (output, maps) := step maps event
    let (outputs, maps) := run maps events
    (output :: outputs, maps)

end OrdMapStore

end HawDB
