import HawDB.PropertyProjection
import HawDB.SegmentBloom

/-!
# Reading through property indexes

A store reads by a property from two sources: the projection of its canonical base, or the segments
of the base, and the nodes it holds. What the base gives is passed over when the store holds the
node or has deleted it. A range is delivered in the order of values and ids.
-/

namespace HawDB

structure PropertyIndexKey where
  label : ℕ
  property : String
  value : Value

instance : Ord PropertyIndexKey :=
  ⟨compareLex (compareOn PropertyIndexKey.label)
    (compareLex (compareOn PropertyIndexKey.property) (compareOn PropertyIndexKey.value))⟩

/-- A graph store with the index over the nodes it holds, and the projection and the segments of its
base. -/
structure IndexedStore extends GraphStore Value where
  propertyIndex : OrdMap PropertyIndexKey (OrdMap ℕ Unit)
  nodeSegments : List NodeSegment
  persistentPropertyProjection : Option PropertyProjection

/-- A node that a range visits: one the store holds, or the id of one of the base. -/
inductive RangeRecord where
  | live (id : ℕ) (node : NodeRecord Value)
  | canonical (id : ℕ)

namespace RangeRecord

def id : RangeRecord → ℕ
  | live id _ => id
  | canonical id => id

end RangeRecord

/-- What the consumer of a range gets. -/
abbrev RangeItem := Value × RangeRecord

def RangeItem.key (item : RangeItem) : IndexEntry := (item.1, item.2.id)

def RangeItem.le (a b : RangeItem) : Bool := (entryCmp (RangeItem.key a) (RangeItem.key b)).isLE

def integrityError (error : ProjectionError) : HawDBError := .storageIntegrity error.message

def canonicalSegmentError : CanonicalSegmentError → HawDBError
  | .propertySpill message | .corrupt message => .storageIntegrity message

namespace IndexedStore

variable {σ : Type} (store : IndexedStore) (labelId : UInt32) (property : String)

/-- The projection, if it has a complete definition of the kind. -/
def projectionFor (kind : ProjectionKind) : Option PropertyProjection :=
  store.persistentPropertyProjection.filter fun projection =>
    projection.supports labelId property kind

def masks (id : ℕ) : Bool := id ∈ store.nodeTombstones || (store.nodes.get id).isSome

def propertyIn (values : List Value) (node : NodeRecord Value) : Bool :=
  (node.properties.get property).any fun candidate => values.any fun value => candidate.eq value

def visitHeldNodes (values : List Value) (consumer : σ → ℕ × NodeRecord Value → σ × ScanControl)
    (s : σ) : Except HawDBError (σ × ScanControl) :=
  scanUntil (fun s e =>
    if labelId.toNat ∈ e.2.labels ∧ propertyIn property values e.2 then .ok (consumer s e)
    else .ok (s, .proceed)) store.nodes.entries s

def visitEqualityProjection (projection : PropertyProjection) (base : CanonicalBase Value)
    (value : Value) (consumer : σ → ℕ × NodeRecord Value → σ × ScanControl)
    (state : σ × Finset ℕ) : Except ProjectionError ((σ × Finset ℕ) × ScanControl) :=
  projection.scanEqualityCandidates labelId property value (fun state id =>
    if store.masks id ∨ id ∈ state.2 then .ok (state, .proceed)
    else
      match base.nodes.get id with
      | none => .error
        (.corrupt s!"property projection references missing canonical node {id}")
      | some node =>
        if labelId.toNat ∉ node.labels ∨ !(node.properties.get property).any (·.eq value) then
          .error (.corrupt
            s!"property projection candidate {id} fails its canonical equality predicate")
        else
          let r := consumer state.1 (id, node)
          .ok ((r.1, insert id state.2), r.2)) state

section

variable [Checksum]

/-- The base's nodes with one value, by going through the segments that may have it. -/
def visitEqualityScan (value : Value)
    (consumer : σ → ℕ × NodeRecord Value → σ × ScanControl) (state : σ × Finset ℕ) :
    Except HawDBError ((σ × Finset ℕ) × ScanControl) := do
  let bloomKey ←
    (nodePropertyBloomKey labelId.toNat property value).mapError canonicalSegmentError
  scanUntil (fun state segment =>
    if segment.nodePropertyBloom.mightContain bloomKey then
      scanUntil (fun state e =>
        if labelId.toNat ∈ e.2.labels ∧ (e.2.properties.get property).any (·.eq value) then
          if store.masks e.1 ∨ e.1 ∈ state.2 then .ok (state, .proceed)
          else
            let r := consumer state.1 e
            .ok ((r.1, insert e.1 state.2), r.2)
        else .ok (state, .proceed)) segment.nodes state
    else .ok (state, .proceed)) store.nodeSegments state

def visitBaseNodes (base : CanonicalBase Value) (value : Value)
    (consumer : σ → ℕ × NodeRecord Value → σ × ScanControl) (state : σ × Finset ℕ) :
    Except HawDBError ((σ × Finset ℕ) × ScanControl) :=
  match store.projectionFor labelId property .equality with
  | some projection => (store.visitEqualityProjection labelId property projection base value
      consumer state).mapError integrityError
  | none => store.visitEqualityScan labelId property value consumer state

def visitNodesByPropertyOwned (values : List Value)
    (consumer : σ → ℕ × NodeRecord Value → σ × ScanControl) (s : σ) :
    Except HawDBError (σ × ScanControl) :=
  match store.canonicalBase with
  | none => store.visitHeldNodes labelId property values consumer s
  | some base => do
    let r ← scanUntil (fun state value =>
      store.visitBaseNodes labelId property base value consumer state) values (s, ∅)
    match r.2 with
    | .stop => .ok (r.1.1, .stop)
    | .proceed => store.visitHeldNodes labelId property values consumer r.1.1

end

/-! ## Ranges -/

variable (lower upper : Option (Value × Bool))

def liveRange : List RangeItem :=
  let postings := store.propertyIndex.entries.filter fun e =>
    e.1.label = labelId.toNat && e.1.property = property && rangeBoundsMatch e.1.value lower upper
  let ids := postings.flatMap fun e => e.2.entries.map fun id => (e.1.value, id.1)
  (ids.filter fun e => e.2 ∉ store.nodeTombstones).filterMap fun e =>
    (store.nodes.get e.2).map fun node => (e.1, .live e.2 node)

def tryVisitOrderedRange
    (consumer : σ → RangeItem → Except ProjectionError (σ × ScanControl)) (s : σ) :
    Except HawDBError (Option (σ × ScanControl)) :=
  let projection := store.projectionFor labelId property .range
  if store.canonicalBase.isSome && projection.isNone then .ok none
  else if store.canonicalBase.isNone && !store.propertyIndex.entries.any fun e =>
      e.1.label = labelId.toNat && e.1.property = property then .ok none
  else
    let live := store.liveRange labelId property lower upper
    let visited := match store.canonicalBase, projection with
      | some _, some projection =>
        projection.scanRangeEntries labelId property lower upper (fun state entry =>
            if store.masks entry.2 then .ok (state, .proceed)
            else mergeStep consumer RangeItem.le state (entry.1, .canonical entry.2)) (s, live) >>=
          finishMerge consumer
      | _, _ => scanUntil consumer live s
    (visited.mapError integrityError).map some

end IndexedStore

end HawDB
