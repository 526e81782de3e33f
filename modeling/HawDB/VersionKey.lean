import HawDB.CowMap
import HawDB.ValueOrder

/-!
# Versioned identities

The keys a commit stamps, with the weights their budgets count, and the bounded write set of a
transaction. The graph values of a property key are ordered as the property index orders them; the
type of these values is left open.
-/

namespace HawDB

inductive AdjacencyDirection where
  | outgoing
  | incoming
deriving DecidableEq, Repr, Ord

/-- A mutable identity whose latest committed version takes part in optimistic validation. The
order is that of the constructors, then of the fields. -/
inductive VersionKey (V : Type*) where
  | database
  | schema
  | readBarrier
  | readNodeDomain (label : Option String)
  | readRelationshipDomain (relType : Option String)
  | readRelationalTableDomain (table : String)
  | readNodeProperty (label property : String) (value : V)
  | readRelationalIndexPrefix (table index : String) (key : RelationalKey)
  | graphNode (id : ℕ)
  | graphRelationship (id : ℕ)
  | graphAdjacency (nodeId : ℕ) (direction : AdjacencyDirection)
  | relationalRow (table : String) (primaryKey : RelationalKey)
  | relationalIndex (table index : String) (key : RelationalKey)
  | foreignKey (table : String) (key : RelationalKey)
  | appendTable (table : String)
deriving Ord

inductive VersionDisposition where
  | live
  | tombstone
deriving DecidableEq, Repr

/-- The newest committed version of one identity. -/
structure VersionStamp where
  commitEpoch : ℕ
  disposition : VersionDisposition
deriving DecidableEq, Repr

/-- The change made to an identity while a transaction is being staged. -/
structure VersionWrite where
  disposition : VersionDisposition
deriving DecidableEq, Repr

section

variable [TypeSizes]

def relationalKeyBytes (key : RelationalKey) : ℕ :=
  satAdd TypeSizes.relationalKey
    ((key.map fun value => satAdd TypeSizes.relationalValue value.estimatedPayloadBytes).foldl
      satAdd 0)

instance : CowPageWeight VersionStamp where
  cowPageBytes _ := TypeSizes.versionStamp

namespace VersionKey

variable {V : Type*} [CowPageWeight V]

/-- `cow_page_bytes` of a key. -/
def cowPageBytes : VersionKey V → ℕ
  | database | schema | readBarrier => TypeSizes.versionKey
  | readNodeDomain label | readRelationshipDomain label =>
    satAdd TypeSizes.versionKey ((label.map fun label => (utf8 label).length).getD 0)
  | readRelationalTableDomain table => satAdd TypeSizes.versionKey (utf8 table).length
  | readNodeProperty label property value =>
    satAdd
      (satAdd
        (satAdd (satAdd TypeSizes.versionKey (utf8 label).length) (utf8 property).length)
        TypeSizes.value)
      (CowPageWeight.cowPageBytes value)
  | readRelationalIndexPrefix table index key =>
    satAdd (satAdd (satAdd TypeSizes.versionKey (utf8 table).length) (utf8 index).length)
      (relationalKeyBytes key)
  | graphNode _ | graphRelationship _ => TypeSizes.versionKey
  | graphAdjacency _ _ => TypeSizes.versionKey
  | relationalRow table primaryKey =>
    satAdd (satAdd TypeSizes.versionKey (utf8 table).length) (relationalKeyBytes primaryKey)
  | relationalIndex table index key =>
    satAdd (satAdd (satAdd TypeSizes.versionKey (utf8 table).length) (utf8 index).length)
      (relationalKeyBytes key)
  | foreignKey table key =>
    satAdd (satAdd TypeSizes.versionKey (utf8 table).length) (relationalKeyBytes key)
  | appendTable table => satAdd TypeSizes.versionKey (utf8 table).length

instance : CowPageWeight (VersionKey V) where
  cowPageBytes := cowPageBytes

end VersionKey

variable {V : Type*} [CowPageWeight V]

def versionStampBytes (key : VersionKey V) : ℕ :=
  satAdd (CowPageWeight.cowPageBytes key) TypeSizes.versionStamp

end

namespace VersionKey

variable {V : Type*}

/-- Keys that only record what a commit may have changed for a reader. -/
def isReadSummaryKey : VersionKey V → Bool
  | readNodeDomain _ | readRelationshipDomain _ | readRelationalTableDomain _
  | readNodeProperty .. | readRelationalIndexPrefix .. => true
  | _ => false

/-- The keys whose stamps stand outside the pages. -/
def isInline : VersionKey V → Bool
  | database | readBarrier => true
  | _ => false

end VersionKey

/-- The bound on one exact node property key. -/
def maxNodePropertyReadKeyBytes : ℕ := 4096

/-- What tells the values of graph properties apart. -/
class GraphValue (V : Type*) where
  /-- Lists and maps. -/
  isCollection : V → Bool

/-- Values that compare equal are of one kind and, unless they are collections, of one weight. -/
class LawfulGraphValue (V : Type*) [Ord V] [CowPageWeight V] [GraphValue V] : Prop where
  isCollection_eq {a b : V} : compare a b = .eq →
    GraphValue.isCollection a = GraphValue.isCollection b
  cowPageBytes_eq {a b : V} : compare a b = .eq → GraphValue.isCollection a = false →
    CowPageWeight.cowPageBytes a = CowPageWeight.cowPageBytes b

/-- `estimated_value_bytes` of a scalar. -/
def Scalar.estimatedBytes : Scalar → ℕ
  | null | bool _ => 1
  | int _ | float _ => 8
  | decimal _ => 17
  | string value => (utf8 value).length
  | binary value => value.length
  | vector value => value.encoded.length
  | uuid _ => 16
  | temporal _ => 28

namespace Value

mutual

def estimatedBytes : Value → ℕ
  | .leaf s => s.estimatedBytes
  | .list vs => estimatedItems vs 16
  | .map es => estimatedProperties es 0

def estimatedItems : List Value → ℕ → ℕ
  | [], bytes => bytes
  | v :: vs, bytes => estimatedItems vs (satAdd bytes (estimatedBytes v))

def estimatedProperties : List (String × Value) → ℕ → ℕ
  | [], bytes => bytes
  | (key, v) :: es, bytes => estimatedProperties es
    (satAdd (satAdd (satAdd bytes (utf8 key).length) (estimatedBytes v)) 16)

end

end Value

instance : CowPageWeight Value := ⟨Value.estimatedBytes, fun _ => 0⟩

instance : GraphValue Value where
  isCollection
    | .leaf _ => false
    | .list _ | .map _ => true

/-- The exact key of the nodes with a label and a property value; collections and large values
have none. -/
def nodePropertyReadKey {V : Type*} [CowPageWeight V] [GraphValue V] [TypeSizes]
    (label property : String) (value : V) : Option (VersionKey V) :=
  if GraphValue.isCollection value then none
  else
    let bytes :=
      satAdd
        (satAdd
          (satAdd (satAdd TypeSizes.versionKey (utf8 label).length) (utf8 property).length)
          TypeSizes.value)
        (CowPageWeight.cowPageBytes value)
    if bytes ≤ maxNodePropertyReadKeyBytes then some (.readNodeProperty label property value)
    else none

inductive VersionWriteSetError where
  | limitExceeded (maxEntries : ℕ)
  | byteLimitExceeded (maxBytes : ℕ)
deriving DecidableEq, Repr

def VersionWriteSetError.toString : VersionWriteSetError → String
  | limitExceeded maxEntries =>
    s!"transaction version write set exceeds its {maxEntries}-entry limit"
  | byteLimitExceeded maxBytes =>
    s!"transaction version write set exceeds its {maxBytes}-byte estimated payload limit"

/-- A bounded transaction write set without duplicates. -/
structure VersionWriteSet (V : Type*) [Ord V] where
  writes : OrdMap (VersionKey V) VersionWrite
  maxEntries : ℕ
  maxBytes : ℕ
  estimatedBytes : ℕ

namespace VersionWriteSet

variable {V : Type*} [Ord V]

def withLimits (maxEntries maxBytes : ℕ) : VersionWriteSet V :=
  ⟨.empty, maxEntries, maxBytes, 0⟩

def len (s : VersionWriteSet V) : ℕ := s.writes.entries.length

def isEmpty (s : VersionWriteSet V) : Bool := s.writes.entries.isEmpty

def containsKey (s : VersionWriteSet V) (key : VersionKey V) : Bool := (s.writes.get key).isSome

def keys (s : VersionWriteSet V) : List (VersionKey V) := s.writes.entries.map Prod.fst

end VersionWriteSet

end HawDB
