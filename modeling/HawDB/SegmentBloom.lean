import HawDB.CanonicalValue
import HawDB.GraphStore
import HawDB.WalFrame

/-!
# Segments of nodes and their filters

The nodes of a canonical base are stored in segments. A segment has a Bloom filter of the properties
in it, by label, name and encoded value, and a search for a value passes over the segments whose
filter does not have the key of the value.
-/

namespace HawDB

def bloomMinWords : ℕ := 4
def bloomMaxWords : ℕ := 16 * 1024
def bloomBitsPerItem : ℕ := 10
def bloomHashes : ℕ := 7

def endpointBloomHash (id seed : UInt64) : UInt64 :=
  let value := id + seed * 0x9e3779b97f4a7c15
  let value := (value ^^^ (value >>> 30)) * 0xbf58476d1ce4e5b9
  let value := (value ^^^ (value >>> 27)) * 0x94d049bb133111eb
  value ^^^ (value >>> 31)

/-- The words of a filter are kept as the numbers of the bits that are set. -/
structure CanonicalEndpointBloom where
  wordCount : ℕ
  bits : Finset ℕ
  hashCount : ℕ

namespace CanonicalEndpointBloom

def bit (bloom : CanonicalEndpointBloom) (id : UInt64) (seed : ℕ) : ℕ :=
  (endpointBloomHash id (UInt64.ofNat seed)).toNat % (bloom.wordCount * 64)

def insert (bloom : CanonicalEndpointBloom) (id : UInt64) : CanonicalEndpointBloom :=
  { bloom with bits := bloom.bits ∪ (Finset.range bloom.hashCount).image (bloom.bit id) }

def mightContain (bloom : CanonicalEndpointBloom) (id : UInt64) : Bool :=
  (List.range bloom.hashCount).all fun seed => bloom.bit id seed ∈ bloom.bits

/-- Without keys this is the default filter, and no multiplication saturates below the clamp. -/
def fromKeys (keys : List UInt64) : CanonicalEndpointBloom :=
  let words := (keys.length * bloomBitsPerItem + 63) / 64
  keys.foldl insert ⟨max bloomMinWords (min bloomMaxWords words), ∅, bloomHashes⟩

lemma mightContain_iff {bloom : CanonicalEndpointBloom} {id : UInt64} :
    bloom.mightContain id ↔ ∀ seed < bloom.hashCount, bloom.bit id seed ∈ bloom.bits := by
  simp [mightContain]

lemma mightContain_insert_self (bloom : CanonicalEndpointBloom) (id : UInt64) :
    (bloom.insert id).mightContain id :=
  mightContain_iff.2 fun seed hseed => Finset.mem_union_right _
    (Finset.mem_image.2 ⟨seed, Finset.mem_range.2 hseed, rfl⟩)

lemma mightContain_foldl {id : UInt64} : ∀ (keys : List UInt64) {bloom : CanonicalEndpointBloom},
    bloom.mightContain id ∨ id ∈ keys → (keys.foldl insert bloom).mightContain id
  | [], _, h => h.resolve_right List.not_mem_nil
  | key :: keys, bloom, h => by
    refine mightContain_foldl keys ?_
    rcases h with h | h
    · exact .inl (mightContain_iff.2 fun seed hseed =>
        Finset.mem_union_left _ (mightContain_iff.1 h seed hseed))
    · rcases List.mem_cons.1 h with rfl | h
      · exact .inl (mightContain_insert_self bloom id)
      · exact .inr h

/-- A filter admits every key it was made from. -/
theorem mightContain_fromKeys {keys : List UInt64} {key : UInt64} (h : key ∈ keys) :
    (fromKeys keys).mightContain key :=
  mightContain_foldl keys (.inr h)

end CanonicalEndpointBloom

structure NodeSegment where
  nodes : List (ℕ × NodeRecord Value)
  nodePropertyBloom : CanonicalEndpointBloom

section

variable [Checksum]

def nodePropertyBloomKey (label : ℕ) (property : String) (value : Value) :
    CanonicalResult UInt64 := do
  let name ← Canonical.writeSized (utf8 property) "string"
  let written ← Canonical.writeValueStreaming 0 value
  return (Checksum.crc32c (leBytes 4 label ++ (name ++ written))).toUInt64

/-- The labels of a node, each with every property. -/
def labelledProperties (node : NodeRecord Value) : List (ℕ × String × Value) :=
  node.labels.flatMap fun label => node.properties.entries.map fun e => (label, e)

/-- A segment of some nodes, with the keys that `add_node_properties` collects. -/
def NodeSegment.write (nodes : List (ℕ × NodeRecord Value)) : CanonicalResult NodeSegment := do
  let keys ← (nodes.flatMap fun e => labelledProperties e.2).mapM fun (label, property, value) =>
    nodePropertyBloomKey label property value
  return { nodes, nodePropertyBloom := .fromKeys keys }

end

end HawDB
