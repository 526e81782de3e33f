import HawDB.CanonicalValue

/-!
# The canonical format as a tree

What the bytes of an encoded value are, apart from the functions that walk them: a tree is rendered
as the writers lay it out (`render`), fits the format when no node is too deep and no count or
length exceeds 32 bits (`FitsNode`), and has a `reading`, the value the decoder takes from it.
-/

namespace HawDB

namespace Canonical

def scalarTag : Scalar → UInt8
  | .null => 0
  | .bool _ => 1
  | .int _ => 2
  | .float _ => 3
  | .string _ => 4
  | .binary _ => 8
  | .uuid _ => 9
  | .vector _ => 10
  | .decimal _ => 16
  | .temporal value => canonicalTemporalTag value.kind

/-- The bytes behind the tag of a scalar. -/
def scalarPayload : Scalar → Bytes
  | .null => []
  | .bool value => [if value then 1 else 0]
  | .int value => leIntBytes 8 value.toInt
  | .float bits => leBytes 8 bits.toNat
  | .string value => leBytes 4 (utf8 value).length ++ utf8 value
  | .binary value => leBytes 4 value.length ++ value
  | .uuid value => value.1
  | .vector value => leBytes 4 value.encoded.length ++ value.encoded
  | .decimal value => value.toLeBytes
  | .temporal value => TemporalCodec.encodePayload value

def scalarBytes (s : Scalar) : Bytes := scalarTag s :: scalarPayload s

/-- The length that is written before the payload has 32 bits. -/
def scalarFits : Scalar → Prop
  | .string value => (utf8 value).length < 2 ^ 32
  | .binary value => value.length < 2 ^ 32
  | .vector value => value.encoded.length < 2 ^ 32
  | _ => True

def keyBytes (key : String) : Bytes := leBytes 4 (utf8 key).length ++ utf8 key

section

variable {L : Type} (leafBytes : L → Bytes)

mutual

def render : Tree String L → Bytes
  | .leaf l => leafBytes l
  | .list ts => 5 :: (leBytes 4 ts.length ++ renderItems ts)
  | .map es => 6 :: (leBytes 4 es.length ++ renderEntries es)

def renderItems : List (Tree String L) → Bytes
  | [] => []
  | t :: ts => render t ++ renderItems ts

def renderEntries : List (String × Tree String L) → Bytes
  | [] => []
  | (key, t) :: es => keyBytes key ++ (render t ++ renderEntries es)

end

/-- A node that the format can hold at its depth. -/
def FitsNode (leafFits : L → Prop) (depth : ℕ) : Tree String L → Prop
  | .leaf l => depth ≤ maxValueDepth ∧ leafFits l
  | .list ts => depth ≤ maxValueDepth ∧ ts.length < 2 ^ 32
  | .map es => depth ≤ maxValueDepth ∧ es.length < 2 ^ 32 ∧ ∀ e ∈ es, (utf8 e.1).length < 2 ^ 32

end

def readScalar : Scalar → Option Scalar
  | .temporal value =>
    (TemporalCodec.decodePayload value.kind (TemporalCodec.encodePayload value)).toOption.map
      .temporal
  | s => some s

/-- The decoder checks the depth of a map before its count, and collects its entries. -/
def readMap (depth : ℕ) (entries : List (String × Value)) : Option (List (String × Value)) :=
  if depth < maxValueDepth then some (OrdMap.ofList entries).entries else none

/-- What the decoder reads from the bytes of a tree. -/
def reading {L : Type} (readLeaf : ℕ → L → Option Value) (depth : ℕ) (t : Tree String L) :
    Option Value :=
  t.traverse readLeaf readMap depth

/-! ## Records -/

/-- A leaf of an encoded value: a scalar, or the number of a spilled value. -/
inductive WireLeaf where
  | scalar (s : Scalar)
  | spill (id : UInt64)

/-- An encoded value. -/
abbrev Wire := Tree String WireLeaf

def wireBytes : WireLeaf → Bytes
  | .scalar s => scalarBytes s
  | .spill id => 7 :: leBytes 8 id.toNat

/-- What a spilled value reads as: its bytes, without further spills, to their end. -/
def spilledValue (spills : Option PropertySpillReader) (depth id : ℕ) : Option Value :=
  match spills with
  | none => none
  | some reader =>
    (do finishSpill id (← decodeValue none depth (← readSpill reader id))).toOption

def readWire (spills : Option PropertySpillReader) (depth : ℕ) : WireLeaf → Option Value
  | .scalar s => (readScalar s).map .leaf
  | .spill id => spilledValue spills depth id.toNat

/-- A property of a record: the number of its key, the key it stands for, and the value. -/
structure WireProperty where
  keyId : ℕ
  key : String
  wire : Wire

/-- A node record. -/
structure NodePayload where
  labels : List ℕ
  properties : List WireProperty

def labelBytes : List ℕ → Bytes
  | [] => []
  | label :: labels => leBytes 4 label ++ labelBytes labels

def propertyBytes : List WireProperty → Bytes
  | [] => []
  | p :: ps => leBytes 4 p.keyId ++ (render wireBytes p.wire ++ propertyBytes ps)

def NodePayload.bytes (record : NodePayload) : Bytes :=
  leBytes 4 record.labels.length ++ (labelBytes record.labels ++
    (leBytes 4 record.properties.length ++ propertyBytes record.properties))

end Canonical

end HawDB
