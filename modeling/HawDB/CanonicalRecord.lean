import HawDB.CanonicalValue

/-!
# Canonical node records and their projection

A node record holds its labels and, under the numbers of their keys in a dictionary, the encodings
of its property values. Three functions walk an encoded value without building it: the check of a
published segment, the same check of the values that a projected read does not select, and a skip by
length.
-/

namespace HawDB

namespace Canonical

/-! ## The check of an encoded value -/

/-- The remaining cursor of a read whose result is not kept. -/
def discard {α : Type} (read : CanonicalResult (α × Bytes)) : CanonicalResult Bytes :=
  read.map Prod.snd

def validateSpill (propertySpillCount : Option ℕ) (spillId : ℕ) : CanonicalResult Unit :=
  match propertySpillCount with
  | some count =>
    if spillId < count then .ok ()
    else corrupt
      s!"canonical record references property spill {spillId} outside its selected artifact"
  | none => corrupt
      s!"canonical record references property spill {spillId} without a selected spill artifact"

/-- The arms of `validate_encoded_value` that hold no other value, past their tag. -/
def validateScalar (propertySpillCount : Option ℕ) (tag : UInt8) (cursor : Bytes) :
    CanonicalResult Bytes :=
  match tag.toNat with
  | 0 => .ok cursor
  | 1 => discard (readBool cursor)
  | 2 => discard (readU64 cursor)
  | 3 => discard (readU64 cursor)
  | 4 => discard (readString cursor)
  | 7 => do
    let (spillId, cursor) ← readU64 cursor
    validateSpill propertySpillCount spillId
    return cursor
  | 8 => discard (readSized cursor)
  | 9 => discard (readExact 16 cursor)
  | 10 => discard (readVector cursor)
  | 16 => discard (readDecimalValue cursor)
  | _ =>
    match canonicalTemporalKind tag with
    | some kind => discard (readTemporalValue kind cursor)
    | none => corrupt s!"unknown canonical value tag {tag}"

/-- The keys of a nested map so far, with one more. -/
def insertSeen (seen : List String) (key : String) : CanonicalResult (List String) :=
  if key ∈ seen then corrupt "canonical nested property map has duplicate keys"
  else .ok (key :: seen)

mutual

/-- `validate_encoded_value`, the cursor behind the value. -/
def validateEncodedValue (propertySpillCount : Option ℕ) (depth : ℕ) (cursor : Bytes) :
    CanonicalResult Bytes :=
  if _h : maxValueDepth < depth then corrupt s!"canonical value nesting exceeds {maxValueDepth}"
  else do
    let (tag, cursor) ← readU8 cursor
    if tag = 5 then
      let (count, cursor) ← readU32 cursor
      validateItems propertySpillCount (depth + 1) count cursor
    else if tag = 6 then
      let (count, cursor) ← readU32 cursor
      validateEntries propertySpillCount (depth + 2) count cursor []
    else validateScalar propertySpillCount tag cursor
termination_by (maxValueDepth + 2 - depth, 0)

def validateItems (propertySpillCount : Option ℕ) (depth count : ℕ) (cursor : Bytes) :
    CanonicalResult Bytes :=
  match count with
  | 0 => .ok cursor
  | count + 1 => do
    let cursor ← validateEncodedValue propertySpillCount depth cursor
    validateItems propertySpillCount depth count cursor
termination_by (maxValueDepth + 2 - depth, count + 1)

def validateEntries (propertySpillCount : Option ℕ) (depth count : ℕ) (cursor : Bytes)
    (seen : List String) : CanonicalResult Bytes :=
  match count with
  | 0 => .ok cursor
  | count + 1 => do
    let (key, cursor) ← readString cursor
    let seen ← insertSeen seen key
    let cursor ← validateEncodedValue propertySpillCount depth cursor
    validateEntries propertySpillCount depth count cursor seen
termination_by (maxValueDepth + 2 - depth, count + 1)

end

/-! ## The skip by length -/

/-- How many bytes follow the tag of a value that holds no other value. -/
def skipLength (tag : UInt8) (cursor : Bytes) : CanonicalResult (ℕ × Bytes) :=
  match tag.toNat with
  | 0 => .ok (0, cursor)
  | 1 => .ok (1, cursor)
  | 2 => .ok (8, cursor)
  | 3 => .ok (8, cursor)
  | 7 => .ok (8, cursor)
  | 9 => .ok (16, cursor)
  | 4 => readU32 cursor
  | 8 => readU32 cursor
  | 10 => readU32 cursor
  | _ =>
    match canonicalTemporalKind tag with
    | some kind => .ok (kind.payloadLen, cursor)
    | none => corrupt s!"unknown canonical value tag {tag}"

mutual

/-- `skip_validated_value`, the cursor behind the value. -/
def skipValidatedValue (depth : ℕ) (cursor : Bytes) : CanonicalResult Bytes :=
  if _h : maxValueDepth < depth then corrupt s!"canonical value nesting exceeds {maxValueDepth}"
  else do
    let (tag, cursor) ← readU8 cursor
    if tag = 5 then
      let (count, cursor) ← readU32 cursor
      skipItems (depth + 1) count cursor
    else if tag = 6 then
      let (count, cursor) ← readU32 cursor
      skipEntries (depth + 2) count cursor
    else
      let (length, cursor) ← skipLength tag cursor
      discard (readExact length cursor)
termination_by (maxValueDepth + 2 - depth, 0)

def skipItems (depth count : ℕ) (cursor : Bytes) : CanonicalResult Bytes :=
  match count with
  | 0 => .ok cursor
  | count + 1 => do
    let cursor ← skipValidatedValue depth cursor
    skipItems depth count cursor
termination_by (maxValueDepth + 2 - depth, count + 1)

def skipEntries (depth count : ℕ) (cursor : Bytes) : CanonicalResult Bytes :=
  match count with
  | 0 => .ok cursor
  | count + 1 => do
    let cursor ← discard (readSized cursor)
    let cursor ← skipValidatedValue depth cursor
    skipEntries depth count cursor
termination_by (maxValueDepth + 2 - depth, count + 1)

end

/-! ## Records -/

/-- The labels of a node record: a set of their numbers, in order. -/
abbrev Labels := OrdMap ℕ Unit

/-- A node: its labels and its properties, in the order of their keys. -/
structure CanonicalNode where
  id : ℕ
  labels : Labels
  properties : List (String × Value)

/-- The loop over the labels of a record. -/
def readLabels (labels : Labels) : ℕ → Bytes → CanonicalResult (Labels × Bytes)
  | 0, cursor => .ok (labels, cursor)
  | count + 1, cursor => do
    let (label, cursor) ← readU32 cursor
    readLabels (labels.insert label ()) count cursor

/-- `validate_record_property_payload` past the count, with the key numbers so far. -/
def validateProperties (propertySpillCount : Option ℕ) (propertyKeys : List String) :
    ℕ → Bytes → List ℕ → CanonicalResult Bytes
  | 0, cursor, _ => .ok cursor
  | count + 1, cursor, seen => do
    let (keyId, cursor) ← readU32 cursor
    if propertyKeys[keyId]?.isNone ∨ keyId ∈ seen then
      corrupt s!"canonical record has an unknown or duplicate property key id {keyId}"
    else
      let cursor ← validateEncodedValue propertySpillCount 1 cursor
      validateProperties propertySpillCount propertyKeys count cursor (keyId :: seen)

inductive CanonicalSegmentKind where
  | nodes
  | relationships
deriving DecidableEq, Repr

def skipLabels : ℕ → Bytes → CanonicalResult Bytes
  | 0, cursor => .ok cursor
  | count + 1, cursor => do
    let cursor ← discard (readU32 cursor)
    skipLabels count cursor

/-- What stands before the properties: labels, or the endpoints and the type. -/
def skipHead : CanonicalSegmentKind → Bytes → CanonicalResult Bytes
  | .nodes, cursor => do
    let (labelCount, cursor) ← readU32 cursor
    skipLabels labelCount cursor
  | .relationships, cursor => do
    let cursor ← discard (readU64 cursor)
    let cursor ← discard (readU64 cursor)
    discard (readU32 cursor)

/-- `validate_canonical_record_payload`. -/
def validateRecordPayload (kind : CanonicalSegmentKind) (payload : Bytes)
    (propertyKeys : List String) (propertySpillCount : Option ℕ) : CanonicalResult Unit := do
  let cursor ← skipHead kind payload
  let (propertyCount, cursor) ← readU32 cursor
  let cursor ← validateProperties propertySpillCount propertyKeys propertyCount cursor []
  if cursor = [] then return () else corrupt "canonical record has trailing bytes during scrub"

/-- `node` of the record decoder. -/
def decodeNode (id : ℕ) (payload : Bytes) (spills : Option PropertySpillReader)
    (keys : Option (List String)) : CanonicalResult CanonicalNode := do
  let (count, cursor) ← readU32 payload
  let (labels, cursor) ← readLabels .empty count cursor
  let (properties, cursor) ← decodeProperties spills 1 1 keys cursor
  if cursor = [] then return ⟨id, labels, properties⟩ else corrupt "node record has trailing bytes"

/-! ## The projected read -/

section

variable (spills : Option PropertySpillReader) (required : List String) (valuesValidated : Bool)

def passValue (cursor : Bytes) : CanonicalResult Bytes :=
  if valuesValidated then skipValidatedValue 1 cursor
  else validateEncodedValue (spills.map (·.valueCount)) 1 cursor

/-- The property map so far with a selected value, or as it is past another. -/
def projectValue (key : String) (cursor : Bytes) (properties : List (String × Value)) :
    CanonicalResult (List (String × Value) × Bytes) :=
  if key ∈ required then do
    let (value, cursor) ← decodeValue spills 1 cursor
    return (insertEntry key value properties, cursor)
  else do
    let cursor ← passValue spills valuesValidated cursor
    return (properties, cursor)

/-- The loop of `decode_projected_record_properties` with a key dictionary. -/
def projectEntries (keys : List String) : ℕ → Bytes → List ℕ → List (String × Value) →
    CanonicalResult (List (String × Value) × Bytes)
  | 0, cursor, _, properties => .ok (properties, cursor)
  | count + 1, cursor, seen, properties => do
    let (keyId, cursor) ← readU32 cursor
    match keys[keyId]? with
    | none => corrupt s!"canonical record references unknown property key id {keyId}"
    | some key =>
      if valuesValidated = false ∧ keyId ∈ seen then
        corrupt s!"canonical property map has duplicate key id {keyId}"
      else
        let (properties, cursor) ←
          projectValue spills required valuesValidated key cursor properties
        projectEntries keys count cursor (keyId :: seen) properties

/-- The loop of `decode_projected_record_properties` without one: the keys stand in the record, and
the values that are not selected are always checked. -/
def projectNamedEntries : ℕ → Bytes → List String → List (String × Value) →
    CanonicalResult (List (String × Value) × Bytes)
  | 0, cursor, _, properties => .ok (properties, cursor)
  | count + 1, cursor, seen, properties => do
    let (key, cursor) ← readString cursor
    if key ∈ seen then corrupt "canonical property map has duplicate keys"
    else
      let (properties, cursor) ← projectValue spills required false key cursor properties
      projectNamedEntries count cursor (key :: seen) properties

/-- `decode_projected_record_properties`. -/
def projectProperties (keys : Option (List String)) (cursor : Bytes) :
    CanonicalResult (List (String × Value) × Bytes) := do
  let (count, cursor) ← readU32 cursor
  match keys with
  | some keys => projectEntries spills required valuesValidated keys count cursor [] []
  | none => projectNamedEntries spills required count cursor [] []

/-- `decode_projected_node_with_property_spills`. -/
def decodeProjectedNode (id : ℕ) (payload : Bytes) (keys : Option (List String)) :
    CanonicalResult CanonicalNode := do
  let (labelCount, cursor) ← readU32 payload
  let (labels, cursor) ← readLabels .empty labelCount cursor
  let (properties, cursor) ← projectProperties spills required valuesValidated keys cursor
  if cursor = [] then return ⟨id, labels, properties⟩
  else corrupt "projected node record has trailing bytes"

end

end Canonical

end HawDB
