import HawDB.GraphValue

/-!
# The canonical encoding of a value

A value is a tag and a payload. Four functions walk it: the admission check, which computes the
encoded length, the buffering and the streaming writer, and the decoder. Each carries the nesting
depth and refuses to go below `maxValueDepth`, so that no addition saturates. A cursor is the bytes
that are still to be read.
-/

namespace HawDB

/-- The errors of the canonical codec, of which a spill reader has its own. -/
inductive CanonicalSegmentError where
  | propertySpill (message : String)
  | corrupt (message : String)
deriving DecidableEq, Repr

abbrev CanonicalResult := Except CanonicalSegmentError

/-- `MAX_VALUE_DEPTH`. -/
def maxValueDepth : ℕ := 32

namespace Canonical

def corrupt {α : Type} (message : String) : CanonicalResult α := .error (.corrupt message)

def ensureDepth (depth : ℕ) : CanonicalResult Unit :=
  if maxValueDepth < depth then corrupt s!"canonical value nesting exceeds {maxValueDepth}"
  else .ok ()

def u32Len (length : ℕ) (name : String) : CanonicalResult ℕ :=
  if length < 2 ^ 32 then .ok length else corrupt s!"{name} length exceeds the storage format"

/-- `TEMPORAL_VALUE_TAGS`. -/
def temporalValueTags : List (UInt8 × TemporalValueKind) :=
  [(11, .date), (12, .localTime), (13, .localDateTime), (14, .dateTime), (15, .duration)]

def canonicalTemporalKind (tag : UInt8) : Option TemporalValueKind :=
  (temporalValueTags.find? fun entry => entry.1 = tag).map Prod.snd

def canonicalTemporalTag (kind : TemporalValueKind) : UInt8 :=
  ((temporalValueTags.find? fun entry => entry.2 = kind).map Prod.fst).getD 0

/-! ## The buffering writer -/

def encodeSized (bytes : Bytes) (name : String) : CanonicalResult Bytes := do
  let length ← u32Len bytes.length name
  return leBytes 4 length ++ bytes

def encodeString (value : String) : CanonicalResult Bytes := encodeSized (utf8 value) "string"

def encodeTemporalValue (value : TemporalValue) : Bytes :=
  canonicalTemporalTag value.kind :: TemporalCodec.encodePayload value

/-- The scalar arms of `encode_value`. -/
def encodeScalar : Scalar → CanonicalResult Bytes
  | .null => .ok [0]
  | .bool value => .ok [1, if value then 1 else 0]
  | .int value => .ok (2 :: leIntBytes 8 value.toInt)
  | .float bits => .ok (3 :: leBytes 8 bits.toNat)
  | .string value => (encodeString value).map (4 :: ·)
  | .binary value => (encodeSized value "binary").map (8 :: ·)
  | .vector value => (encodeSized value.encoded "vector").map (10 :: ·)
  | .decimal value => .ok (16 :: value.toLeBytes)
  | .uuid value => .ok (9 :: value.1)
  | .temporal value => .ok (encodeTemporalValue value)

mutual

/-- `encode_value`, the bytes it appends. -/
def encodeValue : ℕ → Value → CanonicalResult Bytes
  | depth, .leaf s => do
    ensureDepth depth
    encodeScalar s
  | depth, .list values => do
    ensureDepth depth
    let count ← u32Len values.length "value list"
    let items ← encodeItems (depth + 1) values
    return 5 :: (leBytes 4 count ++ items)
  | depth, .map properties => do
    ensureDepth depth
    let count ← u32Len properties.length "property map"
    let entries ← encodeProperties (depth + 1) properties
    return 6 :: (leBytes 4 count ++ entries)

def encodeItems : ℕ → List Value → CanonicalResult Bytes
  | _, [] => .ok []
  | depth, value :: values => do
    let encoded ← encodeValue depth value
    let rest ← encodeItems depth values
    return encoded ++ rest

/-- `encode_properties` past the count. -/
def encodeProperties : ℕ → List (String × Value) → CanonicalResult Bytes
  | _, [] => .ok []
  | depth, (key, value) :: properties => do
    let name ← encodeString key
    let encoded ← encodeValue (depth + 1) value
    let rest ← encodeProperties depth properties
    return name ++ (encoded ++ rest)

end

/-! ## The admission check -/

/-- The scalar arms of `encoded_value_len`. -/
def encodedScalarLen : Scalar → CanonicalResult ℕ
  | .null => .ok 1
  | .bool _ => .ok 2
  | .int _ | .float _ => .ok 9
  | .string value => (u32Len (utf8 value).length "string").map fun _ => 1 + 4 + (utf8 value).length
  | .binary value => (u32Len value.length "binary").map fun _ => 1 + 4 + value.length
  | .vector value =>
    (u32Len value.encoded.length "vector").map fun _ => 1 + 4 + value.encoded.length
  | .uuid _ => .ok 17
  | .decimal _ => .ok 18
  | .temporal value => .ok (1 + value.kind.payloadLen)

mutual

def encodedValueLen : ℕ → Value → CanonicalResult ℕ
  | depth, .leaf s => do
    ensureDepth depth
    encodedScalarLen s
  | depth, .list values => do
    ensureDepth depth
    let _ ← u32Len values.length "value list"
    encodedItemsLen (depth + 1) (1 + 4) values
  | depth, .map entries => do
    ensureDepth depth
    let _ ← u32Len entries.length "property map"
    encodedEntriesLen (depth + 2) (1 + 4) entries

/-- The loop over a list's values, from the total so far. -/
def encodedItemsLen : ℕ → ℕ → List Value → CanonicalResult ℕ
  | _, total, [] => .ok total
  | depth, total, value :: values => do
    let length ← encodedValueLen depth value
    encodedItemsLen depth (satAdd total length) values

/-- The loop over a map's entries, from the total so far. -/
def encodedEntriesLen : ℕ → ℕ → List (String × Value) → CanonicalResult ℕ
  | _, total, [] => .ok total
  | depth, total, (key, value) :: entries => do
    let _ ← u32Len (utf8 key).length "string"
    let length ← encodedValueLen depth value
    encodedEntriesLen depth (satAdd (satAdd total (4 + (utf8 key).length)) length) entries

end

def validatePropertyValue (value : Value) : CanonicalResult Unit :=
  (encodedValueLen 1 value).map fun _ => ()

/-! ## The streaming writer -/

def writeSized (bytes : Bytes) (name : String) : CanonicalResult Bytes := do
  let length ← u32Len bytes.length name
  return leBytes 4 length ++ bytes

/-- The scalar arms of `write_value_streaming`. -/
def writeScalarStreaming : Scalar → CanonicalResult Bytes
  | .null => .ok [0]
  | .bool value => .ok [1, if value then 1 else 0]
  | .int value => .ok ([2] ++ leIntBytes 8 value.toInt)
  | .float bits => .ok ([3] ++ leBytes 8 bits.toNat)
  | .string value => (writeSized (utf8 value) "string").map ([4] ++ ·)
  | .binary value => (writeSized value "binary").map ([8] ++ ·)
  | .vector value => (writeSized value.encoded "vector").map ([10] ++ ·)
  | .decimal value => .ok ([16] ++ value.toLeBytes)
  | .uuid value => .ok ([9] ++ value.1)
  | .temporal value => .ok (encodeTemporalValue value)

mutual

/-- `write_value_streaming`, the bytes it writes. -/
def writeValueStreaming : ℕ → Value → CanonicalResult Bytes
  | depth, .leaf s => do
    ensureDepth depth
    writeScalarStreaming s
  | depth, .list values => do
    ensureDepth depth
    let count ← u32Len values.length "value list"
    let items ← writeItemsStreaming (depth + 1) values
    return [5] ++ (leBytes 4 count ++ items)
  | depth, .map entries => do
    ensureDepth depth
    let count ← u32Len entries.length "property map"
    let written ← writeEntriesStreaming (depth + 2) entries
    return [6] ++ (leBytes 4 count ++ written)

def writeItemsStreaming : ℕ → List Value → CanonicalResult Bytes
  | _, [] => .ok []
  | depth, value :: values => do
    let written ← writeValueStreaming depth value
    let rest ← writeItemsStreaming depth values
    return written ++ rest

def writeEntriesStreaming : ℕ → List (String × Value) → CanonicalResult Bytes
  | _, [] => .ok []
  | depth, (key, value) :: entries => do
    let name ← writeSized (utf8 key) "string"
    let written ← writeValueStreaming depth value
    let rest ← writeEntriesStreaming depth entries
    return name ++ (written ++ rest)

end

/-! ## The cursor -/

def readExact (length : ℕ) (cursor : Bytes) : CanonicalResult (Bytes × Bytes) :=
  if length ≤ cursor.length then .ok (cursor.take length, cursor.drop length)
  else corrupt "canonical record is truncated"

def readU8 : Bytes → CanonicalResult (UInt8 × Bytes)
  | [] => corrupt "canonical record is truncated"
  | byte :: cursor => .ok (byte, cursor)

def readU32 (cursor : Bytes) : CanonicalResult (ℕ × Bytes) :=
  (readExact 4 cursor).map fun read => (leNat read.1, read.2)

def readU64 (cursor : Bytes) : CanonicalResult (ℕ × Bytes) :=
  (readExact 8 cursor).map fun read => (leNat read.1, read.2)

def readSized (cursor : Bytes) : CanonicalResult (Bytes × Bytes) := do
  let (length, cursor) ← readU32 cursor
  readExact length cursor

/-- The text of bytes read. The reason the bytes are not UTF-8 is not part of the message here. -/
def textOf (bytes : Bytes) : CanonicalResult String :=
  match textOfUtf8 bytes with
  | some value => .ok value
  | none => corrupt "canonical string is not UTF-8"

/-- `string_field`, and `read_string` of a cursor. -/
def readString (cursor : Bytes) : CanonicalResult (String × Bytes) := do
  let (bytes, cursor) ← readSized cursor
  let value ← textOf bytes
  return (value, cursor)

def readDecimalValue (cursor : Bytes) : CanonicalResult (Decimal × Bytes) := do
  let (bytes, cursor) ← readExact Decimal.encodedLen cursor
  match Decimal.fromLeBytes bytes with
  | .ok value => return (value, cursor)
  | .error error => corrupt error.message

def readTemporalValue (kind : TemporalValueKind) (cursor : Bytes) :
    CanonicalResult (TemporalValue × Bytes) := do
  let (bytes, cursor) ← readExact kind.payloadLen cursor
  match TemporalCodec.decodePayload kind bytes with
  | .ok value => return (value, cursor)
  | .error message => corrupt message

/-- The payload of a vector, validated. -/
def readVector (cursor : Bytes) : CanonicalResult (GraphVector × Bytes) := do
  let (bytes, cursor) ← readSized cursor
  match GraphVector.fromEncoded bytes with
  | .ok value => return (value, cursor)
  | .error message => corrupt message

def readBool (cursor : Bytes) : CanonicalResult (Bool × Bytes) := do
  let (byte, cursor) ← readU8 cursor
  if byte = 0 then return (false, cursor)
  else if byte = 1 then return (true, cursor)
  else corrupt s!"invalid canonical boolean {byte}"

/-! ## The decoder -/

/-- The published spilled values: how many there are, and the bytes of each. -/
structure PropertySpillReader where
  valueCount : ℕ
  get : ℕ → CanonicalResult (Option Bytes)

def readUuid (cursor : Bytes) : CanonicalResult (ByteArr 16 × Bytes) :=
  if h : 16 ≤ cursor.length then
    .ok (⟨cursor.take 16, by rw [List.length_take]; omega⟩, cursor.drop 16)
  else corrupt "canonical record is truncated"

/-- The arms of `value` that hold no other value, past their tag. -/
def decodeScalar (tag : UInt8) (cursor : Bytes) : CanonicalResult (Scalar × Bytes) :=
  match tag.toNat with
  | 0 => .ok (.null, cursor)
  | 1 => (readBool cursor).map fun read => (.bool read.1, read.2)
  | 2 => (readExact 8 cursor).map fun read => (.int (Int64.ofInt (leInt read.1)), read.2)
  | 16 => (readDecimalValue cursor).map fun read => (.decimal read.1, read.2)
  | 3 => (readU64 cursor).map fun read => (.float (UInt64.ofNat read.1), read.2)
  | 4 => (readString cursor).map fun read => (.string read.1, read.2)
  | 8 => (readSized cursor).map fun read => (.binary read.1, read.2)
  | 10 => (readVector cursor).map fun read => (.vector read.1, read.2)
  | 9 => (readUuid cursor).map fun read => (.uuid read.1, read.2)
  | _ =>
    match canonicalTemporalKind tag with
    | some kind => (readTemporalValue kind cursor).map fun read => (.temporal read.1, read.2)
    | none => corrupt s!"unknown canonical value tag {tag}"

def readSpill (reader : PropertySpillReader) (id : ℕ) : CanonicalResult Bytes := do
  match ← reader.get id with
  | some encoded => return encoded
  | none => corrupt s!"canonical value references missing property spill {id}"

def finishSpill (id : ℕ) (read : Value × Bytes) : CanonicalResult Value :=
  if read.2 = [] then .ok read.1 else corrupt s!"property spill {id} has trailing bytes"

/-- The key of a property: its number in the dictionary, or the text itself. -/
def readKey (keys : Option (List String)) (cursor : Bytes) : CanonicalResult (String × Bytes) :=
  match keys with
  | none => readString cursor
  | some keys => do
    let (keyId, cursor) ← readU32 cursor
    match keys[keyId]? with
    | some key => return (key, cursor)
    | none => corrupt s!"canonical record references unknown property key id {keyId}"

/-- The depth check and the count that start a map. -/
def readCount (mapDepth : ℕ) (cursor : Bytes) : CanonicalResult (ℕ × Bytes) := do
  ensureDepth mapDepth
  readU32 cursor

def insertNew (output : List (String × Value)) (key : String) (value : Value) :
    CanonicalResult (List (String × Value)) :=
  if (findEntry key output).isSome then corrupt "canonical property map has duplicate keys"
  else .ok (insertEntry key value output)

mutual

/-- `value` of the record decoder. -/
def decodeValue (spills : Option PropertySpillReader) (depth : ℕ) (cursor : Bytes) :
    CanonicalResult (Value × Bytes) :=
  if _h : maxValueDepth < depth then corrupt s!"canonical value nesting exceeds {maxValueDepth}"
  else do
    let (tag, cursor) ← readU8 cursor
    if tag = 5 then
      let (count, cursor) ← readU32 cursor
      let (values, cursor) ← decodeItems spills (depth + 1) count cursor
      return (.list values, cursor)
    else if tag = 6 then
      let (count, cursor) ← readCount (depth + 1) cursor
      let (entries, cursor) ← decodeEntries spills (depth + 2) none count cursor []
      return (.map entries, cursor)
    else if tag = 7 then
      let (id, cursor) ← readU64 cursor
      match _hspills : spills with
      | none =>
        corrupt s!"canonical value references property spill {id} without a published spill artifact"
      | some reader =>
        let encoded ← readSpill reader id
        let spilled ← decodeValue none depth encoded
        let value ← finishSpill id spilled
        return (value, cursor)
    else
      let (s, cursor) ← decodeScalar tag cursor
      return (.leaf s, cursor)
termination_by (if spills.isSome then 1 else 0, maxValueDepth + 2 - depth, 0)

def decodeItems (spills : Option PropertySpillReader) (depth count : ℕ) (cursor : Bytes) :
    CanonicalResult (List Value × Bytes) :=
  match count with
  | 0 => .ok ([], cursor)
  | count + 1 => do
    let (value, cursor) ← decodeValue spills depth cursor
    let (values, cursor) ← decodeItems spills depth count cursor
    return (value :: values, cursor)
termination_by (if spills.isSome then 1 else 0, maxValueDepth + 2 - depth, count + 1)

/-- The loop of `properties`, with the map so far. -/
def decodeEntries (spills : Option PropertySpillReader) (depth : ℕ) (keys : Option (List String))
    (count : ℕ) (cursor : Bytes) (output : List (String × Value)) :
    CanonicalResult (List (String × Value) × Bytes) :=
  match count with
  | 0 => .ok (output, cursor)
  | count + 1 => do
    let (key, cursor) ← readKey keys cursor
    let (value, cursor) ← decodeValue spills depth cursor
    let output ← insertNew output key value
    decodeEntries spills depth keys count cursor output
termination_by (if spills.isSome then 1 else 0, maxValueDepth + 2 - depth, count + 1)

end

/-- `properties` of the record decoder. -/
def decodeProperties (spills : Option PropertySpillReader) (mapDepth valueDepth : ℕ)
    (keys : Option (List String)) (cursor : Bytes) :
    CanonicalResult (List (String × Value) × Bytes) := do
  let (count, cursor) ← readCount mapDepth cursor
  decodeEntries spills valueDepth keys count cursor []

end Canonical

end HawDB
