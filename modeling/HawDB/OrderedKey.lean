import HawDB.RelationalValue

/-!
# Ordered relational keys

An ordered key is the concatenation of its values' encodings: a tag and a payload. Payloads are of
a fixed width, except those of texts and byte strings, which escape their zero bytes and end in two
of them.
-/

namespace HawDB

/-- Why a key is not encoded or decoded. Refused allocations have no place here: nothing admits
them. -/
inductive OrderedRelationalKeyError where
  | unsupportedOverflow
  | unsupportedVector
  | corrupt (message : String)
deriving DecidableEq, Repr

/-- `in_range`. -/
def timestampInRange (micros : Int64) : Bool :=
  minMicros ≤ micros.toInt ∧ micros.toInt ≤ maxMicros

section

/-- The bit that is flipped to bring two's complement into unsigned order. -/
def signBit : UInt64 := (1 : UInt64) <<< 63

/-- A signed number in eight bytes. -/
def orderedInt (value : Int64) : Bytes := beBytes 8 (value.toUInt64 ^^^ signBit).toNat

/-- The bits of a double, in the order of `total_cmp`. -/
def orderedBits (bits : UInt64) : UInt64 := if bits >>> 63 = 0 then bits ^^^ signBit else ~~~bits

/-- `escaped` after the tag. -/
def escaped : Bytes → Bytes
  | [] => [0, 0]
  | byte :: bytes => if byte = 0 then 0 :: 255 :: escaped bytes else byte :: escaped bytes

/-- What `encode_ordered_relational_value` appends. -/
def encodeOrderedRelationalValue : RelationalValue → Except OrderedRelationalKeyError Bytes
  | .text value => .ok (4 :: escaped (utf8 value))
  | .bytea value => .ok (5 :: escaped value)
  | .null => .ok [0]
  | .boolean value => .ok [1, if value then 1 else 0]
  | .bigInt value => .ok (2 :: orderedInt value)
  | .doublePrecision bits => .ok (3 :: beBytes 8 (orderedBits bits).toNat)
  | .decimal value => .ok (9 :: value.toOrderedBytes)
  | .uuid value => .ok (6 :: value.1)
  | .timestamp micros => .ok (10 :: orderedInt micros)
  | .timestampTz micros => .ok (11 :: orderedInt micros)
  | .vector _ => .error .unsupportedVector
  | .overflow _ => .error .unsupportedOverflow

/-- The loop of `encode_ordered_relational_key`. -/
def encodeLoop (encoded : Bytes) : RelationalKey → Except OrderedRelationalKeyError Bytes
  | [] => .ok encoded
  | value :: key =>
    match encodeOrderedRelationalValue value with
    | .error e => .error e
    | .ok bytes => encodeLoop (encoded ++ bytes) key

def encodeOrderedRelationalKey (key : RelationalKey) : Except OrderedRelationalKeyError Bytes :=
  if key.isEmpty then .error (.corrupt "key contains no values") else encodeLoop [] key

end

/-- A decoder on the bytes from its offset on: a result and the bytes after it. -/
abbrev OrderedKeyDecoder (α : Type) := Bytes → Except OrderedRelationalKeyError (α × Bytes)

namespace OrderedKeyDecoder

def byte (context : String) : OrderedKeyDecoder UInt8
  | [] => .error (.corrupt s!"truncated {context}")
  | byte :: rest => .ok (byte, rest)

def fixed (n : ℕ) (context : String) : OrderedKeyDecoder (ByteArr n) := fun encoded =>
  if h : n ≤ encoded.length then
    .ok (⟨encoded.take n, by rw [List.length_take, Nat.min_eq_left h]⟩, encoded.drop n)
  else .error (.corrupt s!"truncated {context}")

/-- `walk_escaped`, with the bytes it emits. -/
def walkEscaped : OrderedKeyDecoder Bytes
  | [] => .error (.corrupt "truncated escaped key value")
  | byte :: rest =>
    if byte ≠ 0 then
      match walkEscaped rest with
      | .error e => .error e
      | .ok (decoded, rest) => .ok (byte :: decoded, rest)
    else
      match rest with
      | [] => .error (.corrupt "truncated escaped key terminator")
      | tag :: rest =>
        if tag = 0 then .ok ([], rest)
        else if tag = 255 then
          match walkEscaped rest with
          | .error e => .error e
          | .ok (decoded, rest) => .ok (0 :: decoded, rest)
        else .error (.corrupt s!"invalid escaped key tag {tag}")

/-- The result of a decoder, turned into a value. -/
def andThen {α β : Type} (decoder : OrderedKeyDecoder α)
    (convert : α → Except OrderedRelationalKeyError β) : OrderedKeyDecoder β := fun encoded =>
  match decoder encoded with
  | .error e => .error e
  | .ok (a, rest) => (convert a).map fun b => (b, rest)

/-- `String::from_utf8`. -/
def fromUtf8 (bytes : Bytes) : Except OrderedRelationalKeyError String :=
  match textOfUtf8 bytes with
  | some value => .ok value
  | none => .error (.corrupt "TEXT key is not valid UTF-8")

def signedOf (bytes : ByteArr 8) : Int64 := (UInt64.ofNat (beNat bytes.1) ^^^ signBit).toInt64

/-- The bits of a double from their eight ordered bytes. -/
def bitsOf (bytes : ByteArr 8) : UInt64 :=
  let ordered := UInt64.ofNat (beNat bytes.1)
  if ordered >>> 63 = 1 then ordered ^^^ signBit else ~~~ordered

def booleanOf (tag : UInt8) : Except OrderedRelationalKeyError RelationalValue :=
  if tag = 0 then .ok (.boolean false)
  else if tag = 1 then .ok (.boolean true)
  else .error (.corrupt s!"invalid boolean tag {tag}")

def decimal : OrderedKeyDecoder RelationalValue :=
  (fixed 40 "Decimal value").andThen fun bytes =>
    match Decimal.fromOrderedBytes bytes.1 with
    | .ok value => .ok (.decimal value)
    | .error e => .error (.corrupt e.message)

/-- `timestamp` with `decode_timestamp_value`. -/
def timestamp (kind : Int64 → RelationalValue) : OrderedKeyDecoder RelationalValue :=
  (fixed 8 "TIMESTAMP value").andThen fun bytes =>
    if timestampInRange (signedOf bytes) then .ok (kind (signedOf bytes))
    else .error (.corrupt "relational corruption: TIMESTAMP value is out of range")

def payload (tag : UInt8) : OrderedKeyDecoder RelationalValue :=
  match tag.toNat with
  | 0 => fun rest => .ok (.null, rest)
  | 1 => (byte "boolean value").andThen booleanOf
  | 2 => (fixed 8 "BIGINT value").andThen fun bytes => .ok (.bigInt (signedOf bytes))
  | 3 => (fixed 8 "DOUBLE PRECISION value").andThen fun bytes => .ok (.doublePrecision (bitsOf bytes))
  | 4 => walkEscaped.andThen fun bytes => (fromUtf8 bytes).map .text
  | 5 => walkEscaped.andThen fun bytes => .ok (.bytea bytes)
  | 9 => decimal
  | 6 => (fixed 16 "UUID value").andThen fun bytes => .ok (.uuid bytes)
  | 10 => timestamp .timestamp
  | 11 => timestamp .timestampTz
  | _ => fun _ =>
    .error (.corrupt s!"invalid value tag {tag} (corrupt, or written by a newer HawDB)")

def value : OrderedKeyDecoder RelationalValue := fun encoded =>
  match byte "value tag" encoded with
  | .error e => .error e
  | .ok (tag, rest) => payload tag rest

def Advances {α : Type} (decoder : OrderedKeyDecoder α) : Prop :=
  ∀ ⦃encoded a rest⦄, decoder encoded = .ok (a, rest) → rest.length ≤ encoded.length

lemma advances_byte (context : String) : (byte context).Advances := by
  rintro (_ | ⟨b, encoded⟩) a rest h
  · cases h
  · cases h
    exact Nat.le_succ _

lemma advances_fixed (n : ℕ) (context : String) : (fixed n context).Advances := by
  intro encoded a rest h
  unfold fixed at h
  split_ifs at h
  cases h
  rw [List.length_drop]
  exact Nat.sub_le _ _

lemma advances_walkEscaped : walkEscaped.Advances := by
  intro encoded
  fun_induction walkEscaped encoded with
  | case1 | case2 | case4 | case6 | case8 => exact nofun
  | case3 byte rest hbyte decoded rest' hwalk ih =>
    rintro a rest ⟨⟩
    exact (ih hwalk).trans (Nat.le_succ _)
  | case5 rest =>
    rintro a rest ⟨⟩
    exact (Nat.le_succ _).trans (Nat.le_succ _)
  | case7 _ _ rest decoded rest' hwalk _ ih =>
    rintro a rest ⟨⟩
    exact (ih hwalk).trans ((Nat.le_succ _).trans (Nat.le_succ _))

lemma Advances.andThen {α β : Type} {decoder : OrderedKeyDecoder α} (h : decoder.Advances)
    (convert : α → Except OrderedRelationalKeyError β) : (decoder.andThen convert).Advances := by
  intro encoded b rest hthen
  unfold OrderedKeyDecoder.andThen at hthen
  split at hthen
  · cases hthen
  rename_i a rest' hdecoder
  rcases hconvert : convert a with e | b'
  · rw [hconvert] at hthen
    cases hthen
  · rw [hconvert] at hthen
    cases hthen
    exact h hdecoder

lemma advances_payload (tag : UInt8) : (payload tag).Advances := by
  unfold payload
  split
  · rintro encoded a rest ⟨⟩
    exact le_rfl
  all_goals first
    | exact (advances_byte _).andThen _
    | exact (advances_fixed _ _).andThen _
    | exact advances_walkEscaped.andThen _
    | exact nofun

lemma length_lt_of_value {encoded rest : Bytes} {v : RelationalValue}
    (h : value encoded = .ok (v, rest)) : rest.length < encoded.length := by
  cases encoded with
  | nil => cases h
  | cons tag encoded => exact Nat.lt_succ_of_le (advances_payload tag h)

/-- The loop of `decode_ordered_relational_key_into`, on a key that starts empty. -/
def keyLoop (encoded : Bytes) (key : RelationalKey) :
    Except OrderedRelationalKeyError RelationalKey :=
  if encoded = [] then .ok key
  else
    match _h : value encoded with
    | .error e => .error e
    | .ok (v, rest) => keyLoop rest (key ++ [v])
termination_by encoded.length
decreasing_by exact length_lt_of_value _h

end OrderedKeyDecoder

def decodeOrderedRelationalKey (encoded : Bytes) :
    Except OrderedRelationalKeyError RelationalKey :=
  match OrderedKeyDecoder.keyLoop encoded [] with
  | .error e => .error e
  | .ok key => if key.isEmpty then .error (.corrupt "key contains no values") else .ok key

end HawDB
