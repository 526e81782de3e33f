import HawDB.Machine
import HawDB.Decimal

/-!
# Relational values and keys

A relational value is ordered by its kind first and within its kind by the kind's own order; two
values are equal when they compare equal. A key is a list of values in lexicographic order, a
proper prefix first. A double stands for its bits, a text for its UTF-8 bytes.
-/

namespace HawDB

/-- A byte array of a fixed length. -/
abbrev ByteArr (n : ℕ) := {b : Bytes // b.length = n}

inductive RelationalScalarType where
  | boolean
  | bigInt
  | doublePrecision
  | decimal (precision scale : UInt8)
  | text
  | bytea
  | uuid
  | vector (dimension : UInt32)
  | timestamp (precision : UInt8)
  | timestampTz (precision : UInt8)
deriving DecidableEq, Ord

structure RelationalOverflowRef where
  digest : ByteArr 32
  scalarType : RelationalScalarType
  compressedBytes : UInt64
  uncompressedBytes : UInt64
deriving DecidableEq

/-- The derived `Ord` of an overflow reference. -/
def RelationalOverflowRef.cmp (a b : RelationalOverflowRef) : Ordering :=
  (compare a.digest.1 b.digest.1).then <|
    (compare a.scalarType b.scalarType).then <|
      (compare a.compressedBytes b.compressedBytes).then
        (compare a.uncompressedBytes b.uncompressedBytes)

def minMicros : ℤ := -8334601228800000000

/-- The microsecond of 262142-12-31 23:59:59.999999, the latest date and time. -/
def maxMicros : ℤ := 8210266876799999999

def utf8 (s : String) : Bytes := s.toUTF8.data.toList

/-- `str::from_utf8`. -/
def textOfUtf8 (bytes : Bytes) : Option String := String.fromUTF8? ⟨bytes.toArray⟩

lemma textOfUtf8_utf8 (s : String) : textOfUtf8 (utf8 s) = some s := by
  show String.fromUTF8? ⟨s.toUTF8.data.toList.toArray⟩ = some s
  rw [Array.toArray_toList]
  simp only [String.fromUTF8?, String.toUTF8_eq_toByteArray, dif_pos s.isValidUTF8]
  rfl

lemma utf8_of_textOfUtf8 {bytes : Bytes} {s : String} (h : textOfUtf8 bytes = some s) : utf8 s = bytes := by
  unfold textOfUtf8 String.fromUTF8? at h
  split_ifs at h with hvalid
  cases h
  rfl

/-- The integer `f64::total_cmp` compares: the bits as `i64`, the magnitude of a negative number
complemented. -/
def totalOrderKey (bits : UInt64) : ℤ :=
  if bits.toNat < 2 ^ 63 then bits.toNat else 2 ^ 63 - 1 - bits.toNat

/-- `f64::total_cmp`, on the bits. -/
def totalCmp (left right : UInt64) : Ordering := compare (totalOrderKey left) (totalOrderKey right)

inductive RelationalValue where
  | null
  | boolean (value : Bool)
  | bigInt (value : Int64)
  | doublePrecision (bits : UInt64)
  | decimal (value : Decimal)
  | text (value : String)
  | bytea (value : Bytes)
  | vector (encoded : Bytes)
  | uuid (value : ByteArr 16)
  | timestamp (micros : Int64)
  | timestampTz (micros : Int64)
  | overflow (reference : RelationalOverflowRef)
deriving DecidableEq

namespace RelationalValue

def kindRank : RelationalValue → UInt8
  | null => 0
  | boolean _ => 1
  | bigInt _ => 2
  | decimal _ => 9
  | doublePrecision _ => 3
  | text _ => 4
  | bytea _ => 5
  | vector _ => 8
  | uuid _ => 6
  | overflow _ => 7
  | timestamp _ => 10
  | timestampTz _ => 11

def cmpSameKind : RelationalValue → RelationalValue → Ordering
  | null, null => .eq
  | boolean left, boolean right => compare left right
  | bigInt left, bigInt right => compare left right
  | decimal left, decimal right => compare left right
  | doublePrecision left, doublePrecision right => totalCmp left right
  | text left, text right => compare (utf8 left) (utf8 right)
  | bytea left, bytea right => compare left right
  | vector left, vector right => compare left right
  | uuid left, uuid right => compare left.1 right.1
  | timestamp left, timestamp right => compare left right
  | timestampTz left, timestampTz right => compare left right
  | overflow left, overflow right => left.cmp right
  | _, _ => .eq

instance : Ord RelationalValue where
  compare a b := (compare a.kindRank b.kindRank).then (a.cmpSameKind b)

def estimatedPayloadBytes [TypeSizes] : RelationalValue → ℕ
  | null => 0
  | boolean _ => 1
  | bigInt _ | doublePrecision _ | timestamp _ | timestampTz _ => 8
  | decimal _ => Decimal.encodedLen
  | text value => (utf8 value).length
  | bytea value => value.length
  | vector encoded => encoded.length
  | uuid _ => 16
  | overflow _ => TypeSizes.relationalOverflowRef

end RelationalValue

/-- A key: its values, in column order. -/
abbrev RelationalKey := List RelationalValue

/-- `PartialEq` of keys. -/
def RelationalKey.eq (a b : RelationalKey) : Bool := compare a b = .eq

end HawDB
