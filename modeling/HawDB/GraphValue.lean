import HawDB.RelationalValue
import HawDB.Temporal
import HawDB.Tree

/-!
# Graph values

A property value is a scalar, a list of values or a map from strings to values. A float stands for
its bits, a vector for its validated bytes. The keys of a map are in the order of a `BTreeMap`, and
a value lies in addressable memory (`PropertyValue`).
-/

namespace HawDB

/-! ## Vectors -/

namespace VectorRef

/-- `f32::is_finite`, on the bits. -/
def isFinite (bits : ℕ) : Bool := bits / 2 ^ 23 % 256 ≠ 255

/-- `chunks_exact(4)` are all finite. -/
def allFinite : Bytes → Bool
  | a :: b :: c :: d :: rest => isFinite (leNat [a, b, c, d]) && allFinite rest
  | _ => true

/-- The reason `from_encoded` refuses a payload. -/
def refusal (encoded : Bytes) : Option String :=
  if encoded.length < 4 then some "truncated dimension"
  else if leNat (encoded.take 4) = 0 then some "dimension must be positive"
  else if encoded.length ≠ leNat (encoded.take 4) * 4 + 4 then
    some "payload length does not match dimension"
  else if allFinite (encoded.drop 4) then none
  else some "coordinates must be finite"

end VectorRef

/-- A vector: its canonical payload, a little-endian dimension and the bits of finite floats. -/
structure GraphVector where
  encoded : Bytes
  valid : VectorRef.refusal encoded = none
deriving DecidableEq

/-- `Vector::from_encoded`, its error as displayed. -/
def GraphVector.fromEncoded (encoded : Bytes) : Except String GraphVector :=
  match h : VectorRef.refusal encoded with
  | none => .ok ⟨encoded, h⟩
  | some reason => .error s!"semantic error: invalid vector: {reason}"

/-! ## Values -/

/-- The variants of `Value` that hold no other value. -/
inductive Scalar where
  | null
  | bool (value : Bool)
  | int (value : Int64)
  | float (bits : UInt64)
  | decimal (value : Decimal)
  | string (value : String)
  | binary (value : Bytes)
  | vector (value : GraphVector)
  | uuid (value : ByteArr 16)
  | temporal (value : TemporalValue)
deriving DecidableEq

/-- A graph property value. -/
abbrev Value := Tree String Scalar

namespace Value

abbrev scalar (s : Scalar) : Value := Tree.leaf s

end Value

namespace Scalar

/-- The bytes a scalar holds in memory besides its slot. -/
def heapBytes : Scalar → ℕ
  | .string value => (utf8 value).length
  | .binary value => value.length
  | .vector value => value.encoded.length
  | .temporal (.duration _) => 32
  | _ => 0

/-- A scalar that its binary encodings give back. -/
def Restorable : Scalar → Prop
  | .temporal value => value.Restorable
  | _ => True

instance : DecidablePred Restorable := fun s => by
  cases s <;> unfold Restorable <;> infer_instance

end Scalar

namespace Value

/-- The keys of every map are in the order of a `BTreeMap`. -/
def SortedMaps (v : Value) : Prop :=
  v.Everywhere (fun _ => Tree.KeysIn fun keys => keys.Pairwise fun a b => compare a b = .lt) 1

instance (v : Value) : Decidable v.SortedMaps := inferInstanceAs (Decidable (Tree.Everywhere _ _ _))

mutual

/-- Bytes a value holds in memory: its slot of 32 bytes and what it owns, a key's slot being 24. -/
def heldBytes : Value → ℕ
  | .leaf s => 32 + s.heapBytes
  | .list vs => 32 + heldItems vs
  | .map es => 32 + heldEntries es

def heldItems : List Value → ℕ
  | [] => 0
  | v :: vs => heldBytes v + heldItems vs

def heldEntries : List (String × Value) → ℕ
  | [] => 0
  | (key, v) :: es => 24 + (utf8 key).length + heldBytes v + heldEntries es

end

end Value

/-- A value as the program holds one: its maps are `BTreeMap`s, and it lies in memory. -/
structure PropertyValue where
  value : Value
  sorted : value.SortedMaps
  addressable : value.heldBytes ≤ usizeMax

end HawDB
