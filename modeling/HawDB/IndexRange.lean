import HawDB.OrderedKey

/-!
# Index ranges

A range scan over an index is an equality prefix, optional bounds on leading key components and an
optional cursor. It is read off keys (`matchesKey`) and off encoded keys, as an interval of byte
strings (`encodedBounds`).
-/

namespace HawDB

/-- A boundary on a leading part of the key. -/
structure RelationalIndexBound where
  key : RelationalKey
  inclusive : Bool

structure RelationalIndexBounds where
  lower : Option RelationalIndexBound
  upper : Option RelationalIndexBound
  empty : Bool

/-- `UNBOUNDED`. -/
def RelationalIndexBounds.unbounded : RelationalIndexBounds := ⟨none, none, false⟩

inductive RelationalIndexScanDirection where
  | forward
  | backward
deriving DecidableEq, Repr

structure RelationalIndexRangeScan where
  keyPrefix : RelationalKey
  bounds : Option RelationalIndexBounds
  exclusiveBound : Option RelationalKey
  direction : RelationalIndexScanDirection

/-- `relational_key_has_prefix`. -/
def relationalKeyHasPrefix (key keyPrefix : RelationalKey) : Bool :=
  decide (keyPrefix.length ≤ key.length) &&
    decide (compare (key.take keyPrefix.length) keyPrefix = .eq)

/-- The leading part of a key, compared with a bound. -/
def prefixCmp (key bound : RelationalKey) : Ordering :=
  compare (key.take (min key.length bound.length)) bound

/-- The byte strings from `lower` up to `upper`. -/
structure EncodedRelationalIndexRange where
  lower : Bytes
  lowerInclusive : Bool
  upper : Option Bytes
  empty : Bool

namespace EncodedRelationalIndexRange

def includeLower (range : EncodedRelationalIndexRange) (key : Bytes) (inclusive : Bool) :
    EncodedRelationalIndexRange :=
  match compare key range.lower with
  | .gt => { range with lower := key, lowerInclusive := inclusive }
  | .eq => { range with lowerInclusive := range.lowerInclusive && inclusive }
  | .lt => range

def includeUpper (range : EncodedRelationalIndexRange) (key : Bytes) :
    EncodedRelationalIndexRange :=
  if range.upper.all fun upper => compare key upper = .lt then { range with upper := some key }
  else range

def before (range : EncodedRelationalIndexRange) (key : Bytes) : Bool :=
  decide (compare key range.lower = .lt) ||
    (!range.lowerInclusive && decide (compare key range.lower = .eq))

def after (range : EncodedRelationalIndexRange) (key : Bytes) : Bool :=
  range.upper.any fun upper => (compare key upper).isGE

def contains (range : EncodedRelationalIndexRange) (key : Bytes) : Bool :=
  !range.empty && !range.before key && !range.after key

def overlaps (range : EncodedRelationalIndexRange) (lower upper : Bytes) : Bool :=
  !range.empty && !range.before upper && !range.after lower

end EncodedRelationalIndexRange

namespace RelationalIndexRangeScan

/-- `bounds`, or no bounds. -/
def boundsOf (scan : RelationalIndexRangeScan) : RelationalIndexBounds :=
  scan.bounds.getD .unbounded

def before (scan : RelationalIndexRangeScan) (key : RelationalKey) : Bool :=
  decide (compare key scan.keyPrefix = .lt) ||
    (scan.boundsOf.lower.any fun bound =>
      decide (prefixCmp key bound.key = .lt) ||
        (decide (prefixCmp key bound.key = .eq) && !bound.inclusive)) ||
    (decide (scan.direction = .forward) &&
      scan.exclusiveBound.any fun bound => (compare key bound).isLE)

def after (scan : RelationalIndexRangeScan) (key : RelationalKey) : Bool :=
  ((compare key scan.keyPrefix).isGE && !relationalKeyHasPrefix key scan.keyPrefix) ||
    (scan.boundsOf.upper.any fun bound =>
      decide (prefixCmp key bound.key = .gt) ||
        (decide (prefixCmp key bound.key = .eq) && !bound.inclusive)) ||
    (decide (scan.direction = .backward) &&
      scan.exclusiveBound.any fun bound => (compare key bound).isGE)

def matchesKey (scan : RelationalIndexRangeScan) (key : RelationalKey) : Bool :=
  !scan.boundsOf.empty && !scan.before key && !scan.after key

variable {ε : Type*} (encode : RelationalKey → Except ε Bytes)

/-- The interval of the prefix. An empty one is allowed where bounds constrain the scan. -/
def prefixRange (scan : RelationalIndexRangeScan) : Except ε EncodedRelationalIndexRange :=
  let constrained := scan.boundsOf.lower.isSome || scan.boundsOf.upper.isSome || scan.boundsOf.empty
  let encoded := if scan.keyPrefix.isEmpty && constrained then .ok [] else encode scan.keyPrefix
  encoded.map fun lower => ⟨lower, true, successor lower, scan.boundsOf.empty⟩

/-- The interval cut at the lower bound. -/
def withLower (bound : RelationalIndexBound) (range : EncodedRelationalIndexRange) :
    Except ε EncodedRelationalIndexRange :=
  (encode bound.key).map fun key =>
    if bound.inclusive then range.includeLower key true
    else
      match successor key with
      | some next => range.includeLower next true
      | none => { range with empty := true }

/-- The interval cut at the upper bound. -/
def withUpper (bound : RelationalIndexBound) (range : EncodedRelationalIndexRange) :
    Except ε EncodedRelationalIndexRange :=
  (encode bound.key).map fun key =>
    match if bound.inclusive then successor key else some key with
    | some upper => range.includeUpper upper
    | none => range

/-- The interval cut at the cursor. -/
def withCursor (direction : RelationalIndexScanDirection) (cursor : RelationalKey)
    (range : EncodedRelationalIndexRange) : Except ε EncodedRelationalIndexRange :=
  (encode cursor).map fun key =>
    match direction with
    | .forward => range.includeLower key false
    | .backward => range.includeUpper key

def withSome {α : Type*}
    (step : α → EncodedRelationalIndexRange → Except ε EncodedRelationalIndexRange) (cut : Option α)
    (range : EncodedRelationalIndexRange) : Except ε EncodedRelationalIndexRange :=
  match cut with
  | none => .ok range
  | some cut => step cut range

def encodedBounds (scan : RelationalIndexRangeScan) : Except ε EncodedRelationalIndexRange := do
  let range ← scan.prefixRange encode
  let range ← withSome (withLower encode) scan.boundsOf.lower range
  let range ← withSome (withUpper encode) scan.boundsOf.upper range
  let range ← withSome (withCursor encode scan.direction) scan.exclusiveBound range
  .ok { range with
    empty := range.empty || range.upper.any fun upper => (compare range.lower upper).isGE }

end RelationalIndexRangeScan

end HawDB
