import HawDB.GraphValue

/-!
# The order of graph values

`Value` is ordered by its kind first and within its kind by the kind's own order, and two values are
equal when they compare equal: a decimal is equal to itself at another scale, and a float to itself
by its bits. Lists and maps compare item by item.
-/

namespace HawDB

instance : Ord NaiveDate := ⟨fun a b => compare a.days b.days⟩

instance : Ord NaiveTime := ⟨fun a b => (compare a.secs b.secs).then (compare a.frac b.frac)⟩

instance : Ord NaiveDateTime := ⟨fun a b => (compare a.date b.date).then (compare a.time b.time)⟩

/-- `datetime_cmp`: by the instant, then by the offset. -/
instance : Ord ZonedDateTime := ⟨fun a b => (compare a.utc b.utc).then (compare a.offset b.offset)⟩

/-- The derived order, which is not that of the comparison operators. -/
instance : Ord Duration := ⟨fun a b => (compare a.months b.months).then
  ((compare a.days b.days).then (compare a.time.nanos b.time.nanos))⟩

namespace Scalar

def kindRank : Scalar → ℕ
  | null => 0
  | bool _ => 1
  | int _ => 2
  | decimal _ => 15
  | float _ => 3
  | string _ => 4
  | binary _ => 5
  | vector _ => 9
  | uuid _ => 6
  | temporal (.date _) => 10
  | temporal (.localTime _) => 11
  | temporal (.localDateTime _) => 12
  | temporal (.dateTime _) => 13
  | temporal (.duration _) => 14

def cmpSameKind : Scalar → Scalar → Ordering
  | null, null => .eq
  | bool left, bool right => compare left right
  | int left, int right => compare left right
  | decimal left, decimal right => compare left right
  | float left, float right => totalCmp left right
  | string left, string right => compare (utf8 left) (utf8 right)
  | binary left, binary right => compare left right
  | vector left, vector right => compare left.encoded right.encoded
  | uuid left, uuid right => compare left.1 right.1
  | temporal (.date left), temporal (.date right) => compare left right
  | temporal (.localTime left), temporal (.localTime right) => compare left right
  | temporal (.localDateTime left), temporal (.localDateTime right) => compare left right
  | temporal (.dateTime left), temporal (.dateTime right) => compare left right
  | temporal (.duration left), temporal (.duration right) => compare left right
  | _, _ => .eq

end Scalar

namespace Value

def kindRank : Value → ℕ
  | .leaf s => s.kindRank
  | .list _ => 7
  | .map _ => 8

mutual

/-- `Ord::cmp`. -/
def cmp : Value → Value → Ordering
  | .leaf left, .leaf right =>
    (compare left.kindRank right.kindRank).then (left.cmpSameKind right)
  | .list left, .list right => cmpItems left right
  | .map left, .map right => cmpEntries left right
  | left, right => compare left.kindRank right.kindRank

def cmpItems : List Value → List Value → Ordering
  | [], [] => .eq
  | [], _ :: _ => .lt
  | _ :: _, [] => .gt
  | left :: lefts, right :: rights => (cmp left right).then (cmpItems lefts rights)

def cmpEntries : List (String × Value) → List (String × Value) → Ordering
  | [], [] => .eq
  | [], _ :: _ => .lt
  | _ :: _, [] => .gt
  | (key, left) :: lefts, (key', right) :: rights =>
    ((compare (utf8 key) (utf8 key')).then (cmp left right)).then (cmpEntries lefts rights)

end

instance : Ord Value := ⟨cmp⟩

/-- `PartialEq::eq`. -/
def eq (left right : Value) : Bool := compare left right = .eq

end Value

end HawDB
