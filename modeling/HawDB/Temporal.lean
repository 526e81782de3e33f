import HawDB.Bytes

/-!
# Temporal values and their binary payloads

Dates, times, datetimes and durations as the calendar library keeps them, and the fixed-width
payload that every persistent encoding of them shares. A time of day may lie within a leap second:
its nanoseconds then reach past the second.
-/

namespace HawDB

/-- A date, as its day number counting 0001-01-01 as day 1; from `NaiveDate::MIN` to
`NaiveDate::MAX`. -/
structure NaiveDate where
  days : ℤ
  min_le : -95746129 ≤ days
  le_max : days ≤ 95745399
deriving DecidableEq

namespace NaiveDate

/-- `from_num_days_from_ce_opt`. -/
def ofDays (days : ℤ) : Option NaiveDate :=
  if h : -95746129 ≤ days ∧ days ≤ 95745399 then some ⟨days, h.1, h.2⟩ else none

end NaiveDate

/-- A time of day: the seconds from midnight and the nanoseconds, one second or more of them
within a leap second. -/
structure NaiveTime where
  secs : ℕ
  frac : ℕ
  secs_lt : secs < 86400
  frac_lt : frac < 2000000000
deriving DecidableEq

namespace NaiveTime

/-- `from_num_seconds_from_midnight_opt`. -/
def ofSeconds (secs nano : ℕ) : Option NaiveTime :=
  if h : secs < 86400 ∧ nano < 2000000000 ∧ (1000000000 ≤ nano → secs % 60 = 59) then
    some ⟨secs, nano, h.1, h.2.1⟩
  else none

end NaiveTime

structure NaiveDateTime where
  date : NaiveDate
  time : NaiveTime
deriving DecidableEq

/-- `DateTime<FixedOffset>`: the UTC reading and the offset in seconds east, less than a day. -/
structure ZonedDateTime where
  utc : NaiveDateTime
  offset : ℤ
  offset_gt : -86400 < offset
  offset_lt : offset < 86400
deriving DecidableEq

/-- `checked_add_offset`: the reading some seconds further east, a leap second kept. -/
def NaiveDateTime.checkedAddOffset (value : NaiveDateTime) (offset : ℤ) : Option NaiveDateTime :=
  let secs := value.time.secs + offset
  match NaiveDate.ofDays (value.date.days + secs / 86400) with
  | none => none
  | some date => some ⟨date, ⟨(secs % 86400).toNat, value.time.frac, by omega, value.time.frac_lt⟩⟩

/-- The nanoseconds of the longest `TimeDelta`, `i64::MAX` milliseconds. -/
def maxTimeDelta : ℕ := (2 ^ 63 - 1) * 1000000

/-- `TimeDelta`: an exact length in nanoseconds. -/
structure TimeDelta where
  nanos : ℤ
  natAbs_le : nanos.natAbs ≤ maxTimeDelta
deriving DecidableEq

namespace TimeDelta

def new (secs : ℤ) (nanos : ℕ) : Option TimeDelta :=
  if h : nanos < 1000000000 ∧ (secs * 1000000000 + nanos).natAbs ≤ maxTimeDelta then
    some ⟨secs * 1000000000 + nanos, h.2⟩
  else none

end TimeDelta

structure Duration where
  months : Int64
  days : Int64
  time : TimeDelta
deriving DecidableEq

namespace Duration

/-- Whole seconds of the time part, rounded toward negative infinity. -/
def seconds (duration : Duration) : ℤ := duration.time.nanos / 1000000000

def nanosOfSecond (duration : Duration) : ℕ := (duration.time.nanos % 1000000000).toNat

end Duration

inductive TemporalValueKind where
  | date
  | localTime
  | localDateTime
  | dateTime
  | duration
deriving DecidableEq, Repr

namespace TemporalValueKind

def payloadLen : TemporalValueKind → ℕ
  | date => 4
  | localTime => 8
  | localDateTime => 12
  | dateTime => 16
  | duration => 28

/-- The derived `Debug`. -/
def name : TemporalValueKind → String
  | date => "Date"
  | localTime => "LocalTime"
  | localDateTime => "LocalDateTime"
  | dateTime => "DateTime"
  | duration => "Duration"

end TemporalValueKind

/-- The temporal variants of a graph value. -/
inductive TemporalValue where
  | date (value : NaiveDate)
  | localTime (value : NaiveTime)
  | localDateTime (value : NaiveDateTime)
  | dateTime (value : ZonedDateTime)
  | duration (value : Duration)
deriving DecidableEq

/-- `TemporalValueKind::of`. -/
def TemporalValue.kind : TemporalValue → TemporalValueKind
  | .date _ => .date
  | .localTime _ => .localTime
  | .localDateTime _ => .localDateTime
  | .dateTime _ => .dateTime
  | .duration _ => .duration

namespace TemporalCodec

def corrupt {α : Type} (kind : TemporalValueKind) (detail : String) : Except String α :=
  .error s!"corrupt {kind.name} temporal payload: {detail}"

def timeNanos (time : NaiveTime) : ℕ := time.secs * 1000000000 + time.frac

def writeDate (date : NaiveDate) : Bytes := leIntBytes 4 date.days

def writeTime (time : NaiveTime) : Bytes := leBytes 8 (timeNanos time)

/-- The bytes `encode_payload` appends. -/
def encodePayload : TemporalValue → Bytes
  | .date date => writeDate date
  | .localTime time => writeTime time
  | .localDateTime value => writeDate value.date ++ writeTime value.time
  | .dateTime value =>
    writeDate value.utc.date ++ (writeTime value.utc.time ++ leIntBytes 4 value.offset)
  | .duration duration =>
    leIntBytes 8 duration.months.toInt ++ (leIntBytes 8 duration.days.toInt ++
      (leIntBytes 8 duration.seconds ++ leBytes 4 duration.nanosOfSecond))

/-- `read_array`. -/
def readArray (width : ℕ) (bytes : Bytes) (offset : ℕ) : Bytes := (bytes.drop offset).take width

def readDate (kind : TemporalValueKind) (bytes : Bytes) (offset : ℕ) : Except String NaiveDate :=
  match NaiveDate.ofDays (leInt (readArray 4 bytes offset)) with
  | some date => .ok date
  | none => corrupt kind "day number is out of range"

def readTime (kind : TemporalValueKind) (bytes : Bytes) (offset : ℕ) : Except String NaiveTime :=
  let nanos := leNat (readArray 8 bytes offset)
  if 86400 * 1000000000 ≤ nanos then corrupt kind "time of day is out of range"
  else match NaiveTime.ofSeconds (nanos / 1000000000) (nanos % 1000000000) with
    | some time => .ok time
    | none => corrupt kind "time of day is out of range"

/-- A local datetime of a payload: the date and, four bytes on, the time. -/
def readDateTime (kind : TemporalValueKind) (bytes : Bytes) : Except String NaiveDateTime := do
  let date ← readDate kind bytes 0
  let time ← readTime kind bytes 4
  return ⟨date, time⟩

/-- `FixedOffset::east_opt` on a UTC datetime, refusing one whose local reading is out of range. -/
def zoned (kind : TemporalValueKind) (utc : NaiveDateTime) (offset : ℤ) :
    Except String ZonedDateTime :=
  if h : -86400 < offset ∧ offset < 86400 then
    match utc.checkedAddOffset offset with
    | some _ => .ok ⟨utc, offset, h.1, h.2⟩
    | none => corrupt kind "local datetime is out of range"
  else corrupt kind "offset is out of range"

def readDuration (kind : TemporalValueKind) (bytes : Bytes) : Except String Duration :=
  let nanos := leNat (readArray 4 bytes 24)
  if 1000000000 ≤ nanos then corrupt kind "nanoseconds are out of range"
  else match TimeDelta.new (leInt (readArray 8 bytes 16)) nanos with
    | some time =>
      .ok ⟨Int64.ofInt (leInt (readArray 8 bytes 0)), Int64.ofInt (leInt (readArray 8 bytes 8)),
        time⟩
    | none => corrupt kind "time part is out of range"

def decodePayload (kind : TemporalValueKind) (bytes : Bytes) : Except String TemporalValue :=
  if bytes.length ≠ kind.payloadLen then
    corrupt kind s!"expected {kind.payloadLen} bytes, found {bytes.length}"
  else match kind with
    | .date => (readDate kind bytes 0).map .date
    | .localTime => (readTime kind bytes 0).map .localTime
    | .localDateTime => (readDateTime kind bytes).map .localDateTime
    | .dateTime => do
      let utc ← readDateTime kind bytes
      return .dateTime (← zoned kind utc (leInt (readArray 4 bytes 12)))
    | .duration => (readDuration kind bytes).map .duration

end TemporalCodec

/-- A time outside a leap second: the payload counts nanoseconds from midnight and so cannot tell
a leap second from the second after it. -/
def NaiveTime.Plain (time : NaiveTime) : Prop := time.frac < 1000000000

instance (time : NaiveTime) : Decidable time.Plain := inferInstanceAs (Decidable (_ < _))

/-- A value that its payload gives back: no leap second, and the local reading of a zoned datetime
in range. -/
def TemporalValue.Restorable : TemporalValue → Prop
  | .date _ | .duration _ => True
  | .localTime time => time.Plain
  | .localDateTime value => value.time.Plain
  | .dateTime value => value.utc.time.Plain ∧ (value.utc.checkedAddOffset value.offset).isSome

instance : DecidablePred TemporalValue.Restorable := fun value => by
  cases value <;> unfold TemporalValue.Restorable <;> infer_instance

end HawDB
