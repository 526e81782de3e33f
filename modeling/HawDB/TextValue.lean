import HawDB.DecimalText
import HawDB.Proofs.GraphValue

/-!
# The text encoding of property maps

Checkpoint and source-scan payloads hold properties as text. A value is a tag and its display; the
texts inside a list or a map are written in hexadecimal digits. The properties of a record are
joined by semicolons, and so are the entries of a map: where a map ends is guessed from the first
digit behind the next equals sign.
-/

namespace HawDB

namespace TextCodec

/-- Results whose error is the message of a storage error. -/
abbrev TextResult (α : Type) := Except String α

/-- `Display` of a UUID: lower case digits in five groups. -/
def uuidText (u : ByteArr 16) : Text :=
  hexText (u.1.take 4) ++ '-' :: (hexText ((u.1.drop 4).take 2) ++
    '-' :: (hexText ((u.1.drop 6).take 2) ++
      '-' :: (hexText ((u.1.drop 8).take 2) ++ '-' :: hexText (u.1.drop 10))))

/-- What the codec takes from its libraries: temporal fields and literals, and UUIDs. -/
structure TextLibrary where
  year : NaiveDate → ℤ
  month : NaiveDate → ℕ
  day : NaiveDate → ℕ
  naiveLocal : ZonedDateTime → NaiveDateTime
  parseTemporal : TemporalValueKind → Text → Except String TemporalValue
  parseUuid : Text → Except String (ByteArr 16)
  parseUuid_uuidText : ∀ u, parseUuid (uuidText u) = .ok u

/-! ## Temporal values as displayed -/

section

variable (lib : TextLibrary)

def writeYear (year : ℤ) : Text :=
  if 0 ≤ year ∧ year ≤ 9999 then padText 4 year.natAbs
  else if year < 0 then '-' :: padText 4 year.natAbs
  else '+' :: natText year.natAbs

def writeDate (date : NaiveDate) : Text :=
  writeYear (lib.year date) ++ '-' :: (padText 2 (lib.month date) ++
    '-' :: padText 2 (lib.day date))

/-- The shortest exact form of a fraction of a second, or nothing. -/
def writeFraction (nanos : ℕ) : Text :=
  if nanos = 0 then []
  else if nanos % 1000000 = 0 then '.' :: padText 3 (nanos / 1000000)
  else if nanos % 1000 = 0 then '.' :: padText 6 (nanos / 1000)
  else '.' :: padText 9 nanos

def writeTime (time : NaiveTime) : Text :=
  padText 2 (time.secs / 3600) ++ ':' :: (padText 2 (time.secs / 60 % 60) ++
    ':' :: (padText 2 (time.secs % 60) ++ writeFraction time.frac))

def writeOffset (offset : ℤ) : Text :=
  if offset = 0 then ['Z']
  else
    let seconds := offset.natAbs
    (if offset < 0 then '-' else '+') :: (padText 2 (seconds / 3600) ++
      ':' :: (padText 2 (seconds / 60 % 60) ++
        if seconds % 60 = 0 then [] else ':' :: padText 2 (seconds % 60)))

def formatLocalDatetime (value : NaiveDateTime) : Text :=
  writeDate lib value.date ++ 'T' :: writeTime value.time

def formatDatetime (value : ZonedDateTime) : Text :=
  formatLocalDatetime lib (lib.naiveLocal value) ++ writeOffset value.offset

/-- A component of a duration with its unit, or nothing for zero. -/
def writeComponent (n : ℤ) (unit : Char) : Text :=
  if n = 0 then [] else intText n ++ [unit]

/-- `trim_end_matches('0')`. -/
def trimZeros (t : Text) : Text := (t.reverse.dropWhile (· = '0')).reverse

def writeSeconds (sign : Text) (seconds fraction : ℕ) : Text :=
  if seconds = 0 ∧ fraction = 0 then []
  else sign ++ (natText seconds ++
    ((if fraction = 0 then [] else '.' :: trimZeros (padText 9 fraction)) ++ ['S']))

def writeDuration (duration : Duration) : Text :=
  let years := duration.months.toInt.tdiv 12
  let months := duration.months.toInt.tmod 12
  let sign := if duration.time.nanos < 0 then ['-'] else []
  let magnitude := duration.time.nanos.natAbs
  let hours := magnitude / 3600000000000
  let minutes := magnitude / 60000000000 % 60
  let seconds := magnitude / 1000000000 % 60
  let fraction := magnitude % 1000000000
  'P' :: (writeComponent years 'Y' ++ (writeComponent months 'M' ++
    (writeComponent duration.days.toInt 'D' ++
      if magnitude ≠ 0 then
        'T' :: ((if hours = 0 then [] else sign ++ (natText hours ++ ['H'])) ++
          ((if minutes = 0 then [] else sign ++ (natText minutes ++ ['M'])) ++
            writeSeconds sign seconds fraction))
      else if duration.months = 0 ∧ duration.days = 0 then ['T', '0', 'S'] else [])))

/-- `Display` of a temporal value. -/
def displayTemporal : TemporalValue → Text
  | .date value => writeDate lib value
  | .localTime value => writeTime value
  | .localDateTime value => formatLocalDatetime lib value
  | .dateTime value => formatDatetime lib value
  | .duration value => writeDuration value

end

def temporalTextTag : TemporalValueKind → Char
  | .date => 'D'
  | .localTime => 'T'
  | .localDateTime => 'L'
  | .dateTime => 'Z'
  | .duration => 'P'

/-! ## Encoding -/

/-- `encode_string`. -/
def encodeString (input : Text) : Text := hexText (textBytes input)

section

variable (lib : TextLibrary)

/-- The arms of `encode_value` that hold no other value. -/
def encodeScalar : Scalar → Text
  | .null => ['n']
  | .bool false => ['b', '0']
  | .bool true => ['b', '1']
  | .int value => 'i' :: intText value.toInt
  | .decimal value => 'd' :: value.toText
  | .float bits => 'f' :: natText bits.toNat
  | .string value => 's' :: encodeString value.toList
  | .uuid value => 'u' :: uuidText value
  | .temporal value => temporalTextTag value.kind :: displayTemporal lib value
  | .vector value => 'v' :: hexText value.encoded
  | .binary value => 'x' :: hexText value

mutual

def encodeValue : Value → Text
  | .leaf s => encodeScalar lib s
  | .list values => 'l' :: [','].intercalate (encodeItems values)
  | .map entries => 'm' :: [';'].intercalate (encodeMapItems entries)

def encodeItems : List Value → List Text
  | [] => []
  | value :: values => encodeString (encodeValue value) :: encodeItems values

def encodeMapItems : List (String × Value) → List Text
  | [] => []
  | (key, value) :: entries =>
    (encodeString key.toList ++ '=' :: encodeString (encodeValue value)) :: encodeMapItems entries

end

def encodePair (entry : String × Value) : Text :=
  encodeString entry.1.toList ++ '=' :: encodeValue lib entry.2

def encodeProperties (properties : List (String × Value)) : Text :=
  [';'].intercalate (properties.map (encodePair lib))

end

/-! ## Decoding -/

/-- `u8::from_str_radix` of two characters: a plus sign may stand before a single digit. -/
def radixPair (offset : ℕ) (high low : UInt8) : TextResult UInt8 :=
  match if high = 43 then (hexDigitValue low).map UInt8.ofNat else hexByte high low with
  | some byte => .ok byte
  | none => .error s!"invalid hex string at byte offset {offset}"

def decodeBytes (input : Text) : TextResult Bytes :=
  let bytes := textBytes input
  if bytes.length % 2 ≠ 0 then .error s!"invalid hex string length: {bytes.length}"
  else decodePairs radixPair 0 bytes

/-- The reason the bytes are not UTF-8 is not part of the message here. -/
def decodeString (input : Text) : TextResult String := do
  match textOfUtf8 (← decodeBytes input) with
  | some value => .ok value
  | none => .error "invalid utf-8 sequence"

/-- A pair of `decode_hex_bytes`; the message does not name the digit here. -/
def hexPair (_offset : ℕ) (high low : UInt8) : TextResult UInt8 :=
  match hexByte high low with
  | some byte => .ok byte
  | none => .error "binary value contains invalid hex digit"

def decodeHexBytes (input : Text) : TextResult Bytes :=
  let bytes := textBytes input
  if bytes.length % 2 ≠ 0 then .error "binary value has an odd number of hex digits"
  else decodePairs hexPair 0 bytes

def parseI64 (input : Text) (name : String) : TextResult Int64 :=
  match parseSigned (2 ^ 63) input with
  | some value => .ok (Int64.ofInt value)
  | none => .error s!"invalid {name}: {String.ofList input}"

def parseU64 (input : Text) (name : String) : TextResult UInt64 :=
  match parseUnsigned (2 ^ 64) input with
  | some value => .ok (UInt64.ofNat value)
  | none => .error s!"invalid {name}: {String.ofList input}"

def temporalKind : Char → Option TemporalValueKind
  | 'D' => some .date
  | 'T' => some .localTime
  | 'L' => some .localDateTime
  | 'Z' => some .dateTime
  | 'P' => some .duration
  | _ => none

section

variable (lib : TextLibrary)

/-- `decode_temporal`: only the canonical rendering is accepted. -/
def decodeTemporal (kind : TemporalValueKind) (rest : Text) : TextResult TemporalValue :=
  match lib.parseTemporal kind rest with
  | .error error => .error s!"invalid encoded temporal value: {error}"
  | .ok decoded =>
    if displayTemporal lib decoded ≠ rest then
      .error s!"non-canonical encoded temporal value: {temporalTextTag kind}{String.ofList rest}"
    else .ok decoded

/-- The arms of `decode` that hold no other value. -/
def decodeScalar (kind : Char) (rest : Text) : TextResult Scalar :=
  if 128 ≤ kind.toNat then .error "invalid encoded value tag"
  else match kind, rest with
    | 'n', [] => .ok .null
    | 'b', ['0'] => .ok (.bool false)
    | 'b', ['1'] => .ok (.bool true)
    | 'b', rest => .error s!"invalid bool value: b{String.ofList rest}"
    | 'i', rest => (parseI64 rest "integer value").map .int
    | 'd', rest => (rest |> Decimal.fromText).mapError (·.message) |>.map .decimal
    | 'f', rest => (parseU64 rest "float value").map .float
    | 's', rest => (decodeString rest).map .string
    | 'u', rest => (lib.parseUuid rest).mapError ("invalid UUID value: " ++ ·) |>.map .uuid
    | 'x', rest => (decodeHexBytes rest).map .binary
    | 'v', rest => do return .vector (← GraphVector.fromEncoded (← decodeHexBytes rest))
    | kind, rest =>
      match temporalKind kind with
      | some temporal => (decodeTemporal lib temporal rest).map .temporal
      | none =>
        .error s!"invalid encoded value tag or payload: {String.quote (String.singleton kind)}"

lemma textBytes_toList (s : String) : textBytes s.toList = utf8 s := by
  rw [utf8, String.toUTF8_eq_toByteArray, ← String.ofList_toList (s := s),
    String.toByteArray_ofList, String.toList_ofList]
  simp [List.utf8Encode, textBytes]

lemma length_of_decodeString {input : Text} {s : String} (h : decodeString input = .ok s) :
    (textBytes s.toList).length ≤ (textBytes input).length := by
  obtain ⟨bytes, hbytes, htext⟩ := bind_eq_ok.1 h
  have hs : utf8 s = bytes := by
    cases hutf8 : textOfUtf8 bytes with
    | none =>
      rw [hutf8] at htext
      exact nomatch htext
    | some value =>
      rw [hutf8] at htext
      cases htext
      exact utf8_of_textOfUtf8 hutf8
  rw [textBytes_toList, hs]
  unfold decodeBytes at hbytes
  simp only at hbytes
  split_ifs at hbytes
  exact length_of_decodePairs hbytes

lemma length_of_splitOnce {separator : Char} {input before after : Text}
    (h : splitOnce separator input = some (before, after)) :
    (textBytes after).length ≤ (textBytes input).length := by
  induction input generalizing before with
  | nil => exact nomatch h
  | cons c input ih =>
    rw [textBytes_cons, List.length_append]
    unfold splitOnce at h
    split_ifs at h
    · cases h
      omega
    · obtain ⟨⟨_, _⟩, hsplit, ⟨⟩⟩ := Option.map_eq_some_iff.1 h
      have := ih hsplit
      omega

mutual

/-- `decode`. -/
def decodeValue (input : Text) : TextResult Value :=
  match input with
  | [] => .error "empty encoded value"
  | kind :: rest =>
    if _hlist : kind = 'l' then
      if rest = [] then .ok (.list []) else (decodeItems (rest.splitOn ',')).map .list
    else if _hmap : kind = 'm' then
      if rest = [] then .ok (.map []) else (decodeMapItems (rest.splitOn ';') []).map .map
    else (decodeScalar lib kind rest).map .leaf
termination_by ((textBytes input).length, 1)
decreasing_by
  all_goals
    have hone : (String.utf8EncodeChar kind).length = 1 := by
      subst kind
      rfl
    rw [sum_length_splitOn rfl, textBytes_cons, List.length_append, hone, Nat.add_comm 1]
    exact Prod.Lex.right _ Nat.zero_lt_one

def decodeItems (items : List Text) : TextResult (List Value) :=
  match items with
  | [] => .ok []
  | item :: items =>
    match _htext : decodeString item with
    | .error error => .error error
    | .ok text => do
      let value ← decodeValue text.toList
      let values ← decodeItems items
      return value :: values
termination_by ((items.map fun item => (textBytes item).length + 1).sum, 0)
decreasing_by
  · have := length_of_decodeString _htext
    exact Prod.Lex.left _ _ (by rw [List.map_cons, List.sum_cons]; omega)
  · exact Prod.Lex.left _ _ (by rw [List.map_cons, List.sum_cons]; omega)

def decodeMapItems (items : List Text) (values : List (String × Value)) :
    TextResult (List (String × Value)) :=
  match items with
  | [] => .ok values
  | item :: items =>
    match _hsplit : splitOnce '=' item with
    | none => .error s!"invalid encoded map item: {String.ofList item}"
    | some (name, encoded) => do
      let key ← decodeString name
      match _htext : decodeString encoded with
      | .error error => .error error
      | .ok text =>
        let value ← decodeValue text.toList
        decodeMapItems items (insertEntry key value values)
termination_by ((items.map fun item => (textBytes item).length + 1).sum, 0)
decreasing_by
  · have := length_of_decodeString _htext
    have := length_of_splitOnce _hsplit
    exact Prod.Lex.left _ _ (by rw [List.map_cons, List.sum_cons]; omega)
  · exact Prod.Lex.left _ _ (by rw [List.map_cons, List.sum_cons]; omega)

end

end

/-- A pair that continues the map before it: the digit behind its equals sign is that of a
lower case tag. -/
def isContinuation (pair : Text) : Bool :=
  match splitOnce '=' pair with
  | some (_, encoded) => encoded.head? = some '6' || encoded.head? = some '7'
  | none => false

/-- `&input[start..end]`. -/
def slice (input : Text) (first last : ℕ) : Text := (input.drop first).take (last - first)

/-- The pairs that continue a value, and those behind them. -/
def takeContinuations (value : Text) (pairs : List Text) : List Text × List Text :=
  if value.head? = some 'm' then pairs.span isContinuation else ([], pairs)

lemma length_takeContinuations (value : Text) (pairs : List Text) :
    (takeContinuations value pairs).2.length ≤ pairs.length := by
  unfold takeContinuations
  split_ifs
  · rw [List.span_eq_takeWhile_dropWhile]
    exact List.length_dropWhile_le _ _
  · exact le_rfl

/-- The loop of `decode_properties`, from the pair that starts at `offset`. -/
def decodePairsFrom (lib : TextLibrary) (input : Text) (offset : ℕ) (pairs : List Text)
    (properties : List (String × Value)) : TextResult (List (String × Value)) :=
  match pairs with
  | [] => .ok properties
  | pair :: pairs =>
    match splitOnce '=' pair with
    | none => .error s!"invalid property pair: {String.ofList pair}"
    | some (key, value) => do
      let key ← decodeString key
      let valueStart := offset + pair.length - value.length
      let continuations := takeContinuations value pairs
      let extra := (continuations.1.map fun next => next.length + 1).sum
      let valueEnd := offset + pair.length + extra
      let value ← decodeValue lib (slice input valueStart valueEnd)
      decodePairsFrom lib input (offset + pair.length + 1 + extra) continuations.2
        (insertEntry key value properties)
termination_by pairs.length
decreasing_by exact Nat.lt_succ_of_le (length_takeContinuations _ _)

def decodeProperties (lib : TextLibrary) (input : Text) : TextResult (List (String × Value)) :=
  if input = [] then .ok [] else decodePairsFrom lib input 0 (input.splitOn ';') []

end TextCodec

end HawDB
