import HawDB.TextValue
import HawDB.Proofs.DecimalText

/-!
# Property maps as text

A value is read back from its text when the temporal values in it are (`decodeValue_encodeValue`). A
property map needs more (`text_round_trip_iff`).
-/

namespace HawDB

open List

namespace TextCodec

variable {lib : TextLibrary}

/-! ## Strings and bytes -/

lemma digitByte_ne_plus (h : n < 16) : digitByte n ≠ 43 := by
  interval_cases n <;> decide

lemma radixPair_digitByte (offset : ℕ) (byte : UInt8) :
    radixPair offset (digitByte (byte.toNat / 16)) (digitByte (byte.toNat % 16)) = .ok byte := by
  have hlt := byte.toNat_lt
  rw [radixPair, if_neg (digitByte_ne_plus (by omega)), hexByte_digitByte]

lemma decodeBytes_hexText (bytes : Bytes) : decodeBytes (hexText bytes) = .ok bytes := by
  have heven : (textBytes (hexText bytes)).length % 2 = 0 := by
    rw [length_textBytes_hexText]
    omega
  rw [decodeBytes, if_neg (not_not.2 heven), decodePairs_hexText radixPair_digitByte]

lemma decodeHexBytes_hexText (bytes : Bytes) : decodeHexBytes (hexText bytes) = .ok bytes := by
  have heven : (textBytes (hexText bytes)).length % 2 = 0 := by
    rw [length_textBytes_hexText]
    omega
  have hpair : ∀ offset byte,
      hexPair offset (digitByte (byte.toNat / 16)) (digitByte (byte.toNat % 16)) = .ok byte := by
    intro offset byte
    rw [hexPair, hexByte_digitByte]
  rw [decodeHexBytes, if_neg (not_not.2 heven), decodePairs_hexText hpair]

lemma decodeString_encodeString (t : Text) :
    decodeString (encodeString t) = .ok (String.ofList t) := by
  have htext : textOfUtf8 (textBytes t) = some (String.ofList t) := by
    have hutf8 := textBytes_toList (String.ofList t)
    rw [String.toList_ofList] at hutf8
    rw [hutf8, textOfUtf8_utf8]
  rw [decodeString, encodeString, decodeBytes_hexText, ok_bind, htext]

lemma decodeString_toList (s : String) : decodeString (encodeString s.toList) = .ok s := by
  rw [decodeString_encodeString, String.ofList_toList]

/-! ## Characters that do not occur -/

lemma not_mem_encodeString (h : ∀ n, n < 16 → Nat.digitChar n ≠ separator)
    (t : Text) : separator ∉ encodeString t :=
  not_mem_hexText h _

lemma semicolon_not_mem_hexText (bytes : Bytes) : ';' ∉ hexText bytes :=
  not_mem_hexText (by decide) bytes

lemma semicolon_not_mem_padText (width n : ℕ) : ';' ∉ padText width n :=
  not_mem_padText (by decide) width n

lemma semicolon_not_mem_natText (n : ℕ) : ';' ∉ natText n := not_mem_natText (by decide) n

lemma semicolon_not_mem_intText (z : ℤ) : ';' ∉ intText z :=
  not_mem_intText (by decide) (by decide) z

lemma semicolon_not_mem_writeDate (date : NaiveDate) : ';' ∉ writeDate lib date := by
  unfold writeDate writeYear
  split_ifs <;> simp [semicolon_not_mem_padText, semicolon_not_mem_natText]

lemma semicolon_not_mem_writeTime (time : NaiveTime) : ';' ∉ writeTime time := by
  unfold writeTime writeFraction
  split_ifs <;> simp [semicolon_not_mem_padText]

lemma semicolon_not_mem_writeOffset (offset : ℤ) : ';' ∉ writeOffset offset := by
  unfold writeOffset
  split_ifs <;> simp [semicolon_not_mem_padText]

lemma semicolon_not_mem_trimZeros (h : ';' ∉ t) : ';' ∉ trimZeros t := by
  intro hmem
  have hdrop := (dropWhile_suffix (· = '0')).subset (mem_reverse.1 hmem)
  exact h (mem_reverse.1 hdrop)

lemma semicolon_not_mem_writeSeconds (h : ';' ∉ sign) (seconds fraction : ℕ) :
    ';' ∉ writeSeconds sign seconds fraction := by
  have hfraction := semicolon_not_mem_trimZeros (semicolon_not_mem_padText 9 fraction)
  unfold writeSeconds
  split_ifs <;> simp [h, semicolon_not_mem_natText, hfraction]

lemma semicolon_not_mem_writeComponent (h : unit ≠ ';') : ';' ∉ writeComponent n unit := by
  unfold writeComponent
  split_ifs
  · exact not_mem_nil
  · rw [mem_append, mem_singleton, not_or]
    exact ⟨semicolon_not_mem_intText n, h.symm⟩

lemma semicolon_not_mem_writeDuration (duration : Duration) : ';' ∉ writeDuration duration := by
  have hsign : ';' ∉ (if duration.time.nanos < 0 then ['-'] else []) := by
    split_ifs <;> decide
  have hclock : ∀ n unit, unit ≠ ';' →
      ';' ∉ (if n = 0 then ([] : Text)
        else (if duration.time.nanos < 0 then ['-'] else []) ++ (natText n ++ [unit])) := by
    intro n unit hunit
    split_ifs <;> simp [semicolon_not_mem_natText, hunit.symm]
  unfold writeDuration
  simp only [mem_cons, mem_append, not_or]
  refine ⟨by decide, semicolon_not_mem_writeComponent (by decide),
    semicolon_not_mem_writeComponent (by decide), semicolon_not_mem_writeComponent (by decide), ?_⟩
  by_cases htime : duration.time.nanos.natAbs ≠ 0
  · rw [if_pos htime]
    simp only [mem_cons, mem_append, not_or]
    exact ⟨by decide, hclock _ 'H' (by decide), hclock _ 'M' (by decide),
      semicolon_not_mem_writeSeconds hsign _ _⟩
  · rw [if_neg htime]
    split_ifs <;> decide

lemma semicolon_not_mem_displayTemporal (t : TemporalValue) : ';' ∉ displayTemporal lib t := by
  cases t with
  | date value => exact semicolon_not_mem_writeDate value
  | localTime value => exact semicolon_not_mem_writeTime value
  | localDateTime value =>
    simp [displayTemporal, formatLocalDatetime, semicolon_not_mem_writeDate,
      semicolon_not_mem_writeTime]
  | dateTime value =>
    simp [displayTemporal, formatDatetime, formatLocalDatetime, semicolon_not_mem_writeDate,
      semicolon_not_mem_writeTime, semicolon_not_mem_writeOffset]
  | duration value => exact semicolon_not_mem_writeDuration value

lemma semicolon_not_mem_encodeScalar (s : Scalar) : ';' ∉ encodeScalar lib s := by
  cases s with
  | null => simp [encodeScalar]
  | bool value => cases value <;> simp [encodeScalar]
  | int value => simp [encodeScalar, semicolon_not_mem_intText]
  | decimal value =>
    rw [encodeScalar, mem_cons, not_or]
    refine ⟨by decide, fun hmem => ?_⟩
    rcases Decimal.mem_toText hmem with h | h | h <;> exact absurd h (by decide)
  | float bits => simp [encodeScalar, semicolon_not_mem_natText]
  | string value => simp [encodeScalar, encodeString, semicolon_not_mem_hexText]
  | uuid value => simp [encodeScalar, uuidText, semicolon_not_mem_hexText]
  | temporal value =>
    rw [encodeScalar, mem_cons, not_or]
    exact ⟨by cases value.kind <;> decide, semicolon_not_mem_displayTemporal value⟩
  | vector value => simp [encodeScalar, semicolon_not_mem_hexText]
  | binary value => simp [encodeScalar, semicolon_not_mem_hexText]

/-! ## Values -/

/-- A temporal value is read back from its display. -/
def RoundTripNode (lib : TextLibrary) : Value → Prop
  | .leaf (.temporal t) => lib.parseTemporal t.kind (displayTemporal lib t) = .ok t
  | _ => True

lemma decodeTemporal_display {t : TemporalValue}
    (h : lib.parseTemporal t.kind (displayTemporal lib t) = .ok t) :
    decodeTemporal lib t.kind (displayTemporal lib t) = .ok t := by
  rw [decodeTemporal, h]
  simp

lemma decodeScalar_temporal (kind : TemporalValueKind) (rest : Text) :
    decodeScalar lib (temporalTextTag kind) rest = (decodeTemporal lib kind rest).map .temporal := by
  cases kind <;> rfl

lemma decodeScalar_encodeScalar (h : RoundTripNode lib (.leaf s)) :
    ∃ kind rest, encodeScalar lib s = kind :: rest ∧ kind ≠ 'l' ∧ kind ≠ 'm' ∧
      decodeScalar lib kind rest = .ok s := by
  cases s with
  | null => exact ⟨_, _, rfl, by decide, by decide, rfl⟩
  | bool value => cases value <;> exact ⟨_, _, rfl, by decide, by decide, rfl⟩
  | int value =>
    refine ⟨_, _, rfl, by decide, by decide, ?_⟩
    show (parseI64 (intText value.toInt) "integer value").map Scalar.int = .ok (.int value)
    have hle := value.le_toInt
    have hlt := value.toInt_lt
    rw [parseI64, parseSigned_intText (by simpa using hle) (by simpa using hlt)]
    simp [Except.map]
  | decimal value =>
    refine ⟨_, _, rfl, by decide, by decide, ?_⟩
    show ((Decimal.fromText value.toText).mapError (·.message)).map Scalar.decimal = _
    rw [Decimal.fromText_toText]
    rfl
  | float bits =>
    refine ⟨_, _, rfl, by decide, by decide, ?_⟩
    show (parseU64 (natText bits.toNat) "float value").map Scalar.float = .ok (.float bits)
    rw [parseU64, parseUnsigned_natText bits.toNat_lt]
    simp [Except.map]
  | string value =>
    refine ⟨_, _, rfl, by decide, by decide, ?_⟩
    show (decodeString (encodeString value.toList)).map Scalar.string = .ok (.string value)
    rw [decodeString_toList]
    rfl
  | uuid value =>
    refine ⟨_, _, rfl, by decide, by decide, ?_⟩
    show ((lib.parseUuid (uuidText value)).mapError ("invalid UUID value: " ++ ·)).map
      Scalar.uuid = _
    rw [lib.parseUuid_uuidText]
    rfl
  | binary value =>
    refine ⟨_, _, rfl, by decide, by decide, ?_⟩
    show (decodeHexBytes (hexText value)).map Scalar.binary = .ok (.binary value)
    rw [decodeHexBytes_hexText]
    rfl
  | vector value =>
    refine ⟨_, _, rfl, by decide, by decide, ?_⟩
    show (decodeHexBytes (hexText value.encoded) >>= fun bytes =>
      GraphVector.fromEncoded bytes >>= fun v => .ok (Scalar.vector v)) = _
    rw [decodeHexBytes_hexText, ok_bind, GraphVector.fromEncoded_eq_ok.2 rfl]
    rfl
  | temporal value =>
    refine ⟨_, _, rfl, by cases value.kind <;> decide, by cases value.kind <;> decide, ?_⟩
    rw [decodeScalar_temporal, decodeTemporal_display h]
    rfl

lemma decodeValue_encodeScalar (h : RoundTripNode lib (.leaf s)) :
    decodeValue lib (encodeScalar lib s) = .ok (.leaf s) := by
  obtain ⟨kind, rest, hs, hlist, hmap, hdecode⟩ := decodeScalar_encodeScalar h
  rw [hs, decodeValue, dif_neg hlist, dif_neg hmap, hdecode]
  rfl

lemma decodeItems_encodeItems : ∀ {vs}, (∀ v ∈ vs, decodeValue lib (encodeValue lib v) = .ok v) →
      decodeItems lib (encodeItems lib vs) = .ok vs
  | [], _ => by rw [encodeItems, decodeItems]
  | v :: vs, h => by
    rw [forall_mem_cons] at h
    have hv : decodeValue lib (String.ofList (encodeValue lib v)).toList = .ok v := by
      rw [String.toList_ofList, h.1]
    rw [encodeItems, decodeItems]
    split
    · next heq =>
      rw [decodeString_encodeString] at heq
      cases heq
    next text heq =>
    cases (decodeString_encodeString _).symm.trans heq
    rw [hv, ok_bind, decodeItems_encodeItems h.2]
    rfl

def mapItem (lib : TextLibrary) (e : String × Value) : Text :=
  encodeString e.1.toList ++ '=' :: encodeString (encodeValue lib e.2)

lemma encodeMapItems_eq_map (es : List (String × Value)) :
    encodeMapItems lib es = es.map (mapItem lib) := by
  induction es with
  | nil => rw [encodeMapItems, map_nil]
  | cons e es ih =>
    rw [encodeMapItems, ih, map_cons]
    rfl

lemma splitOnce_key (s t : Text) :
    splitOnce '=' (encodeString s ++ '=' :: t) = some (encodeString s, t) :=
  splitOnce_append (not_mem_encodeString (by decide) s) t

lemma decodeMapItems_encodeMapItems : ∀ {es values : List (String × Value)},
    (∀ e ∈ es, decodeValue lib (encodeValue lib e.2) = .ok e.2) →
      decodeMapItems lib (es.map (mapItem lib)) values =
        .ok (es.foldl (fun entries e => insertEntry e.1 e.2 entries) values)
  | [], values, _ => by rw [map_nil, decodeMapItems, foldl_nil]
  | (key, v) :: es, values, h => by
    rw [forall_mem_cons] at h
    have hv : decodeValue lib (String.ofList (encodeValue lib v)).toList = .ok v := by
      rw [String.toList_ofList, h.1]
    have hsplit : splitOnce '=' (mapItem lib (key, v)) =
        some (encodeString key.toList, encodeString (encodeValue lib v)) := splitOnce_key _ _
    rw [map_cons, decodeMapItems]
    split
    · next heq =>
      rw [hsplit] at heq
      cases heq
    next name encoded heq =>
    cases (hsplit.symm.trans heq)
    rw [decodeString_toList, ok_bind]
    split
    · next heq =>
      rw [decodeString_encodeString] at heq
      cases heq
    · next text heq =>
      cases (decodeString_encodeString _).symm.trans heq
      rw [hv, ok_bind, decodeMapItems_encodeMapItems h.2, foldl_cons]

lemma semicolon_not_mem_mapItem (e : String × Value) : ';' ∉ mapItem lib e := by
  simp [mapItem, encodeString, semicolon_not_mem_hexText]

lemma comma_not_mem_encodeItems : ∀ {vs}, ∀ item ∈ encodeItems lib vs, ',' ∉ item
  | [], _, h => by
    rw [encodeItems] at h
    exact absurd h not_mem_nil
  | v :: vs, item, h => by
    rw [encodeItems] at h
    rcases mem_cons.1 h with rfl | h
    · exact not_mem_encodeString (by decide) _
    · exact comma_not_mem_encodeItems item h

lemma intercalate_mapItem_ne_nil (e : String × Value) (es : List (String × Value)) :
    [';'].intercalate ((e :: es).map (mapItem lib)) ≠ [] := by
  cases es with
  | nil => simp [intercalate, mapItem]
  | cons _ _ => simp [intercalate_cons_cons, mapItem]

lemma encodeValue_ne_nil (lib : TextLibrary) (v : Value) : encodeValue lib v ≠ [] := by
  cases v with
  | leaf s =>
    rw [encodeValue]
    cases s with
    | bool value => cases value <;> simp [encodeScalar]
    | _ => simp [encodeScalar]
  | list vs => simp [encodeValue]
  | map es => simp [encodeValue]

lemma encodeString_ne_nil (h : t ≠ []) : encodeString t ≠ [] := by
  cases t with
  | nil => exact absurd rfl h
  | cons c t =>
    have hsize : (String.utf8EncodeChar c).length ≠ 0 := by
      rw [String.length_utf8EncodeChar]
      exact c.utf8Size_pos.ne'
    intro hempty
    have hlength := congrArg length hempty
    rw [encodeString, length_hexText, textBytes_cons, length_append, length_nil] at hlength
    omega

lemma intercalate_encodeItems_ne_nil (v : Value) (vs : List Value) :
    [','].intercalate (encodeItems lib (v :: vs)) ≠ [] := by
  have hne := encodeString_ne_nil (encodeValue_ne_nil lib v)
  rw [encodeItems]
  cases hvs : encodeItems lib vs with
  | nil => simpa [intercalate] using hne
  | cons _ _ => simp [intercalate_cons_cons]

lemma decodeValue_encodeValue (hsorted : v.Everywhere
      (fun _ => Tree.KeysIn fun keys => keys.Pairwise fun a b => compare a b = .lt) depth)
    (hround : v.Everywhere (fun _ => RoundTripNode lib) depth') :
    decodeValue lib (encodeValue lib v) = .ok v := by
  induction v using Tree.induct generalizing depth depth' with
  | leaf s =>
    rw [encodeValue]
    exact decodeValue_encodeScalar (Tree.everywhere_leaf.1 hround)
  | list vs ih =>
    have hitems : ∀ v ∈ vs, decodeValue lib (encodeValue lib v) = .ok v := fun v hv =>
      ih v hv ((Tree.everywhere_list.1 hsorted).2 v hv) ((Tree.everywhere_list.1 hround).2 v hv)
    rw [encodeValue, decodeValue, dif_pos rfl]
    cases vs with
    | nil => rw [encodeItems]; rfl
    | cons v vs =>
      rw [if_neg (intercalate_encodeItems_ne_nil v vs),
        splitOn_intercalate _ comma_not_mem_encodeItems (by rw [encodeItems]; simp),
        decodeItems_encodeItems hitems]
      rfl
  | map es ih =>
    obtain ⟨hkeys, hes⟩ := Tree.everywhere_map.1 hsorted
    have hentries : ∀ e ∈ es, decodeValue lib (encodeValue lib e.2) = .ok e.2 := fun e he =>
      ih e he (hes e he) ((Tree.everywhere_map.1 hround).2 e he)
    rw [encodeValue, decodeValue, dif_neg (by decide), dif_pos rfl, encodeMapItems_eq_map]
    cases es with
    | nil => rfl
    | cons e es =>
      have hpieces : ∀ piece ∈ (e :: es).map (mapItem lib), ';' ∉ piece := by
        intro piece hpiece
        obtain ⟨e, -, rfl⟩ := mem_map.1 hpiece
        exact semicolon_not_mem_mapItem e
      rw [if_neg (intercalate_mapItem_ne_nil e es), splitOn_intercalate _ hpieces (by simp),
        decodeMapItems_encodeMapItems hentries, ← OrdMap.ofList_entries_eq_foldl,
        OrdMap.ofList_entries (sortedKeys_iff_keys.2 hkeys)]
      rfl

/-! ## Where a map ends -/

/-- A temporal value itself, not one inside. -/
def IsTemporal : Value → Prop
  | .leaf (.temporal _) => True
  | _ => False

instance : DecidablePred IsTemporal := fun v => by
  unfold IsTemporal
  split <;> infer_instance

/-- A property whose end is found: not a map with a temporal value in an entry other than its
first. -/
def Delimited : Value → Prop
  | .map entries => ∀ e ∈ entries.tail, ¬ IsTemporal e.2
  | _ => True

instance : DecidablePred Delimited := fun v => by
  unfold Delimited
  split <;> infer_instance

lemma encodeString_cons {c : Char} (h : String.utf8EncodeChar c = [UInt8.ofNat c.toNat])
    (t : Text) : (encodeString (c :: t)).head? =
      some (Nat.digitChar ((UInt8.ofNat c.toNat).toNat / 16)) := by
  rw [encodeString, textBytes_cons, h]
  rfl

def textTag : Value → Char
  | .list _ => 'l'
  | .map _ => 'm'
  | .leaf .null => 'n'
  | .leaf (.bool _) => 'b'
  | .leaf (.int _) => 'i'
  | .leaf (.decimal _) => 'd'
  | .leaf (.float _) => 'f'
  | .leaf (.string _) => 's'
  | .leaf (.uuid _) => 'u'
  | .leaf (.vector _) => 'v'
  | .leaf (.binary _) => 'x'
  | .leaf (.temporal t) => temporalTextTag t.kind

lemma encodeValue_cons (lib : TextLibrary) (v : Value) : ∃ t, encodeValue lib v = textTag v :: t := by
  cases v with
  | list vs => exact ⟨_, by rw [encodeValue]; rfl⟩
  | map es => exact ⟨_, by rw [encodeValue]; rfl⟩
  | leaf s =>
    rw [encodeValue]
    cases s with
    | bool value => cases value <;> exact ⟨_, rfl⟩
    | _ => exact ⟨_, rfl⟩

lemma textTag_mem (v : Value) : (IsTemporal v → textTag v ∈ ['D', 'T', 'L', 'Z', 'P']) ∧
      (¬ IsTemporal v → textTag v ∈ ['n', 'b', 'i', 'd', 'f', 's', 'u', 'v', 'x', 'l', 'm']) := by
  cases v with
  | list vs => simp [IsTemporal, textTag]
  | map es => simp [IsTemporal, textTag]
  | leaf s =>
    cases s with
    | temporal t => cases t <;> simp [IsTemporal, textTag, TemporalValue.kind, temporalTextTag]
    | _ => simp [IsTemporal, textTag]

lemma head_encodeString_encodeValue (lib : TextLibrary) (v : Value) :
    ∃ digit, (encodeString (encodeValue lib v)).head? = some digit ∧
      (IsTemporal v → digit ∈ ['4', '5']) ∧ (¬ IsTemporal v → digit ∈ ['6', '7']) := by
  have hupper : ∀ c ∈ ['D', 'T', 'L', 'Z', 'P'], String.utf8EncodeChar c = [UInt8.ofNat c.toNat] ∧
      Nat.digitChar ((UInt8.ofNat c.toNat).toNat / 16) ∈ ['4', '5'] := by
    intro c hc
    fin_cases hc <;> exact ⟨rfl, by decide⟩
  have hlower : ∀ c ∈ ['n', 'b', 'i', 'd', 'f', 's', 'u', 'v', 'x', 'l', 'm'],
      String.utf8EncodeChar c = [UInt8.ofNat c.toNat] ∧
        Nat.digitChar ((UInt8.ofNat c.toNat).toNat / 16) ∈ ['6', '7'] := by
    intro c hc
    fin_cases hc <;> exact ⟨rfl, by decide⟩
  obtain ⟨t, ht⟩ := encodeValue_cons lib v
  rw [ht]
  by_cases h : IsTemporal v
  · obtain ⟨hascii, hdigit⟩ := hupper _ ((textTag_mem v).1 h)
    exact ⟨_, encodeString_cons hascii t, fun _ => hdigit, fun hv => absurd h hv⟩
  · obtain ⟨hascii, hdigit⟩ := hlower _ ((textTag_mem v).2 h)
    exact ⟨_, encodeString_cons hascii t, fun hv => absurd hv h, fun _ => hdigit⟩

lemma isContinuation_mapItem (e : String × Value) :
    isContinuation (mapItem lib e) ↔ ¬ IsTemporal e.2 := by
  obtain ⟨digit, hhead, hupper, hlower⟩ := head_encodeString_encodeValue lib e.2
  rw [isContinuation, mapItem, splitOnce_key]
  simp only [hhead]
  by_cases h : IsTemporal e.2
  · rcases mem_cons.1 (hupper h) with rfl | hdigit
    · simp [h]
    · obtain rfl := mem_singleton.1 hdigit
      simp [h]
  · rcases mem_cons.1 (hlower h) with rfl | hdigit
    · simp [h]
    · obtain rfl := mem_singleton.1 hdigit
      simp [h]

/-! ## Pairs -/

/-- The piece of a property up to the first semicolon, behind its key. -/
def headValue (lib : TextLibrary) : Value → Text
  | .map (e :: _) => 'm' :: mapItem lib e
  | v => encodeValue lib v

/-- The entries of a property that stand behind semicolons. -/
def tailEntries : Value → List (String × Value)
  | .map (_ :: es) => es
  | _ => []

/-- The pieces of a property between semicolons. -/
def pieces (lib : TextLibrary) (e : String × Value) : List Text :=
  (encodeString e.1.toList ++ '=' :: headValue lib e.2) :: (tailEntries e.2).map (mapItem lib)

lemma intercalate_cons_eq (separator : Char) (piece : Text) (rest : List Text) :
    [separator].intercalate (piece :: rest) = piece ++ rest.flatMap (separator :: ·) := by
  induction rest generalizing piece with
  | nil => simp [intercalate]
  | cons next rest ih => rw [intercalate_cons_cons, ih]; simp

lemma headValue_join (v : Value) :
    [';'].intercalate (headValue lib v :: (tailEntries v).map (mapItem lib)) =
      encodeValue lib v := by
  match v with
  | .map (e :: es) =>
    rw [headValue, tailEntries, encodeValue, encodeMapItems_eq_map, map_cons,
      intercalate_cons_eq, intercalate_cons_eq, cons_append]
  | .map [] => simp [headValue, tailEntries, intercalate]
  | .list vs => simp [headValue, tailEntries, intercalate]
  | .leaf s => simp [headValue, tailEntries, intercalate]

lemma encodePair_eq (e : String × Value) :
    encodePair lib e = [';'].intercalate (pieces lib e) := by
  rw [encodePair, pieces, intercalate_cons_eq, ← headValue_join e.2, intercalate_cons_eq,
    append_assoc, cons_append]

lemma intercalate_map_pieces (ps : List (String × Value)) :
    [';'].intercalate (ps.map (encodePair lib)) = [';'].intercalate (ps.flatMap (pieces lib)) := by
  have hflat : ∀ ps : List (String × Value), (ps.map (encodePair lib)).flatMap (';' :: ·) =
      (ps.flatMap (pieces lib)).flatMap (';' :: ·) := by
    intro ps
    induction ps with
    | nil => rfl
    | cons e ps ih =>
      rw [map_cons, flatMap_cons, flatMap_cons, flatMap_append, ih,
        encodePair_eq, pieces, intercalate_cons_eq, flatMap_cons, cons_append,
        cons_append, cons_append]
  cases ps with
  | nil => rfl
  | cons e ps =>
    rw [map_cons, flatMap_cons, intercalate_cons_eq, hflat, encodePair_eq, pieces,
      cons_append, intercalate_cons_eq, intercalate_cons_eq, flatMap_append, append_assoc]

lemma semicolon_not_mem_headValue (v : Value) : ';' ∉ headValue lib v := by
  match v with
  | .map (e :: es) => simp [headValue, semicolon_not_mem_mapItem]
  | .map [] => simp [headValue, encodeValue, encodeMapItems_eq_map, intercalate]
  | .list vs =>
    have hitems : ∀ vs : List Value, ∀ item ∈ encodeItems lib vs, ';' ∉ item := by
      intro vs
      induction vs with
      | nil =>
        intro item h
        rw [encodeItems] at h
        exact absurd h not_mem_nil
      | cons v vs ih =>
        intro item h
        rw [encodeItems] at h
        rcases mem_cons.1 h with rfl | h
        · exact semicolon_not_mem_hexText _
        · exact ih item h
    show ';' ∉ encodeValue lib (.list vs)
    rw [encodeValue, mem_cons, not_or]
    refine ⟨by decide, fun hmem => ?_⟩
    cases hvs : encodeItems lib vs with
    | nil => simp [hvs, intercalate] at hmem
    | cons item items =>
      have hall := hitems vs
      rw [hvs, intercalate_cons_eq, mem_append, mem_flatMap] at hmem
      rw [hvs, forall_mem_cons] at hall
      rcases hmem with hmem | ⟨other, hother, hmem⟩
      · exact hall.1 hmem
      · rcases mem_cons.1 hmem with heq | hmem
        · exact absurd heq (by decide)
        · exact hall.2 other hother hmem
  | .leaf s =>
    show ';' ∉ encodeValue lib (.leaf s)
    rw [encodeValue]
    exact semicolon_not_mem_encodeScalar s

/-! ## The loop -/

lemma length_flatMap_cons (separator : Char) (texts : List Text) :
    (texts.flatMap (separator :: ·)).length = (texts.map fun t => t.length + 1).sum := by
  induction texts with
  | nil => rfl
  | cons t texts ih =>
    rw [flatMap_cons, length_append, ih, map_cons, sum_cons, length_cons]

section

variable {input : Text} {offset : ℕ} {key : String} {value : Text} {cs rest : List Text}

/-- The text behind an offset is made of the pairs from there on. -/
def RestFrom (input : Text) (offset : ℕ) (pairs : List Text) : Prop :=
  pairs ≠ [] → input.drop offset = [';'].intercalate pairs

section

variable
  (hinput : input.drop offset = [';'].intercalate ((encodeString key.toList ++ '=' :: value) :: (cs ++ rest)))

include hinput

lemma slice_eq :
    slice input (offset + (encodeString key.toList ++ '=' :: value).length - value.length)
        (offset + (encodeString key.toList ++ '=' :: value).length +
          (cs.map fun next => next.length + 1).sum) = [';'].intercalate (value :: cs) := by
  have hskip : offset + (encodeString key.toList ++ '=' :: value).length - value.length =
      offset + (encodeString key.toList ++ ['=']).length := by
    simp only [length_append, length_cons, length_nil]
    omega
  have hspan : offset + (encodeString key.toList ++ '=' :: value).length +
      (cs.map fun next => next.length + 1).sum -
        (offset + (encodeString key.toList ++ ['=']).length) =
      (value ++ cs.flatMap (';' :: ·)).length := by
    simp only [length_append, length_flatMap_cons, length_cons, length_nil]
    omega
  have hsplit : input.drop offset = (encodeString key.toList ++ ['=']) ++
      ((value ++ cs.flatMap (';' :: ·)) ++ rest.flatMap (';' :: ·)) := by
    rw [hinput, intercalate_cons_eq, flatMap_append]
    simp only [append_assoc, cons_append, nil_append]
  rw [slice, hskip, hspan, ← drop_drop, hsplit, drop_left, take_left, intercalate_cons_eq]

lemma restFrom_step :
    RestFrom input (offset + (encodeString key.toList ++ '=' :: value).length + 1 +
      (cs.map fun next => next.length + 1).sum) rest := by
  intro hne
  obtain ⟨next, rest, rfl⟩ := exists_cons_of_ne_nil hne
  have hlength : offset + (encodeString key.toList ++ '=' :: value).length + 1 +
      (cs.map fun next => next.length + 1).sum = offset +
        (((encodeString key.toList ++ '=' :: value) ++ cs.flatMap (';' :: ·)) ++ [';']).length := by
    simp only [length_append, length_flatMap_cons, length_cons, length_nil]
    omega
  have hsplit : input.drop offset =
      (((encodeString key.toList ++ '=' :: value) ++ cs.flatMap (';' :: ·)) ++ [';']) ++
        [';'].intercalate (next :: rest) := by
    rw [hinput, intercalate_cons_eq, flatMap_append, intercalate_cons_eq, flatMap_cons]
    simp only [append_assoc, cons_append, nil_append]
  rw [hlength, ← drop_drop, hsplit, drop_left]

end

lemma decodePairsFrom_step (properties : List (String × Value))
    (hinput : RestFrom input offset ((encodeString key.toList ++ '=' :: value) :: (cs ++ rest)))
    (htake : takeContinuations value (cs ++ rest) = (cs, rest)) :
    ∃ next, RestFrom input next rest ∧
      decodePairsFrom lib input offset ((encodeString key.toList ++ '=' :: value) :: (cs ++ rest))
          properties =
        decodeValue lib ([';'].intercalate (value :: cs)) >>= fun v =>
          decodePairsFrom lib input next rest (insertEntry key v properties) := by
  have hinput := hinput (by simp)
  refine ⟨_, restFrom_step hinput, ?_⟩
  rw [decodePairsFrom, splitOnce_key]
  simp only [decodeString_toList, ok_bind, htake, slice_eq hinput]

end

lemma isContinuation_headPiece (e : String × Value) :
    isContinuation (encodeString e.1.toList ++ '=' :: headValue lib e.2) = false := by
  have hhead : ∃ t, headValue lib e.2 = textTag e.2 :: t := by
    match e.2 with
    | .map (e :: es) => exact ⟨_, rfl⟩
    | .map [] => exact encodeValue_cons lib _
    | .list vs => exact encodeValue_cons lib _
    | .leaf s => exact encodeValue_cons lib _
  obtain ⟨t, ht⟩ := hhead
  have htag : textTag e.2 ≠ '6' ∧ textTag e.2 ≠ '7' := by
    by_cases h : IsTemporal e.2
    · have hmem := (textTag_mem e.2).1 h
      constructor <;> intro heq <;> rw [heq] at hmem <;> exact absurd hmem (by decide)
    · have hmem := (textTag_mem e.2).2 h
      constructor <;> intro heq <;> rw [heq] at hmem <;> exact absurd hmem (by decide)
  rw [isContinuation, splitOnce_key, ht]
  simp [htag.1, htag.2]

lemma head_headValue_ne (h : ∀ es, v ≠ .map es) : (headValue lib v).head? ≠ some 'm' := by
  match v with
  | .map es => exact absurd rfl (h es)
  | .list vs =>
    show (encodeValue lib (.list vs)).head? ≠ _
    rw [encodeValue]
    simp
  | .leaf s =>
    show (encodeValue lib (.leaf s)).head? ≠ _
    obtain ⟨t, ht⟩ := encodeValue_cons lib (.leaf s)
    rw [ht]
    cases s with
    | temporal t => cases t <;> simp [textTag, TemporalValue.kind, temporalTextTag]
    | _ => simp [textTag]

/-- Behind a property come the pieces of the next one, or nothing. -/
theorem span_continuations {es : List (String × Value)} (h : ∀ e ∈ es, ¬ IsTemporal e.2)
    {rest : List Text} (hrest : ∀ piece ∈ rest.head?, isContinuation piece = false) :
    (es.map (mapItem lib) ++ rest).span isContinuation = (es.map (mapItem lib), rest) := by
  have hall : ∀ piece ∈ es.map (mapItem lib), isContinuation piece := by
    intro piece hpiece
    obtain ⟨e, he, rfl⟩ := mem_map.1 hpiece
    exact (isContinuation_mapItem e).2 (h e he)
  rw [span_eq_takeWhile_dropWhile, takeWhile_append_of_pos hall, dropWhile_append_of_pos hall]
  cases rest with
  | nil => simp
  | cons piece rest =>
    have hpiece : isContinuation piece = false := hrest piece rfl
    simp [hpiece]

/-- The pieces that follow the first one of a property whose end is found are its own. -/
theorem takeContinuations_delimited (h : Delimited v) {rest : List Text}
    (hrest : ∀ piece ∈ rest.head?, isContinuation piece = false) :
    takeContinuations (headValue lib v) ((tailEntries v).map (mapItem lib) ++ rest) =
      ((tailEntries v).map (mapItem lib), rest) := by
  match v, h with
  | .map (e :: es), h => exact (if_pos rfl).trans (span_continuations h hrest)
  | .map [], _ =>
    have hspan := @span_continuations lib [] (by simp) rest hrest
    exact (if_pos (by simp [headValue, encodeValue])).trans hspan
  | .list vs, _ => exact if_neg (head_headValue_ne (by simp))
  | .leaf s, _ => exact if_neg (head_headValue_ne (by simp))

lemma head_flatMap_pieces (ps : List (String × Value)) :
    ∀ piece ∈ (ps.flatMap (pieces lib)).head?, isContinuation piece = false := by
  cases ps with
  | nil => simp
  | cons e ps =>
    intro piece hpiece
    rw [flatMap_cons, pieces, cons_append, head?_cons, Option.mem_some_iff] at hpiece
    exact hpiece ▸ isContinuation_headPiece e

lemma decodePairsFrom_temporal {e : String × Value}
    (h : IsTemporal e.2) (rest : List Text) (hinput : RestFrom input offset (mapItem lib e :: rest))
    (properties out : List (String × Value)) :
    decodePairsFrom lib input offset (mapItem lib e :: rest) properties ≠ .ok out := by
  obtain ⟨digit, hhead, hupper, -⟩ := head_encodeString_encodeValue lib e.2
  obtain ⟨tail, htail⟩ : ∃ tail, encodeString (encodeValue lib e.2) = digit :: tail := by
    cases heq : encodeString (encodeValue lib e.2) with
    | nil => exact absurd heq (encodeString_ne_nil (encodeValue_ne_nil lib _))
    | cons c tail =>
      rw [heq] at hhead
      exact ⟨tail, by rw [Option.some.inj hhead]⟩
  have hdigit := hupper h
  have hm : digit ≠ 'm' := by
    rintro rfl
    exact absurd hdigit (by decide)
  have hl : digit ≠ 'l' := by
    rintro rfl
    exact absurd hdigit (by decide)
  have htake : takeContinuations (encodeString (encodeValue lib e.2)) ([] ++ rest) = ([], rest) := by
    rw [htail]
    exact if_neg (by simp [hm])
  obtain ⟨next, -, hstep⟩ := decodePairsFrom_step properties hinput htake
  have herror : ∃ message, decodeValue lib (digit :: tail) = .error message := by
    rw [decodeValue, dif_neg hl, dif_neg hm]
    rcases mem_cons.1 hdigit with rfl | hdigit
    · exact ⟨_, rfl⟩
    · obtain rfl := mem_singleton.1 hdigit
      exact ⟨_, rfl⟩
  obtain ⟨message, hmessage⟩ := herror
  intro hok
  rw [nil_append] at hstep
  rw [show mapItem lib e = encodeString e.1.toList ++ '=' :: encodeString (encodeValue lib e.2)
    from rfl, hstep, htail, show [';'].intercalate [digit :: tail] = digit :: tail by
      simp [intercalate], hmessage] at hok
  cases hok

lemma exists_first_temporal : ∀ {es : List (String × Value)}, ¬ (∀ e ∈ es, ¬ IsTemporal e.2) →
    ∃ good bad rest, es = good ++ bad :: rest ∧ (∀ e ∈ good, ¬ IsTemporal e.2) ∧ IsTemporal bad.2
  | [], h => absurd (by simp) h
  | e :: es, h => by
    by_cases he : IsTemporal e.2
    · exact ⟨[], e, es, rfl, by simp, he⟩
    · have hes : ¬ ∀ e ∈ es, ¬ IsTemporal e.2 := fun hall => h (forall_mem_cons.2 ⟨he, hall⟩)
      obtain ⟨good, bad, rest, rfl, hgood, hbad⟩ := exists_first_temporal hes
      exact ⟨e :: good, bad, rest, rfl, forall_mem_cons.2 ⟨he, hgood⟩, hbad⟩

lemma decodePairsFrom_not_delimited {e : String × Value}
    (h : ¬ Delimited e.2) (rest : List Text) (hinput : RestFrom input offset (pieces lib e ++ rest))
    (properties out : List (String × Value)) :
    decodePairsFrom lib input offset (pieces lib e ++ rest) properties ≠ .ok out := by
  obtain ⟨key, v⟩ := e
  match v, h with
  | .map [], h => exact absurd (by simp [Delimited]) h
  | .list vs, h => exact absurd trivial h
  | .leaf s, h => exact absurd trivial h
  | .map (first :: es), h =>
    obtain ⟨good, bad, more, rfl, hgood, hbad⟩ := exists_first_temporal h
    have hcut : isContinuation (mapItem lib bad) = false :=
      Bool.not_eq_true _ ▸ fun hc => (isContinuation_mapItem bad).1 hc hbad
    have htake : takeContinuations ('m' :: mapItem lib first) (good.map (mapItem lib) ++
        (mapItem lib bad :: (more.map (mapItem lib) ++ rest))) =
          (good.map (mapItem lib), mapItem lib bad :: (more.map (mapItem lib) ++ rest)) :=
      (if_pos rfl).trans (span_continuations hgood (by simpa using hcut))
    have hpieces : pieces lib (key, .map (first :: (good ++ bad :: more))) ++ rest =
        (encodeString key.toList ++ '=' :: 'm' :: mapItem lib first) :: (good.map (mapItem lib) ++
          (mapItem lib bad :: (more.map (mapItem lib) ++ rest))) := by
      simp [pieces, headValue, tailEntries]
    rw [hpieces] at hinput ⊢
    obtain ⟨next, hnext, hstep⟩ := decodePairsFrom_step properties hinput htake
    rw [hstep]
    intro hok
    obtain ⟨v, -, hrest⟩ := bind_eq_ok.1 hok
    exact decodePairsFrom_temporal hbad _ hnext _ _ hrest

lemma decodePairsFrom_pieces : ∀ {ps properties out : List (String × Value)}
    {offset : ℕ}, RestFrom input offset (ps.flatMap (pieces lib)) →
    (∀ e ∈ ps, decodeValue lib (encodeValue lib e.2) = .ok e.2) →
    (decodePairsFrom lib input offset (ps.flatMap (pieces lib)) properties = .ok out ↔
      (∀ e ∈ ps, Delimited e.2) ∧
        ps.foldl (fun entries e => insertEntry e.1 e.2 entries) properties = out)
  | [], properties, out, offset, _, _ => by
    rw [flatMap_nil, decodePairsFrom]
    simp
  | (key, v) :: ps, properties, out, offset, hinput, hvalues => by
    rw [forall_mem_cons] at hvalues
    rw [flatMap_cons] at hinput ⊢
    by_cases h : Delimited v
    · obtain ⟨next, hnext, hstep⟩ := decodePairsFrom_step properties hinput
        (takeContinuations_delimited h (head_flatMap_pieces ps))
      rw [headValue_join, hvalues.1, ok_bind] at hstep
      rw [show pieces lib (key, v) ++ ps.flatMap (pieces lib) = _ from rfl, pieces, cons_append,
        hstep, decodePairsFrom_pieces hnext hvalues.2, forall_mem_cons, foldl_cons]
      simp only [h, true_and]
    · refine ⟨fun hok => absurd hok (decodePairsFrom_not_delimited h _ hinput _ _), ?_⟩
      rintro ⟨hall, -⟩
      exact absurd (hall _ mem_cons_self) h

/-- The properties of a record: a sorted map of values whose maps are sorted. -/
structure PropertyMap where
  entries : List (String × Value)
  sorted : Value.SortedMaps (.map entries)

/-- What the text of a property map decodes to: the map, if the end of every property is found, and
an error otherwise. -/
theorem decodeProperties_eq_ok (p : PropertyMap)
    (hround : ∀ e ∈ p.entries, e.2.Everywhere (fun _ => RoundTripNode lib) 1) :
    decodeProperties lib (encodeProperties lib p.entries) = .ok out ↔
      (∀ e ∈ p.entries, Delimited e.2) ∧ p.entries = out := by
  obtain ⟨hkeys, hsorted⟩ := Tree.everywhere_map.1 p.sorted
  have hvalues : ∀ e ∈ p.entries, decodeValue lib (encodeValue lib e.2) = .ok e.2 := fun e he =>
    decodeValue_encodeValue (hsorted e he) (hround e he)
  have hfold : p.entries.foldl (fun entries e => insertEntry e.1 e.2 entries) [] = p.entries := by
    rw [← OrdMap.ofList_entries_eq_foldl, OrdMap.ofList_entries (sortedKeys_iff_keys.2 hkeys)]
  have hencode : encodeProperties lib p.entries =
      [';'].intercalate (p.entries.flatMap (pieces lib)) := intercalate_map_pieces _
  by_cases hempty : p.entries = []
  · simp [hempty, encodeProperties, decodeProperties, intercalate]
  obtain ⟨e, ps, hps⟩ := exists_cons_of_ne_nil hempty
  have hne : encodeProperties lib p.entries ≠ [] := by
    rw [encodeProperties, hps, map_cons, intercalate_cons_eq]
    simp [encodePair]
  have hpieces : p.entries.flatMap (pieces lib) ≠ [] := by
    rw [hps]
    simp [pieces]
  have hplain : ∀ piece ∈ p.entries.flatMap (pieces lib), ';' ∉ piece := by
    intro piece hpiece
    obtain ⟨e, -, hpiece⟩ := mem_flatMap.1 hpiece
    rcases mem_cons.1 hpiece with rfl | hpiece
    · simp [encodeString, semicolon_not_mem_hexText, semicolon_not_mem_headValue]
    · obtain ⟨e, -, rfl⟩ := mem_map.1 hpiece
      exact semicolon_not_mem_mapItem e
  rw [decodeProperties, if_neg hne, hencode, splitOn_intercalate _ hplain hpieces,
    decodePairsFrom_pieces (fun _ => drop_zero) hvalues, hfold]

/-- A property map whose temporal values are read back from their display is read back exactly when
no property is a map with a temporal value in an entry other than its first. -/
theorem text_round_trip_iff (lib : TextLibrary) (p : PropertyMap)
    (hround : ∀ e ∈ p.entries, e.2.Everywhere (fun _ => RoundTripNode lib) 1) :
    decodeProperties lib (encodeProperties lib p.entries) = .ok p.entries ↔
      ∀ e ∈ p.entries, Delimited e.2 := by
  rw [decodeProperties_eq_ok p hround]
  simp

/-! ## A library that knows one day -/

lemma filter_hyphen_hexText (bytes : Bytes) : (hexText bytes).filter (· ≠ '-') = hexText bytes := by
  rw [filter_eq_self]
  intro c hc
  have hne : c ≠ '-' := by
    rintro rfl
    exact not_mem_hexText (by decide) bytes hc
  simpa using hne

lemma filter_hyphen_uuidText (u : ByteArr 16) : (uuidText u).filter (· ≠ '-') = hexText u.1 := by
  have hbytes : u.1 = u.1.take 4 ++ ((u.1.drop 4).take 2 ++ ((u.1.drop 6).take 2 ++
      ((u.1.drop 8).take 2 ++ u.1.drop 10))) := by
    have h4 := take_append_drop 4 u.1
    have h6 := take_append_drop 2 (u.1.drop 4)
    have h8 := take_append_drop 2 (u.1.drop 6)
    have h10 := take_append_drop 2 (u.1.drop 8)
    rw [drop_drop] at h6 h8 h10
    rw [h10, h8, h6, h4]
  conv_rhs => rw [hbytes]
  simp only [uuidText, filter_append, filter_cons, filter_hyphen_hexText, hexText_append]
  simp

/-- A UUID of 32 digits, hyphens anywhere. -/
def parseHyphenated (t : Text) : Except String (ByteArr 16) :=
  match decodeHexBytes (t.filter (· ≠ '-')) with
  | .error error => .error error
  | .ok bytes => if h : bytes.length = 16 then .ok ⟨bytes, h⟩ else .error "invalid length"

lemma parseHyphenated_uuidText (u : ByteArr 16) : parseHyphenated (uuidText u) = .ok u := by
  rw [parseHyphenated, filter_hyphen_uuidText, decodeHexBytes_hexText]
  exact dif_pos u.2

def leapDay : NaiveDate := ⟨738945, by decide, by decide⟩

def leapDayText : Text := ['2', '0', '2', '4', '-', '0', '2', '-', '2', '9']

/-- A parser that knows the day and nothing else. -/
def parseLeapDay (text : Text) : Except String TemporalValue :=
  if text = leapDayText then .ok (.date leapDay) else .error "not the day"

def leapDayLibrary : TextLibrary where
  year _ := 2024
  month _ := 2
  day _ := 29
  naiveLocal value := value.utc
  parseTemporal _ := parseLeapDay
  parseUuid := parseHyphenated
  parseUuid_uuidText := parseHyphenated_uuidText

/-- The property `visit`, a map with two entries. -/
def visit (first last : String × Scalar) (h : compare first.1 last.1 = .lt) : PropertyMap where
  entries := [("visit", .map [(first.1, .leaf first.2), (last.1, .leaf last.2)])]
  sorted := by simp [Value.SortedMaps, Tree.KeysIn, h]

def dayFirst : PropertyMap := visit ("day", .temporal (.date leapDay)) ("guests", .int 1) (by decide)

def dayLast : PropertyMap := visit ("count", .int 1) ("day", .temporal (.date leapDay)) (by decide)

lemma displayTemporal_leapDay :
    displayTemporal leapDayLibrary (.date leapDay) = leapDayText := by decide

lemma parseTemporal_leapDay (kind : TemporalValueKind) :
    leapDayLibrary.parseTemporal kind (displayTemporal leapDayLibrary (.date leapDay)) =
      .ok (.date leapDay) := by
  rw [displayTemporal_leapDay]
  show parseLeapDay leapDayText = _
  exact if_pos rfl

theorem text_round_trip_iff_dayFirst :
    decodeProperties leapDayLibrary (encodeProperties leapDayLibrary dayFirst.entries) =
      .ok dayFirst.entries := by
  refine (text_round_trip_iff leapDayLibrary dayFirst ?_).2 (by decide)
  intro e he
  obtain rfl := mem_singleton.1 he
  simp [RoundTripNode, parseTemporal_leapDay]

/-- A map whose second entry is a date: the date is read back from its display, and the property map
is not read back. -/
theorem dayLast_not_read_back :
    (∀ e ∈ dayLast.entries, e.2.Everywhere (fun _ => RoundTripNode leapDayLibrary) 1) ∧
      ∀ out, decodeProperties leapDayLibrary (encodeProperties leapDayLibrary dayLast.entries) ≠
        .ok out := by
  have hround : ∀ e ∈ dayLast.entries,
      e.2.Everywhere (fun _ => RoundTripNode leapDayLibrary) 1 := by
    intro e he
    obtain rfl := mem_singleton.1 he
    simp [RoundTripNode, parseTemporal_leapDay]
  refine ⟨hround, fun out hout => ?_⟩
  have hdelimited := ((decodeProperties_eq_ok dayLast hround).1 hout).1
  exact absurd hdelimited (by decide)

end TextCodec

end HawDB
