import HawDB.Temporal
import HawDB.Result

/-!
# What a temporal payload gives back

A payload has the length of its kind (`length_encodePayload`). Decoding it gives the value back
exactly when the value has no leap second and, for a zoned datetime, a local reading in range
(`decodePayload_encodePayload`). What decodes is the payload of its value
(`encodePayload_of_decodePayload`).
-/

namespace HawDB

open List TemporalValue

namespace TemporalCodec

lemma length_encodePayload (value : TemporalValue) :
    (encodePayload value).length = value.kind.payloadLen := by
  cases value <;>
    simp [encodePayload, writeDate, writeTime, kind, TemporalValueKind.payloadLen]

/-! ## The fields of a payload -/

section

variable {width offset : ℕ} {x a b bytes : Bytes}

lemma readArray_append (hx : x.length = offset) (ha : a.length = width) :
    readArray width (x ++ (a ++ b)) offset = a := by
  rw [readArray, ← hx, drop_left, ← ha, take_left]

lemma readArray_zero (ha : a.length = width) : readArray width (a ++ b) 0 = a := by
  simpa using readArray_append (x := []) (b := b) rfl ha

lemma readArray_end (hx : x.length = offset) (ha : a.length = width) :
    readArray width (x ++ a) offset = a := by
  simpa using readArray_append (b := []) hx ha

lemma readArray_all (ha : a.length = width) : readArray width a 0 = a := by
  simpa using readArray_end (x := []) rfl ha

lemma length_readArray (h : offset + width ≤ bytes.length) :
    (readArray width bytes offset).length = width := by
  rw [readArray, length_take, length_drop]
  omega

lemma readArray_append_drop (width offset : ℕ) (bytes : Bytes) :
    readArray width bytes offset ++ bytes.drop (offset + width) = bytes.drop offset := by
  rw [readArray, ← drop_drop, take_append_drop]

lemma readArray_of_end (h : bytes.length = offset + width) :
    readArray width bytes offset = bytes.drop offset := by
  rw [readArray, take_of_length_le (by rw [length_drop]; omega)]

end

/-! ## Dates -/

variable {kind : TemporalValueKind}

lemma readDate_of_array {date : NaiveDate}
    (h : readArray 4 bytes offset = writeDate date) : readDate kind bytes offset = .ok date := by
  have hmin := date.min_le
  have hmax := date.le_max
  rw [readDate, h, writeDate, leInt_leIntBytes (by omega) (by omega), NaiveDate.ofDays,
    dif_pos ⟨hmin, hmax⟩]

lemma array_of_readDate {bytes : Bytes} {date : NaiveDate}
    (hlength : offset + 4 ≤ bytes.length) (h : readDate kind bytes offset = .ok date) :
    readArray 4 bytes offset = writeDate date := by
  unfold readDate NaiveDate.ofDays at h
  split_ifs at h with hrange
  · cases h
    exact (leIntBytes_leInt _ (length_readArray hlength)).symm
  · cases h

/-! ## Times -/

lemma timeNanos_lt (time : NaiveTime) : timeNanos time < 256 ^ 8 := by
  have hsecs := time.secs_lt
  have hfrac := time.frac_lt
  unfold timeNanos
  omega

lemma readTime_eq_iff (kind : TemporalValueKind) (h : readArray 8 bytes offset = writeTime time) :
    readTime kind bytes offset = .ok time ↔ time.Plain := by
  have hsecs := time.secs_lt
  have hnanos : leNat (readArray 8 bytes offset) = time.secs * 1000000000 + time.frac := by
    rw [h, writeTime, leNat_leBytes (timeNanos_lt time), timeNanos]
  unfold readTime NaiveTime.ofSeconds NaiveTime.Plain
  simp only [hnanos]
  split_ifs with hrange hvalid
  · refine ⟨nofun, fun hplain => ?_⟩
    omega
  · constructor
    · intro heq
      have hfrac := congrArg NaiveTime.frac (Except.ok.inj heq)
      simp only at hfrac
      omega
    · intro hplain
      have hdiv : (time.secs * 1000000000 + time.frac) / 1000000000 = time.secs := by omega
      have hmod : (time.secs * 1000000000 + time.frac) % 1000000000 = time.frac := by omega
      simp only [hdiv, hmod]
  · exact absurd ⟨by omega, by omega, by omega⟩ hvalid

lemma array_of_readTime {bytes : Bytes}
    (hlength : offset + 8 ≤ bytes.length) (h : readTime kind bytes offset = .ok time) :
    readArray 8 bytes offset = writeTime time := by
  unfold readTime NaiveTime.ofSeconds at h
  simp only at h
  split_ifs at h with hrange hvalid
  · cases h
  · cases h
    rw [writeTime, timeNanos]
    simp only [Nat.div_add_mod']
    exact (leBytes_leNat _ (length_readArray hlength)).symm
  · cases h

/-! ## Datetimes -/

lemma readDateTime_eq_iff (kind : TemporalValueKind) {value : NaiveDateTime}
    (hdate : readArray 4 bytes 0 = writeDate value.date)
    (htime : readArray 8 bytes 4 = writeTime value.time) :
    readDateTime kind bytes = .ok value ↔ value.time.Plain := by
  rw [← readTime_eq_iff kind htime]
  · simp only [readDateTime, readDate_of_array hdate, bind_eq_ok]
    constructor
    · rintro ⟨_, -, time, h, hvalue⟩
      rw [h, ← Except.ok.inj hvalue]
    · exact fun h => ⟨_, rfl, _, h, rfl⟩

lemma arrays_of_readDateTime {bytes : Bytes} {value : NaiveDateTime} (hlength : 12 ≤ bytes.length)
    (h : readDateTime kind bytes = .ok value) :
    readArray 4 bytes 0 = writeDate value.date ∧ readArray 8 bytes 4 = writeTime value.time := by
  simp only [readDateTime, bind_eq_ok] at h
  obtain ⟨date, hdate, time, htime, ⟨⟩⟩ := h
  exact ⟨array_of_readDate (by omega) hdate, array_of_readTime (by omega) htime⟩

lemma zoned_eq_iff {utc : NaiveDateTime} {value : ZonedDateTime} :
    zoned kind utc offset = .ok value ↔
      utc = value.utc ∧ offset = value.offset ∧ (utc.checkedAddOffset offset).isSome := by
  unfold zoned
  split_ifs with hrange
  · cases hlocal : utc.checkedAddOffset offset with
    | none => simp [corrupt]
    | some reading =>
      simp only [Except.ok.injEq, Option.isSome_some, and_true]
      refine ⟨fun h => h ▸ ⟨rfl, rfl⟩, ?_⟩
      rintro ⟨rfl, rfl⟩
      rfl
  · refine ⟨nofun, ?_⟩
    rintro ⟨-, rfl, -⟩
    exact absurd ⟨value.offset_gt, value.offset_lt⟩ hrange

/-! ## Durations -/

lemma timeDelta_new (duration : Duration) :
    TimeDelta.new duration.seconds duration.nanosOfSecond = some duration.time := by
  have habs := duration.time.natAbs_le
  have hsum : duration.seconds * 1000000000 + (duration.nanosOfSecond : ℤ) = duration.time.nanos := by
    unfold Duration.seconds Duration.nanosOfSecond
    omega
  have hlt : duration.nanosOfSecond < 1000000000 := by
    unfold Duration.nanosOfSecond
    omega
  unfold TimeDelta.new
  rw [dif_pos ⟨hlt, by rw [hsum]; exact habs⟩]
  simp only [hsum]

lemma seconds_bounds (duration : Duration) :
    -256 ^ 8 ≤ 2 * duration.seconds ∧ 2 * duration.seconds < 256 ^ 8 := by
  have habs := duration.time.natAbs_le
  unfold maxTimeDelta at habs
  unfold Duration.seconds
  omega

lemma leInt_int64 (n : Int64) : leInt (leIntBytes 8 n.toInt) = n.toInt := by
  have hlo := n.le_toInt
  have hhi := n.toInt_lt
  exact leInt_leIntBytes (by omega) (by omega)

lemma int64_of_leInt {l : Bytes} (h : l.length = 8) : leIntBytes 8 (Int64.ofInt (leInt l)).toInt = l := by
  obtain ⟨hlo, hhi⟩ := leInt_bounds l
  rw [h] at hlo hhi
  have hbmod : (leInt l).bmod Int64.size = leInt l :=
    Int.bmod_eq_of_le (by unfold Int64.size; omega) (by unfold Int64.size; omega)
  rw [Int64.toInt_ofInt, hbmod, leIntBytes_leInt l h]

lemma readDuration_of_arrays {duration : Duration}
    (hmonths : readArray 8 bytes 0 = leIntBytes 8 duration.months.toInt)
    (hdays : readArray 8 bytes 8 = leIntBytes 8 duration.days.toInt)
    (hseconds : readArray 8 bytes 16 = leIntBytes 8 duration.seconds)
    (hnanos : readArray 4 bytes 24 = leBytes 4 duration.nanosOfSecond) :
    readDuration kind bytes = .ok duration := by
  have hlt : duration.nanosOfSecond < 1000000000 := by
    unfold Duration.nanosOfSecond
    omega
  have hread : leNat (readArray 4 bytes 24) = duration.nanosOfSecond := by
    rw [hnanos, leNat_leBytes (by omega)]
  unfold readDuration
  simp only [hread, hmonths, hdays, hseconds, leInt_int64,
    leInt_leIntBytes (seconds_bounds duration).1 (seconds_bounds duration).2, timeDelta_new,
    Int64.ofInt_toInt]
  rw [if_neg (by omega)]

lemma arrays_of_readDuration {bytes : Bytes} {duration : Duration} (hlength : bytes.length = 28)
    (h : readDuration kind bytes = .ok duration) :
    readArray 8 bytes 0 = leIntBytes 8 duration.months.toInt ∧
      readArray 8 bytes 8 = leIntBytes 8 duration.days.toInt ∧
      readArray 8 bytes 16 = leIntBytes 8 duration.seconds ∧
      readArray 4 bytes 24 = leBytes 4 duration.nanosOfSecond := by
  unfold readDuration TimeDelta.new at h
  simp only at h
  split_ifs at h with hnanos hrange
  · cases h
  · cases h
    have hseconds : ∀ s : ℤ, ∀ n : ℕ, n < 1000000000 → (s * 1000000000 + n) / 1000000000 = s ∧
        ((s * 1000000000 + n) % 1000000000).toNat = n := by
      intro s n hn
      omega
    simp only [Duration.seconds, Duration.nanosOfSecond, hseconds _ _ hrange.1]
    exact ⟨(int64_of_leInt (length_readArray (by omega))).symm,
      (int64_of_leInt (length_readArray (by omega))).symm,
      (leIntBytes_leInt _ (length_readArray (by omega))).symm,
      (leBytes_leNat _ (length_readArray (by omega))).symm⟩
  · cases h

/-! ## Payloads -/

lemma decodePayload_encodePayload (value : TemporalValue) :
    decodePayload value.kind (encodePayload value) = .ok value ↔ value.Restorable := by
  unfold decodePayload
  rw [if_neg (not_not.2 (length_encodePayload value))]
  cases value with
  | date date =>
    simp only [kind, encodePayload, Restorable, iff_true]
    rw [readDate_of_array (readArray_all (by simp [writeDate]))]
    rfl
  | localTime time =>
    rw [Restorable, ← readTime_eq_iff .localTime (readArray_all (by simp [writeTime]))]
    simp only [kind, encodePayload, map_eq_ok, localTime.injEq, exists_eq_right]
  | localDateTime value =>
    rw [Restorable, ← readDateTime_eq_iff .localDateTime (readArray_zero (by simp [writeDate]))
        (readArray_end (by simp [writeDate]) (by simp [writeTime]))]
    simp only [kind, encodePayload, map_eq_ok, localDateTime.injEq, exists_eq_right]
  | dateTime value =>
    have hoffset : leInt (readArray 4 (encodePayload (.dateTime value)) 12) = value.offset := by
      have hgt := value.offset_gt
      have hlt := value.offset_lt
      rw [encodePayload, ← append_assoc, readArray_end (by simp [writeDate, writeTime]) (by simp),
        leInt_leIntBytes (by omega) (by omega)]
    rw [Restorable, ← readDateTime_eq_iff .dateTime (readArray_zero (by simp [writeDate]))
        (readArray_append (by simp [writeDate]) (by simp [writeTime]))]
    simp only [kind, hoffset, bind_eq_ok, zoned_eq_iff]
    constructor
    · rintro ⟨utc, hutc, zoned, ⟨rfl, -, hlocal⟩, hvalue⟩
      cases hvalue
      exact ⟨hutc, hlocal⟩
    · exact fun h => ⟨value.utc, h.1, value, ⟨rfl, rfl, h.2⟩, rfl⟩
  | duration duration =>
    simp only [kind, encodePayload, Restorable, iff_true]
    rw [readDuration_of_arrays (readArray_zero (by simp)) (readArray_append (by simp) (by simp))
      (by rw [← append_assoc]; exact readArray_append (by simp) (by simp))
      (by rw [← append_assoc, ← append_assoc]; exact readArray_end (by simp) (by simp))]
    rfl

lemma encodePayload_of_decodePayload {value : TemporalValue}
    (h : decodePayload kind bytes = .ok value) :
    value.kind = kind ∧ encodePayload value = bytes := by
  unfold decodePayload at h
  split_ifs at h with hlength
  · cases h
  rw [not_not] at hlength
  cases kind with
  | date =>
    obtain ⟨date, hdate, rfl⟩ := map_eq_ok.1 h
    refine ⟨rfl, ?_⟩
    have hlength : bytes.length = 0 + 4 := hlength
    rw [encodePayload, ← array_of_readDate (by omega) hdate, readArray_of_end hlength, drop_zero]
  | localTime =>
    obtain ⟨time, htime, rfl⟩ := map_eq_ok.1 h
    refine ⟨rfl, ?_⟩
    have hlength : bytes.length = 0 + 8 := hlength
    rw [encodePayload, ← array_of_readTime (by omega) htime, readArray_of_end hlength, drop_zero]
  | localDateTime =>
    obtain ⟨value, hvalue, rfl⟩ := map_eq_ok.1 h
    refine ⟨rfl, ?_⟩
    have hlength : bytes.length = 4 + 8 := hlength
    obtain ⟨hdate, htime⟩ := arrays_of_readDateTime (by omega) hvalue
    rw [encodePayload, ← hdate, ← htime, readArray_of_end hlength]
    exact readArray_append_drop _ _ _
  | dateTime =>
    obtain ⟨utc, hutc, zoned, hzoned, hvalue⟩ := bind₂_eq_ok.1 h
    cases hvalue
    obtain ⟨rfl, hoffset, -⟩ := zoned_eq_iff.1 hzoned
    refine ⟨rfl, ?_⟩
    have hlength : bytes.length = 12 + 4 := hlength
    obtain ⟨hdate, htime⟩ := arrays_of_readDateTime (by omega) hutc
    rw [encodePayload, ← hdate, ← htime, ← hoffset,
      leIntBytes_leInt _ (length_readArray hlength.ge), readArray_of_end hlength,
      readArray_append_drop 8 4]
    exact readArray_append_drop _ _ _
  | duration =>
    obtain ⟨duration, hduration, rfl⟩ := map_eq_ok.1 h
    refine ⟨rfl, ?_⟩
    have hlength : bytes.length = 24 + 4 := hlength
    obtain ⟨hmonths, hdays, hseconds, hnanos⟩ := arrays_of_readDuration hlength hduration
    rw [encodePayload, ← hmonths, ← hdays, ← hseconds, ← hnanos, readArray_of_end hlength,
      readArray_append_drop 8 16, readArray_append_drop 8 8]
    exact readArray_append_drop _ _ _

end TemporalCodec

end HawDB
