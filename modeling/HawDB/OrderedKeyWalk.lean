import HawDB.OrderedKey

/-!
# The other walkers over ordered keys

Besides the decoder, three functions walk the bytes of an ordered key: two skip its values, to check
the key and to find where each value ends, and one decodes it into a key whose buffers it uses again.
-/

namespace HawDB

namespace OrderedKeyDecoder

def skipFixed (length : ℕ) (context : String) : OrderedKeyDecoder Unit := fun encoded =>
  if encoded.length < length then .error (.corrupt s!"truncated {context}")
  else .ok ((), encoded.drop length)

/-- `skip_value` behind the tag; it says whether the value is NULL. -/
def skipPayload (tag : UInt8) : OrderedKeyDecoder Bool :=
  match tag.toNat with
  | 0 => fun rest => .ok (true, rest)
  | 1 => (byte "boolean value").andThen fun tag =>
    if tag = 0 ∨ tag = 1 then .ok false else .error (.corrupt s!"invalid boolean tag {tag}")
  | 2 => (skipFixed 8 "BIGINT value").andThen fun _ => .ok false
  | 3 => (skipFixed 8 "DOUBLE PRECISION value").andThen fun _ => .ok false
  | 4 => walkEscaped.andThen fun _ => .ok false
  | 5 => walkEscaped.andThen fun _ => .ok false
  | 6 => (skipFixed 16 "UUID value").andThen fun _ => .ok false
  | 9 => decimal.andThen fun _ => .ok false
  | 10 => (timestamp .timestamp).andThen fun _ => .ok false
  | 11 => (timestamp .timestampTz).andThen fun _ => .ok false
  | _ => fun _ =>
    .error (.corrupt s!"invalid value tag {tag} (corrupt, or written by a newer HawDB)")

def skipValue : OrderedKeyDecoder Bool := fun encoded =>
  match byte "value tag" encoded with
  | .error e => .error e
  | .ok (tag, rest) => skipPayload tag rest

lemma advances_skipFixed (length : ℕ) (context : String) : (skipFixed length context).Advances := by
  intro encoded a rest h
  unfold skipFixed at h
  split_ifs at h
  cases h
  rw [List.length_drop]
  exact Nat.sub_le _ _

lemma length_lt_of_skipValue {encoded rest : Bytes} {null : Bool}
    (h : skipValue encoded = .ok (null, rest)) : rest.length < encoded.length := by
  cases encoded with
  | nil => cases h
  | cons tag encoded =>
    have hadvances : (skipPayload tag).Advances := by
      unfold skipPayload
      split
      · rintro encoded a rest ⟨⟩
        exact le_rfl
      all_goals first
        | exact (advances_byte _).andThen _
        | exact (advances_skipFixed _ _).andThen _
        | exact advances_walkEscaped.andThen _
        | exact ((advances_fixed _ _).andThen _).andThen _
        | exact nofun
    exact Nat.lt_succ_of_le (hadvances h)

/-- The loop of `validate_ordered_relational_key`, which counts the values. -/
def validateLoop (encoded : Bytes) (values : ℕ) : Except OrderedRelationalKeyError ℕ :=
  if encoded = [] then .ok values
  else
    match _h : skipValue encoded with
    | .error e => .error e
    | .ok (_, rest) => validateLoop rest (values + 1)
termination_by encoded.length
decreasing_by exact length_lt_of_skipValue _h

/-- The loop of `ordered_relational_key_prefix_ends`, in a key of so many bytes: the ends, the
number of values before the first NULL, and whether there was one. -/
def endsLoop (total : ℕ) (encoded : Bytes) (ends : List ℕ) (leading : ℕ) (sawNull : Bool) :
    Except OrderedRelationalKeyError (List ℕ × ℕ) :=
  if encoded = [] then .ok (ends, leading)
  else
    match _h : skipValue encoded with
    | .error e => .error e
    | .ok (null, rest) =>
      let sawNull := sawNull || null
      endsLoop total rest (ends ++ [total - rest.length]) (if sawNull then leading else leading + 1)
        sawNull
termination_by encoded.length
decreasing_by exact length_lt_of_skipValue _h

/-- `escaped_bytes_into`: the buffer is cleared before the bytes are pushed. -/
def escapedBytesInto (decoded : Bytes) : OrderedKeyDecoder Bytes :=
  walkEscaped.andThen fun bytes => .ok (decoded.take 0 ++ bytes)

/-- `value_into`; it differs from `value` in the buffers of texts and byte strings. -/
def valueInto (target : RelationalValue) : OrderedKeyDecoder RelationalValue := fun encoded =>
  match byte "value tag" encoded with
  | .error e => .error e
  | .ok (tag, rest) =>
    if tag = 4 then
      let buffer := match target with
        | .text value => utf8 value
        | _ => []
      (escapedBytesInto buffer).andThen (fun bytes => (fromUtf8 bytes).map .text) rest
    else if tag = 5 then
      let buffer := match target with
        | .bytea value => value
        | _ => []
      (escapedBytesInto buffer).andThen (fun bytes => .ok (.bytea bytes)) rest
    else payload tag rest

lemma valueInto_eq (target : RelationalValue) : valueInto target = value := by
  have hinto : ∀ buffer, escapedBytesInto buffer = walkEscaped := fun buffer => by
    funext encoded
    rw [escapedBytesInto, andThen]
    rcases walkEscaped encoded with e | ⟨bytes, rest⟩ <;> rfl
  funext encoded
  cases encoded with
  | nil => rfl
  | cons tag rest =>
    show (if tag = 4 then _ else if tag = 5 then _ else payload tag rest) = payload tag rest
    split_ifs with htext hbytes
    · subst htext
      rw [hinto]
      rfl
    · subst hbytes
      dsimp only
      rw [hinto]
      rfl
    · rfl

/-- The loop of `decode_ordered_relational_key_into`. -/
def intoLoop (encoded : Bytes) (key : RelationalKey) (count : ℕ) :
    Except OrderedRelationalKeyError (RelationalKey × ℕ) :=
  if encoded = [] then .ok (key, count)
  else
    match _h : (key[count]?.elim value valueInto) encoded with
    | .error e => .error e
    | .ok (v, rest) =>
      intoLoop rest (if count < key.length then key.set count v else key ++ [v]) (count + 1)
termination_by encoded.length
decreasing_by
  refine length_lt_of_value (v := v) ?_
  rcases hkey : key[count]? with _ | target
  · rwa [hkey] at _h
  · rwa [hkey, Option.elim_some, valueInto_eq] at _h

end OrderedKeyDecoder

def noValuesError : OrderedRelationalKeyError := .corrupt "key contains no values"

def validateOrderedRelationalKey (encoded : Bytes) : Except OrderedRelationalKeyError Unit :=
  match OrderedKeyDecoder.validateLoop encoded 0 with
  | .error e => .error e
  | .ok values => if values = 0 then .error noValuesError else .ok ()

/-- The ends of the values, and how many come before the first NULL. -/
def orderedRelationalKeyPrefixEnds (encoded : Bytes) :
    Except OrderedRelationalKeyError (List ℕ × ℕ) :=
  match OrderedKeyDecoder.endsLoop encoded.length encoded [] 0 false with
  | .error e => .error e
  | .ok (ends, leading) => if ends = [] then .error noValuesError else .ok (ends, leading)

def decodeOrderedRelationalKeyInto (encoded : Bytes) (key : RelationalKey) :
    Except OrderedRelationalKeyError RelationalKey :=
  match OrderedKeyDecoder.intoLoop encoded key 0 with
  | .error e => .error e
  | .ok (key, count) => if count = 0 then .error noValuesError else .ok (key.take count)

end HawDB
