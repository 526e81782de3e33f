import HawDB.Bytes

/-!
# Text

A text is a list of characters. Numbers are written in decimal digits and read back within the
range of a machine integer (`parseUnsigned_natText`, `parseSigned_intText`); bytes are written as
pairs of hexadecimal digits and read back pair by pair (`decodePairs_hexText`).
-/

namespace HawDB

open List

abbrev Text := List Char

def textBytes (t : Text) : Bytes := t.flatMap String.utf8EncodeChar

lemma textBytes_cons (c : Char) (t : Text) :
    textBytes (c :: t) = String.utf8EncodeChar c ++ textBytes t := rfl

lemma textBytes_append (t u : Text) : textBytes (t ++ u) = textBytes t ++ textBytes u :=
  flatMap_append

/-! ## Separators -/

/-- `split_once`: what stands before and behind the first separator. -/
def splitOnce (separator : Char) : Text → Option (Text × Text)
  | [] => none
  | c :: t =>
    if c = separator then some ([], t)
    else (splitOnce separator t).map fun split => (c :: split.1, split.2)

lemma splitOnce_append (h : separator ∉ t) (u : Text) :
    splitOnce separator (t ++ separator :: u) = some (t, u) := by
  induction t with
  | nil => simp [splitOnce]
  | cons c t ih =>
    rw [mem_cons, not_or] at h
    rw [cons_append, splitOnce, if_neg (Ne.symm h.1), ih h.2, Option.map_some]

lemma sum_length_splitOn (hsize : (String.utf8EncodeChar separator).length = 1)
    (t : Text) : ((t.splitOn separator).map fun piece => (textBytes piece).length + 1).sum =
      (textBytes t).length + 1 := by
  have hjoin : ∀ pieces, pieces ≠ [] →
      (pieces.map fun piece => (textBytes piece).length + 1).sum =
        (textBytes ([separator].intercalate pieces)).length + 1 := by
    intro pieces hne
    induction pieces with
    | nil => exact absurd rfl hne
    | cons piece pieces ih =>
      cases pieces with
      | nil => simp [intercalate]
      | cons next pieces =>
        rw [map_cons, sum_cons, ih (by simp), intercalate_cons_cons,
          textBytes_append, textBytes_append, length_append, length_append]
        have hone : (textBytes [separator]).length = 1 := by simpa [textBytes] using hsize
        omega
  have hne : t.splitOn separator ≠ [] := splitOnP_ne_nil _ t
  rw [hjoin _ hne, intercalate_splitOn]

/-! ## Numbers -/

def natText (n : ℕ) : Text := Nat.toDigits 10 n

/-- A signed number as displayed. -/
def intText (z : ℤ) : Text := if z < 0 then '-' :: natText z.natAbs else natText z.natAbs

/-- A number with at least so many digits, zeros before it. -/
def padText (width n : ℕ) : Text :=
  replicate (width - (natText n).length) '0' ++ natText n

/-- The number of a text that is nothing but digits. -/
def parseDigits (t : Text) : Option ℕ :=
  if t ≠ [] ∧ t.all Char.isDigit then some (Nat.ofDigitChars 10 t 0) else none

/-- `parse` of an unsigned integer type with so many values. -/
def parseUnsigned (size : ℕ) : Text → Option ℕ
  | '+' :: t => (parseDigits t).filter (· < size)
  | t => (parseDigits t).filter (· < size)

/-- `parse` of a signed integer type whose numbers lie from `-half` up to `half`. -/
def parseSigned (half : ℕ) : Text → Option ℤ
  | '-' :: t => ((parseDigits t).filter (· ≤ half)).map fun n : ℕ => -(n : ℤ)
  | '+' :: t => ((parseDigits t).filter (· < half)).map Int.ofNat
  | t => ((parseDigits t).filter (· < half)).map Int.ofNat

lemma isDigit_of_mem_natText {c : Char} (h : c ∈ natText n) : c.isDigit :=
  Nat.isDigit_of_mem_toDigits (by decide) (by decide) h

lemma natText_ne_nil (n : ℕ) : natText n ≠ [] := Nat.toDigits_ne_nil

lemma ofDigitChars_natText (n : ℕ) : Nat.ofDigitChars 10 (natText n) 0 = n :=
  Nat.ofDigitChars_toDigits (by decide) (by decide)

lemma parseDigits_natText (n : ℕ) : parseDigits (natText n) = some n := by
  rw [parseDigits, if_pos, ofDigitChars_natText]
  exact ⟨natText_ne_nil n, all_eq_true.2 fun c hc => isDigit_of_mem_natText hc⟩

lemma natText_eq_cons (n : ℕ) : ∃ c t, natText n = c :: t ∧ c.isDigit := by
  cases hn : natText n with
  | nil => exact absurd hn (natText_ne_nil n)
  | cons c t => exact ⟨c, t, rfl, isDigit_of_mem_natText (hn ▸ mem_cons_self)⟩

lemma parseUnsigned_natText (h : n < size) : parseUnsigned size (natText n) = some n := by
  have hparse := parseDigits_natText n
  obtain ⟨c, t, hn, hc⟩ := natText_eq_cons n
  rw [hn] at hparse ⊢
  have hplus : c ≠ '+' := fun heq => absurd (heq ▸ hc) (by decide)
  unfold parseUnsigned
  split
  · next heq => exact absurd (cons.inj heq).1 hplus
  · rw [hparse]
    simp [Option.filter, h]

lemma parseSigned_intText {half : ℕ} {z : ℤ} (hle : -half ≤ z) (hlt : z < half) :
    parseSigned half (intText z) = some z := by
  unfold intText
  split_ifs with hneg
  · simp only [parseSigned, parseDigits_natText, Option.filter]
    rw [if_pos (by simp; omega), Option.map_some]
    congr 1
    omega
  · have hparse := parseDigits_natText z.natAbs
    obtain ⟨c, t, hn, hc⟩ := natText_eq_cons z.natAbs
    rw [hn] at hparse ⊢
    have hminus : c ≠ '-' := fun heq => absurd (heq ▸ hc) (by decide)
    have hplus : c ≠ '+' := fun heq => absurd (heq ▸ hc) (by decide)
    unfold parseSigned
    split
    · next heq => exact absurd (cons.inj heq).1 hminus
    · next heq => exact absurd (cons.inj heq).1 hplus
    · rw [hparse, Option.filter, if_pos (by simp; omega), Option.map_some]
      congr 1
      simp only [Int.ofNat_eq_natCast]
      omega

section

variable {separator : Char} (h : separator.isDigit = false)

include h

lemma not_mem_natText (n : ℕ) : separator ∉ natText n := fun hmem => by
  have := isDigit_of_mem_natText hmem
  rw [h] at this
  cases this

lemma not_mem_padText (width n : ℕ) : separator ∉ padText width n := by
  rw [padText, mem_append, not_or]
  refine ⟨fun hmem => ?_, not_mem_natText h n⟩
  rw [eq_of_mem_replicate hmem] at h
  cases h

lemma not_mem_intText (hminus : separator ≠ '-') (z : ℤ) : separator ∉ intText z := by
  unfold intText
  split_ifs
  · exact fun hmem => (mem_cons.1 hmem).elim hminus (not_mem_natText h _)
  · exact not_mem_natText h _

end

/-! ## Hexadecimal digits -/

def hexText : Bytes → Text
  | [] => []
  | byte :: bytes =>
    Nat.digitChar (byte.toNat / 16) :: Nat.digitChar (byte.toNat % 16) :: hexText bytes

/-- The value of a digit of either case. -/
def hexDigitValue (digit : UInt8) : Option ℕ :=
  let n := digit.toNat
  if 48 ≤ n ∧ n ≤ 57 then some (n - 48)
  else if 97 ≤ n ∧ n ≤ 102 then some (n - 97 + 10)
  else if 65 ≤ n ∧ n ≤ 70 then some (n - 65 + 10)
  else none

def hexByte (high low : UInt8) : Option UInt8 := do
  let high ← hexDigitValue high
  let low ← hexDigitValue low
  return UInt8.ofNat (high * 16 + low)

/-- The bytes of a list of pairs, read by `pair` with the offset of each. -/
def decodePairs {ε : Type} (pair : ℕ → UInt8 → UInt8 → Except ε UInt8) :
    ℕ → Bytes → Except ε Bytes
  | offset, high :: low :: rest => do
    let byte ← pair offset high low
    let bytes ← decodePairs pair (offset + 2) rest
    return byte :: bytes
  | _, _ => .ok []

lemma hexText_append : ∀ a b, hexText (a ++ b) = hexText a ++ hexText b
  | [], _ => rfl
  | byte :: a, b => by rw [cons_append, hexText, hexText, hexText_append a b]; rfl

lemma length_hexText : ∀ bytes, (hexText bytes).length = 2 * bytes.length
  | [] => rfl
  | _ :: bytes => by rw [hexText, List.length_cons, List.length_cons, length_hexText bytes,
      List.length_cons]; omega

def digitByte (n : ℕ) : UInt8 := UInt8.ofNat (Nat.digitChar n).toNat

lemma utf8EncodeChar_digitChar (h : n < 16) :
    String.utf8EncodeChar (Nat.digitChar n) = [digitByte n] := by
  interval_cases n <;> decide

lemma hexDigitValue_digitByte (h : n < 16) : hexDigitValue (digitByte n) = some n := by
  interval_cases n <;> decide

lemma hexByte_digitByte (byte : UInt8) :
    hexByte (digitByte (byte.toNat / 16)) (digitByte (byte.toNat % 16)) = some byte := by
  have hlt := byte.toNat_lt
  have hsum : byte.toNat / 16 * 16 + byte.toNat % 16 = byte.toNat := by omega
  rw [hexByte, hexDigitValue_digitByte (by omega), hexDigitValue_digitByte (by omega)]
  show some (UInt8.ofNat (byte.toNat / 16 * 16 + byte.toNat % 16)) = some byte
  rw [hsum, UInt8.ofNat_toNat]

lemma textBytes_hexText : ∀ bytes, textBytes (hexText bytes) =
    bytes.flatMap fun byte => [digitByte (byte.toNat / 16), digitByte (byte.toNat % 16)]
  | [] => rfl
  | byte :: bytes => by
    have hlt := byte.toNat_lt
    rw [hexText, textBytes_cons, textBytes_cons, utf8EncodeChar_digitChar (by omega),
      utf8EncodeChar_digitChar (by omega), textBytes_hexText bytes]
    rfl

lemma length_textBytes_hexText (bytes : Bytes) :
    (textBytes (hexText bytes)).length = 2 * bytes.length := by
  rw [textBytes_hexText]
  induction bytes with
  | nil => rfl
  | cons byte bytes ih => rw [flatMap_cons, length_append, ih, length_cons]; simp; omega

lemma decodePairs_hexText {ε : Type} {pair : ℕ → UInt8 → UInt8 → Except ε UInt8}
    (hpair : ∀ offset byte,
      pair offset (digitByte (byte.toNat / 16)) (digitByte (byte.toNat % 16)) = .ok byte) :
    ∀ offset bytes, decodePairs pair offset (textBytes (hexText bytes)) = .ok bytes
  | _, [] => rfl
  | offset, byte :: bytes => by
    have ih := decodePairs_hexText hpair (offset + 2) bytes
    rw [textBytes_hexText] at ih ⊢
    simp only [flatMap_cons, cons_append, nil_append, decodePairs, hpair, ih]
    rfl

lemma length_of_decodePairs {ε : Type} {pair : ℕ → UInt8 → UInt8 → Except ε UInt8} :
    ∀ {offset bytes out}, decodePairs pair offset bytes = .ok out → out.length ≤ bytes.length
  | offset, high :: low :: rest, out, h => by
    rw [decodePairs] at h
    cases hbyte : pair offset high low with
    | error e =>
      rw [hbyte] at h
      cases h
    | ok byte =>
      rw [hbyte] at h
      cases hrest : decodePairs pair (offset + 2) rest with
      | error e =>
        simp only [hrest] at h
        cases h
      | ok bytes =>
        simp only [hrest] at h
        obtain rfl : byte :: bytes = out := Except.ok.inj h
        have := length_of_decodePairs hrest
        simp only [length_cons]
        omega
  | _, [], out, h => by
    obtain rfl : [] = out := Except.ok.inj h
    rfl
  | _, [_], out, h => by
    obtain rfl : [] = out := Except.ok.inj h
    simp

lemma not_mem_hexText (h : ∀ n, n < 16 → Nat.digitChar n ≠ separator) :
    ∀ bytes, separator ∉ hexText bytes
  | [] => not_mem_nil
  | byte :: bytes => by
    have hlt := byte.toNat_lt
    simp only [hexText, mem_cons, not_or]
    exact ⟨(h _ (by omega)).symm, (h _ (by omega)).symm, not_mem_hexText h bytes⟩

end HawDB
