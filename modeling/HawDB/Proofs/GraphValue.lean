import HawDB.GraphValue
import HawDB.Proofs.Temporal

/-!
# Scalars and the bytes that stand for them

Each kind of scalar is given back by the bytes that stand for it, and bytes that are read as a
scalar are the bytes of that scalar. Only a temporal value may be lost (`Scalar.Restorable`).
-/

namespace HawDB

open List

/-! ## Vectors -/

lemma GraphVector.fromEncoded_eq_ok {encoded : Bytes} {v : GraphVector} :
    fromEncoded encoded = .ok v ↔ encoded = v.encoded := by
  unfold fromEncoded
  split
  · next h =>
    rw [Except.ok.injEq]
    exact ⟨fun hv => hv ▸ rfl, fun hv => by cases v; subst hv; rfl⟩
  next reason h =>
  refine ⟨nofun, ?_⟩
  rintro rfl
  cases h.symm.trans v.valid

/-! ## Decimals -/

namespace Decimal

lemma new_eq_ok {coefficient : ℤ} {scale : ℕ} {d : Decimal} :
    new coefficient scale = .ok d ↔ coefficient = d.coefficient ∧ scale = d.scale := by
  unfold new
  split_ifs with h
  · rw [Except.ok.injEq]
    refine ⟨fun hd => hd ▸ ⟨rfl, rfl⟩, ?_⟩
    rintro ⟨rfl, rfl⟩
    rfl
  · refine ⟨nofun, ?_⟩
    rintro ⟨rfl, rfl⟩
    exact absurd ⟨d.coefficient_le, d.scale_le⟩ h

lemma length_toLeBytes (d : Decimal) : d.toLeBytes.length = encodedLen := by
  simp [toLeBytes, encodedLen]

lemma fromLeBytes_eq_ok {bytes : Bytes} (hlength : bytes.length = encodedLen) {d : Decimal} :
    fromLeBytes bytes = .ok d ↔ bytes = d.toLeBytes := by
  have hcoefficient := d.coefficient_le
  have hscale := d.scale_le
  have htake : (bytes.take 16).length = 16 := by
    rw [length_take, hlength]
    rfl
  have hdrop : (bytes.drop 16).length = 1 := by
    rw [length_drop, hlength]
    rfl
  obtain ⟨byte, hbyte⟩ := length_eq_one_iff.1 hdrop
  have hnat : leNat [byte] = byte.toNat := by simp [leNat, beNat, beValue]
  have hok : fromLeBytes bytes = .ok d ↔ new (leInt (bytes.take 16)) (leNat (bytes.drop 16)) = .ok d := by
    unfold fromLeBytes
    cases new (leInt (bytes.take 16)) (leNat (bytes.drop 16)) <;> simp
  rw [hok, new_eq_ok, hbyte, hnat]
  constructor
  · rintro ⟨hc, hs⟩
    rw [toLeBytes, ← hc, ← hs, leIntBytes_leInt _ htake, UInt8.ofNat_toNat, ← hbyte,
      take_append_drop]
  · intro h
    rw [h, toLeBytes, drop_left' (by simp)] at hbyte
    have hs : byte = UInt8.ofNat d.scale := (cons.inj hbyte).1.symm
    have htake : bytes.take 16 = leIntBytes 16 d.coefficient := by
      rw [h, toLeBytes, take_left' (by simp)]
    refine ⟨?_, ?_⟩
    · rw [htake, leInt_leIntBytes (by omega) (by omega)]
    · rw [hs, UInt8.toNat_ofNat']
      omega

end Decimal

/-! ## Temporal values -/

lemma TemporalValue.decodePayload_eq_ok {kind : TemporalValueKind}
    {value : TemporalValue} : TemporalCodec.decodePayload kind bytes = .ok value ↔
      value.kind = kind ∧ bytes = TemporalCodec.encodePayload value ∧ value.Restorable := by
  constructor
  · intro h
    obtain ⟨rfl, rfl⟩ := TemporalCodec.encodePayload_of_decodePayload h
    exact ⟨rfl, rfl, (TemporalCodec.decodePayload_encodePayload value).1 h⟩
  · rintro ⟨rfl, rfl, h⟩
    exact (TemporalCodec.decodePayload_encodePayload value).2 h

end HawDB
