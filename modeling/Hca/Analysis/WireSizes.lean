import Hca.Analysis.TransactionRoundTrip
import Hca.Interface.WireSizes

set_option autoImplicit false

/-!
# Sizes of encoded items

The encoders write as many bytes as the sizes on the wire say, for payloads that a `usize`
can count.
-/

namespace Hca.Analysis

open Hca.Library Hca.Model Hca.Program Hca.Interface
open BigEndian (ofBytes stripZeros)

variable {t : Target}

/-- A length takes its own bytes. -/
theorem length_encodeLength {len : ℕ} (hpos : 0 < len) (hlt : len < 2 ^ t.bits) :
    (encodeLength t len).length = byteSize len := by
  rw [BigEndian.length_of_minimal (minimal_encodeLength hpos hlt) (encodeLength_ne_nil hpos hlt),
    ofBytes_encodeLength hpos hlt, byteSize]

/-- A header is as long as the form of its length asks for. -/
theorem length_encodeHeader (short long : U8) {len : ℕ} (hlt : len < 2 ^ t.bits) :
    (encodeHeader t short long len).length = headerSize len := by
  unfold encodeHeader headerSize
  by_cases hlen : len ≤ 55
  · rw [if_pos hlen, if_pos hlen, List.length_singleton]
  · rw [if_neg hlen, if_neg hlen, List.length_cons, length_encodeLength (by omega) hlt,
      Nat.add_comm]

/-- An encoded string has the size of its form. -/
theorem length_encodeBytes {data : List U8} (hlt : data.length < 2 ^ t.bits) :
    (encodeBytes t data).length = bytesSize data := by
  match data with
  | [] => rfl
  | [b] =>
    by_cases hb : b < 0x80
    · rw [encodeBytes_single hb, bytesSize, if_pos hb, List.length_singleton]
    · have hone : ∀ c, [b] = [c] → ¬ c < 0x80 := by
        intro c hc
        cases hc
        exact hb
      rw [encodeBytes_short (by simp) hone, bytesSize, if_neg hb]
      rfl
  | b :: c :: data =>
    have hform : encodeBytes t (b :: c :: data) =
        encodeHeader t 0x80 0xb7 (b :: c :: data).length ++ (b :: c :: data) := rfl
    rw [hform, List.length_append, length_encodeHeader _ _ hlt]
    rfl

/-- So has an encoded list. -/
theorem length_encodeList (items : List (List U8)) (hlt : items.flatten.length < 2 ^ t.bits) :
    (encodeList t items).length = listSize items.flatten.length := by
  rw [encodeList_eq, List.length_append, length_encodeHeader _ _ hlt, listSize]

/-- A string without leading zeros takes as many bytes as the integer it denotes. -/
theorem length_encodeBytes_of_minimal {bytes : List U8} (hmin : BigEndian.Minimal bytes)
    (hlen : bytes.length ≤ 55) : (encodeBytes t bytes).length = uintSize (ofBytes bytes) := by
  match bytes with
  | [] => rfl
  | [b] =>
    have hbits := t.pow_bits_ge
    have hone : ofBytes [b] = b.toNat := by simp [BigEndian.ofBytes_cons]
    rw [length_encodeBytes (by omega), hone, bytesSize, uintSize]
    by_cases hb : b < 0x80
    · have hlt : b.toNat < 0x80 := hb
      rw [if_pos hb, if_pos hlt]
    · have hge : ¬ b.toNat < 0x80 := hb
      rw [if_neg hb, if_neg hge, byteSize, Nat.log_of_lt b.isLt]
  | b :: c :: bytes =>
    have hsize := BigEndian.length_of_minimal hmin (List.cons_ne_nil _ _)
    have hpow := BigEndian.pow_le_ofBytes hmin (List.cons_ne_nil _ _)
    have h256 : 256 ^ 1 ≤ 256 ^ ((b :: c :: bytes).length - 1) :=
      Nat.pow_le_pow_right (by decide) (by simp)
    rw [encodeBytes_short hlen (by simp), List.length_cons, uintSize, if_neg (by omega),
      byteSize, ← hsize, Nat.add_comm]

/-- And an encoded integer. -/
theorem length_encodeUint (v : U128) : (encodeUint t v).length = uintSize v.toNat := by
  have hlen := length_stripZeros_toBeBytes_le v
  rw [encodeUint_eq, length_encodeBytes_of_minimal (BigEndian.minimal_stripZeros _) (by omega),
    ofBytes_stripZeros_toBeBytes]

/-- No string gets shorter. -/
theorem length_le_bytesSize (data : List U8) : data.length ≤ bytesSize data := by
  match data with
  | [] => simp
  | [b] =>
    rw [bytesSize]
    split <;> simp
  | b :: c :: data => exact Nat.le_add_left _ _

/-- Each sibling takes 33 bytes. -/
theorem length_encodeSiblings_flatten (siblings : List Digest) :
    (encodeSiblings t siblings).flatten.length = 33 * siblings.length := by
  induction siblings with
  | nil => rfl
  | cons s siblings ih =>
    have hs : (encodeBytes t s.val).length = 33 := by
      rw [encodeBytes_digest, List.length_cons, s.property]
    have hcons : encodeSiblings t (s :: siblings) =
        encodeBytes t s.val :: encodeSiblings t siblings := rfl
    rw [hcons, List.flatten_cons, List.length_append, hs, ih, List.length_cons]
    omega

/-! ## Witnesses -/

/-- The fields of a witness are the five of them, one after the other. -/
theorem length_fields_flatten (w : HCAWitness t) :
    (HCAWitness.fields t w).flatten.length =
      (encodeUint t (w.leafVersion.setWidth 128)).length + (encodeBytes t w.leafScript).length +
        (encodeUint t (w.merkleProof.leafIndex.setWidth 128)).length +
        (encodeList t (encodeSiblings t w.merkleProof.siblings)).length +
        (encodeBytes t w.witnessData).length := by
  simp only [HCAWitness.fields, encodeSiblings, List.flatten_cons, List.flatten_nil,
    List.length_append, List.length_nil, Nat.add_zero, Nat.add_assoc]

/-- Where each part fits memory, they have the size of the witness payload. -/
theorem length_fields_eq {w : HCAWitness t} (hscript : w.leafScript.length < 2 ^ t.bits)
    (hsiblings : 33 * w.merkleProof.siblings.length < 2 ^ t.bits)
    (hdata : w.witnessData.length < 2 ^ t.bits) :
    (HCAWitness.fields t w).flatten.length = witnessPayloadSize w := by
  have hbits := t.bits_le
  rw [length_fields_flatten, length_encodeUint, length_encodeUint, length_encodeBytes hscript,
    length_encodeBytes hdata, length_encodeList, length_encodeSiblings_flatten,
    BitVec.toNat_setWidth_of_le (by decide), BitVec.toNat_setWidth_of_le (by omega),
    witnessPayloadSize]
  rwa [length_encodeSiblings_flatten]

/-- Each part is no longer than the payload. -/
theorem parts_le_witnessPayloadSize (w : HCAWitness t) :
    w.leafScript.length ≤ witnessPayloadSize w ∧
      33 * w.merkleProof.siblings.length ≤ witnessPayloadSize w ∧
      w.witnessData.length ≤ witnessPayloadSize w := by
  have hscript := length_le_bytesSize w.leafScript
  have hdata := length_le_bytesSize w.witnessData
  unfold witnessPayloadSize listSize
  omega

/-- Whether the list of the fields fits is decided by the sizes alone: a part that a `usize`
could not count would not fit either. -/
theorem length_encodeList_fields_le_iff (w : HCAWitness t) :
    (encodeList t (HCAWitness.fields t w)).length ≤ maxWitnessSize ↔
      witnessSize w ≤ maxWitnessSize := by
  have hbits := t.pow_bits_ge
  have hmax : maxWitnessSize < 2 ^ 32 := by decide
  constructor
  · intro hle
    have hflat : (HCAWitness.fields t w).flatten.length ≤ maxWitnessSize := by
      rw [encodeList_eq, List.length_append] at hle
      omega
    have hparts := length_fields_flatten w
    have hscript := (length_encodeBytes_bounds (t := t) w.leafScript).2
    have hdata := (length_encodeBytes_bounds (t := t) w.witnessData).2
    have hsiblings : 33 * w.merkleProof.siblings.length ≤
        (encodeList t (encodeSiblings t w.merkleProof.siblings)).length := by
      rw [encodeList_eq, List.length_append, length_encodeSiblings_flatten]
      exact Nat.le_add_left _ _
    have heq := length_fields_eq (w := w) (by omega) (by omega) (by omega)
    rwa [length_encodeList _ (by omega), heq] at hle
  · intro hle
    have hparts : witnessPayloadSize w ≤ maxWitnessSize := by
      unfold witnessSize listSize at hle
      omega
    obtain ⟨hscript, hsiblings, hdata⟩ := parts_le_witnessPayloadSize w
    have heq := length_fields_eq (w := w) (by omega) (by omega) (by omega)
    rwa [length_encodeList _ (by omega), heq]

end Hca.Analysis
