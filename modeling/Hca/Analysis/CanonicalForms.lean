import Hca.Analysis.DecoderSafety

set_option autoImplicit false

/-!
# Canonical forms of the RLP items

The encoders and the decoders are inverse to each other in one direction: what an encoder
writes is read back, and a part of it is not read at all. In the other direction, a byte
string is accepted in the encoder's form only. A list is not, since the length field of its
long form is not checked, nor is an integer, since its leading zero bytes are not.
-/

namespace Hca.Analysis

open Hca.Library Hca.Model Hca.Program Hca.Interface
open BigEndian (ofBytes toBytes stripZeros Minimal)

variable {t : Target}

/-! ## What the encoders write -/

/-- The header bytes are sums without a carry: the short form adds the length of the payload
to its prefix, the long form the length of the length field. -/
theorem encodeHeader_eq_cons {short long : U8} (hshort : short.toNat + 55 < 256)
    (hlong : long.toNat + 8 < 256) (len : ℕ) :
    ∃ first lenBytes, encodeHeader t short long len = first :: lenBytes ∧
      first.toNat = if len ≤ 55 then short.toNat + len else long.toNat + lenBytes.length := by
  unfold encodeHeader
  by_cases hlen : len ≤ 55
  · refine ⟨_, [], if_pos hlen, ?_⟩
    rw [if_pos hlen, BitVec.toNat_add, BitVec.toNat_ofNat]
    omega
  · have hfield := length_encodeLength_le (t := t) len
    refine ⟨_, encodeLength t len, if_neg hlen, ?_⟩
    rw [if_neg hlen, BitVec.toNat_add, BitVec.toNat_ofNat]
    omega

/-- A header is a byte and at most the eight bytes of a length. -/
theorem length_encodeHeader_le_nine (short long : U8) (len : ℕ) :
    (encodeHeader t short long len).length ≤ 9 := by
  unfold encodeHeader
  split
  case isTrue => simp
  case isFalse =>
    have hfield := length_encodeLength_le (t := t) len
    rw [List.length_cons]
    omega

/-- The encoding of a byte string that a slice can hold is counted by a `usize`. -/
theorem encodeBytes_mem_bytesWord_of_le {d : List U8} (hlen : d.length ≤ t.isizeMax) :
    encodeBytes t d ∈ bytesWord t d := by
  have hmax := t.isizeMax_succ
  have hbits := t.pow_bits_ge
  apply encodeBytes_mem_bytesWord
  rcases encodeBytes_forms (t := t) d with ⟨b, -, rfl, henc⟩ | ⟨-, -, henc⟩ | ⟨-, henc⟩
  · rw [henc, List.length_singleton]
    omega
  · rw [henc, List.length_cons]
    omega
  · have hfield := length_encodeLength_le (t := t) d.length
    rw [henc, List.length_cons, List.length_append]
    omega

/-- Where the items fit memory, their list is a word of the grammar. -/
theorem encodeList_mem_listWord_of_le {items : List (List U8)}
    (hlen : items.flatten.length ≤ t.isizeMax) :
    encodeList t items ∈ listWord t items.flatten := by
  have hmax := t.isizeMax_succ
  have hbits := t.pow_bits_ge
  have hheader := length_encodeHeader_le_nine (t := t) 0xc0 0xf7 items.flatten.length
  apply encodeList_mem_listWord
  rw [encodeList_eq, List.length_append]
  omega

/-- The primitives are self-delimiting codes: what is encoded is decoded from any input that
starts with it, a truncated encoding is an error, and no header byte overflows.
SOURCE: rlp.rs:34-131, rlp.rs:202-349 -/
theorem primitives_readBack (t : Target) :
    (∀ v, ReadsBack (decodeUint t) v (encodeUint t v)) ∧
    (∀ d, d.length ≤ t.isizeMax → ReadsBack (decodeBytes t) d (encodeBytes t d)) ∧
    (∀ items, items.flatten.length ≤ t.isizeMax →
      ReadsBack (decodeList t) items.flatten (encodeList t items)) ∧
    ∀ len,
      (∃ first lenBytes, encodeHeader t 0x80 0xb7 len = first :: lenBytes ∧
        first.toNat = if len ≤ 55 then 0x80 + len else 0xb7 + lenBytes.length) ∧
      ∃ first lenBytes, encodeHeader t 0xc0 0xf7 len = first :: lenBytes ∧
        first.toNat = if len ≤ 55 then 0xc0 + len else 0xf7 + lenBytes.length := by
  refine ⟨fun v => ?_, fun d hlen => ?_, fun items hlen => ?_, fun len => ⟨?_, ?_⟩⟩
  · exact decodeUint_decodes.readsBack returns_decodeUint (encodeUint_mem_uintWord v)
  · exact decodeBytes_decodes.readsBack returns_decodeBytes (encodeBytes_mem_bytesWord_of_le hlen)
  · exact decodeList_decodes.readsBack returns_decodeList (encodeList_mem_listWord_of_le hlen)
  · exact encodeHeader_eq_cons (by decide) (by decide) len
  · exact encodeHeader_eq_cons (by decide) (by decide) len

/-! ## Byte strings -/

/-- Byte strings are accepted in the encoder's form only, so a string has one accepted form;
and an input is accepted iff it starts with an encoding.
SOURCE: rlp.rs:68-95, rlp.rs:202-273 -/
theorem decodeBytes_canonical (t : Target) (input : List U8) :
    CanonicalAt (decodeBytes t) (encodeBytes t) input ∧
    (∀ v n input' n', decodeBytes t input = .ok (v, n) → decodeBytes t input' = .ok (v, n') →
      input.take n = input'.take n') ∧
    (input.length ≤ t.isizeMax →
      ((∃ v n, decodeBytes t input = .ok (v, n)) ↔ ∃ d, encodeBytes t d <+: input)) := by
  have hcanon : ∀ input', CanonicalAt (decodeBytes t) (encodeBytes t) input' := by
    intro input'
    rw [decodeBytes_decodes.canonicalAt_iff]
    rintro v w s - ⟨rfl, -⟩
    rfl
  refine ⟨hcanon input, ?_, ?_⟩
  · intro v n input' n' hrun hrun'
    rw [hcanon input v n hrun, hcanon input' v n' hrun']
  · intro hlen
    constructor
    · rintro ⟨v, n, hrun⟩
      obtain ⟨s, rfl, -⟩ := decodeBytes_sound hrun
      exact ⟨v, s, rfl⟩
    · rintro ⟨d, s, rfl⟩
      have hlt := t.isizeMax_lt
      rw [List.length_append] at hlen
      exact ⟨d, _, decodeBytes_encodeBytes (by omega) s⟩

/-! ## Lists -/

/-- A payload that is encoded as one item gets a list header. -/
theorem encodeList_singleton (payload : List U8) :
    encodeList t [payload] = encodeHeader t 0xc0 0xf7 payload.length ++ payload := by
  rw [encodeList_eq, List.flatten_singleton]

/-- A header of the long form is the encoder's iff its length field has no leading zero and
its length does not fit the short form. -/
theorem longHeader_eq_iff {lenBytes : List U8} (hpos : 1 ≤ lenBytes.length)
    (hfit : ofBytes lenBytes < 2 ^ t.bits) :
    (0xf7 + BitVec.ofNat 8 lenBytes.length) :: lenBytes =
        encodeHeader t 0xc0 0xf7 (ofBytes lenBytes) ↔
      Minimal lenBytes ∧ 55 < ofBytes lenBytes := by
  unfold encodeHeader
  by_cases h55 : ofBytes lenBytes ≤ 55
  · rw [if_pos h55]
    constructor
    · intro heq
      have hnil : lenBytes = [] := (List.cons.inj heq).2
      rw [hnil, List.length_nil] at hpos
      omega
    · rintro ⟨-, hgt⟩
      omega
  · rw [if_neg h55]
    have hgt : 55 < ofBytes lenBytes := not_le.mp h55
    constructor
    · intro heq
      have hfield : lenBytes = encodeLength t (ofBytes lenBytes) := (List.cons.inj heq).2
      rw [hfield]
      exact ⟨minimal_encodeLength (by omega) hfit, by rwa [← hfield]⟩
    · rintro ⟨hmin, -⟩
      rw [encodeLength_ofBytes hmin (List.ne_nil_of_length_pos (by omega)) hfit]

/-- A list is accepted in the encoder's form only, unless the length field of its long form
has a leading zero byte or fits the short form.
SOURCE: rlp.rs:108-131, rlp.rs:303-349 -/
theorem decodeList_canonical_iff (t : Target) (input : List U8) :
    CanonicalAt (decodeList t) (fun payload => encodeList t [payload]) input ↔
      ¬ NonCanonicalList t input := by
  rw [decodeList_decodes.canonicalAt_iff]
  simp only [encodeList_singleton]
  constructor
  · rintro hcanon ⟨lenBytes, payload, s, rfl, hpos, hle, hlen, hfit, hform⟩
    have hheader := hcanon payload _ s rfl
      ⟨_, Or.inr ⟨lenBytes, hpos, hle, hlen, rfl⟩, rfl, by
        simp only [List.cons_append, List.length_cons, List.length_append]
        omega⟩
    have heq := List.append_cancel_right hheader
    rw [← hlen, longHeader_eq_iff hpos (by omega)] at heq
    obtain ⟨hmin, hgt⟩ := heq
    rcases hform with hzero | hshort
    · exact hmin hzero
    · omega
  · rintro hnot v w s rfl ⟨header, hheader, rfl, hfit⟩
    rcases hheader with ⟨h55, rfl⟩ | ⟨lenBytes, hpos, hle, hlen, rfl⟩
    · rw [encodeHeader, if_pos h55]
    · rw [List.length_append, List.length_cons] at hfit
      rw [← hlen, ← (longHeader_eq_iff hpos (by omega)).mpr]
      by_contra hform
      apply hnot
      refine ⟨lenBytes, v, s, rfl, hpos, hle, hlen, by omega, ?_⟩
      by_cases hzero : lenBytes.head? = some 0x00
      · exact Or.inl hzero
      · exact Or.inr (not_lt.mp fun hgt => hform ⟨hzero, hlen ▸ hgt⟩)

/-- An empty list in the long form is accepted. -/
theorem empty_long_list_accepted :
    decodeList .usize64 [0xf8, 0x00] = .ok ([], 2) ∧
      [0xf8, 0x00] ≠ encodeList .usize64 [[]] := by
  constructor
  · have hheader : ListHeader [0xf8, 0x00] ([] : List U8).length :=
      Or.inr ⟨[0x00], by decide, by decide, rfl, rfl⟩
    exact decodeList_header hheader (by decide) []
  · decide

/-! ## Integers -/

/-- An integer is padded iff it starts like a string of at most 16 bytes whose first byte is
zero. -/
theorem paddedUint_iff (t : Target) {input : List U8} :
    PaddedUint input ↔
      ∃ bytes s, bytes.length ≤ 15 ∧ input = encodeBytes t (0x00 :: bytes) ++ s := by
  constructor
  · rintro (s | ⟨bytes, s, hpos, hle⟩)
    · exact ⟨[], s, by simp, rfl⟩
    · refine ⟨bytes, s, hle, ?_⟩
      rw [encodeBytes_short]
      · rfl
      · rw [List.length_cons]
        omega
      · rintro b heq
        rw [(List.cons.inj heq).2, List.length_nil] at hpos
        omega
  · rintro ⟨bytes, s, hle, rfl⟩
    rcases bytes with _ | ⟨b, bytes⟩
    · exact .zero s
    · rw [encodeBytes_short]
      · exact .leading (b :: bytes) s (by simp) hle
      · rw [List.length_cons]
        omega
      · rintro c heq
        cases heq

/-- An integer is accepted in the encoder's form only, unless it has a leading zero byte.
SOURCE: rlp.rs:34-50, rlp.rs:282-293 -/
theorem decodeUint_canonical_iff (t : Target) (input : List U8) :
    CanonicalAt (decodeUint t) (encodeUint t) input ↔ ¬ PaddedUint input := by
  rw [decodeUint_decodes.canonicalAt_iff, paddedUint_iff t]
  simp only [encodeUint_eq]
  constructor
  · rintro hcanon ⟨bytes, s, hle, rfl⟩
    have hlen : (0x00 :: bytes : List U8).length ≤ 16 := by
      rw [List.length_cons]
      omega
    have hword : encodeBytes t (0x00 :: bytes) ∈ uintWord t (ofBytes (0x00 :: bytes)) :=
      ⟨_, hlen, rfl, rfl⟩
    have hv := toNat_ofNat_of_uintWord hword
    have henc := hcanon (BitVec.ofNat 128 (ofBytes (0x00 :: bytes))) _ s rfl (hv.symm ▸ hword)
    -- one encoding of two strings: the padded one would be without leading zeros
    have hbytes : encodeBytes t (0x00 :: bytes) ∈ bytesWord t (0x00 :: bytes) :=
      encodeBytes_mem_bytesWord_of_short (hlen.trans (by decide))
    have heq := decodeBytes_decodes.value_unique hbytes ⟨henc, hbytes.2⟩
    have hmin := BigEndian.minimal_stripZeros
      (toBeBytes (BitVec.ofNat 128 (ofBytes (0x00 :: bytes))))
    rw [← heq] at hmin
    exact hmin rfl
  · rintro hnot v w s rfl ⟨bytes, hle, hv, rfl⟩
    have hmin : Minimal bytes := by
      intro hzero
      obtain ⟨rest, rfl⟩ := List.head?_eq_some_iff.mp hzero
      exact hnot ⟨rest, s, by rw [List.length_cons] at hle; omega, rfl⟩
    have hbytes : toBeBytes v = toBytes 16 (ofBytes bytes) := by
      rw [hv]
      rfl
    rw [hbytes, BigEndian.stripZeros_toBytes_ofBytes hmin hle]

/-- A zero and a one with leading zero bytes are accepted. -/
theorem padded_uints_accepted :
    (decodeUint .usize64 [0x00] = .ok (0, 1) ∧ [0x00] ≠ encodeUint .usize64 0) ∧
      (decodeUint .usize64 [0x82, 0x00, 0x01] = .ok (1, 3) ∧
        [0x82, 0x00, 0x01] ≠ encodeUint .usize64 1) := by
  refine ⟨⟨?_, by decide⟩, ?_, by decide⟩
  · exact decodeUint_decodes.eq_ok (w := [0x00]) ⟨[0x00], by decide, rfl, rfl⟩ []
  · exact decodeUint_decodes.eq_ok (w := [0x82, 0x00, 0x01]) ⟨[0x00, 0x01], by decide, rfl, rfl⟩ []

end Hca.Analysis
