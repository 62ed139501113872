import Hca.Interface.WireGrammar

set_option autoImplicit false

/-!
# The RLP primitives

Which inputs `decode_bytes`, `decode_uint` and `decode_list` accept: exactly those that
start with a word of the grammar, whose value and length they return. Each step of a
decoder has a lemma that says when it passes; the forms of an item are assembled from them.
-/

namespace Hca.Analysis

open Hca.Library Hca.Model Hca.Program Hca.Interface
open BigEndian (ofBytes toBytes stripZeros Minimal)

variable {t : Target}

/-! ## Length fields -/

/-- The first nonzero byte is where stripping the zeros ends. -/
theorem findIdx?_ne_zero (bytes : List U8) :
    (bytes.findIdx? (· ≠ 0) = none ∧ stripZeros bytes = []) ∨
      ∃ k, bytes.findIdx? (· ≠ 0) = some k ∧ bytes.drop k = stripZeros bytes := by
  induction bytes with
  | nil => exact Or.inl ⟨rfl, rfl⟩
  | cons b bytes ih =>
    by_cases hb : b = 0
    · subst hb
      rw [List.findIdx?_cons, if_neg (by decide), BigEndian.stripZeros_zero_cons]
      rcases ih with ⟨hnone, hnil⟩ | ⟨k, hsome, hdrop⟩
      · rw [hnone]
        exact Or.inl ⟨rfl, hnil⟩
      · rw [hsome]
        exact Or.inr ⟨k + 1, rfl, hdrop⟩
    · rw [List.findIdx?_cons, if_pos (by simpa using hb), BigEndian.stripZeros_cons_of_ne hb]
      exact Or.inr ⟨0, rfl, rfl⟩

/-- Trimming strips the leading zeros, unless all bytes are zero and some of them are kept. -/
theorem trimZeros_eq_stripZeros {bytes : List U8} {otherwise : ℕ}
    (h : stripZeros bytes ≠ [] ∨ otherwise = bytes.length) :
    trimZeros bytes otherwise = stripZeros bytes := by
  unfold trimZeros
  rcases findIdx?_ne_zero bytes with ⟨hnone, hnil⟩ | ⟨k, hsome, hdrop⟩
  · rcases h with hne | rfl
    · exact absurd hnil hne
    · rw [hnone, hnil, Option.getD_none, List.drop_length]
  · rw [hsome, Option.getD_some, hdrop]

/-- The length field of a positive length: the shortest big-endian byte string. -/
theorem encodeLength_eq {len : ℕ} (hpos : 0 < len) (hlt : len < 2 ^ t.bits) :
    encodeLength t len = stripZeros (toBytes t.bytes len) := by
  have hne := BigEndian.stripZeros_toBytes_ne_nil (t.pow_bytes.symm ▸ hlt) hpos
  exact trimZeros_eq_stripZeros (Or.inl hne)

/-- An encoded length is read back. -/
theorem ofBytes_encodeLength {len : ℕ} (hpos : 0 < len) (hlt : len < 2 ^ t.bits) :
    ofBytes (encodeLength t len) = len := by
  rw [encodeLength_eq hpos hlt, BigEndian.ofBytes_stripZeros,
    BigEndian.ofBytes_toBytes (t.pow_bytes.symm ▸ hlt)]

/-- A length takes at most eight bytes. -/
theorem length_encodeLength_le (len : ℕ) : (encodeLength t len).length ≤ 8 := by
  have hwidth : (toBytes t.bytes len).length = t.bytes := BigEndian.length_toBytes _ _
  have hbytes := t.bytes_le
  unfold encodeLength trimZeros
  rw [List.length_drop]
  omega

/-- It takes at least one if it is not zero. -/
theorem encodeLength_ne_nil {len : ℕ} (hpos : 0 < len) (hlt : len < 2 ^ t.bits) :
    encodeLength t len ≠ [] := by
  rw [encodeLength_eq hpos hlt]
  exact BigEndian.stripZeros_toBytes_ne_nil (t.pow_bytes.symm ▸ hlt) hpos

/-- It has no leading zero. -/
theorem minimal_encodeLength {len : ℕ} (hpos : 0 < len) (hlt : len < 2 ^ t.bits) :
    Minimal (encodeLength t len) := by
  rw [encodeLength_eq hpos hlt]
  exact BigEndian.minimal_stripZeros _

/-- A length field without leading zeros that a `usize` can hold is the encoder's. -/
theorem encodeLength_ofBytes {lenBytes : List U8} (hmin : Minimal lenBytes) (hne : lenBytes ≠ [])
    (hlt : ofBytes lenBytes < 2 ^ t.bits) : encodeLength t (ofBytes lenBytes) = lenBytes := by
  have hpow := BigEndian.pow_le_ofBytes hmin hne
  have hpos : 0 < ofBytes lenBytes := lt_of_lt_of_le (by positivity) hpow
  have hwidth : lenBytes.length ≤ t.bytes := by
    by_contra hgt
    have hle : 256 ^ t.bytes ≤ 256 ^ (lenBytes.length - 1) :=
      Nat.pow_le_pow_right (by decide) (by omega)
    rw [t.pow_bytes] at hle
    omega
  rw [encodeLength_eq hpos hlt, BigEndian.stripZeros_toBytes_ofBytes hmin hwidth]

/-- Header bytes are computed without overflow. -/
theorem toNat_header (base : ℕ) {k : ℕ} (h : base + k < 256) :
    (BitVec.ofNat 8 base + BitVec.ofNat 8 k).toNat = base + k := by
  rw [BitVec.toNat_add, BitVec.toNat_ofNat, BitVec.toNat_ofNat]
  omega

/-- A first byte is the base of its form and the size it adds. -/
theorem eq_header (base : ℕ) {k : ℕ} {first : U8} (h : first.toNat = base + k) :
    first = BitVec.ofNat 8 base + BitVec.ofNat 8 k := by
  apply BitVec.eq_of_toNat_eq
  have hlt := first.isLt
  rw [toNat_header base (by omega), h]

/-! ## Steps of the decoders -/

/-- Bytes are copied to the end of an array of zeros, where they fit. -/
theorem copyToEnd_eq_ok {n : ℕ} {bytes buf : List U8} :
    copyToEnd n bytes = .ok buf ↔
      bytes.length ≤ n ∧ buf = List.replicate (n - bytes.length) 0 ++ bytes := by
  unfold copyToEnd
  simp only [bind_eq_ok, sub_eq_ok, sliceFrom_eq_ok, pure_eq_ok]
  constructor
  · rintro ⟨start, ⟨hle, rfl⟩, target, -, copied, hcopy, rfl⟩
    rw [copyFromSlice_eq_ok] at hcopy
    exact ⟨hle, by rw [hcopy]⟩
  · rintro ⟨hle, rfl⟩
    refine ⟨_, ⟨hle, rfl⟩, _, ⟨by rw [List.length_replicate]; omega, rfl⟩,
      ⟨bytes, ?_⟩, copyFromSlice_eq_ok.mpr rfl, rfl⟩
    rw [List.length_drop, List.length_replicate]
    omega

/-- A length is decoded iff it has at most eight bytes and fits a word. -/
theorem decodeUsizeBe_eq_ok {bytes : List U8} {len : ℕ} :
    decodeUsizeBe t bytes = .ok len ↔
      bytes.length ≤ 8 ∧ ofBytes bytes = len ∧ len < 2 ^ t.bits := by
  have hval : ∀ buf, bytes.length ≤ 8 →
      buf = List.replicate (8 - bytes.length) (0 : U8) ++ bytes →
      ofBytes buf = ofBytes bytes ∧ ofBytes bytes < 2 ^ 64 := by
    rintro buf hle rfl
    refine ⟨BigEndian.ofBytes_replicate_zero_append _ _, ?_⟩
    calc ofBytes bytes < 256 ^ bytes.length := BigEndian.ofBytes_lt bytes
      _ ≤ 256 ^ 8 := Nat.pow_le_pow_right (by decide) hle
  unfold decodeUsizeBe
  simp only [bind_eq_ok, rejectIf_eq_ok, okOr_eq_ok, pure_eq_ok, exists_const, copyToEnd_eq_ok,
    tryFrom_eq_some, BitVec.toNat_ofNat]
  constructor
  · rintro ⟨-, buf, ⟨hle, hbuf⟩, x, hx, rfl⟩
    obtain ⟨heq, hlt⟩ := hval buf hle hbuf
    rw [heq, Nat.mod_eq_of_lt hlt] at hx
    exact ⟨hle, hx, x.isLt⟩
  · rintro ⟨hle, rfl, hlt⟩
    obtain ⟨heq, hlt64⟩ := hval _ hle rfl
    refine ⟨by omega, _, ⟨hle, rfl⟩, BitVec.ofNat t.bits (ofBytes bytes), ?_, ?_⟩
    · rw [heq, Nat.mod_eq_of_lt hlt64, BitVec.toNat_ofNat, Nat.mod_eq_of_lt hlt]
    · rw [BitVec.toNat_ofNat, Nat.mod_eq_of_lt hlt]

/-- A short item passes iff the input does not end inside of it. -/
theorem checkShort_eq_ok {item : String} {input : List U8} {len : ℕ} {u : Unit} :
    checkShort t item input len = .ok u ↔ 1 + len < 2 ^ t.bits ∧ 1 + len ≤ input.length := by
  unfold checkShort
  rw [bind_eq_ok]
  constructor
  · rintro ⟨total, hadd, hrest⟩
    obtain ⟨hlt, rfl⟩ := add_eq_ok.mp hadd
    refine ⟨hlt, ?_⟩
    by_contra hshort
    rw [if_pos (by omega), bind_eq_ok] at hrest
    obtain ⟨available, -, herr⟩ := hrest
    cases herr
  · rintro ⟨hlt, hle⟩
    refine ⟨1 + len, add_eq_ok.mpr ⟨hlt, rfl⟩, ?_⟩
    rw [if_neg (by omega)]
    rfl

/-- A single byte below `0x80` must not have a prefix. -/
theorem checkSingleByte_eq_ok {input : List U8} {len : ℕ} {u : Unit} :
    checkSingleByte input len = .ok u ↔ (len = 1 → ∃ b, input[1]? = some b ∧ ¬ b < 0x80) := by
  unfold checkSingleByte
  by_cases hlen : len = 1
  · simp [hlen]
  · simp [hlen]

/-- The payload behind a one-byte header. -/
theorem shortPayload_eq_ok {first : U8} {rest payload : List U8} {len n : ℕ} :
    shortPayload t (first :: rest) len = .ok (payload, n) ↔
      1 + len < 2 ^ t.bits ∧ n = 1 + len ∧ payload.length = len ∧
        ∃ s, rest = payload ++ s := by
  unfold shortPayload
  simp only [bind_eq_ok, add_eq_ok, pure_eq_ok, Prod.mk.injEq]
  constructor
  · rintro ⟨total, ⟨hlt, rfl⟩, p, hslice, rfl, rfl⟩
    obtain ⟨before, s, hsplit, hbefore, hlen⟩ := slice_add_eq_ok.mp hslice
    obtain ⟨b, rfl⟩ := List.length_eq_one_iff.mp hbefore
    rw [List.singleton_append, List.cons.injEq] at hsplit
    exact ⟨hlt, rfl, hlen, s, hsplit.2⟩
  · rintro ⟨hlt, rfl, hlen, s, rfl⟩
    exact ⟨_, ⟨hlt, rfl⟩, payload, slice_add_eq_ok.mpr ⟨[first], s, rfl, rfl, hlen⟩, rfl, rfl⟩

/-- The bytes of a length are those behind the first byte. -/
theorem lengthBytes_eq_ok {item : String} {first : U8} {rest lenBytes : List U8} {k : ℕ} :
    lengthBytes t item (first :: rest) k = .ok lenBytes ↔
      1 + k < 2 ^ t.bits ∧ lenBytes.length = k ∧ ∃ s, rest = lenBytes ++ s := by
  unfold lengthBytes
  simp only [bind_eq_ok, add_eq_ok, rejectIf_eq_ok, exists_const]
  constructor
  · rintro ⟨start, ⟨hlt, rfl⟩, -, hslice⟩
    obtain ⟨before, s, hsplit, hbefore, hlen⟩ := slice_add_eq_ok.mp hslice
    obtain ⟨b, rfl⟩ := List.length_eq_one_iff.mp hbefore
    rw [List.singleton_append, List.cons.injEq] at hsplit
    exact ⟨hlt, hlen, s, hsplit.2⟩
  · rintro ⟨hlt, rfl, s, rfl⟩
    refine ⟨_, ⟨hlt, rfl⟩, ?_, slice_add_eq_ok.mpr ⟨[first], s, rfl, rfl, rfl⟩⟩
    rw [List.length_cons, List.length_append]
    omega

/-- The payload behind a header with a length field. -/
theorem longPayload_eq_ok {item : String} {first : U8} {lenBytes s payload : List U8}
    {len n : ℕ} :
    longPayload t item (first :: (lenBytes ++ s)) lenBytes.length len = .ok (payload, n) ↔
      n < 2 ^ t.bits ∧ n = 1 + lenBytes.length + len ∧ payload.length = len ∧
        ∃ s', s = payload ++ s' := by
  unfold longPayload
  simp only [bind_eq_ok, okOr_eq_ok, Option.bind_eq_some_iff, checkedAdd_eq_some, add_eq_ok,
    rejectIf_eq_ok, exists_const, pure_eq_ok, Prod.mk.injEq]
  constructor
  · rintro ⟨total, ⟨m, ⟨-, rfl⟩, hlt, rfl⟩, -, start, ⟨-, rfl⟩, p, hslice, rfl, rfl⟩
    obtain ⟨before, s', hsplit, hbefore, hlen⟩ := slice_add_eq_ok.mp hslice
    rw [← List.cons_append] at hsplit
    obtain ⟨-, hs⟩ := List.append_inj hsplit (by rw [List.length_cons]; omega)
    exact ⟨hlt, rfl, hlen, s', hs⟩
  · rintro ⟨hlt, rfl, rfl, s', rfl⟩
    refine ⟨_, ⟨_, ⟨by omega, rfl⟩, hlt, rfl⟩, ?_, _, ⟨by omega, rfl⟩, payload,
      slice_add_eq_ok.mpr ⟨first :: lenBytes, s', rfl, ?_, rfl⟩, rfl, rfl⟩
    · rw [List.length_cons, List.length_append, List.length_append]
      omega
    · rw [List.length_cons, Nat.add_comm]

/-! ## Byte strings -/

/-- A single byte below `0x80` is its own encoding. -/
theorem encodeBytes_single {b : U8} (hb : b < 0x80) : encodeBytes t [b] = [b] := if_pos hb

/-- Up to 55 bytes get one byte in front. -/
theorem encodeBytes_short {v : List U8} (hlen : v.length ≤ 55)
    (hv : ∀ b, v = [b] → ¬ b < 0x80) :
    encodeBytes t v = (0x80 + BitVec.ofNat 8 v.length) :: v := by
  match v with
  | [] => rfl
  | [b] => exact if_neg (hv b rfl)
  | b :: c :: v =>
    have hform : encodeBytes t (b :: c :: v) =
        encodeHeader t 0x80 0xb7 (b :: c :: v).length ++ (b :: c :: v) := rfl
    rw [hform, encodeHeader, if_pos hlen, List.singleton_append]

/-- More bytes get their length in front. -/
theorem encodeBytes_long {v : List U8} (hlen : 55 < v.length) :
    encodeBytes t v = (0xb7 + BitVec.ofNat 8 (encodeLength t v.length).length) ::
      (encodeLength t v.length ++ v) := by
  match v with
  | [] => simp at hlen
  | [b] => simp at hlen
  | b :: c :: v =>
    have hform : encodeBytes t (b :: c :: v) =
        encodeHeader t 0x80 0xb7 (b :: c :: v).length ++ (b :: c :: v) := rfl
    rw [hform, encodeHeader, if_neg (by omega), List.cons_append]

/-- The three forms of an encoded byte string. -/
theorem encodeBytes_forms (v : List U8) :
    (∃ b, b < 0x80 ∧ v = [b] ∧ encodeBytes t v = [b]) ∨
    (v.length ≤ 55 ∧ (∀ b, v = [b] → ¬ b < 0x80) ∧
      encodeBytes t v = (0x80 + BitVec.ofNat 8 v.length) :: v) ∨
    (55 < v.length ∧ encodeBytes t v =
      (0xb7 + BitVec.ofNat 8 (encodeLength t v.length).length) ::
        (encodeLength t v.length ++ v)) := by
  by_cases hlen : v.length ≤ 55
  · by_cases hsingle : ∀ b, v = [b] → ¬ b < 0x80
    · exact Or.inr (Or.inl ⟨hlen, hsingle, encodeBytes_short hlen hsingle⟩)
    · simp only [not_forall, not_not] at hsingle
      obtain ⟨b, rfl, hb⟩ := hsingle
      exact Or.inl ⟨b, hb, rfl, encodeBytes_single hb⟩
  · have h55 : 55 < v.length := by omega
    exact Or.inr (Or.inr ⟨h55, encodeBytes_long h55⟩)

/-- The short form is decoded iff its first byte says the length of what follows. -/
theorem decodeShortBytes_eq_ok {first : U8} {rest v : List U8} {n : ℕ}
    (hlo : 0x80 ≤ first.toNat) (hhi : first.toNat ≤ 0xb7) :
    decodeShortBytes t (first :: rest) first = .ok (v, n) ↔
      first.toNat = 0x80 + v.length ∧ n = 1 + v.length ∧ (∀ b, v = [b] → ¬ b < 0x80) ∧
        ∃ s, rest = v ++ s := by
  have hbits := t.pow_bits_ge
  unfold decodeShortBytes
  simp only [bind_eq_ok, sub_eq_ok, checkShort_eq_ok, checkSingleByte_eq_ok, shortPayload_eq_ok,
    exists_const]
  constructor
  · rintro ⟨len, ⟨-, hlen⟩, -, hsingle, -, hn, hv, s, rfl⟩
    refine ⟨by omega, by rw [hn, hv], ?_, s, rfl⟩
    rintro b rfl
    obtain ⟨b', hb', hge⟩ := hsingle (by rw [← hv, List.length_singleton])
    cases hb'
    exact hge
  · rintro ⟨hfirst, rfl, hsingle, s, rfl⟩
    refine ⟨v.length, ⟨hlo, by omega⟩, ⟨by omega, ?_⟩, ?_, by omega, rfl, rfl, s, rfl⟩
    · rw [List.length_cons, List.length_append]
      omega
    · intro hlen
      obtain ⟨b, rfl⟩ := List.length_eq_one_iff.mp hlen
      exact ⟨b, rfl, hsingle b rfl⟩

/-- The long form is decoded iff its length is minimal, above 55 and that of what follows. -/
theorem decodeLongBytes_eq_ok {first : U8} {rest v : List U8} {n : ℕ}
    (hlo : 0xb8 ≤ first.toNat) (hhi : first.toNat ≤ 0xbf) :
    decodeLongBytes t (first :: rest) first = .ok (v, n) ↔
      ∃ lenBytes s, rest = lenBytes ++ (v ++ s) ∧ first.toNat = 0xb7 + lenBytes.length ∧
        Minimal lenBytes ∧ ofBytes lenBytes = v.length ∧ 55 < v.length ∧
        n = 1 + lenBytes.length + v.length ∧ n < 2 ^ t.bits := by
  have hbits := t.pow_bits_ge
  -- the second byte of the item is the first byte of its length field
  have hhead : ∀ (lenBytes s : List U8) (b : U8), lenBytes ≠ [] →
      ((first :: (lenBytes ++ s))[1]? = some b ↔ lenBytes.head? = some b) := by
    intro lenBytes s b hne
    obtain ⟨c, lenBytes, rfl⟩ := List.exists_cons_of_ne_nil hne
    rfl
  unfold decodeLongBytes
  simp only [bind_eq_ok, sub_eq_ok, lengthBytes_eq_ok, index_eq_ok, rejectIf_eq_ok,
    decodeUsizeBe_eq_ok, exists_const]
  constructor
  · rintro ⟨k, ⟨-, rfl⟩, lenBytes, ⟨-, hk, s, rfl⟩, b, hb, hzero, len, ⟨-, hval, hlt⟩, h55,
      hlong⟩
    rw [← hk, longPayload_eq_ok] at hlong
    obtain ⟨hfit, hn, hlen, s', rfl⟩ := hlong
    have hne : lenBytes ≠ [] := List.ne_nil_of_length_pos (by omega)
    rw [hhead lenBytes _ b hne] at hb
    refine ⟨lenBytes, s', rfl, by omega, ?_, by omega, by omega, by omega, hfit⟩
    intro hmin
    rw [hb, Option.some.injEq] at hmin
    exact hzero hmin
  · rintro ⟨lenBytes, s, rfl, hk, hmin, hval, h55, rfl, hfit⟩
    have hne : lenBytes ≠ [] := List.ne_nil_of_length_pos (by omega)
    obtain ⟨b, hb⟩ : ∃ b, lenBytes.head? = some b := by
      obtain ⟨c, lenBytes, rfl⟩ := List.exists_cons_of_ne_nil hne
      exact ⟨c, rfl⟩
    refine ⟨lenBytes.length, ⟨by omega, by omega⟩, lenBytes, ⟨by omega, rfl, _, rfl⟩, b,
      (hhead lenBytes _ b hne).mpr hb, ?_, v.length, ⟨by omega, hval, by omega⟩, by omega, ?_⟩
    · rintro rfl
      exact hmin hb
    · rw [longPayload_eq_ok]
      exact ⟨hfit, rfl, rfl, s, rfl⟩

/-- The first byte of a string decides its form. -/
theorem decodeBytes_cons (first : U8) (rest : List U8) :
    decodeBytes t (first :: rest) =
      if first < 0x80 then .ok ([first], 1)
      else if first ≤ 0xb7 then decodeShortBytes t (first :: rest) first
      else if first ≤ 0xbf then decodeLongBytes t (first :: rest) first
      else decodeError s!"expected byte string, got list prefix 0x{lowerHex first}" := by
  rw [decodeBytes, rejectIf_neg (List.cons_ne_nil _ _)]
  rfl

/-- First bytes from `0x80` to `0xb7` begin the short form. -/
theorem decodeBytes_of_short {first : U8} (rest : List U8) (hlo : 0x80 ≤ first.toNat)
    (hhi : first.toNat ≤ 0xb7) :
    decodeBytes t (first :: rest) = decodeShortBytes t (first :: rest) first := by
  have hsingle : ¬ first < 0x80 := not_lt.mpr hlo
  have hshort : first ≤ 0xb7 := hhi
  rw [decodeBytes_cons, if_neg hsingle, if_pos hshort]

/-- First bytes from `0xb8` to `0xbf` begin the long form. -/
theorem decodeBytes_of_long {first : U8} (rest : List U8) (hlo : 0xb8 ≤ first.toNat)
    (hhi : first.toNat ≤ 0xbf) :
    decodeBytes t (first :: rest) = decodeLongBytes t (first :: rest) first := by
  have hsingle : ¬ first < 0x80 := by bv_omega
  have hshort : ¬ first ≤ 0xb7 := by bv_omega
  have hlong : first ≤ 0xbf := hhi
  rw [decodeBytes_cons, if_neg hsingle, if_neg hshort, if_pos hlong]

/-- What `decode_bytes` accepts starts with the encoding of what it returns. -/
theorem decodeBytes_sound {input v : List U8} {n : ℕ} (h : decodeBytes t input = .ok (v, n)) :
    ∃ s, input = encodeBytes t v ++ s ∧ n = (encodeBytes t v).length ∧ n < 2 ^ t.bits := by
  have hbits := t.pow_bits_ge
  cases input with
  | nil => cases h
  | cons first rest =>
    rw [decodeBytes_cons] at h
    split at h
    case isTrue hsingle =>
      cases h
      rw [encodeBytes_single hsingle]
      exact ⟨rest, rfl, rfl, by omega⟩
    split at h
    case isTrue hsingle hshort =>
      obtain ⟨hfirst, rfl, hv, s, rfl⟩ := (decodeShortBytes_eq_ok (not_lt.mp hsingle) hshort).mp h
      have hhi : first.toNat ≤ 0xb7 := hshort
      have hbyte : first = 0x80 + BitVec.ofNat 8 v.length := eq_header 0x80 hfirst
      rw [encodeBytes_short (by omega) hv, ← hbyte, List.length_cons]
      exact ⟨s, rfl, Nat.add_comm _ _, by omega⟩
    split at h
    case isTrue hshort hlong =>
      have hlo : 0xb8 ≤ first.toNat := by bv_omega
      obtain ⟨lenBytes, s, rfl, hfirst, hmin, hval, h55, rfl, hfit⟩ :=
        (decodeLongBytes_eq_ok hlo hlong).mp h
      have hne : lenBytes ≠ [] := List.ne_nil_of_length_pos (by omega)
      have hfield : encodeLength t v.length = lenBytes := by
        rw [← hval]
        exact encodeLength_ofBytes hmin hne (by omega)
      have hbyte : first = 0xb7 + BitVec.ofNat 8 lenBytes.length := eq_header 0xb7 hfirst
      rw [encodeBytes_long h55, hfield, ← hbyte]
      refine ⟨s, ?_, ?_, hfit⟩
      · rw [List.cons_append, List.append_assoc]
      · simp only [List.length_cons, List.length_append]
        omega
    case isFalse => cases h

/-- `decode_bytes` reads an encoding back, whatever comes behind it. -/
theorem decodeBytes_encodeBytes {v : List U8} (hfit : (encodeBytes t v).length < 2 ^ t.bits)
    (s : List U8) :
    decodeBytes t (encodeBytes t v ++ s) = .ok (v, (encodeBytes t v).length) := by
  rcases encodeBytes_forms (t := t) v with ⟨b, hb, rfl, henc⟩ | ⟨hlen, hv, henc⟩ | ⟨h55, henc⟩
  · rw [henc, List.singleton_append, decodeBytes_cons, if_pos hb]
    rfl
  · have hfirst : (0x80 + BitVec.ofNat 8 v.length : U8).toNat = 0x80 + v.length :=
      toNat_header 0x80 (by omega)
    rw [henc, List.cons_append, decodeBytes_of_short _ (by omega) (by omega),
      decodeShortBytes_eq_ok (by omega) (by omega)]
    exact ⟨hfirst, Nat.add_comm _ _, hv, s, rfl⟩
  · rw [henc] at hfit ⊢
    simp only [List.length_cons, List.length_append] at hfit ⊢
    have hlt : v.length < 2 ^ t.bits := by omega
    have hle := length_encodeLength_le (t := t) v.length
    have hpos : 0 < (encodeLength t v.length).length :=
      List.length_pos_iff.mpr (encodeLength_ne_nil (by omega) hlt)
    have hfirst : (0xb7 + BitVec.ofNat 8 (encodeLength t v.length).length : U8).toNat =
        0xb7 + (encodeLength t v.length).length := toNat_header 0xb7 (by omega)
    rw [List.cons_append, decodeBytes_of_long _ (by omega) (by omega),
      decodeLongBytes_eq_ok (by omega) (by omega)]
    exact ⟨encodeLength t v.length, s, List.append_assoc _ _ _, hfirst,
      minimal_encodeLength (by omega) hlt, ofBytes_encodeLength (by omega) hlt, h55,
      by omega, by omega⟩

/-- `decode_bytes` accepts the encodings of the byte strings. -/
theorem decodeBytes_decodes : Decodes (decodeBytes t) (bytesWord t) := by
  intro input v n
  constructor
  · intro h
    obtain ⟨s, rfl, rfl, hfit⟩ := decodeBytes_sound h
    exact ⟨_, s, rfl, ⟨rfl, hfit⟩, rfl⟩
  · rintro ⟨w, s, rfl, ⟨rfl, hfit⟩, rfl⟩
    exact decodeBytes_encodeBytes hfit s

/-- A short string grows by at most one byte. -/
theorem length_encodeBytes_le {v : List U8} (hlen : v.length ≤ 55) :
    (encodeBytes t v).length ≤ v.length + 1 := by
  rcases encodeBytes_forms (t := t) v with ⟨b, -, rfl, henc⟩ | ⟨-, -, henc⟩ | ⟨h55, -⟩
  · simp [henc]
  · simp [henc]
  · omega

/-- An encoding takes at least one byte, and no less than what it encodes. -/
theorem length_encodeBytes_bounds (v : List U8) :
    1 ≤ (encodeBytes t v).length ∧ v.length ≤ (encodeBytes t v).length := by
  rcases encodeBytes_forms (t := t) v with ⟨b, -, rfl, henc⟩ | ⟨-, -, henc⟩ | ⟨-, henc⟩
  · simp [henc]
  · simp [henc]
  · simp only [henc, List.length_cons, List.length_append]
    omega

/-- An encoding that fits memory is a word of the grammar. -/
theorem encodeBytes_mem_bytesWord {v : List U8} (hfit : (encodeBytes t v).length < 2 ^ t.bits) :
    encodeBytes t v ∈ bytesWord t v := ⟨rfl, hfit⟩

/-- A short encoding always fits. -/
theorem encodeBytes_mem_bytesWord_of_short {v : List U8} (hlen : v.length ≤ 55) :
    encodeBytes t v ∈ bytesWord t v := by
  have hle := length_encodeBytes_le (t := t) hlen
  have hbits := t.pow_bits_ge
  exact ⟨rfl, by omega⟩

/-- No string is encoded as nothing. -/
theorem bytesWord_ne_nil (v : List U8) : [] ∉ bytesWord t v := by
  rintro ⟨hnil, -⟩
  have hpos := (length_encodeBytes_bounds (t := t) v).1
  rw [← hnil, List.length_nil] at hpos
  omega

/-! ## Integers -/

/-- The encoder of integers encodes their big-endian bytes without leading zeros. -/
theorem encodeUint_eq (v : U128) : encodeUint t v = encodeBytes t (stripZeros (toBeBytes v)) := by
  unfold encodeUint
  by_cases hv : v = 0
  · subst hv
    rfl
  · rw [if_neg hv]
    dsimp only
    rw [trimZeros_eq_stripZeros (Or.inr rfl)]
    generalize stripZeros (toBeBytes v) = trimmed
    match trimmed with
    | [] => rfl
    | [b] =>
      by_cases hb : b < 0x80
      · exact (if_pos hb).trans (encodeBytes_single hb).symm
      · exact if_neg hb
    | b :: c :: trimmed => rfl

/-- An integer of 128 bits takes at most 16 bytes. -/
theorem length_stripZeros_toBeBytes_le (v : U128) : (stripZeros (toBeBytes v)).length ≤ 16 := by
  calc (stripZeros (toBeBytes v)).length ≤ (toBeBytes v).length := BigEndian.length_stripZeros_le _
    _ = 16 := BigEndian.length_toBytes _ _

/-- Stripped of its zeros it denotes the same. -/
theorem ofBytes_stripZeros_toBeBytes (v : U128) : ofBytes (stripZeros (toBeBytes v)) = v.toNat := by
  rw [BigEndian.ofBytes_stripZeros]
  exact BigEndian.ofBytes_toBytes v.isLt

/-- The encoding of an integer is a word for it. -/
theorem encodeUint_mem_uintWord (v : U128) : encodeUint t v ∈ uintWord t v.toNat :=
  ⟨stripZeros (toBeBytes v), length_stripZeros_toBeBytes_le v, ofBytes_stripZeros_toBeBytes v,
    encodeUint_eq v⟩

/-- Words denote integers of at most 128 bits. -/
theorem uintWord_lt {n : ℕ} {w : List U8} (hw : w ∈ uintWord t n) : n < 2 ^ 128 := by
  obtain ⟨bytes, hlen, rfl, -⟩ := hw
  calc ofBytes bytes < 256 ^ bytes.length := BigEndian.ofBytes_lt bytes
    _ ≤ 256 ^ 16 := Nat.pow_le_pow_right (by decide) hlen
    _ = 2 ^ 128 := by norm_num

/-- The integer that is read is the value of the bytes. -/
theorem toNat_ofNat_of_uintWord {n : ℕ} {w : List U8} (hw : w ∈ uintWord t n) :
    (BitVec.ofNat 128 n).toNat = n := by
  rw [BitVec.toNat_ofNat, Nat.mod_eq_of_lt (uintWord_lt hw)]

/-- `decode_uint` accepts the encodings of byte strings of at most sixteen bytes. -/
theorem decodeUint_decodes : Decodes (decodeUint t) fun v => uintWord t v.toNat := by
  intro input v n
  have hvalue : ∀ bytes : List U8, bytes.length ≤ 16 →
      (BitVec.ofNat 128 (ofBytes (List.replicate (16 - bytes.length) 0 ++ bytes))).toNat =
        ofBytes bytes := by
    intro bytes hlen
    have hword : encodeBytes t bytes ∈ uintWord t (ofBytes bytes) := ⟨bytes, hlen, rfl, rfl⟩
    rw [BigEndian.ofBytes_replicate_zero_append, toNat_ofNat_of_uintWord hword]
  unfold decodeUint
  rw [bind_eq_ok]
  constructor
  · rintro ⟨⟨bytes, consumed⟩, hbytes, hrest⟩
    simp only [bind_eq_ok, rejectIf_eq_ok, copyToEnd_eq_ok, pure_eq_ok, exists_const,
      Prod.mk.injEq] at hrest
    obtain ⟨-, buf, ⟨hlen, rfl⟩, rfl, rfl⟩ := hrest
    obtain ⟨w, s, rfl, ⟨rfl, -⟩, rfl⟩ := (decodeBytes_decodes _ _ _).mp hbytes
    exact ⟨_, s, rfl, ⟨bytes, hlen, (hvalue bytes hlen).symm, rfl⟩, rfl⟩
  · rintro ⟨w, s, rfl, ⟨bytes, hlen, hv, rfl⟩, rfl⟩
    have hrun := decodeBytes_decodes.eq_ok
      (encodeBytes_mem_bytesWord_of_short (t := t) (hlen.trans (by decide))) s
    have hback : BitVec.ofNat 128
        (ofBytes (List.replicate (16 - bytes.length) 0 ++ bytes)) = v := by
      apply BitVec.eq_of_toNat_eq
      rw [hvalue bytes hlen, hv]
    refine ⟨_, hrun, ?_⟩
    dsimp only
    rw [rejectIf_neg (by omega), ok_bind, copyToEnd_eq_ok.mpr ⟨hlen, rfl⟩, ok_bind, hback]
    rfl

/-! ## Lists -/

/-- A list is a header and its items, one after the other. -/
theorem encodeList_eq (items : List (List U8)) :
    encodeList t items = encodeHeader t 0xc0 0xf7 items.flatten.length ++ items.flatten := by
  rw [encodeList, List.length_flatten]

/-- The encoder's header of a list is one that the decoder takes. -/
theorem listHeader_encodeHeader {len : ℕ} (hlt : len < 2 ^ t.bits) :
    ListHeader (encodeHeader t 0xc0 0xf7 len) len := by
  unfold encodeHeader
  split
  case isTrue hlen => exact Or.inl ⟨hlen, rfl⟩
  case isFalse hlen =>
    have hpos : 0 < len := by omega
    refine Or.inr ⟨encodeLength t len, ?_, length_encodeLength_le len,
      ofBytes_encodeLength hpos hlt, rfl⟩
    exact List.length_pos_iff.mpr (encodeLength_ne_nil hpos hlt)

/-- A list that fits memory is a word of the grammar. -/
theorem encodeList_mem_listWord {items : List (List U8)}
    (hfit : (encodeList t items).length < 2 ^ t.bits) :
    encodeList t items ∈ listWord t items.flatten := by
  refine ⟨_, listHeader_encodeHeader ?_, encodeList_eq items, hfit⟩
  rw [encodeList_eq, List.length_append] at hfit
  omega

/-- The short form is decoded iff its first byte says the length of what follows. -/
theorem decodeShortList_eq_ok {first : U8} {rest v : List U8} {n : ℕ}
    (hlo : 0xc0 ≤ first.toNat) (hhi : first.toNat ≤ 0xf7) :
    decodeShortList t (first :: rest) first = .ok (v, n) ↔
      first.toNat = 0xc0 + v.length ∧ n = 1 + v.length ∧ ∃ s, rest = v ++ s := by
  have hbits := t.pow_bits_ge
  unfold decodeShortList
  simp only [bind_eq_ok, sub_eq_ok, checkShort_eq_ok, shortPayload_eq_ok, exists_const]
  constructor
  · rintro ⟨len, ⟨-, hlen⟩, -, -, hn, hv, s, rfl⟩
    exact ⟨by omega, by rw [hn, hv], s, rfl⟩
  · rintro ⟨hfirst, rfl, s, rfl⟩
    refine ⟨v.length, ⟨hlo, by omega⟩, ⟨by omega, ?_⟩, by omega, rfl, rfl, s, rfl⟩
    rw [List.length_cons, List.length_append]
    omega

/-- The long form is decoded iff its length is that of what follows, minimal or not. -/
theorem decodeLongList_eq_ok {first : U8} {rest v : List U8} {n : ℕ}
    (hlo : 0xf8 ≤ first.toNat) :
    decodeLongList t (first :: rest) first = .ok (v, n) ↔
      ∃ lenBytes s, rest = lenBytes ++ (v ++ s) ∧ first.toNat = 0xf7 + lenBytes.length ∧
        ofBytes lenBytes = v.length ∧ n = 1 + lenBytes.length + v.length ∧ n < 2 ^ t.bits := by
  have hbits := t.pow_bits_ge
  have hfirst := first.isLt
  unfold decodeLongList
  simp only [bind_eq_ok, sub_eq_ok, lengthBytes_eq_ok, decodeUsizeBe_eq_ok]
  constructor
  · rintro ⟨k, ⟨-, rfl⟩, lenBytes, ⟨-, hk, s, rfl⟩, len, ⟨-, hval, hlt⟩, hlong⟩
    rw [← hk, longPayload_eq_ok] at hlong
    obtain ⟨hfit, hn, hlen, s', rfl⟩ := hlong
    exact ⟨lenBytes, s', rfl, by omega, by omega, by omega, hfit⟩
  · rintro ⟨lenBytes, s, rfl, hk, hval, rfl, hfit⟩
    refine ⟨lenBytes.length, ⟨by omega, by omega⟩, lenBytes, ⟨by omega, rfl, _, rfl⟩, v.length,
      ⟨by omega, hval, by omega⟩, ?_⟩
    rw [longPayload_eq_ok]
    exact ⟨hfit, rfl, rfl, s, rfl⟩

/-- The first byte of a list decides its form. -/
theorem decodeList_cons (first : U8) (rest : List U8) :
    decodeList t (first :: rest) =
      if first < 0xc0 then decodeError s!"expected list prefix >= 0xc0, got 0x{lowerHex first}"
      else if first ≤ 0xf7 then decodeShortList t (first :: rest) first
      else decodeLongList t (first :: rest) first := by
  rw [decodeList, rejectIf_neg (List.cons_ne_nil _ _)]
  rfl

/-- First bytes from `0xc0` to `0xf7` begin the short form. -/
theorem decodeList_of_short {first : U8} (rest : List U8) (hlo : 0xc0 ≤ first.toNat)
    (hhi : first.toNat ≤ 0xf7) :
    decodeList t (first :: rest) = decodeShortList t (first :: rest) first := by
  have hlist : ¬ first < 0xc0 := not_lt.mpr hlo
  have hshort : first ≤ 0xf7 := hhi
  rw [decodeList_cons, if_neg hlist, if_pos hshort]

/-- First bytes from `0xf8` on begin the long form. -/
theorem decodeList_of_long {first : U8} (rest : List U8) (hlo : 0xf8 ≤ first.toNat) :
    decodeList t (first :: rest) = decodeLongList t (first :: rest) first := by
  have hlist : ¬ first < 0xc0 := by bv_omega
  have hshort : ¬ first ≤ 0xf7 := by bv_omega
  rw [decodeList_cons, if_neg hlist, if_neg hshort]

/-- What `decode_list` accepts starts with a header of the payload and the payload. -/
theorem decodeList_sound {input v : List U8} {n : ℕ} (h : decodeList t input = .ok (v, n)) :
    ∃ header s, ListHeader header v.length ∧ input = header ++ v ++ s ∧
      n = (header ++ v).length ∧ n < 2 ^ t.bits := by
  have hbits := t.pow_bits_ge
  cases input with
  | nil => cases h
  | cons first rest =>
    rw [decodeList_cons] at h
    split at h
    case isTrue => cases h
    split at h
    case isTrue hlist hshort =>
      obtain ⟨hfirst, rfl, s, rfl⟩ := (decodeShortList_eq_ok (not_lt.mp hlist) hshort).mp h
      have hhi : first.toNat ≤ 0xf7 := hshort
      have hbyte : first = 0xc0 + BitVec.ofNat 8 v.length := eq_header 0xc0 hfirst
      refine ⟨[first], s, Or.inl ⟨by omega, by rw [hbyte]⟩, rfl, ?_, by omega⟩
      rw [List.singleton_append, List.length_cons, Nat.add_comm]
    case isFalse hlist hshort =>
      have hlo : 0xf8 ≤ first.toNat := by bv_omega
      obtain ⟨lenBytes, s, rfl, hfirst, hval, rfl, hfit⟩ := (decodeLongList_eq_ok hlo).mp h
      have hhi := first.isLt
      have hbyte : first = 0xf7 + BitVec.ofNat 8 lenBytes.length := eq_header 0xf7 hfirst
      refine ⟨first :: lenBytes, s, Or.inr ⟨lenBytes, by omega, by omega, hval, ?_⟩, ?_, ?_, hfit⟩
      · rw [← hbyte]
      · rw [List.cons_append, List.cons_append, List.append_assoc]
      · simp only [List.cons_append, List.length_cons, List.length_append]
        omega

/-- `decode_list` reads a payload behind any of its headers. -/
theorem decodeList_header {header v : List U8} (hheader : ListHeader header v.length)
    (hfit : (header ++ v).length < 2 ^ t.bits) (s : List U8) :
    decodeList t (header ++ v ++ s) = .ok (v, (header ++ v).length) := by
  rcases hheader with ⟨hlen, rfl⟩ | ⟨lenBytes, hne, hle, hval, rfl⟩
  · have hfirst : (0xc0 + BitVec.ofNat 8 v.length : U8).toNat = 0xc0 + v.length :=
      toNat_header 0xc0 (by omega)
    rw [List.singleton_append, List.cons_append, decodeList_of_short _ (by omega) (by omega),
      decodeShortList_eq_ok (by omega) (by omega)]
    exact ⟨hfirst, Nat.add_comm _ _, s, rfl⟩
  · have hfirst : (0xf7 + BitVec.ofNat 8 lenBytes.length : U8).toNat =
        0xf7 + lenBytes.length := toNat_header 0xf7 (by omega)
    simp only [List.cons_append, List.length_cons, List.length_append] at hfit ⊢
    rw [decodeList_of_long _ (by omega), decodeLongList_eq_ok (by omega)]
    exact ⟨lenBytes, s, List.append_assoc _ _ _, hfirst, hval, by omega, by omega⟩

/-- `decode_list` accepts a payload behind any of its headers. -/
theorem decodeList_decodes : Decodes (decodeList t) (listWord t) := by
  intro input v n
  constructor
  · intro h
    obtain ⟨header, s, hheader, rfl, rfl, hfit⟩ := decodeList_sound h
    exact ⟨_, s, rfl, ⟨header, hheader, rfl, hfit⟩, rfl⟩
  · rintro ⟨w, s, rfl, ⟨header, hheader, rfl, hfit⟩, rfl⟩
    exact decodeList_header hheader hfit s

/-- The payload of a list that a `usize` can count is read back. -/
theorem decodeList_encodeList {items : List (List U8)}
    (hfit : (encodeList t items).length < 2 ^ t.bits) :
    decodeList t (encodeList t items) = .ok (items.flatten, (encodeList t items).length) := by
  have hrun := decodeList_decodes.eq_ok (encodeList_mem_listWord hfit) []
  rwa [List.append_nil] at hrun

end Hca.Analysis
