import Hca.Analysis.Spends
import Hca.Analysis.WireMalleability
import Hca.Analysis.WireSizes
import Hca.Library.WordLengths

set_option autoImplicit false

/-!
# Encoding what was decoded

A transaction has many words: integers may be padded, lists may have longer headers than they
need, the access list may have items, and anything may follow. The encoder writes none that
is longer than another. What was decoded is encoded to a word that is not longer than the one
it came from, and therefore one that is decoded again.
-/

namespace Hca.Analysis

open Hca.Library Hca.Model Hca.Program Hca.Interface
open BigEndian (ofBytes stripZeros)

variable {t : Target}

/-! ## Integers -/

/-- Leading zeros do not make an integer shorter. -/
theorem uintSize_le_length {bytes : List U8} (hlen : bytes.length ≤ 16) :
    uintSize (ofBytes bytes) ≤ (encodeBytes t bytes).length := by
  have hmin := length_encodeBytes_of_minimal (t := t) (BigEndian.minimal_stripZeros bytes)
    ((BigEndian.length_stripZeros_le bytes).trans (by omega))
  rw [BigEndian.ofBytes_stripZeros] at hmin
  rw [← hmin]
  obtain ⟨k, hk⟩ := BigEndian.exists_replicate_append_stripZeros bytes
  have hsum := congrArg List.length hk
  rw [List.length_append, List.length_replicate] at hsum
  by_cases hzero : k = 0
  · rw [hzero, List.replicate_zero, List.nil_append] at hk
    rw [← hk]
  · have hstripped := length_encodeBytes_le (t := t) (v := stripZeros bytes) (by omega)
    have hbytes := (length_encodeBytes_bounds (t := t) bytes).2
    omega

/-- No word for an integer is shorter than its encoding: padding only adds bytes. -/
theorem uintWord_notShorter (v : U128) :
    NotShorter (encodeUint t v).length (uintWord t v.toNat) := by
  rintro w ⟨bytes, hlen, hvalue, rfl⟩
  rw [length_encodeUint, ← hvalue]
  exact uintSize_le_length hlen

/-- This holds for the integers of narrower fields too. -/
theorem narrowWord_notShorter {n : ℕ} (hn : n ≤ 128) (x : BitVec n) :
    NotShorter (encodeUint t (x.setWidth 128)).length (uintWord t x.toNat) := by
  have hword := uintWord_notShorter (t := t) (x.setWidth 128)
  rwa [BitVec.toNat_setWidth_of_le hn] at hword

/-- A string has no other word. -/
theorem bytesWord_notShorter (data : List U8) :
    NotShorter (encodeBytes t data).length (bytesWord t data) := by
  rintro w ⟨rfl, -⟩
  exact le_rfl

/-! ## Lists -/

/-- Larger integers take at least as many bytes. -/
theorem byteSize_mono {m n : ℕ} (h : m ≤ n) : byteSize m ≤ byteSize n :=
  Nat.add_le_add_right (Nat.log_mono_right h) 1

/-- Longer payloads make longer lists. -/
theorem listSize_mono {m n : ℕ} (h : m ≤ n) : listSize m ≤ listSize n := by
  have hbytes := byteSize_mono h
  unfold listSize headerSize
  split <;> split <;> omega

/-- No header that states a length is shorter than the one that is written for it. -/
theorem headerSize_le_length {header : List U8} {len : ℕ} (h : ListHeader header len) :
    headerSize len ≤ header.length := by
  unfold headerSize
  rcases h with ⟨hshort, rfl⟩ | ⟨lenBytes, hpos, -, hlen, rfl⟩
  · rw [if_pos hshort, List.length_singleton]
  · rw [List.length_cons]
    split
    · omega
    · have hlog : byteSize len ≤ lenBytes.length :=
        Nat.log_lt_of_lt_pow (by omega) (hlen ▸ BigEndian.ofBytes_lt lenBytes)
      omega

/-- No word for a payload is shorter than the list with the least header. -/
theorem listWord_notShorter {payload : List U8} {n : ℕ} (hn : n ≤ payload.length) :
    NotShorter (listSize n) (listWord t payload) := by
  rintro w ⟨header, hheader, rfl, -⟩
  have hheader' := headerSize_le_length hheader
  have hmono := listSize_mono hn
  unfold listSize at hmono ⊢
  rw [List.length_append]
  omega

/-- No list is shorter than the empty one. -/
theorem anyListWord_notShorter : NotShorter (encodeList t []).length (anyListWord t) := by
  rintro w ⟨payload, hw⟩
  have hlen := listWord_notShorter (Nat.zero_le _) w hw
  exact hlen

/-- No word for siblings is shorter than their encoding. -/
theorem siblingsWord_notShorter (siblings : List Digest) :
    NotShorter (encodeList t (encodeSiblings t siblings)).length (siblingsWord t siblings) := by
  rintro w ⟨payload, hpayload, hw⟩
  obtain rfl := eq_of_mem_siblingsPayload hpayload
  rw [length_encodeList _ (listWord_length hw)]
  exact listWord_notShorter le_rfl w hw

/-! ## Transactions -/

/-- No payload of a transaction is shorter than the encoded one. -/
theorem payload_notShorter (tx : TxMessage) (w : HCAWitness t) :
    NotShorter (hcaTxFields t tx w).flatten.length (transactionWord t tx * witnessWord t w) := by
  have hbits : t.bits ≤ 128 := t.bits_le.trans (by decide)
  rw [hcaTxFields_flatten, txPayload]
  simp only [List.length_append]
  apply NotShorter.mul
  · refine (narrowWord_notShorter (by decide) _).mul ?_
    refine (narrowWord_notShorter (by decide) _).mul ?_
    refine (bytesWord_notShorter _).mul ?_
    refine (bytesWord_notShorter _).mul ?_
    refine (uintWord_notShorter _).mul ?_
    refine (narrowWord_notShorter (by decide) _).mul ?_
    refine (uintWord_notShorter _).mul ?_
    refine (uintWord_notShorter _).mul ?_
    exact anyListWord_notShorter.mul (bytesWord_notShorter _)
  · refine (narrowWord_notShorter (by decide) _).mul ?_
    refine (bytesWord_notShorter _).mul ?_
    refine (narrowWord_notShorter hbits _).mul ?_
    exact (siblingsWord_notShorter _).mul (bytesWord_notShorter _)

/-- What was decoded and is signed can be encoded again; the encoding is not longer than what
was decoded, and decodes to the same transaction and witness. No size has to be assumed.
SOURCE: rlp.rs:146-191, rlp.rs:362-503 -/
theorem reencoding_never_grows {raw : List U8} {tx : TxMessage} {w : HCAWitness t}
    (h : decodeHcaTx t raw = .ok (tx, w)) (hsigned : w.isSigned = true) :
    ∃ raw', encodeHcaTx t tx w = .ok raw' ∧ raw'.length ≤ raw.length ∧
      decodeHcaTx t raw' = .ok (tx, w) := by
  obtain ⟨core, s, rfl, ⟨leaf, hleaf⟩, payload, hpayload, list, hlist, rfl⟩ :=
    decodeHcaTx_eq_ok.mp h
  have hfields := payload_notShorter tx w payload hpayload
  have hlength : (encodeList t (hcaTxFields t tx w)).length ≤ list.length := by
    rw [length_encodeList _ (hfields.trans_lt (listWord_length hlist))]
    exact listWord_notShorter hfields list hlist
  have hfit : list.length < 2 ^ t.bits := by
    obtain ⟨-, -, -, hfit⟩ := hlist
    exact hfit
  refine ⟨_, encodeHcaTx_eq_ok.mpr ⟨hsigned, rfl⟩, ?_,
    decodeHcaTx_hcaTxFields hleaf (hlength.trans_lt hfit)⟩
  rw [List.length_cons, List.cons_append, List.length_cons, List.length_append]
  omega

/-- A transaction with a trailing byte is re-encoded without it. -/
theorem reencoding_never_grows_sample :
    ∃ raw', encodeHcaTx .usize64 sampleTx (lastLeafWitness [0x01]) = .ok raw' ∧
      raw'.length ≤ (lastLeafRaw [0x01] ++ [0x00]).length ∧
      decodeHcaTx .usize64 raw' = .ok (sampleTx, lastLeafWitness [0x01]) := by
  have hspends := spends_lastLeafRaw (b := 0x01) (by decide)
  exact reencoding_never_grows (decodeHcaTx_append hspends.decoded [0x00]) rfl

end Hca.Analysis
