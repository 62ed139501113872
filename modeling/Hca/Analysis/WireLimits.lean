import Hca.Analysis.WireSizes
import Hca.Analysis.LeafAdmission

set_option autoImplicit false

/-!
# Limits of decoded witnesses

The decoder gives every leaf to `Leaf::new`, and bounds nothing else: a witness without a
signature, with more siblings than a tree has levels, or too large to be encoded is
accepted. What is left of the other limits is said of the decoded witness: up to 32
siblings are verified, and a signed witness with that many and 39882 bytes of signature is
encoded, whatever its script is.
-/

namespace Hca.Analysis

open Hca.Library Hca.Model Hca.Program Hca.Interface
open BigEndian (ofBytes toBytes stripZeros)

variable {t : Target}

/-! ## Encoded sizes -/

/-- A number below `256 ^ k` takes at most `k` bytes. -/
theorem byteSize_le {n k : ℕ} (hpos : 0 < n) (hk : n < 256 ^ k) : byteSize n ≤ k :=
  Nat.log_lt_of_lt_pow hpos.ne' hk

/-- A header has the bytes of its length and one more. -/
theorem headerSize_le {len k : ℕ} (hk : len < 256 ^ k) : headerSize len ≤ k + 1 := by
  unfold headerSize
  split
  case isTrue hlen => exact Nat.le_add_left 1 k
  case isFalse hlen =>
    have hle := byteSize_le (by omega) hk
    omega

/-- A string grows by no more than its header. -/
theorem bytesSize_le {data : List U8} {k : ℕ} (hk : data.length < 256 ^ k) :
    bytesSize data ≤ data.length + (k + 1) := by
  match data with
  | [] => simp [bytesSize, headerSize]
  | [b] =>
    rw [bytesSize, List.length_singleton]
    split <;> omega
  | b :: c :: data =>
    have hle := headerSize_le hk
    show headerSize (b :: c :: data).length + (b :: c :: data).length ≤ _
    omega

/-- An integer takes its bytes and at most one more. -/
theorem uintSize_le {n k : ℕ} (hk : n < 256 ^ k) : uintSize n ≤ k + 1 := by
  unfold uintSize
  split
  case isTrue hn => exact Nat.le_add_left 1 k
  case isFalse hn =>
    have hle := byteSize_le (by omega) hk
    omega

/-- So does an encoded string of a length that is bounded. -/
theorem length_encodeBytes_le_of_lt {v : List U8} {k : ℕ} (hlt : v.length < 2 ^ t.bits)
    (hk : v.length < 256 ^ k) : (encodeBytes t v).length ≤ v.length + (k + 1) := by
  rw [length_encodeBytes hlt]
  exact bytesSize_le hk

/-- So does an encoded list. -/
theorem length_encodeList_le (items : List (List U8)) {k : ℕ}
    (hlt : items.flatten.length < 2 ^ t.bits) (hk : items.flatten.length < 256 ^ k) :
    (encodeList t items).length ≤ items.flatten.length + (k + 1) := by
  have hle := headerSize_le hk
  rw [length_encodeList items hlt, listSize]
  omega

/-! ## Transactions with a given witness -/

/-- The sample witness with other siblings and another signature. -/
def witnessWith (siblings : List Digest) (witnessData : List U8) : HCAWitness .usize64 :=
  { sampleWitness with
    merkleProof := ⟨0, siblings⟩
    witnessData := witnessData }

/-- The sample transaction with the witness, on the wire. -/
def rawWith (siblings : List Digest) (witnessData : List U8) : List U8 :=
  hcaTxType :: encodeList .usize64 (hcaTxFields .usize64 sampleTx
    (witnessWith siblings witnessData))

/-- The sample transaction is decoded with whatever siblings and signature fit memory. -/
theorem rawWith_decodes {siblings : List Digest} {witnessData : List U8}
    (hsiblings : siblings.length < 2 ^ 16) (hdata : witnessData.length < 2 ^ 32) :
    decodeHcaTx .usize64 (rawWith siblings witnessData) =
      .ok (sampleTx, witnessWith siblings witnessData) := by
  have hleaf : Leaf.new 0x01 [0x00] "" = .ok ⟨0x01, [0x00], ""⟩ := by decide
  apply decodeHcaTx_hcaTxFields hleaf
  have hfields : (hcaTxFields .usize64 sampleTx (witnessWith siblings witnessData)).flatten =
      ((hcaTxFields .usize64 sampleTx sampleWitness).take 13).flatten ++
        (encodeList .usize64 (encodeSiblings .usize64 siblings) ++
          encodeBytes .usize64 witnessData) := by
    simp [hcaTxFields, encodeSiblings, witnessWith, sampleWitness]
  have hfront : ((hcaTxFields .usize64 sampleTx sampleWitness).take 13).flatten.length ≤ 255 := by
    decide +kernel
  have hflat := length_encodeSiblings_flatten (t := .usize64) siblings
  have hle₁ := length_encodeList_le (encodeSiblings .usize64 siblings) (t := .usize64) (k := 4)
    (by show _ < 2 ^ 64; omega) (by omega)
  have hle₂ := length_encodeBytes_le_of_lt (t := .usize64) (v := witnessData) (k := 4)
    (by show _ < 2 ^ 64; omega) (by omega)
  have hlen := congrArg List.length hfields
  rw [List.length_append, List.length_append] at hlen
  have hle := length_encodeList_le
    (hcaTxFields .usize64 sampleTx (witnessWith siblings witnessData)) (t := .usize64) (k := 8)
    (by show _ < 2 ^ 64; omega) (by omega)
  show _ < 2 ^ 64
  omega

/-! ## Limits -/

/-- `verify` returns a verdict iff the proof is not longer than a tree may be deep. -/
theorem verify_isOk_iff {keccak256 : List U8 → Digest} {leafHash authRoot : Digest}
    {p : MerkleProof t} :
    (∃ b, MerkleTree.verify keccak256 leafHash p authRoot = .ok b) ↔
      p.siblings.length ≤ maxTreeDepth := by
  unfold MerkleTree.verify
  simp only [bind_eq_ok, rejectIf_eq_ok, pure_eq_ok, exists_const, not_lt]
  constructor
  · rintro ⟨b, hle, -⟩
    exact hle
  · intro hle
    exact ⟨_, hle, rfl⟩

/-- `encode` returns the list of the fields iff there is a signature and the list is small
enough. -/
theorem encode_eq_ok {w : HCAWitness t} {enc : List U8} :
    HCAWitness.encode t w = .ok enc ↔
      w.isSigned = true ∧ enc.length ≤ maxWitnessSize ∧
        enc = encodeList t (HCAWitness.fields t w) := by
  unfold HCAWitness.encode
  simp only [bind_eq_ok, rejectIf_eq_ok, pure_eq_ok, exists_const, not_lt,
    Bool.not_eq_false]
  constructor
  · rintro ⟨hsigned, hsize, rfl⟩
    exact ⟨hsigned, hsize, rfl⟩
  · rintro ⟨hsigned, hsize, rfl⟩
    exact ⟨hsigned, hsize, rfl⟩

/-- The fields of a witness whose leaf is admissible fit `MAX_WITNESS_SIZE` with 32 siblings
and 39882 bytes of signature: 1 byte of version, 24579 of script, 9 of index, 1059 of
siblings, 39885 of signature and 3 of header make 65536. -/
theorem length_encodeList_fields_le {w : HCAWitness t}
    (hleaf : Admissible w.leafVersion w.leafScript)
    (hdepth : w.merkleProof.siblings.length ≤ maxTreeDepth)
    (hdata : w.witnessData.length ≤ 39882) :
    (encodeList t (HCAWitness.fields t w)).length ≤ maxWitnessSize := by
  have hscript := hleaf.size_le
  unfold maxTreeDepth at hdepth
  unfold maxLeafScriptSize at hscript
  have h₁ : uintSize w.leafVersion.toNat = 1 := by
    rw [hleaf.version_eq]
    rfl
  have h₂ := bytesSize_le (k := 2) (show w.leafScript.length < 256 ^ 2 by omega)
  have h₃ : uintSize w.merkleProof.leafIndex.toNat ≤ 9 := by
    have hlt := w.merkleProof.leafIndex.isLt
    have hbits : 2 ^ t.bits ≤ 2 ^ 64 := Nat.pow_le_pow_right (by decide) t.bits_le
    exact uintSize_le (by omega)
  have h₄ := headerSize_le (k := 2) (show 33 * w.merkleProof.siblings.length < 256 ^ 2 by omega)
  have h₅ := bytesSize_le (k := 2) (show w.witnessData.length < 256 ^ 2 by omega)
  have hpayload : witnessPayloadSize w ≤ 65533 := by
    unfold witnessPayloadSize listSize
    omega
  have h₆ := headerSize_le (k := 2) (show witnessPayloadSize w < 256 ^ 2 by omega)
  rw [length_encodeList_fields_le_iff, witnessSize, listSize, maxWitnessSize]
  omega

/-- The limits of a decoded witness. The leaf is valid; `verify` returns a verdict iff there
are no more siblings than levels; `encode` returns the encoding iff the witness is signed
and fits, which it does with 32 siblings and 39882 bytes of signature.
SOURCE: rlp.rs:441-503, witness.rs:151-182, merkle.rs:268-277 -/
theorem decoded_witness_limits {raw : List U8} {tx : TxMessage} {w : HCAWitness t}
    (hdec : decodeHcaTx t raw = .ok (tx, w)) :
    (∃ leaf, Leaf.new w.leafVersion w.leafScript "" = .ok leaf) ∧
    (∀ keccak256 leafHash authRoot,
      (∃ b, MerkleTree.verify keccak256 leafHash w.merkleProof authRoot = .ok b) ↔
        w.merkleProof.siblings.length ≤ maxTreeDepth) ∧
    (∀ enc, HCAWitness.encode t w = .ok enc ↔
      w.isSigned = true ∧ enc.length ≤ maxWitnessSize ∧
        enc = encodeList t (HCAWitness.fields t w)) ∧
    (w.isSigned = true → w.merkleProof.siblings.length ≤ maxTreeDepth →
      w.witnessData.length ≤ 39882 →
        ∃ enc, HCAWitness.encode t w = .ok enc ∧ enc.length ≤ maxWitnessSize) := by
  obtain ⟨core, s, -, hleaf, -⟩ := decodeHcaTx_eq_ok.mp hdec
  refine ⟨hleaf, ?_, ?_, ?_⟩
  · intro keccak256 leafHash authRoot
    exact verify_isOk_iff
  · intro enc
    exact encode_eq_ok
  · intro hsigned hdepth hdata
    have hsize := length_encodeList_fields_le (leafNew_isOk_iff.mp hleaf) hdepth hdata
    exact ⟨_, encode_eq_ok.mpr ⟨hsigned, hsize, rfl⟩, hsize⟩

/-- The sample witness is encoded within the limit. -/
theorem decoded_witness_limits_sample :
    ∃ enc, HCAWitness.encode .usize64 sampleWitness = .ok enc ∧ enc.length ≤ maxWitnessSize :=
  (decoded_witness_limits (rawWith_decodes (by decide) (by decide))).2.2.2
    (by decide) (by decide) (by decide)

/-! ## Witnesses beyond the limits -/

/-- A signature of the size of the limit is too large for a witness. -/
theorem encode_witnessWith_large {witnessData : List U8} (hlarge : 65536 ≤ witnessData.length) :
    ¬ ∃ enc, HCAWitness.encode .usize64 (witnessWith [] witnessData) = .ok enc := by
  rintro ⟨enc, henc⟩
  obtain ⟨-, hsize, rfl⟩ := encode_eq_ok.mp henc
  have hmem : encodeBytes .usize64 witnessData ∈
      HCAWitness.fields .usize64 (witnessWith [] witnessData) := by
    simp [HCAWitness.fields, witnessWith]
  have hdata := (List.sublist_flatten_of_mem hmem).length_le
  have hle := (length_encodeBytes_bounds (t := .usize64) witnessData).2
  rw [encodeList_eq, List.length_append] at hsize
  have hheader : 1 ≤ (encodeHeader .usize64 0xc0 0xf7
      (HCAWitness.fields .usize64 (witnessWith [] witnessData)).flatten.length).length := by
    unfold encodeHeader
    split <;> simp
  unfold maxWitnessSize at hsize
  omega

/-- A witness that is not signed, one with 33 siblings and one with a signature of 65536
bytes are accepted. -/
theorem beyond_limits_accepted :
    (decodeHcaTx .usize64 (rawWith [] []) = .ok (sampleTx, witnessWith [] []) ∧
      (witnessWith [] []).isSigned = false ∧
      HCAWitness.encode .usize64 (witnessWith [] []) = .error (.err .witnessNotSigned)) ∧
    (decodeHcaTx .usize64 (rawWith (List.replicate 33 default) [0x01]) =
        .ok (sampleTx, witnessWith (List.replicate 33 default) [0x01]) ∧
      ∀ keccak256 leafHash authRoot, MerkleTree.verify keccak256 leafHash
        (witnessWith (List.replicate 33 default) [0x01]).merkleProof authRoot =
          .error (.err (.treeTooDeep 33))) ∧
    (decodeHcaTx .usize64 (rawWith [] (List.replicate 65536 0x01)) =
        .ok (sampleTx, witnessWith [] (List.replicate 65536 0x01)) ∧
      ¬ ∃ enc, HCAWitness.encode .usize64 (witnessWith [] (List.replicate 65536 0x01)) =
        .ok enc) := by
  refine ⟨⟨?_, ?_, ?_⟩, ⟨?_, ?_⟩, ?_, ?_⟩
  · exact rawWith_decodes (by decide) (by decide)
  · rfl
  · rfl
  · exact rawWith_decodes (by decide) (by decide)
  · intro keccak256 leafHash authRoot
    rfl
  · apply rawWith_decodes (by decide)
    rw [List.length_replicate]
    decide
  · apply encode_witnessWith_large
    rw [List.length_replicate]

end Hca.Analysis
