import Hca.Analysis.TransactionCodec
import Hca.Analysis.DomainSeparation

set_option autoImplicit false

/-!
# Round trip of transactions

The encoder writes a word of the grammar of transactions, the one with the shortest integers
and an empty access list. The decoder therefore gives back what was encoded, for every
transaction and every signed witness whose leaf is valid.
-/

namespace Hca.Analysis

open Hca.Library Hca.Model Hca.Program Hca.Interface

variable {t : Target}

/-! ## Encoded fields -/

/-- An integer of a narrower type is encoded as its value. -/
theorem encodeUint_setWidth_mem_uintWord {n : ℕ} (hn : n ≤ 128) (x : BitVec n) :
    encodeUint t (x.setWidth 128) ∈ uintWord t x.toNat := by
  have hx : (x.setWidth 128).toNat = x.toNat := BitVec.toNat_setWidth_of_le hn
  rw [← hx]
  exact encodeUint_mem_uintWord _

/-- An address is encoded as the string of its bytes. -/
theorem encodeAddress_eq (address : Bytes 20) :
    encodeAddress address = encodeBytes t address.val := by
  obtain ⟨bytes, hlen⟩ := address
  have hsingle : ∀ b, bytes = [b] → ¬ b < 0x80 := by
    rintro b rfl
    simp at hlen
  have hshort : encodeBytes t bytes = (0x80 + BitVec.ofNat 8 bytes.length) :: bytes :=
    encodeBytes_short (by omega) hsingle
  rw [hshort, hlen]
  rfl

/-- The items of the siblings, one after the other. -/
def encodeSiblings (t : Target) (siblings : List Digest) : List (List U8) :=
  siblings.map fun s => encodeBytes t s.val

/-- A sibling is encoded as one block of 33 bytes. -/
theorem encodeBytes_digest (s : Digest) : encodeBytes t s.val = 0xa0 :: s.val := by
  have hne : ∀ b, s.val = [b] → ¬ b < 0x80 := by
    intro b hb
    have hlen := s.property
    rw [hb] at hlen
    cases hlen
  rw [encodeBytes_short (by rw [s.property]; decide) hne, s.property]
  rfl

/-- Encoded siblings are their blocks. -/
theorem encodeSiblings_flatten (siblings : List Digest) :
    (encodeSiblings t siblings).flatten = siblingBlocks siblings := by
  simp only [encodeSiblings, siblingBlocks, encodeBytes_digest]

/-- So they are a payload of the grammar. -/
theorem encodeSiblings_flatten_mem (siblings : List Digest) :
    (encodeSiblings t siblings).flatten ∈ siblingsPayload t siblings := by
  induction siblings with
  | nil =>
    show [] ∈ (1 : Language U8)
    exact Language.nil_mem_one
  | cons s siblings ih =>
    have hs : encodeBytes t s.val ∈ bytesWord t s.val := by
      apply encodeBytes_mem_bytesWord_of_short
      rw [s.property]
      decide
    exact mem_prod_map_cons.mpr ⟨_, _, rfl, hs, ih⟩

/-- A list of siblings has one payload. -/
theorem eq_of_mem_siblingsPayload {siblings : List Digest} {payload : List U8}
    (h : payload ∈ siblingsPayload t siblings) :
    payload = (encodeSiblings t siblings).flatten := by
  induction siblings generalizing payload with
  | nil => exact (Language.mem_one payload).mp h
  | cons s siblings ih =>
    obtain ⟨x, y, rfl, ⟨rfl, -⟩, hy⟩ := mem_prod_map_cons.mp h
    rw [ih hy]
    rfl

/-- The payload of a transaction whose access list is the given item. -/
def txPayload (t : Target) (accessList : List U8) (tx : TxMessage) (w : HCAWitness t) :
    List U8 :=
  encodeUint t (tx.chainId.setWidth 128) ++ (encodeUint t (tx.nonce.setWidth 128) ++
    (encodeBytes t tx.«from».val ++ (encodeBytes t tx.«to».val ++ (encodeUint t tx.value ++
    (encodeUint t (tx.gasLimit.setWidth 128) ++ (encodeUint t tx.maxFeePerGas ++
    (encodeUint t tx.maxPriorityFeePerGas ++ (accessList ++ encodeBytes t tx.data)))))))) ++
  (encodeUint t (w.leafVersion.setWidth 128) ++ (encodeBytes t w.leafScript ++
    (encodeUint t (w.merkleProof.leafIndex.setWidth 128) ++
    (encodeList t (encodeSiblings t w.merkleProof.siblings) ++ encodeBytes t w.witnessData))))

/-- The encoded fields are the payload with the empty access list. -/
theorem hcaTxFields_flatten (tx : TxMessage) (w : HCAWitness t) :
    (hcaTxFields t tx w).flatten = txPayload t (encodeList t []) tx w := by
  simp only [hcaTxFields, txPayload, encodeSiblings, encodeAddress_eq (t := t),
    List.flatten_cons, List.flatten_nil, List.append_nil, List.append_assoc]

/-- The encoded fields are words of the fields. -/
theorem txPayload_mem {accessList : List U8} {tx : TxMessage} {w : HCAWitness t}
    (haccess : accessList ∈ anyListWord t)
    (hfit : (txPayload t accessList tx w).length < 2 ^ t.bits) :
    txPayload t accessList tx w ∈ transactionWord t tx * witnessWord t w := by
  simp only [txPayload, List.length_append] at hfit
  have hbits : t.bits ≤ 128 := t.bits_le.trans (by decide)
  have hsiblings : encodeList t (encodeSiblings t w.merkleProof.siblings) ∈
      siblingsWord t w.merkleProof.siblings := by
    refine ⟨_, encodeSiblings_flatten_mem _, ?_⟩
    apply encodeList_mem_listWord
    omega
  apply Language.append_mem_mul
  · refine Language.append_mem_mul (encodeUint_setWidth_mem_uintWord (by decide) _) ?_
    refine Language.append_mem_mul (encodeUint_setWidth_mem_uintWord (by decide) _) ?_
    refine Language.append_mem_mul (encodeBytes_mem_bytesWord (by omega)) ?_
    refine Language.append_mem_mul (encodeBytes_mem_bytesWord (by omega)) ?_
    refine Language.append_mem_mul (encodeUint_mem_uintWord _) ?_
    refine Language.append_mem_mul (encodeUint_setWidth_mem_uintWord (by decide) _) ?_
    refine Language.append_mem_mul (encodeUint_mem_uintWord _) ?_
    refine Language.append_mem_mul (encodeUint_mem_uintWord _) ?_
    exact Language.append_mem_mul haccess (encodeBytes_mem_bytesWord (by omega))
  · refine Language.append_mem_mul (encodeUint_setWidth_mem_uintWord (by decide) _) ?_
    refine Language.append_mem_mul (encodeBytes_mem_bytesWord (by omega)) ?_
    refine Language.append_mem_mul (encodeUint_setWidth_mem_uintWord hbits _) ?_
    exact Language.append_mem_mul hsiblings (encodeBytes_mem_bytesWord (by omega))

/-! ## The round trip -/

/-- The description of a leaf does not decide whether it is valid. -/
theorem leafNew_description {version : U8} {script : List U8} {description : String}
    {leaf : Leaf} (h : Leaf.new version script description = .ok leaf) (description' : String) :
    Leaf.new version script description' = .ok ⟨version, script, description'⟩ := by
  unfold Leaf.new at h ⊢
  simp only [bind_eq_ok, rejectIf_eq_ok, pure_eq_ok, exists_const] at h
  obtain ⟨lv, hversion, hne, hsize, u, hscript, -⟩ := h
  rw [hversion, ok_bind, rejectIf_neg hne, ok_bind, rejectIf_neg hsize, ok_bind, hscript, ok_bind]
  rfl

/-- The empty list is a list. -/
theorem encodeList_nil_mem : encodeList t [] ∈ anyListWord t := by
  have hbits := t.pow_bits_ge
  refine ⟨_, encodeList_mem_listWord ?_⟩
  show 1 < 2 ^ t.bits
  omega

/-- Encoded fields are decoded to what was encoded, whether there is a signature or not. -/
theorem decodeHcaTx_hcaTxFields {tx : TxMessage} {w : HCAWitness t} {leaf : Leaf}
    (hleaf : Leaf.new w.leafVersion w.leafScript "" = .ok leaf)
    (hfit : (encodeList t (hcaTxFields t tx w)).length < 2 ^ t.bits) :
    decodeHcaTx t (hcaTxType :: encodeList t (hcaTxFields t tx w)) = .ok (tx, w) := by
  have hlist := encodeList_mem_listWord hfit
  have hpayload : (hcaTxFields t tx w).flatten ∈ transactionWord t tx * witnessWord t w := by
    rw [hcaTxFields_flatten]
    apply txPayload_mem encodeList_nil_mem
    rw [← hcaTxFields_flatten]
    exact listWord_length hlist
  rw [decodeHcaTx_eq_ok]
  refine ⟨_, [], (List.append_nil _).symm, ⟨leaf, hleaf⟩, _, hpayload, _, hlist, rfl⟩

/-- A transaction is encoded iff its witness is signed. -/
theorem encodeHcaTx_eq_ok {tx : TxMessage} {w : HCAWitness t} {raw : List U8} :
    encodeHcaTx t tx w = .ok raw ↔
      w.isSigned = true ∧ raw = hcaTxType :: encodeList t (hcaTxFields t tx w) := by
  unfold encodeHcaTx
  simp only [bind_eq_ok, rejectIf_eq_ok, pure_eq_ok, exists_const, Bool.not_eq_false]
  exact and_congr_right fun _ => eq_comm

/-- A signed witness with a valid leaf is encoded, and decoding gives back all nine fields of
the transaction and all fields of the witness.
SOURCE: rlp.rs:146-191, rlp.rs:362-503 -/
theorem decode_encode {tx : TxMessage} {w : HCAWitness t} {description : String} {leaf : Leaf}
    (hsigned : w.witnessData ≠ [])
    (hleaf : Leaf.new w.leafVersion w.leafScript description = .ok leaf) :
    ∃ raw, encodeHcaTx t tx w = .ok raw ∧
      (raw.length ≤ t.isizeMax → decodeHcaTx t raw = .ok (tx, w)) := by
  refine ⟨hcaTxType :: encodeList t (hcaTxFields t tx w), ?_, ?_⟩
  · apply encodeHcaTx_eq_ok.mpr
    refine ⟨?_, rfl⟩
    simpa [HCAWitness.isSigned] using hsigned
  · intro hsize
    have hlt := t.isizeMax_lt
    rw [List.length_cons] at hsize
    exact decodeHcaTx_hcaTxFields (leafNew_description hleaf "") (by omega)

/-- A witness for a one-byte script in a tree of one leaf. -/
def sampleWitness : HCAWitness .usize64 where
  leafVersion := 0x01
  leafScript := [0x00]
  merkleProof := ⟨0, []⟩
  witnessData := [0x01]

/-- The witness with two siblings and a signature that takes the long form. -/
def longWitness : HCAWitness .usize64 :=
  { sampleWitness with
    merkleProof := ⟨2, [TagHashes.leaf, TagHashes.branch]⟩
    witnessData := List.replicate 65 0x01 }

/-- A transaction with two siblings and a signature of the long form comes back. -/
theorem decode_encode_sample :
    ∃ raw, encodeHcaTx .usize64 sampleTx longWitness = .ok raw ∧
      decodeHcaTx .usize64 raw = .ok (sampleTx, longWitness) := by
  have hsize : ∀ raw, encodeHcaTx .usize64 sampleTx longWitness = .ok raw →
      raw.length ≤ Target.usize64.isizeMax := by
    intro raw hraw
    obtain ⟨-, rfl⟩ := encodeHcaTx_eq_ok.mp hraw
    decide +kernel
  have hleaf : Leaf.new longWitness.leafVersion longWitness.leafScript "" =
      .ok ⟨0x01, [0x00], ""⟩ := by decide
  have hsigned : longWitness.witnessData ≠ [] := by decide
  obtain ⟨raw, hraw, hdecode⟩ := @decode_encode _ sampleTx _ _ _ hsigned hleaf
  exact ⟨raw, hraw, hdecode (hsize raw hraw)⟩

end Hca.Analysis
