import Hca.Analysis.MerkleSafety
import Hca.Analysis.Spends
import Hca.Interface.Targets
import Hca.Library.WordLengths

set_option autoImplicit false

/-!
# What does not depend on the target

`usize` enters the format through the length fields of long items and through the leaf index.
Below `2 ^ 31` bytes the length fields are the same on every target, so that the grammar is
the same but for indices that a 32-bit target cannot count: an account built on one target is
the account built on the other, and a spend is a spend on both or on neither.
-/

namespace Hca.Analysis

open Hca.Library Hca.Model Hca.Program Hca.Interface

variable {t t' : Target} {keccak256 : List U8 → Digest}

/-! ## Encoders -/

/-- The least length field for a length does not depend on the width it is cut from. -/
theorem encodeLength_on (t t' : Target) {len : ℕ} (hpos : 0 < len) (hlt : len < 2 ^ 32) :
    encodeLength t len = encodeLength t' len := by
  have hfit : len < 2 ^ t.bits := hlt.trans_le t.pow_bits_ge
  have hfit' : len < 2 ^ t'.bits := hlt.trans_le t'.pow_bits_ge
  have hvalue := ofBytes_encodeLength hpos hfit
  have hread := encodeLength_ofBytes (t := t') (minimal_encodeLength hpos hfit)
    (encodeLength_ne_nil hpos hfit) (hvalue.trans_lt hfit')
  rw [hvalue] at hread
  exact hread.symm

/-- So are the headers of such lengths. -/
theorem encodeHeader_on (t t' : Target) (short long : U8) {len : ℕ} (hlt : len < 2 ^ 32) :
    encodeHeader t short long len = encodeHeader t' short long len := by
  unfold encodeHeader
  split
  · rfl
  · rw [encodeLength_on t t' (by omega) hlt]

/-- So are strings of such lengths. -/
theorem encodeBytes_on (t t' : Target) {v : List U8} (hlt : v.length < 2 ^ 32) :
    encodeBytes t v = encodeBytes t' v := by
  match v with
  | [] => rfl
  | [b] => rfl
  | b :: c :: v =>
    show encodeHeader t _ _ _ ++ _ = encodeHeader t' _ _ _ ++ _
    rw [encodeHeader_on t t' _ _ hlt]

/-- And integers, whatever they are. -/
theorem encodeUint_on (t t' : Target) (v : U128) : encodeUint t v = encodeUint t' v := by
  have hlen := length_stripZeros_toBeBytes_le v
  rw [encodeUint_eq, encodeUint_eq, encodeBytes_on t t' (by omega)]

/-- And lists with payloads of such lengths. -/
theorem encodeList_on (t t' : Target) {items : List (List U8)}
    (hlt : items.flatten.length < 2 ^ 32) : encodeList t items = encodeList t' items := by
  rw [encodeList_eq, encodeList_eq, encodeHeader_on t t' _ _ hlt]

/-! ## The grammar -/

/-- An index that fits 32 bits is the same on both targets. -/
theorem toNat_setWidth_of_portable {i : Usize t} (hi : PortableIndex i) (t' : Target) :
    (i.setWidth t'.bits).toNat = i.toNat := by
  rw [BitVec.toNat_setWidth, Nat.mod_eq_of_lt (hi.trans_le t'.pow_bits_ge)]

/-- Below the length that both targets address, their words for a string are the same. -/
theorem bytesWord_agree (t t' : Target) (data : List U8) :
    AgreeBelow (2 ^ 32) (bytesWord t data) (bytesWord t' data) := by
  have himp : ∀ (t t' : Target) (w : List U8), w.length < 2 ^ 32 → w ∈ bytesWord t data →
      w ∈ bytesWord t' data := by
    rintro t t' w hw ⟨rfl, -⟩
    have hdata := (length_encodeBytes_bounds (t := t) data).2
    exact ⟨encodeBytes_on t t' (by omega), hw.trans_le t'.pow_bits_ge⟩
  exact .of_imp (himp t t') (himp t' t)

/-- So are their words for an integer. -/
theorem uintWord_agree (t t' : Target) (n : ℕ) :
    AgreeBelow (2 ^ 32) (uintWord t n) (uintWord t' n) := by
  have himp : ∀ (t t' : Target) (w : List U8), w ∈ uintWord t n → w ∈ uintWord t' n := by
    rintro t t' w ⟨bytes, hlen, hvalue, rfl⟩
    exact ⟨bytes, hlen, hvalue, encodeBytes_on t t' (by omega)⟩
  exact .of_imp (fun w _ => himp t t' w) fun w _ => himp t' t w

/-- And those for a list. -/
theorem listWord_agree (t t' : Target) (payload : List U8) :
    AgreeBelow (2 ^ 32) (listWord t payload) (listWord t' payload) := by
  have himp : ∀ (t t' : Target) (w : List U8), w.length < 2 ^ 32 → w ∈ listWord t payload →
      w ∈ listWord t' payload := by
    rintro t t' w hw ⟨header, hheader, heq, -⟩
    exact ⟨header, hheader, heq, hw.trans_le t'.pow_bits_ge⟩
  exact .of_imp (himp t t') (himp t' t)

/-- A payload is no longer than the list it is in. -/
theorem length_payload_le (payload w : List U8) (h : w ∈ listWord t payload) :
    payload.length ≤ w.length := by
  obtain ⟨header, -, rfl, -⟩ := h
  simp

/-- The lists that stand for any payload are the same too. -/
theorem anyListWord_agree (t t' : Target) :
    AgreeBelow (2 ^ 32) (anyListWord t) (anyListWord t') := by
  intro w hw
  exact exists_congr fun payload => listWord_agree t t' payload w hw

/-- And those of siblings. -/
theorem siblingsWord_agree (t t' : Target) (siblings : List Digest) :
    AgreeBelow (2 ^ 32) (siblingsWord t siblings) (siblingsWord t' siblings) := by
  have hpayload : AgreeBelow (2 ^ 32) (siblingsPayload t siblings)
      (siblingsPayload t' siblings) := by
    unfold siblingsPayload
    apply AgreeBelow.prod_map
    intro s
    exact bytesWord_agree t t' s.val
  exact hpayload.exists_part (listWord_agree t t') length_payload_le length_payload_le

/-- The fields of a transaction are the same words on both targets. -/
theorem transactionWord_agree (t t' : Target) (tx : TxMessage) :
    AgreeBelow (2 ^ 32) (transactionWord t tx) (transactionWord t' tx) := by
  have huint := uintWord_agree t t'
  have hbytes := bytesWord_agree t t'
  have htail := (anyListWord_agree t t').mul (hbytes tx.data)
  have hamounts := (huint tx.value.toNat).mul ((huint tx.gasLimit.toNat).mul
    ((huint tx.maxFeePerGas.toNat).mul ((huint tx.maxPriorityFeePerGas.toNat).mul htail)))
  exact (huint tx.chainId.toNat).mul ((huint tx.nonce.toNat).mul
    ((hbytes tx.«from».val).mul ((hbytes tx.«to».val).mul hamounts)))

/-- The index of the witness is written the same if both targets can count it. -/
theorem witnessWord_agree (t t' : Target) {w : HCAWitness t}
    (hindex : PortableIndex w.merkleProof.leafIndex) :
    AgreeBelow (2 ^ 32) (witnessWord t w) (witnessWord t' (witnessOn t' w)) := by
  have hsame : (witnessOn t' w).merkleProof.leafIndex.toNat = w.merkleProof.leafIndex.toNat :=
    toNat_setWidth_of_portable hindex t'
  have huint := uintWord_agree t t'
  have hbytes := bytesWord_agree t t'
  rw [witnessWord, witnessWord, hsame]
  exact (huint w.leafVersion.toNat).mul ((hbytes w.leafScript).mul
    ((huint w.merkleProof.leafIndex.toNat).mul
      ((siblingsWord_agree t t' w.merkleProof.siblings).mul (hbytes w.witnessData))))

/-- The words for a whole transaction are the same where its index fits 32 bits. -/
theorem hcaTxWord_agree (t t' : Target) (tx : TxMessage) {w : HCAWitness t}
    (hindex : PortableIndex w.merkleProof.leafIndex) :
    AgreeBelow (2 ^ 32) (hcaTxWord t tx w) (hcaTxWord t' tx (witnessOn t' w)) := by
  have hfields := (transactionWord_agree t t' tx).mul (witnessWord_agree t t' hindex)
  have hlist := hfields.exists_part (listWord_agree t t') length_payload_le length_payload_le
  intro raw hraw
  apply and_congr Iff.rfl
  constructor
  · rintro ⟨payload, hpayload, list, hmem, rfl⟩
    rw [List.length_cons] at hraw
    obtain ⟨payload', hpayload', hmem'⟩ :=
      (hlist list (by omega)).mp ⟨payload, hpayload, hmem⟩
    exact ⟨payload', hpayload', list, hmem', rfl⟩
  · rintro ⟨payload, hpayload, list, hmem, rfl⟩
    rw [List.length_cons] at hraw
    obtain ⟨payload', hpayload', hmem'⟩ :=
      (hlist list (by omega)).mpr ⟨payload, hpayload, hmem⟩
    exact ⟨payload', hpayload', list, hmem', rfl⟩

/-! ## Accounts -/

/-- The leaves of a built tree determine it. -/
theorem Built.eq_of_leaves_eq {T T' : MerkleTree} (hT : Built keccak256 T)
    (hT' : Built keccak256 T') (h : T.leaves = T'.leaves) : T = T' := by
  have hdepth : T.depth = T'.depth := by
    apply le_antisymm
    · exact hT.depth_minimal _ (h ▸ hT'.length_le)
    · exact hT'.depth_minimal _ (h ▸ hT.length_le)
  have hnodes := hT.nodes_eq
  rw [h, hdepth, ← hT'.nodes_eq] at hnodes
  obtain ⟨leaves, nodes, depth⟩ := T
  obtain ⟨leaves', nodes', depth'⟩ := T'
  simp only [MerkleTree.mk.injEq]
  exact ⟨h, hnodes, hdepth⟩

/-- A list that fits the memory of the narrow target is within the limits of both. -/
theorem buildable_of_length_le {leaves : List Leaf} (hne : leaves ≠ [])
    (hlen : leaves.length ≤ sliceMax) (hnodup : (leaves.map (Leaf.hash keccak256)).Nodup)
    (t : Target) : Buildable t keccak256 leaves := by
  have hmax : sliceMax ≤ 2 ^ maxTreeDepth ∧ ∀ t : Target, sliceMax ≤ 2 ^ (t.bits - 1) := by
    refine ⟨by decide, ?_⟩
    rintro (_ | _) <;> decide
  exact ⟨hne, hlen.trans hmax.1, hlen.trans (hmax.2 t), hnodup⟩

/-- On such a list both targets make the same tree, or give the same error. -/
theorem new_on (t t' : Target) {leaves : List Leaf} (hlen : leaves.length ≤ sliceMax) :
    MerkleTree.new t' keccak256 leaves = MerkleTree.new t keccak256 leaves := by
  have hbound : ∀ t : Target, ¬ (maxTreeDepth < t.bits ∧ leaves.length > 1 <<< maxTreeDepth) := by
    rintro t ⟨-, hgt⟩
    exact absurd (hlen.trans (by decide : sliceMax ≤ 1 <<< maxTreeDepth)) (not_le.mpr hgt)
  by_cases hne : leaves = []
  · simp only [MerkleTree.new, rejectIf_pos hne]
    rfl
  · rcases returns_checkDuplicates keccak256 0 [] leaves with ⟨u, hdup⟩ | ⟨e, hdup⟩
    · have hbuild := buildable_of_length_le hne hlen ((checkDuplicates_eq_ok keccak256).mp hdup).1
      obtain ⟨T, hT⟩ := new_isOk_iff.mpr (hbuild t)
      obtain ⟨T', hT'⟩ := new_isOk_iff.mpr (hbuild t')
      obtain ⟨hleaves, hbuilt⟩ := new_built hT
      obtain ⟨hleaves', hbuilt'⟩ := new_built hT'
      rw [hT, hT', hbuilt'.eq_of_leaves_eq hbuilt (hleaves'.trans hleaves.symm)]
    · simp only [MerkleTree.new, rejectIf_neg hne, rejectIf_neg (hbound _), hdup]
      rfl

/-- A tree makes the same proof for an index on both targets. -/
theorem Built.proof_on {T : MerkleTree} (hT : Built keccak256 T) (t' : Target) {i : Usize t}
    (hi : PortableIndex i) :
    T.proof (i.setWidth t'.bits : Usize t') = proofOn t' <$> T.proof i := by
  have hsame := toNat_setWidth_of_portable hi t'
  by_cases hindex : i.toNat < T.leaves.length
  · rw [hT.proof_eq_ok hindex, hT.proof_eq_ok (hsame.trans_lt hindex), hsame]
    rfl
  · rw [MerkleTree.proof, MerkleTree.proof, hsame, rejectIf_pos (not_lt.mp hindex)]
    rfl

/-! ## Spends -/

/-- The encoded fields of a transaction are the same on both targets. -/
theorem hcaTxFields_on (t' : Target) {tx : TxMessage} {w : HCAWitness t}
    (hindex : PortableIndex w.merkleProof.leafIndex)
    (hlt : (hcaTxFields t tx w).flatten.length < 2 ^ 32) :
    hcaTxFields t' tx (witnessOn t' w) = hcaTxFields t tx w := by
  have hitem : ∀ item ∈ hcaTxFields t tx w, item.length < 2 ^ 32 := by
    intro item hmem
    exact (List.sublist_flatten_of_mem hmem).length_le.trans_lt hlt
  have hbytes : ∀ data, encodeBytes t data ∈ hcaTxFields t tx w →
      encodeBytes t' data = encodeBytes t data := by
    intro data hmem
    exact encodeBytes_on t' t
      ((length_encodeBytes_bounds data).2.trans_lt (hitem _ hmem))
  have hsibling : ∀ s : Digest, encodeBytes t' s.val = encodeBytes t s.val := by
    intro s
    rw [encodeBytes_digest, encodeBytes_digest]
  have hsiblings : encodeList t' (encodeSiblings t w.merkleProof.siblings) =
      encodeList t (encodeSiblings t w.merkleProof.siblings) := by
    apply encodeList_on
    have hlen := hitem (encodeList t (encodeSiblings t w.merkleProof.siblings))
      (by simp [hcaTxFields, encodeSiblings])
    rw [encodeList_eq, List.length_append] at hlen
    omega
  have hposition : (w.merkleProof.leafIndex.setWidth t'.bits).setWidth 128 =
      w.merkleProof.leafIndex.setWidth 128 := by
    apply BitVec.eq_of_toNat_eq
    rw [BitVec.toNat_setWidth, toNat_setWidth_of_portable hindex, BitVec.toNat_setWidth]
  have hdata := hbytes tx.data (by simp [hcaTxFields])
  have hscript := hbytes w.leafScript (by simp [hcaTxFields])
  have hsignature := hbytes w.witnessData (by simp [hcaTxFields])
  have hempty : encodeList t' [] = encodeList t [] := rfl
  unfold encodeSiblings at hsiblings
  simp only [hcaTxFields, witnessOn, proofOn, encodeUint_on t' t, hempty, hdata, hscript,
    hposition, hsibling, hsiblings, hsignature]

/-- What one target encodes the other encodes alike. -/
theorem encodeHcaTx_on (t' : Target) {tx : TxMessage} {w : HCAWitness t} {raw : List U8}
    (hindex : PortableIndex w.merkleProof.leafIndex) (hsize : raw.length ≤ sliceMax)
    (h : encodeHcaTx t tx w = .ok raw) : encodeHcaTx t' tx (witnessOn t' w) = .ok raw := by
  obtain ⟨hsigned, rfl⟩ := encodeHcaTx_eq_ok.mp h
  have hmax : sliceMax < 2 ^ 32 := by decide
  have hlt : (hcaTxFields t tx w).flatten.length < 2 ^ 32 := by
    rw [List.length_cons, encodeList_eq, List.length_append] at hsize
    omega
  refine encodeHcaTx_eq_ok.mpr ⟨hsigned, ?_⟩
  rw [hcaTxFields_on t' hindex hlt, encodeList_on t' t hlt]

/-- What a wallet makes does not depend on the target it runs on: a policy that fits memory
gives the same tree or the same error, a leaf the same proof, and a witness the same bytes.
SOURCE: merkle.rs:165-262, rlp.rs:34-191 -/
theorem targets_make_same_spend (keccak256 : List U8 → Digest) (t t' : Target)
    {leaves : List Leaf} (hlen : leaves.length ≤ sliceMax) :
    MerkleTree.new t' keccak256 leaves = MerkleTree.new t keccak256 leaves ∧
      (∀ (T : MerkleTree) (i : Usize t), MerkleTree.new t keccak256 leaves = .ok T →
        PortableIndex i → T.proof (i.setWidth t'.bits : Usize t') = proofOn t' <$> T.proof i) ∧
      ∀ (tx : TxMessage) (w : HCAWitness t) (raw : List U8), encodeHcaTx t tx w = .ok raw →
        PortableIndex w.merkleProof.leafIndex → raw.length ≤ sliceMax →
          encodeHcaTx t' tx (witnessOn t' w) = .ok raw := by
  refine ⟨new_on t t' hlen, ?_, ?_⟩
  · intro T i hnew hi
    exact (new_built hnew).2.proof_on t' hi
  · intro tx w raw h hindex hsize
    exact encodeHcaTx_on t' hindex hsize h

/-- The narrow target encodes the sample spend to the sample bytes. -/
theorem targets_make_same_spend_sample :
    encodeHcaTx .usize32 sampleTx (witnessOn .usize32 (lastLeafWitness [0x01])) =
      .ok (lastLeafRaw [0x01]) :=
  (targets_make_same_spend sampleHash .usize64 .usize32
    (by decide : sampleLeaves.length ≤ sliceMax)).2.2 _ _ _ (encodeHcaTx_eq_ok.mpr ⟨rfl, rfl⟩)
    (by decide) ((lastLeafRaw_facts.1 0x01 (by decide)).trans (by decide))

/-- What one target decodes the other decodes alike. -/
theorem decodeHcaTx_on (t' : Target) {raw : List U8} {tx : TxMessage} {w : HCAWitness t}
    (hindex : PortableIndex w.merkleProof.leafIndex) (hsize : raw.length ≤ sliceMax) :
    decodeHcaTx t' raw = .ok (tx, witnessOn t' w) ↔ decodeHcaTx t raw = .ok (tx, w) := by
  have hagree := hcaTxWord_agree t t' tx hindex
  have hmax : sliceMax < 2 ^ 32 := by decide
  rw [decodeHcaTx_eq_ok, decodeHcaTx_eq_ok]
  apply exists_congr
  intro core
  apply exists_congr
  intro s
  apply and_congr_right
  rintro rfl
  rw [List.length_append] at hsize
  exact (hagree core (by omega)).symm

/-- What is a spend on one target is one on the other. -/
theorem spends_on (t' : Target) {authRoot : Digest} {raw : List U8} {tx : TxMessage}
    {w : HCAWitness t} (hindex : PortableIndex w.merkleProof.leafIndex)
    (hsize : raw.length ≤ sliceMax) :
    Spends keccak256 authRoot raw tx (witnessOn t' w) ↔ Spends keccak256 authRoot raw tx w := by
  have hverify : MerkleTree.verify keccak256 ((revealedLeaf (witnessOn t' w)).hash keccak256)
      (witnessOn t' w).merkleProof authRoot =
        MerkleTree.verify keccak256 ((revealedLeaf w).hash keccak256) w.merkleProof authRoot := by
    show MerkleTree.verify keccak256 ((revealedLeaf w).hash keccak256)
      (proofOn t' w.merkleProof) authRoot = _
    rw [MerkleTree.verify, MerkleTree.verify, proofOn, toNat_setWidth_of_portable hindex]
  constructor
  · intro h
    exact ⟨(decodeHcaTx_on t' hindex hsize).mp h.decoded, hverify ▸ h.verified⟩
  · intro h
    exact ⟨(decodeHcaTx_on t' hindex hsize).mpr h.decoded, hverify.symm ▸ h.verified⟩

/-- The targets accept the same spends, but for leaf indices that 32 bits do not hold. What a
32-bit target accepts a 64-bit one reads with the same fields; what a 64-bit target accepts a
32-bit one accepts iff it can count the index, and it can where the index is that of a leaf.
SOURCE: rlp.rs:362-503, rlp.rs:508-521, merkle.rs:268-293 -/
theorem targets_accept_same_spends (authRoot : Digest) {raw : List U8}
    (hsize : raw.length ≤ sliceMax) :
    (∀ (tx : TxMessage) (w : HCAWitness .usize32),
      Spends keccak256 authRoot raw tx (witnessOn .usize64 w) ↔
        Spends keccak256 authRoot raw tx w) ∧
      ∀ (tx : TxMessage) (w : HCAWitness .usize64), Spends keccak256 authRoot raw tx w →
        ((∃ (tx' : TxMessage) (w' : HCAWitness .usize32), Spends keccak256 authRoot raw tx' w') ↔
          PortableIndex w.merkleProof.leafIndex) ∧
        ∀ (leaves : List Leaf) (T : MerkleTree),
          MerkleTree.new .usize64 keccak256 leaves = .ok T →
          w.merkleProof.leafIndex.toNat < leaves.length →
            Spends keccak256 authRoot raw tx (witnessOn .usize32 w) := by
  have hwiden : ∀ (tx : TxMessage) (w : HCAWitness .usize32),
      Spends keccak256 authRoot raw tx (witnessOn .usize64 w) ↔
        Spends keccak256 authRoot raw tx w :=
    fun tx w => spends_on .usize64 w.merkleProof.leafIndex.isLt hsize
  refine ⟨hwiden, ?_⟩
  intro tx w h
  have hnarrow : PortableIndex w.merkleProof.leafIndex →
      Spends keccak256 authRoot raw tx (witnessOn .usize32 w) :=
    fun hindex => (spends_on .usize32 hindex hsize).mpr h
  refine ⟨⟨?_, fun hindex => ⟨tx, _, hnarrow hindex⟩⟩, ?_⟩
  · rintro ⟨tx', w', h'⟩
    -- the wider target reads one witness
    have hdecoded := ((hwiden tx' w').mpr h').decoded
    rw [h.decoded, Except.ok.injEq, Prod.mk.injEq] at hdecoded
    have hindex : PortableIndex w'.merkleProof.leafIndex := w'.merkleProof.leafIndex.isLt
    rw [hdecoded.2]
    exact (toNat_setWidth_of_portable hindex .usize64).trans_lt hindex
  · intro leaves T hnew hindex
    have hlen := (new_isOk_iff.mp ⟨T, hnew⟩).length_le
    exact hnarrow (hindex.trans_le hlen)

/-- The witness for the last leaf with an index that only 64 bits hold, `2 ^ 32 + 2`. -/
def farWitness : HCAWitness .usize64 := ⟨0x01, [0x02], lastLeafProof 4294967298, [0x01]⟩

/-- The sample transaction with this witness, on the wire. -/
def farRaw : List U8 := hcaTxType :: encodeList .usize64 (hcaTxFields .usize64 sampleTx farWitness)

/-- The far witness is short, and verifies on the wide target. -/
theorem farRaw_facts : farRaw.length ≤ 1000 ∧
    MerkleTree.verify sampleHash ((revealedLeaf farWitness).hash sampleHash)
      farWitness.merkleProof sampleRoot = .ok true := by
  decide +kernel

/-- It is spent there. -/
theorem spends_farRaw : Spends sampleHash sampleRoot farRaw sampleTx farWitness := by
  have hleaf : Leaf.new 0x01 [0x02] "" = .ok ⟨0x01, [0x02], ""⟩ := by decide
  have hsize := farRaw_facts.1
  rw [farRaw, List.length_cons] at hsize
  refine ⟨decodeHcaTx_hcaTxFields hleaf ?_, farRaw_facts.2⟩
  show _ < 2 ^ 64
  omega

/-- On the narrow target the same bytes are no spend. -/
theorem targets_accept_same_spends_sample :
    ¬ ∃ (tx : TxMessage) (w : HCAWitness .usize32), Spends sampleHash sampleRoot farRaw tx w := by
  have hsize : farRaw.length ≤ sliceMax := farRaw_facts.1.trans (by decide)
  rw [((targets_accept_same_spends sampleRoot hsize).2 _ _ spends_farRaw).1]
  decide

end Hca.Analysis
