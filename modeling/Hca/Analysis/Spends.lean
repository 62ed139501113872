import Hca.Analysis.MerkleSoundness
import Hca.Analysis.TransactionRoundTrip
import Hca.Interface.Spends

set_option autoImplicit false

/-!
# Spends from an account

A policy is built into a tree, a leaf is proved, signed for and sent; what arrives is checked
against the root. Every leaf of the policy can be spent in this way, nothing but a leaf of
the policy can, and a signature is good for one transaction, one leaf and one proof.
-/

namespace Hca.Analysis

open Hca.Library Hca.Model Hca.Program Hca.Interface
open HashTree (path)

variable {t : Target} {keccak256 : List U8 → Digest}

/-! ## Hashed byte strings -/

/-- Fewer inputs collide no more. -/
theorem noCollision_mono {inputs inputs' : List (List U8)} (h : NoCollision keccak256 inputs')
    (hsub : inputs ⊆ inputs') : NoCollision keccak256 inputs :=
  fun a ha b hb => h a (hsub ha) b (hsub hb)

/-- What `verify` hashes for a spend, with the tree and the leaf, is among the byte strings
of the tree and of the spend. -/
theorem verify_subset_spendInputs (T : MerkleTree) (tx : TxMessage) (w : HCAWitness t) :
    treeInputs T ++ [(revealedLeaf w).hashInput] ++
        verifyInputs keccak256 ((revealedLeaf w).hash keccak256) w.merkleProof ⊆
      treeInputs T ++ spendInputs keccak256 tx w := by
  intro input hinput
  simp only [spendInputs, List.mem_append] at hinput ⊢
  tauto

/-- The calldata of a decoded transaction can be counted by a `u64`. -/
theorem length_data_of_decoded {raw : List U8} {tx : TxMessage} {w : HCAWitness t}
    (h : decodeHcaTx t raw = .ok (tx, w)) : tx.data.length < 2 ^ 64 := by
  obtain ⟨core, s, -, -, payload, hpayload, -⟩ := decodeHcaTx_eq_ok.mp h
  obtain ⟨txPart, htx, _, -, -⟩ := Language.mem_mul.mp hpayload
  have hdata : ∃ x, x ∈ bytesWord t tx.data := by
    unfold transactionWord at htx
    simp only [Language.mem_mul] at htx
    obtain ⟨_, -, _, ⟨_, -, _, ⟨_, -, _, ⟨_, -, _, ⟨_, -, _, ⟨_, -, _, ⟨_, -, _, ⟨_, -, _,
      ⟨_, -, x, hx, -⟩, -⟩, -⟩, -⟩, -⟩, -⟩, -⟩, -⟩, -⟩ := htx
    exact ⟨x, hx⟩
  obtain ⟨x, rfl, hfit⟩ := hdata
  have hle := (length_encodeBytes_bounds (t := t) tx.data).2
  exact (hle.trans_lt hfit).trans_le (Nat.pow_le_pow_right (by decide) t.bits_le)

/-- A signing hash gives back the transaction and the hash of the leaf. -/
theorem spendHash_inj {inputs : List (List U8)} (hcoll : NoCollision keccak256 inputs)
    {tx tx' : TxMessage} {w w' : HCAWitness t} (hdata : tx.data.length < 2 ^ 64)
    (hdata' : tx'.data.length < 2 ^ 64) (hmem : signingInput keccak256 tx w ∈ inputs)
    (hmem' : signingInput keccak256 tx' w' ∈ inputs)
    (h : spendHash keccak256 tx w = spendHash keccak256 tx' w') :
    tx = tx' ∧ (revealedLeaf w).hash keccak256 = (revealedLeaf w').hash keccak256 := by
  have hinput := hcoll _ hmem _ hmem' h
  exact signingData_inj hdata hdata' (taggedInput_inj hinput).2

/-! ## Proofs of spends -/

namespace Built

variable {T : MerkleTree} (hT : Built keccak256 T)

include hT

/-- The leaf behind a padded position determines the position of a leaf of the tree. -/
theorem position_eq_of_hash_eq {i j : ℕ} {l m : Leaf}
    (hl : T.leaves[min i (T.leaves.length - 1)]? = some l)
    (hm : T.leaves[min j (T.leaves.length - 1)]? = some m)
    (h : l.hash keccak256 = m.hash keccak256) :
    min i (T.leaves.length - 1) = min j (T.leaves.length - 1) := by
  have hpos : 0 < T.leaves.length := List.length_pos_iff.mpr hT.leaves_ne
  apply (List.getElem?_inj (by rw [List.length_map]; omega) hT.nodup).mp
  rw [List.getElem?_map, List.getElem?_map, hl, hm, Option.map_some, Option.map_some, h]

/-- The index of a leaf is its own padded position. -/
theorem padded_index {i : ℕ} (hi : i < T.leaves.length) :
    min (i % 2 ^ T.depth) (T.leaves.length - 1) = i := by
  rw [Nat.mod_eq_of_lt (hi.trans_le hT.length_le)]
  omega

/-- An accepted proof with the index of a leaf is the one that the tree makes for it. -/
theorem proof_of_verify {l : Leaf} {p : MerkleProof t} {authRoot : Digest}
    (hroot : T.authRoot = .ok authRoot)
    (hcoll : NoCollision keccak256
      (treeInputs T ++ [l.hashInput] ++ verifyInputs keccak256 (l.hash keccak256) p))
    (hverify : MerkleTree.verify keccak256 (l.hash keccak256) p authRoot = .ok true)
    (hindex : p.leafIndex.toNat < T.leaves.length) : T.proof p.leafIndex = .ok p := by
  obtain ⟨-, hsiblings, -⟩ := hT.opening_of_verify hroot hcoll hverify
  rw [Nat.mod_eq_of_lt (hindex.trans_le hT.length_le)] at hsiblings
  rw [hT.proof_eq_ok hindex, ← hsiblings]

end Built

/-! ## The way of a spend -/

/-- A leaf with the proof that the tree makes for it, on the wire with a signature, is a
spend. -/
theorem Built.spends_of_proof {T : MerkleTree} (hT : Built keccak256 T) {i : Usize t}
    {p : MerkleProof t} {l : Leaf} {authRoot : Digest} {tx : TxMessage} {raw signature : List U8}
    (hget : T.leaves[i.toNat]? = some l) (hp : T.proof i = .ok p)
    (hroot : T.authRoot = .ok authRoot)
    (hleaf : Leaf.new l.version l.script l.description = .ok l)
    (hraw : encodeHcaTx t tx ⟨l.version, l.script, p, signature⟩ = .ok raw)
    (hsize : raw.length ≤ t.isizeMax) :
    Spends keccak256 authRoot raw tx ⟨l.version, l.script, p, signature⟩ := by
  have hi : i.toNat < T.leaves.length := (List.getElem?_eq_some_iff.mp hget).1
  rw [hT.proof_eq_ok hi, Except.ok.injEq] at hp
  rw [hT.authRoot_eq, Except.ok.injEq] at hroot
  obtain ⟨-, rfl⟩ := encodeHcaTx_eq_ok.mp hraw
  subst hp hroot
  have hlt := t.isizeMax_lt
  rw [List.length_cons] at hsize
  -- the hash of a leaf does not cover its description
  have hverify := hT.verify_path (t := t) hget
  exact ⟨decodeHcaTx_hcaTxFields (leafNew_description hleaf "") (by omega), hverify⟩

/-- Every leaf of a policy can be spent: it is proved, signed for and encoded, and what
arrives decodes to the same transaction and witness, is accepted against the root, and is
signed over the hash of that leaf.
SOURCE: merkle.rs:165-293, witness.rs:96-114, rlp.rs:146-191, rlp.rs:362-503 -/
theorem spend_survives_wire {leaves : List Leaf} {T : MerkleTree} {i : Usize t} {l : Leaf}
    {signature : List U8} (hnew : MerkleTree.new t keccak256 leaves = .ok T)
    (hget : leaves[i.toNat]? = some l)
    (hleaf : Leaf.new l.version l.script l.description = .ok l) (hsignature : signature ≠ [])
    (tx : TxMessage) :
    ∃ authRoot p w raw, T.authRoot = .ok authRoot ∧ T.proof i = .ok p ∧
      (HCAWitness.build l p).attachSignature signature = .ok w ∧
      encodeHcaTx t tx w = .ok raw ∧
      (raw.length ≤ t.isizeMax → Spends keccak256 authRoot raw tx w) ∧
      spendHash keccak256 tx w = tx.signingHash keccak256 (l.hash keccak256) := by
  obtain ⟨rfl, hT⟩ := new_built hnew
  have hp := hT.proof_eq_ok (List.getElem?_eq_some_iff.mp hget).1
  have hattach : ∀ p : MerkleProof t, (HCAWitness.build l p).attachSignature signature =
      .ok ⟨l.version, l.script, p, signature⟩ := by
    intro p
    rw [HCAWitness.attachSignature, rejectIf_neg hsignature, ok_bind]
    rfl
  have hraw : ∀ p : MerkleProof t, encodeHcaTx t tx ⟨l.version, l.script, p, signature⟩ =
      .ok (hcaTxType :: encodeList t (hcaTxFields t tx ⟨l.version, l.script, p, signature⟩)) :=
    fun p => encodeHcaTx_eq_ok.mpr ⟨by simpa [HCAWitness.isSigned] using hsignature, rfl⟩
  exact ⟨_, _, _, _, hT.authRoot_eq, hp, hattach _, hraw _,
    hT.spends_of_proof hget hp hT.authRoot_eq hleaf (hraw _), rfl⟩

/-- The middle leaf of the sample tree is signed, sent and accepted. -/
theorem spend_survives_wire_sample :
    ∃ authRoot p w raw, sampleTree.authRoot = .ok authRoot ∧
      sampleTree.proof (1 : Usize .usize64) = .ok p ∧
      (HCAWitness.build ⟨1, [0x01], "b"⟩ p).attachSignature [0x01] = .ok w ∧
      encodeHcaTx .usize64 sampleTx w = .ok raw ∧
      (raw.length ≤ Target.usize64.isizeMax → Spends sampleHash authRoot raw sampleTx w) ∧
      spendHash sampleHash sampleTx w =
        sampleTx.signingHash sampleHash (Leaf.hash sampleHash ⟨1, [0x01], "b"⟩) :=
  spend_survives_wire new_sampleLeaves rfl (by decide) (by decide) sampleTx

/-- The witness for the last leaf of the sample tree, with a given signature. -/
def lastLeafWitness (signature : List U8) : HCAWitness .usize64 :=
  ⟨0x01, [0x02], lastLeafProof 2, signature⟩

/-- The sample transaction with this witness, on the wire. -/
def lastLeafRaw (signature : List U8) : List U8 :=
  hcaTxType :: encodeList .usize64
    (hcaTxFields .usize64 sampleTx (lastLeafWitness signature))

/-- Two signed forms of it are short, and hash without collision. -/
theorem lastLeafRaw_facts :
    (∀ b ∈ [(0x01 : U8), 0x02], (lastLeafRaw [b]).length ≤ 1000) ∧
      NoCollision sampleHash (treeInputs sampleTree ++
        spendInputs sampleHash sampleTx (lastLeafWitness [0x01]) ++
        spendInputs sampleHash sampleTx (lastLeafWitness [0x02])) := by
  decide +kernel

/-- The spend of the last leaf hashes nothing that collides with the tree. -/
theorem noCollision_lastLeafRaw : NoCollision sampleHash
    (treeInputs sampleTree ++ spendInputs sampleHash sampleTx (lastLeafWitness [0x01])) :=
  noCollision_mono lastLeafRaw_facts.2 (List.subset_append_left _ _)

/-- The sample bytes are spends from the sample account. -/
theorem spends_lastLeafRaw {b : U8} (hb : b ∈ [(0x01 : U8), 0x02]) :
    Spends sampleHash sampleRoot (lastLeafRaw [b]) sampleTx (lastLeafWitness [b]) := by
  have hleaf : Leaf.new 0x01 [0x02] "" = .ok ⟨0x01, [0x02], ""⟩ := by decide
  have hsize := lastLeafRaw_facts.1 b hb
  rw [lastLeafRaw, List.length_cons] at hsize
  refine ⟨decodeHcaTx_hcaTxFields hleaf ?_, acceptsLastLeaf_two.2⟩
  show _ < 2 ^ 64
  omega

/-- Nothing but a leaf of the policy can be spent: the revealed leaf is an admissible one of
the tree, and with the index of a leaf it is that leaf, revealed with the proof that the
tree makes for it.
SOURCE: merkle.rs:235-293, rlp.rs:362-503 -/
theorem spend_in_policy {leaves : List Leaf} {T : MerkleTree} {authRoot : Digest}
    {raw : List U8} {tx : TxMessage} {w : HCAWitness t}
    (hnew : MerkleTree.new t keccak256 leaves = .ok T) (hroot : T.authRoot = .ok authRoot)
    (hcoll : NoCollision keccak256 (treeInputs T ++ spendInputs keccak256 tx w))
    (h : Spends keccak256 authRoot raw tx w) :
    Admissible w.leafVersion w.leafScript ∧
      (∃ l ∈ leaves, l.version = w.leafVersion ∧ l.script = w.leafScript) ∧
      (w.merkleProof.leafIndex.toNat < leaves.length →
        T.proof w.merkleProof.leafIndex = .ok w.merkleProof ∧
          ∃ l, leaves[w.merkleProof.leafIndex.toNat]? = some l ∧
            l.version = w.leafVersion ∧ l.script = w.leafScript) := by
  obtain ⟨rfl, hT⟩ := new_built hnew
  have hcoll' := noCollision_mono hcoll (verify_subset_spendInputs T tx w)
  obtain ⟨-, -, l, hget, hversion, hscript⟩ := hT.opening_of_verify hroot hcoll' h.verified
  obtain ⟨core, s, -, hleaf, -⟩ := decodeHcaTx_eq_ok.mp h.decoded
  refine ⟨leafNew_isOk_iff.mp hleaf, ⟨l, List.mem_of_getElem? hget, hversion.symm, hscript.symm⟩,
    ?_⟩
  intro hindex
  rw [hT.padded_index hindex] at hget
  exact ⟨hT.proof_of_verify hroot hcoll' h.verified hindex, l, hget, hversion.symm, hscript.symm⟩

/-- The proof in the spend of the last leaf is the one that the tree makes. -/
theorem spend_in_policy_sample :
    sampleTree.proof (2 : Usize .usize64) = .ok (lastLeafProof 2) :=
  ((spend_in_policy new_sampleLeaves authRoot_sampleTree noCollision_lastLeafRaw
    (spends_lastLeafRaw (by decide))).2.2 (by decide)).1

/-- A signature is good for one spend: spends with one signing hash have the same
transaction and reveal the same leaf, and with indices of leaves the same proof.
SOURCE: witness.rs:54-73, merkle.rs:268-293, rlp.rs:362-503 -/
theorem signing_hash_binds_spend {leaves : List Leaf} {T : MerkleTree} {authRoot : Digest}
    {raw raw' : List U8} {tx tx' : TxMessage} {w w' : HCAWitness t}
    (hnew : MerkleTree.new t keccak256 leaves = .ok T) (hroot : T.authRoot = .ok authRoot)
    (hcoll : NoCollision keccak256
      (treeInputs T ++ spendInputs keccak256 tx w ++ spendInputs keccak256 tx' w'))
    (h : Spends keccak256 authRoot raw tx w) (h' : Spends keccak256 authRoot raw' tx' w')
    (hsigned : spendHash keccak256 tx w = spendHash keccak256 tx' w') :
    tx = tx' ∧ w.leafVersion = w'.leafVersion ∧ w.leafScript = w'.leafScript ∧
      (w.merkleProof.leafIndex.toNat < leaves.length →
        w'.merkleProof.leafIndex.toNat < leaves.length → w.merkleProof = w'.merkleProof) := by
  obtain ⟨rfl, hT⟩ := new_built hnew
  have hsub : treeInputs T ++ spendInputs keccak256 tx w ⊆
      treeInputs T ++ spendInputs keccak256 tx w ++ spendInputs keccak256 tx' w' :=
    List.subset_append_left _ _
  have hsub' : treeInputs T ++ spendInputs keccak256 tx' w' ⊆
      treeInputs T ++ spendInputs keccak256 tx w ++ spendInputs keccak256 tx' w' := by
    rw [List.append_assoc]
    exact List.append_subset.mpr
      ⟨List.subset_append_left _ _, fun input hinput => by simp [hinput]⟩
  have hcoll₁ := noCollision_mono (noCollision_mono hcoll hsub) (verify_subset_spendInputs T tx w)
  have hcoll₂ :=
    noCollision_mono (noCollision_mono hcoll hsub') (verify_subset_spendInputs T tx' w')
  -- the signed messages give back the transactions and the leaf hashes
  obtain ⟨htx, hhash⟩ := spendHash_inj hcoll (length_data_of_decoded h.decoded)
    (length_data_of_decoded h'.decoded) (by simp [spendInputs]) (by simp [spendInputs]) hsigned
  obtain ⟨-, -, l, hget, hversion, hscript⟩ := hT.opening_of_verify hroot hcoll₁ h.verified
  obtain ⟨-, -, l', hget', hversion', hscript'⟩ := hT.opening_of_verify hroot hcoll₂ h'.verified
  have hleaf : (revealedLeaf w).hashInput = (revealedLeaf w').hashInput :=
    hcoll _ (by simp [spendInputs]) _ (by simp [spendInputs]) hhash
  obtain ⟨hv, hs⟩ := leafInput_inj hleaf
  refine ⟨htx, hv, hs, ?_⟩
  intro hindex hindex'
  have hpos := hT.position_eq_of_hash_eq hget hget' (by
    rw [Leaf.hash, Leaf.hash, ← hversion, ← hscript, ← hversion', ← hscript']
    exact hhash)
  rw [hT.padded_index hindex, hT.padded_index hindex'] at hpos
  have hproof := hT.proof_of_verify hroot hcoll₁ h.verified hindex
  rw [BitVec.eq_of_toNat_eq hpos,
    hT.proof_of_verify hroot hcoll₂ h'.verified hindex', Except.ok.injEq] at hproof
  exact hproof.symm

/-- Two signatures over one hash reveal the last leaf with one proof. -/
theorem signing_hash_binds_spend_sample :
    (lastLeafWitness [0x01]).merkleProof = (lastLeafWitness [0x02]).merkleProof :=
  (signing_hash_binds_spend new_sampleLeaves authRoot_sampleTree lastLeafRaw_facts.2
    (spends_lastLeafRaw (by decide)) (spends_lastLeafRaw (by decide)) rfl).2.2.2
    (by decide) (by decide)

end Hca.Analysis
