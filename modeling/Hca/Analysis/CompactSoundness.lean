import Hca.Analysis.CompactProofs
import Hca.Analysis.Spends

set_option autoImplicit false

/-!
# Compact sets that are accepted

A compact set can come from anywhere. If it is accepted against the root of a tree, then its
entries open leaves of the tree, and with indices of leaves they expand to the proofs that the
tree makes. The set that the tree makes of the same indices has the smallest table.
-/

namespace Hca.Analysis

open Hca.Library Hca.Model Hca.Program Hca.Interface

variable {t : Target} {keccak256 : List U8 → Digest}

/-! ## Entries -/

/-- A set is accepted for as many leaf hashes as it has entries. -/
theorem length_of_verifyAll {C : CompactProofSet t} {leafHashes : List Digest}
    {authRoot : Digest} {valid : Bool} (h : C.verifyAll keccak256 leafHashes authRoot = .ok valid) :
    leafHashes.length = C.proofs.length := by
  rw [CompactProofSet.verifyAll, bind_eq_ok] at h
  obtain ⟨_, hlen, -⟩ := h
  simpa using hlen

/-- What is hashed for one entry is among what is hashed for the set. -/
theorem entry_subset_setInputs {C : CompactProofSet t} {ls : List Leaf} {k : ℕ} {l : Leaf}
    {p : MerkleProof t} (hl : ls[k]? = some l) (hp : C.expand k = .ok p) :
    [l.hashInput] ++ verifyInputs keccak256 (l.hash keccak256) p ⊆ setInputs keccak256 C ls := by
  have hitem : (l.hash keccak256, k) ∈ (ls.map (Leaf.hash keccak256)).zipIdx := by
    rw [List.mem_zipIdx_iff_getElem?, List.getElem?_map, hl]
    rfl
  have hentry : entryInputs keccak256 C (l.hash keccak256, k) =
      verifyInputs keccak256 (l.hash keccak256) p := by
    rw [entryInputs, hp]
  refine List.append_subset.mpr ⟨?_, ?_⟩
  · intro input hinput
    rw [List.mem_singleton.mp hinput]
    exact List.mem_append_left _ (List.mem_map_of_mem (List.mem_of_getElem? hl))
  · intro input hinput
    exact List.mem_append_right _ (List.mem_flatMap.mpr ⟨_, hitem, hentry ▸ hinput⟩)

/-- The entries of an accepted set open leaves of the tree. -/
theorem entry_of_verifyAll {T : MerkleTree} (hT : Built keccak256 T) {authRoot : Digest}
    (hroot : T.authRoot = .ok authRoot) {C : CompactProofSet t} {ls : List Leaf}
    (hcoll : NoCollision keccak256 (treeInputs T ++ setInputs keccak256 C ls))
    (h : C.verifyAll keccak256 (ls.map (Leaf.hash keccak256)) authRoot = .ok true) {k : ℕ}
    {l : Leaf} (hl : ls[k]? = some l) :
    ∃ p, C.expand k = .ok p ∧ p.siblings.length = T.depth ∧
      (∃ l', T.leaves[min (p.leafIndex.toNat % 2 ^ T.depth) (T.leaves.length - 1)]? = some l' ∧
        l.version = l'.version ∧ l.script = l'.script) ∧
      (p.leafIndex.toNat < T.leaves.length → T.proof p.leafIndex = .ok p) := by
  obtain ⟨p, hp, hverify⟩ := (verifyAll_eq_ok_true (length_of_verifyAll h)).mp h k
    (l.hash keccak256) (by rw [List.getElem?_map, hl, Option.map_some])
  have hcoll' : NoCollision keccak256
      (treeInputs T ++ [l.hashInput] ++ verifyInputs keccak256 (l.hash keccak256) p) := by
    apply noCollision_mono hcoll
    rw [List.append_assoc]
    exact List.append_subset.mpr ⟨List.subset_append_left _ _,
      List.Subset.trans (entry_subset_setInputs hl hp) (List.subset_append_right _ _)⟩
  obtain ⟨hdepth, -, hleaf⟩ := hT.opening_of_verify hroot hcoll' hverify
  exact ⟨p, hp, hdepth, hleaf, hT.proof_of_verify hroot hcoll' hverify⟩

/-! ## Tables -/

/-- A sibling of an entry that expands is in the table. -/
theorem siblings_subset_of_expand {C : CompactProofSet t} {k : ℕ} {p : MerkleProof t}
    (h : C.expand k = .ok p) : p.siblings ⊆ C.siblings := by
  obtain ⟨entry, -, -, hsiblings⟩ := expand_eq_ok.mp h
  intro s hs
  obtain ⟨i, hi, rfl⟩ := List.getElem_of_mem hs
  obtain ⟨j, -, hj⟩ := forall₂_getElem? hsiblings.flip (List.getElem?_eq_getElem hi)
  exact List.mem_of_getElem? hj

/-- A table without duplicates and unused entries is no larger than the table of a set that
expands to the same proofs. -/
theorem table_le_of_expand {C C' : CompactProofSet t} (hnodup : C'.siblings.Nodup)
    (hused : ∀ j < C'.siblings.length, ∃ entry ∈ C'.proofs, j ∈ entry.2)
    (hexpand : ∀ k < C'.proofs.length, ∃ p, C'.expand k = .ok p ∧ C.expand k = .ok p) :
    C'.siblings.length ≤ C.siblings.length := by
  apply (List.Nodup.subperm hnodup _).length_le
  intro s hs
  obtain ⟨j, hj, rfl⟩ := List.getElem_of_mem hs
  obtain ⟨entry, hentry, hmem⟩ := hused j hj
  obtain ⟨k, hk, rfl⟩ := List.getElem_of_mem hentry
  obtain ⟨p, hp', hp⟩ := hexpand k hk
  obtain ⟨entry, hget, -, hsiblings⟩ := expand_eq_ok.mp hp'
  rw [List.getElem?_eq_getElem hk, Option.some.injEq] at hget
  subst hget
  obtain ⟨i, hi, hij⟩ := List.getElem_of_mem hmem
  obtain ⟨s, hs, hsib⟩ := forall₂_getElem? hsiblings (List.getElem?_eq_getElem hi)
  rw [hij, List.getElem?_eq_getElem hj, Option.some.injEq] at hsib
  rw [hsib]
  exact siblings_subset_of_expand hp (List.mem_of_getElem? hs)

/-! ## Accepted sets -/

/-- The proofs that a tree makes for the entries of a set with indices of leaves. -/
theorem Built.exists_proofs {T : MerkleTree} (hT : Built keccak256 T)
    {indices : List (Usize t)} (h : ∀ i ∈ indices, i.toNat < T.leaves.length) :
    ∃ ps, T.proofs indices = .ok ps := by
  obtain ⟨ps, hps, -⟩ := exists_mapM_eq_ok (f := T.proof) (Q := fun _ => True)
    fun i hi => ⟨_, hT.proof_eq_ok (h i hi), trivial⟩
  exact ⟨ps, hps⟩

/-- Every compact set that is accepted for some leaves against the root of a tree opens leaves
of the tree. If its indices are those of leaves, the tree makes a set for them that expands in
the same way, and whose table is not larger.
SOURCE: merkle.rs:114-145, merkle.rs:268-329 -/
theorem accepted_set_is_of_tree {leaves ls : List Leaf} {T : MerkleTree} {authRoot : Digest}
    {C : CompactProofSet t} (hnew : MerkleTree.new t keccak256 leaves = .ok T)
    (hroot : T.authRoot = .ok authRoot)
    (hcoll : NoCollision keccak256 (treeInputs T ++ setInputs keccak256 C ls))
    (h : C.verifyAll keccak256 (ls.map (Leaf.hash keccak256)) authRoot = .ok true) :
    (∀ k l, ls[k]? = some l → ∃ p, C.expand k = .ok p ∧ p.siblings.length = T.depth ∧
      (∃ l', leaves[min (p.leafIndex.toNat % 2 ^ T.depth) (leaves.length - 1)]? = some l' ∧
        l.version = l'.version ∧ l.script = l'.script) ∧
      (p.leafIndex.toNat < leaves.length → T.proof p.leafIndex = .ok p)) ∧
    ((∀ entry ∈ C.proofs, entry.1.toNat < leaves.length) →
      ∃ C', T.compactProofs (C.proofs.map Prod.fst) = .ok C' ∧
        C'.proofs.length = C.proofs.length ∧
        (∀ k < C.proofs.length, ∃ p, C'.expand k = .ok p ∧ C.expand k = .ok p) ∧
        C'.siblings.length ≤ C.siblings.length) := by
  obtain ⟨rfl, hT⟩ := new_built hnew
  have hlen := length_of_verifyAll h
  rw [List.length_map] at hlen
  refine ⟨fun k l hl => entry_of_verifyAll hT hroot hcoll h hl, ?_⟩
  intro hindices
  obtain ⟨ps, hps⟩ := hT.exists_proofs (List.forall_mem_map.mpr hindices)
  obtain ⟨C', hC', hrefers, hnodup, hused⟩ := compactProofs_eq_ok hps
  have hps' := mapM_eq_ok.mp hps
  have hlen' : C'.proofs.length = C.proofs.length := by
    rw [hrefers.length_eq, ← hps'.length_eq, List.length_map]
  have hexpand : ∀ k < C.proofs.length, ∃ p, C'.expand k = .ok p ∧ C.expand k = .ok p := by
    intro k hk
    obtain ⟨p, hp, -, -, hproof⟩ :=
      entry_of_verifyAll hT hroot hcoll h (List.getElem?_eq_getElem (hlen.symm ▸ hk))
    obtain ⟨entry, hentry, hindex, -⟩ := expand_eq_ok.mp hp
    obtain ⟨p', hp', hproof'⟩ := forall₂_getElem? hps' (k := k) (x := p.leafIndex)
      (by rw [List.getElem?_map, hentry, hindex, Option.map_some])
    have hlt : p.leafIndex.toNat < T.leaves.length :=
      hindex ▸ hindices entry (List.mem_of_getElem? hentry)
    obtain rfl := Except.ok.inj (hproof'.symm.trans (hproof hlt))
    exact ⟨p', expand_of_refers hrefers hp', hp⟩
  exact ⟨C', hC', hlen', hexpand,
    table_le_of_expand hnodup hused fun k hk => hexpand k (hlen' ▸ hk)⟩

/-- The last leaf of the sample tree, in a set that has more in its table than it uses. -/
def lastLeafSet : CompactProofSet .usize64 where
  siblings := lastLeaf.hash sampleHash :: (lastLeafProof 2).siblings
  proofs := [(2, [1, 2])]

/-- The one entry of the sample set expands to the proof of the last leaf. -/
theorem expand_lastLeafSet : lastLeafSet.expand 0 = .ok (lastLeafProof 2) := rfl

/-- The sample set is accepted for the last leaf. -/
theorem verifyAll_lastLeafSet :
    lastLeafSet.verifyAll sampleHash ([lastLeaf].map (Leaf.hash sampleHash)) sampleRoot =
      .ok true := by
  rw [verifyAll_eq_ok_true rfl]
  rintro (_ | k) leafHash hget
  · obtain rfl := Option.some.inj hget
    exact ⟨_, expand_lastLeafSet, acceptsLastLeaf_two.2⟩
  · cases hget

/-- Checking it hashes nothing that collides. -/
theorem noCollision_lastLeafSet : NoCollision sampleHash
    (treeInputs sampleTree ++ setInputs sampleHash lastLeafSet [lastLeaf]) := by
  have hinputs : setInputs sampleHash lastLeafSet [lastLeaf] = [lastLeaf.hashInput] ++
      (verifyInputs sampleHash (lastLeaf.hash sampleHash) (lastLeafProof 2) ++ []) := rfl
  rw [hinputs, List.append_nil, ← List.append_assoc]
  exact acceptsLastLeaf_two.1

/-- The sample set expands as the tree's own compact set does, which is no larger. -/
theorem accepted_set_is_of_tree_sample :
    ∃ C', sampleTree.compactProofs (lastLeafSet.proofs.map Prod.fst) = .ok C' ∧
      C'.proofs.length = lastLeafSet.proofs.length ∧
      (∀ k < lastLeafSet.proofs.length, ∃ p, C'.expand k = .ok p ∧ lastLeafSet.expand k = .ok p) ∧
      C'.siblings.length ≤ lastLeafSet.siblings.length :=
  (accepted_set_is_of_tree new_sampleLeaves authRoot_sampleTree noCollision_lastLeafSet
    verifyAll_lastLeafSet).2 (by decide)

end Hca.Analysis
