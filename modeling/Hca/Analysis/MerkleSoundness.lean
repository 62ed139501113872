import Hca.Analysis.MerkleProofs
import Hca.Analysis.DomainSeparation

set_option autoImplicit false

/-!
# What an accepted proof says

Without a collision among the byte strings that were hashed, an accepted proof is the
opening of one padded position of the tree, and the leaf it was accepted for is the leaf
at that position. The tags decide where the two computations could be out of step: a leaf
preimage is no branch preimage, so a proof that is too short or too long is not accepted.
Two trees with one root are then trees over the same policy.
-/

namespace Hca.Analysis

open Hca.Library Hca.Model Hca.Program Hca.Interface
open HashTree (level root path sibling ordered climb climbPairs treePairs)

/-! ## Hashed byte strings -/

/-- What is hashed of a level is its pairs of neighbours. -/
theorem levelInputs_levelList (f : Digest → Digest → Digest) (v : ℕ → Digest) (m k : ℕ) :
    levelInputs (levelList f v (2 * m) k) = (List.range m).map fun i =>
      branchInput (level f k v (2 * i)) (level f k v (2 * i + 1)) := by
  unfold levelList
  generalize level f k v = u
  induction m generalizing u with
  | zero => rfl
  | succ m ih =>
    rw [map_range_two_mul_succ, levelInputs, ih, List.range_succ_eq_map, List.map_cons,
      List.map_map]
    rfl

/-- The pairs for which `branch_hash` was called with one of the given byte strings. -/
def hashedPairs (inputs : List (List U8)) : Set (Digest × Digest) :=
  {p | branchInput p.1 p.2 ∈ inputs}

/-- Where no inputs collide, a branch hash tells the pair it was made of. -/
theorem branchHash_injOn {keccak256 : List U8 → Digest} {inputs : List (List U8)}
    (h : NoCollision keccak256 inputs) :
    Set.InjOn (fun p : Digest × Digest => branchHash keccak256 p.1 p.2) (hashedPairs inputs) := by
  intro p hp q hq hpq
  obtain ⟨hleft, hright⟩ := branchInput_inj (h _ hp _ hq hpq)
  exact Prod.ext hleft hright

/-- A hashed leaf is not a hashed branch. -/
theorem leafHash_ne_branchHash {keccak256 : List U8 → Digest} {inputs : List (List U8)}
    (h : NoCollision keccak256 inputs) {l : Leaf} (hl : l.hashInput ∈ inputs) :
    ∀ p ∈ hashedPairs inputs, l.hash keccak256 ≠ branchHash keccak256 p.1 p.2 := by
  intro p hp heq
  exact leafInput_ne_branchInput l p.1 p.2 (h _ hl _ hp heq)

/-- Hashed leaves with one hash have one version and one script. -/
theorem leaf_eq_of_hash_eq {keccak256 : List U8 → Digest} {inputs : List (List U8)}
    (h : NoCollision keccak256 inputs) {l l' : Leaf} (hl : l.hashInput ∈ inputs)
    (hl' : l'.hashInput ∈ inputs) (heq : l.hash keccak256 = l'.hash keccak256) :
    l.version = l'.version ∧ l.script = l'.script :=
  leafInput_inj (h _ hl _ hl' heq)

/-- Every pair on the way up is hashed by `verify`. -/
theorem climbPairs_subset_climbInputs (keccak256 : List U8 → Digest) (i : ℕ) (a : Digest)
    (s : List Digest) :
    ∀ p ∈ climbPairs (branchHash keccak256) i a s,
      branchInput p.1 p.2 ∈ climbInputs keccak256 (a, i) s := by
  induction s generalizing i a with
  | nil => simp [climbPairs]
  | cons b s ih =>
    intro p hp
    rw [climbPairs, List.mem_cons] at hp
    rw [climbInputs, verifyRound_eq]
    rcases hp with rfl | hp
    · apply List.mem_cons.mpr
      left
      unfold ordered
      split <;> rfl
    · exact List.mem_cons_of_mem _ (ih _ _ p hp)

namespace Built

variable {keccak256 : List U8 → Digest} {T : MerkleTree} (hT : Built keccak256 T)

include hT

/-- Every pair of the tree was hashed by the constructor. -/
theorem treePairs_subset_treeInputs :
    ∀ p ∈ treePairs (branchHash keccak256) T.depth (paddedHash keccak256 T.leaves),
      branchInput p.1 p.2 ∈ treeInputs T := by
  intro p hp
  obtain ⟨k, hk, i, hi, rfl⟩ := (HashTree.mem_treePairs_iff _).mp hp
  have hwidth : 2 ^ (T.depth - k) = 2 * 2 ^ (T.depth - (k + 1)) := by
    rw [← pow_succ', show T.depth - (k + 1) + 1 = T.depth - k by omega]
  have hlevel : levelList (branchHash keccak256) (paddedHash keccak256 T.leaves)
      (2 ^ (T.depth - k)) k ∈ T.nodes.take T.depth := by
    rw [hT.nodes_eq, List.mem_iff_getElem?]
    refine ⟨k, ?_⟩
    rw [List.getElem?_take_of_lt hk, treeLevels_getElem? _ _ hk.le]
  rw [hwidth] at hlevel
  apply List.mem_append_right
  rw [List.mem_flatMap]
  refine ⟨_, hlevel, ?_⟩
  rw [levelInputs_levelList, List.mem_map]
  exact ⟨i, List.mem_range.mpr hi, rfl⟩

omit hT in
/-- So was every leaf. -/
theorem hashInput_mem_treeInputs {l : Leaf} (hl : l ∈ T.leaves) :
    l.hashInput ∈ treeInputs T :=
  List.mem_append_left _ (List.mem_map_of_mem hl)

/-- The leaf behind a padded position. -/
theorem exists_padded (j : ℕ) :
    ∃ l ∈ T.leaves, T.leaves[min j (T.leaves.length - 1)]? = some l ∧
      paddedHash keccak256 T.leaves j = l.hash keccak256 := by
  obtain ⟨l, hl, hhash⟩ := paddedHash_eq keccak256 hT.leaves_ne j
  exact ⟨l, List.mem_of_getElem? hl, hl, hhash⟩

/-- No entry of the lowest level is a hashed branch. -/
theorem paddedHash_ne_branchHash {inputs : List (List U8)} (hcoll : NoCollision keccak256 inputs)
    (hsub : treeInputs T ⊆ inputs) (j : ℕ) :
    ∀ p ∈ hashedPairs inputs, paddedHash keccak256 T.leaves j ≠ branchHash keccak256 p.1 p.2 := by
  obtain ⟨l, hmem, -, hhash⟩ := hT.exists_padded j
  rw [hhash]
  exact leafHash_ne_branchHash hcoll (hsub (hashInput_mem_treeInputs hmem))

/-- A node of the opening of a position, read off the stored levels. -/
theorem path_eq_nodes {j : ℕ} (hj : j < 2 ^ T.depth) :
    ∀ k < T.depth,
      (path (branchHash keccak256) T.depth (paddedHash keccak256 T.leaves) j)[k]? =
        T.nodes[k]?.bind fun nodes => nodes[sibling (j / 2 ^ k)]? := by
  intro k hk
  have hpow : 2 ^ T.depth = 2 ^ k * 2 ^ (T.depth - k) := by
    rw [← pow_add, Nat.add_sub_cancel' hk.le]
  have hquot : j / 2 ^ k < 2 ^ (T.depth - k) := by
    rw [hpow] at hj
    exact Nat.div_lt_of_lt_mul hj
  have hsib : sibling (j / 2 ^ k) < 2 ^ (T.depth - k) := by
    obtain ⟨e, he⟩ : ∃ e, T.depth - k = e + 1 := ⟨T.depth - k - 1, by omega⟩
    rw [he] at hquot ⊢
    exact sibling_lt hquot
  rw [hT.nodes_getElem? hk.le hsib]
  exact HashTree.path_getElem? _ _ _ hk

/-- The hash at a position of a leaf is the hash of that leaf. -/
theorem map_hash_getElem? {j : ℕ} (hj : j < T.leaves.length) :
    (T.leaves.map (Leaf.hash keccak256))[j]? = some (paddedHash keccak256 T.leaves j) := by
  obtain ⟨l, hl, hhash⟩ := paddedHash_eq keccak256 hT.leaves_ne j
  rw [show min j (T.leaves.length - 1) = j by omega] at hl
  rw [List.getElem?_map, hl, Option.map_some, hhash]

/-- No two leaves of a built tree have one hash. -/
theorem paddedHash_injOn {i j : ℕ} (hi : i < T.leaves.length) (hj : j < T.leaves.length)
    (h : paddedHash keccak256 T.leaves i = paddedHash keccak256 T.leaves j) : i = j := by
  have hlen : i < (T.leaves.map (Leaf.hash keccak256)).length := by rwa [List.length_map]
  apply (List.getElem?_inj hlen hT.nodup).mp
  rw [hT.map_hash_getElem? hi, hT.map_hash_getElem? hj, h]

/-- An accepted proof is the opening of the padded position given by the low bits of its
index, and the leaf is the one at that position. -/
theorem opening_of_verify {t : Target} {l : Leaf} {p : MerkleProof t} {authRoot : Digest}
    (hroot : T.authRoot = .ok authRoot)
    (hcoll : NoCollision keccak256
      (treeInputs T ++ [l.hashInput] ++ verifyInputs keccak256 (l.hash keccak256) p))
    (hverify : MerkleTree.verify keccak256 (l.hash keccak256) p authRoot = .ok true) :
    p.siblings.length = T.depth ∧
      p.siblings = path (branchHash keccak256) T.depth (paddedHash keccak256 T.leaves)
        (p.leafIndex.toNat % 2 ^ T.depth) ∧
      ∃ l', T.leaves[min (p.leafIndex.toNat % 2 ^ T.depth) (T.leaves.length - 1)]? = some l' ∧
        l.version = l'.version ∧ l.script = l'.script := by
  obtain ⟨-, hclimb⟩ := verify_eq_ok_true.mp hverify
  rw [hT.authRoot_eq, Except.ok.injEq] at hroot
  rw [← hroot] at hclimb
  have hl : l.hashInput ∈ treeInputs T ++ [l.hashInput] ++
      verifyInputs keccak256 (l.hash keccak256) p := by simp
  have htree : treeInputs T ⊆ treeInputs T ++ [l.hashInput] ++
      verifyInputs keccak256 (l.hash keccak256) p := by
    intro input hinput
    exact List.mem_append_left _ (List.mem_append_left _ hinput)
  obtain ⟨hlen, hstart, hsiblings⟩ := HashTree.climb_eq_root (branchHash_injOn hcoll)
    (fun q hq => htree (hT.treePairs_subset_treeInputs q hq))
    (fun q hq => List.mem_append_right _ (climbPairs_subset_climbInputs keccak256 _ _ _ q hq))
    (fun j _ => hT.paddedHash_ne_branchHash hcoll htree j) (leafHash_ne_branchHash hcoll hl) hclimb
  refine ⟨hlen, hsiblings, ?_⟩
  obtain ⟨l', hmem, hget, hhash⟩ := hT.exists_padded (p.leafIndex.toNat % 2 ^ T.depth)
  rw [hhash] at hstart
  exact ⟨l', hget, leaf_eq_of_hash_eq hcoll hl (htree (hashInput_mem_treeInputs hmem)) hstart⟩

end Built

/-! ## Soundness -/

/-- An accepted proof has one sibling for each level of the tree, each of them the one
stored beside the ancestors of padded position `leaf_index mod 2 ^ depth`, and the leaf has
the version and the script of the leaf at that position.
SOURCE: merkle.rs:165-293 -/
theorem merkle_soundness {t : Target} {keccak256 : List U8 → Digest} {leaves : List Leaf}
    {T : MerkleTree} {l : Leaf} {p : MerkleProof t} {authRoot : Digest}
    (hnew : MerkleTree.new t keccak256 leaves = .ok T) (hroot : T.authRoot = .ok authRoot)
    (hcoll : NoCollision keccak256
      (treeInputs T ++ [l.hashInput] ++ verifyInputs keccak256 (l.hash keccak256) p))
    (hverify : MerkleTree.verify keccak256 (l.hash keccak256) p authRoot = .ok true) :
    p.siblings.length = T.depth ∧
      (∀ k < T.depth, p.siblings[k]? =
        T.nodes[k]?.bind fun nodes => nodes[sibling (p.leafIndex.toNat % 2 ^ T.depth / 2 ^ k)]?) ∧
      ∃ l', leaves[min (p.leafIndex.toNat % 2 ^ T.depth) (leaves.length - 1)]? = some l' ∧
        l.version = l'.version ∧ l.script = l'.script := by
  obtain ⟨rfl, hT⟩ := new_built hnew
  obtain ⟨hlen, hsiblings, hleaf⟩ := hT.opening_of_verify hroot hcoll hverify
  refine ⟨hlen, ?_, hleaf⟩
  intro k hk
  rw [hsiblings]
  exact hT.path_eq_nodes (Nat.mod_lt _ (by positivity)) k hk

/-- The last leaf of the sample tree. -/
def lastLeaf : Leaf := ⟨0x01, [0x02], "c"⟩

/-- The root of the sample tree. -/
def sampleRoot : Digest := (sampleTree.nodes.getLast?.bind List.head?).getD default

/-- The siblings of the last leaf, with a given index. -/
def lastLeafProof (i : Usize .usize64) : MerkleProof .usize64 where
  leafIndex := i
  siblings := [lastLeaf.hash sampleHash,
    branchHash sampleHash (Leaf.hash sampleHash ⟨0x01, [0x00], "a"⟩)
      (Leaf.hash sampleHash ⟨0x01, [0x01], "b"⟩)]

/-- The tree proves its last leaf with two siblings. -/
theorem proof_lastLeaf : sampleTree.proof (2 : Usize .usize64) = .ok (lastLeafProof 2) := rfl

/-- The tree accepts its last leaf under the index, and nothing that is hashed collides. -/
def AcceptsLastLeaf (i : Usize .usize64) : Prop :=
  NoCollision sampleHash (treeInputs sampleTree ++ [lastLeaf.hashInput] ++
      verifyInputs sampleHash (lastLeaf.hash sampleHash) (lastLeafProof i)) ∧
    MerkleTree.verify sampleHash (lastLeaf.hash sampleHash) (lastLeafProof i) sampleRoot =
      .ok true

/-- It does so under its own index, under that of the padding and under one above the depth. -/
theorem sampleTree_accepts : sampleTree.authRoot = .ok sampleRoot ∧
    AcceptsLastLeaf 2 ∧ AcceptsLastLeaf 3 ∧ AcceptsLastLeaf 6 := by
  unfold AcceptsLastLeaf
  decide +kernel

/-- The root of the sample tree is the last node that its constructor makes. -/
theorem authRoot_sampleTree : sampleTree.authRoot = .ok sampleRoot := sampleTree_accepts.1

/-- The last leaf is accepted with the proof that the tree makes for it. -/
theorem acceptsLastLeaf_two : AcceptsLastLeaf 2 := sampleTree_accepts.2.1

/-- The accepted proof of the last leaf has the siblings of its path in the sample tree. -/
theorem merkle_soundness_sample :
    (lastLeafProof 2).siblings.length = sampleTree.depth ∧
      (∀ k < sampleTree.depth, (lastLeafProof 2).siblings[k]? =
        sampleTree.nodes[k]?.bind fun nodes =>
          nodes[sibling ((lastLeafProof 2).leafIndex.toNat % 2 ^ sampleTree.depth / 2 ^ k)]?) ∧
      ∃ l', sampleLeaves[min ((lastLeafProof 2).leafIndex.toNat % 2 ^ sampleTree.depth)
          (sampleLeaves.length - 1)]? = some l' ∧
        lastLeaf.version = l'.version ∧ lastLeaf.script = l'.script :=
  merkle_soundness new_sampleLeaves authRoot_sampleTree acceptsLastLeaf_two.1
    acceptsLastLeaf_two.2

/-! ## The index -/

/-- The index of an accepted proof gives the position of the leaf once it is reduced to the
depth of the tree and cut off at the last leaf; an index of a leaf names that leaf. Two
accepted indices give one position, so at most one of them is the index of a leaf.
SOURCE: merkle.rs:186-203, merkle.rs:268-293 -/
theorem accepted_index {t : Target} {keccak256 : List U8 → Digest} {leaves : List Leaf}
    {T : MerkleTree} {l : Leaf} {p : MerkleProof t} {authRoot : Digest}
    (hnew : MerkleTree.new t keccak256 leaves = .ok T) (hroot : T.authRoot = .ok authRoot)
    (hcoll : NoCollision keccak256
      (treeInputs T ++ [l.hashInput] ++ verifyInputs keccak256 (l.hash keccak256) p))
    (hverify : MerkleTree.verify keccak256 (l.hash keccak256) p authRoot = .ok true) :
    (∃ l', leaves[min (p.leafIndex.toNat % 2 ^ T.depth) (leaves.length - 1)]? = some l' ∧
      l.version = l'.version ∧ l.script = l'.script) ∧
    (p.leafIndex.toNat < leaves.length → ∃ l', leaves[p.leafIndex.toNat]? = some l' ∧
      l.version = l'.version ∧ l.script = l'.script) ∧
    ∀ q : MerkleProof t,
      NoCollision keccak256
        (treeInputs T ++ [l.hashInput] ++ verifyInputs keccak256 (l.hash keccak256) q) →
      MerkleTree.verify keccak256 (l.hash keccak256) q authRoot = .ok true →
      min (q.leafIndex.toNat % 2 ^ T.depth) (leaves.length - 1) =
          min (p.leafIndex.toNat % 2 ^ T.depth) (leaves.length - 1) ∧
        (p.leafIndex.toNat < leaves.length → q.leafIndex.toNat < leaves.length →
          q.leafIndex = p.leafIndex) := by
  obtain ⟨rfl, hT⟩ := new_built hnew
  have hpos : 0 < T.leaves.length := List.length_pos_iff.mpr hT.leaves_ne
  obtain ⟨-, -, l', hget, hversion, hscript⟩ := hT.opening_of_verify hroot hcoll hverify
  -- the index of a leaf is its own padded position
  have hsmall : ∀ i < T.leaves.length, min (i % 2 ^ T.depth) (T.leaves.length - 1) = i := by
    intro i hi
    rw [Nat.mod_eq_of_lt (hi.trans_le hT.length_le)]
    omega
  refine ⟨⟨l', hget, hversion, hscript⟩, ?_, ?_⟩
  · intro hp
    rw [hsmall _ hp] at hget
    exact ⟨l', hget, hversion, hscript⟩
  · intro q hqcoll hq
    obtain ⟨-, -, m', hqget, hqversion, hqscript⟩ := hT.opening_of_verify hroot hqcoll hq
    have hhash : l'.hash keccak256 = m'.hash keccak256 := by
      rw [Leaf.hash, Leaf.hash, ← hversion, ← hscript, hqversion, hqscript]
    have hposition : min (q.leafIndex.toNat % 2 ^ T.depth) (T.leaves.length - 1) =
        min (p.leafIndex.toNat % 2 ^ T.depth) (T.leaves.length - 1) := by
      apply (List.getElem?_inj (by rw [List.length_map]; omega) hT.nodup).mp
      rw [List.getElem?_map, List.getElem?_map, hget, hqget, Option.map_some, Option.map_some,
        hhash]
    refine ⟨hposition, ?_⟩
    intro hp hq
    rw [hsmall _ hp, hsmall _ hq] at hposition
    exact BitVec.eq_of_toNat_eq hposition

/-- The index of the padding leads to the last leaf. -/
theorem accepted_index_sample :
    ∃ l', sampleLeaves[min ((lastLeafProof 3).leafIndex.toNat % 2 ^ sampleTree.depth)
        (sampleLeaves.length - 1)]? = some l' ∧
      lastLeaf.version = l'.version ∧ lastLeaf.script = l'.script :=
  have h := sampleTree_accepts.2.2.1
  (accepted_index new_sampleLeaves authRoot_sampleTree h.1 h.2).1

/-- The last of three leaves is accepted with its own index 2, with the index 3 of the
padding and with the index 6 above the depth, for one list of siblings. -/
theorem index_beyond_leaves_accepted :
    (MerkleTree.new .usize64 sampleHash sampleLeaves = .ok sampleTree ∧
      sampleTree.authRoot = .ok sampleRoot ∧ sampleLeaves.length = 3) ∧
    (NoCollision sampleHash (treeInputs sampleTree ++ [lastLeaf.hashInput] ++
        verifyInputs sampleHash (lastLeaf.hash sampleHash) (lastLeafProof 2)) ∧
      MerkleTree.verify sampleHash (lastLeaf.hash sampleHash) (lastLeafProof 2) sampleRoot =
        .ok true) ∧
    (NoCollision sampleHash (treeInputs sampleTree ++ [lastLeaf.hashInput] ++
        verifyInputs sampleHash (lastLeaf.hash sampleHash) (lastLeafProof 3)) ∧
      MerkleTree.verify sampleHash (lastLeaf.hash sampleHash) (lastLeafProof 3) sampleRoot =
        .ok true) ∧
    (NoCollision sampleHash (treeInputs sampleTree ++ [lastLeaf.hashInput] ++
        verifyInputs sampleHash (lastLeaf.hash sampleHash) (lastLeafProof 6)) ∧
      MerkleTree.verify sampleHash (lastLeaf.hash sampleHash) (lastLeafProof 6) sampleRoot =
        .ok true) := by
  exact ⟨⟨new_sampleLeaves, authRoot_sampleTree, rfl⟩, acceptsLastLeaf_two,
    sampleTree_accepts.2.2.1, sampleTree_accepts.2.2.2⟩

/-! ## The root as a commitment -/

/-- A padded list of leaves tells how long the list is: the position after the last leaf
repeats a hash, and no position of a leaf does. -/
theorem Built.length_le_of_paddedHash_eq {keccak256 : List U8 → Digest} {T U : MerkleTree}
    (hT : Built keccak256 T) (hU : Built keccak256 U) {d : ℕ} (hd : U.leaves.length ≤ 2 ^ d)
    (h : ∀ j < 2 ^ d, paddedHash keccak256 T.leaves j = paddedHash keccak256 U.leaves j) :
    U.leaves.length ≤ T.leaves.length := by
  by_contra hlt
  have hpos : 0 < T.leaves.length := List.length_pos_iff.mpr hT.leaves_ne
  have hrepeat : paddedHash keccak256 T.leaves T.leaves.length =
      paddedHash keccak256 T.leaves (T.leaves.length - 1) := by
    unfold paddedHash
    rw [show min T.leaves.length (T.leaves.length - 1) =
      min (T.leaves.length - 1) (T.leaves.length - 1) by omega]
  rw [h _ (by omega), h _ (by omega)] at hrepeat
  have := hU.paddedHash_injOn (by omega) (by omega) hrepeat
  omega

/-- Trees with one root are trees over one policy: as many leaves, with the same version
and script at every position.
SOURCE: merkle.rs:165-232 -/
theorem authRoot_commits {t : Target} {keccak256 : List U8 → Digest} {leaves₁ leaves₂ : List Leaf}
    {T₁ T₂ : MerkleTree} (hnew₁ : MerkleTree.new t keccak256 leaves₁ = .ok T₁)
    (hnew₂ : MerkleTree.new t keccak256 leaves₂ = .ok T₂)
    (hcoll : NoCollision keccak256 (treeInputs T₁ ++ treeInputs T₂))
    (hroot : T₁.authRoot = T₂.authRoot) :
    leaves₁.length = leaves₂.length ∧
      leaves₁.map (fun l => (l.version, l.script)) =
        leaves₂.map (fun l => (l.version, l.script)) := by
  obtain ⟨rfl, hT₁⟩ := new_built hnew₁
  obtain ⟨rfl, hT₂⟩ := new_built hnew₂
  rw [hT₁.authRoot_eq, hT₂.authRoot_eq, Except.ok.injEq] at hroot
  have hsub₁ : treeInputs T₁ ⊆ treeInputs T₁ ++ treeInputs T₂ := List.subset_append_left _ _
  have hsub₂ : treeInputs T₂ ⊆ treeInputs T₁ ++ treeInputs T₂ := List.subset_append_right _ _
  obtain ⟨hdepth, hpadded⟩ := HashTree.eq_of_root_eq (branchHash_injOn hcoll)
    (fun q hq => hsub₁ (hT₁.treePairs_subset_treeInputs q hq))
    (fun q hq => hsub₂ (hT₂.treePairs_subset_treeInputs q hq))
    (fun j _ => hT₁.paddedHash_ne_branchHash hcoll hsub₁ j)
    (fun j _ => hT₂.paddedHash_ne_branchHash hcoll hsub₂ j) hroot
  have hlen : T₁.leaves.length = T₂.leaves.length := by
    apply le_antisymm
    · exact hT₂.length_le_of_paddedHash_eq hT₁ hT₁.length_le
        (fun j hj => (hpadded j hj).symm)
    · exact hT₁.length_le_of_paddedHash_eq hT₂ (hdepth ▸ hT₂.length_le) hpadded
  refine ⟨hlen, ?_⟩
  apply List.ext_getElem?
  intro i
  rw [List.getElem?_map, List.getElem?_map]
  by_cases hi : i < T₁.leaves.length
  · have hhash := hpadded i (hi.trans_le hT₁.length_le)
    obtain ⟨l₁, hmem₁, hget₁, hhash₁⟩ := hT₁.exists_padded i
    obtain ⟨l₂, hmem₂, hget₂, hhash₂⟩ := hT₂.exists_padded i
    rw [show min i (T₁.leaves.length - 1) = i by omega] at hget₁
    rw [show min i (T₂.leaves.length - 1) = i by omega] at hget₂
    obtain ⟨hversion, hscript⟩ := leaf_eq_of_hash_eq hcoll
      (hsub₁ (Built.hashInput_mem_treeInputs hmem₁))
      (hsub₂ (Built.hashInput_mem_treeInputs hmem₂))
      (hhash₁.symm.trans (hhash.trans hhash₂))
    rw [hget₁, hget₂, Option.map_some, Option.map_some, hversion, hscript]
  · rw [List.getElem?_eq_none (by omega), List.getElem?_eq_none (by omega)]

/-- The sample tree, stored under other descriptions. -/
def sampleTreeRenamed : MerkleTree :=
  { sampleTree with leaves := sampleLeaves.map fun l => { l with description := "" } }

/-- Descriptions enter no hash: the constructor makes the same nodes for the renamed leaves. -/
theorem new_sampleTreeRenamed :
    MerkleTree.new .usize64 sampleHash sampleTreeRenamed.leaves = .ok sampleTreeRenamed ∧
      NoCollision sampleHash (treeInputs sampleTree ++ treeInputs sampleTreeRenamed) := by
  decide +kernel

/-- The sample tree and its renamed copy have one root, and the same versions and scripts. -/
theorem authRoot_commits_sample :
    sampleLeaves.length = sampleTreeRenamed.leaves.length ∧
      sampleLeaves.map (fun l => (l.version, l.script)) =
        sampleTreeRenamed.leaves.map (fun l => (l.version, l.script)) :=
  authRoot_commits new_sampleLeaves new_sampleTreeRenamed.1 new_sampleTreeRenamed.2 rfl

end Hca.Analysis
