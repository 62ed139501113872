import Hca.Analysis.MerkleConstruction
import Hca.Interface.HashInputs

set_option autoImplicit false

/-!
# Proofs of a built tree

`verify` climbs from the leaf hash through the siblings, and `proof` reads the opening of
a position off the levels of the tree: together, every proof of a built tree verifies.
-/

namespace Hca.Analysis

open Hca.Library Hca.Model Hca.Program Hca.Interface
open HashTree (up level root path sibling ordered climb climbPairs)
open MerkleTree (proofLoop verifyRound)

/-! ## Verification is a climb -/

/-- A round of `verify` hashes the node and its sibling in the order that the index says. -/
theorem verifyRound_eq (keccak256 : List U8 → Digest) (i : ℕ) (a s : Digest) :
    verifyRound keccak256 (a, i) s =
      (branchHash keccak256 (ordered i a s).1 (ordered i a s).2, i / 2) := by
  simp only [verifyRound, ordered]
  split <;> rfl

/-- The rounds of `verify` climb the tree. -/
theorem foldl_verifyRound (keccak256 : List U8 → Digest) (i : ℕ) (a : Digest)
    (s : List Digest) :
    s.foldl (verifyRound keccak256) (a, i) =
      (climb (branchHash keccak256) i a s, i / 2 ^ s.length) := by
  induction s generalizing i a with
  | nil => simp [climb]
  | cons b s ih =>
    rw [List.foldl_cons, verifyRound_eq, ih, climb, List.length_cons, Nat.div_div_eq_div_mul,
      ← pow_succ']

/-- `verify` accepts iff the proof is short enough and the climb ends in the root. -/
theorem verify_eq_ok_true {t : Target} {keccak256 : List U8 → Digest} {leafHash r : Digest}
    {p : MerkleProof t} :
    MerkleTree.verify keccak256 leafHash p r = .ok true ↔
      p.siblings.length ≤ maxTreeDepth ∧
        climb (branchHash keccak256) p.leafIndex.toNat leafHash p.siblings = r := by
  unfold MerkleTree.verify
  rw [foldl_verifyRound, bind_eq_ok]
  simp only [rejectIf_eq_ok, pure_eq_ok, exists_const, decide_eq_true_eq, not_lt]

/-! ## Proofs are openings -/

/-- The sibling of an index of a tree is inside the tree. -/
theorem sibling_lt {d i : ℕ} (hi : i < 2 ^ (d + 1)) : sibling i < 2 ^ (d + 1) := by
  rw [pow_succ] at hi ⊢
  unfold sibling
  split <;> omega

/-- The index of a sibling is computed without overflow. -/
theorem siblingIndex_eq_ok {t : Target} {i : ℕ} (hi : i < 2 ^ t.bits) :
    MerkleTree.siblingIndex t i = .ok (sibling i) := by
  have heven := t.isizeMax_succ
  unfold sibling MerkleTree.siblingIndex
  split
  · exact add_eq_ok.mpr ⟨by omega, rfl⟩
  · exact sub_eq_ok.mpr ⟨by omega, rfl⟩

/-- The loop of `proof` collects the opening of its index. -/
theorem proofLoop_eq_ok {t : Target} (f : Digest → Digest → Digest) (v : ℕ → Digest) {d i : ℕ}
    (hi : i < 2 ^ d) (hfit : i < 2 ^ t.bits) :
    proofLoop t ((List.range d).map fun j => levelList f v (2 ^ (d - j)) j) i =
      .ok (path f d v i) := by
  induction d generalizing v i with
  | zero => rfl
  | succ d ih =>
    have hi' : i / 2 < 2 ^ d := by
      rw [pow_succ] at hi
      omega
    have hfit' : i / 2 < 2 ^ t.bits := (Nat.div_le_self i 2).trans_lt hfit
    have hrest : (List.range d).map
        ((fun j => levelList f v (2 ^ (d + 1 - j)) j) ∘ Nat.succ) =
        (List.range d).map fun j => levelList f (up f v) (2 ^ (d - j)) j := by
      apply List.map_congr_left
      intro j _
      simp only [Function.comp_apply, Nat.succ_eq_add_one, Nat.add_sub_add_right]
      rfl
    have hhead : MerkleTree.siblingHash (levelList f v (2 ^ (d + 1 - 0)) 0) (sibling i) =
        .ok (v (sibling i)) := by
      rw [MerkleTree.siblingHash, Nat.sub_zero, levelList_getElem? f v (sibling_lt hi)]
      rfl
    rw [List.range_succ_eq_map, List.map_cons, List.map_map, hrest, proofLoop,
      siblingIndex_eq_ok hfit, ok_bind, hhead, ok_bind, ih (up f v) hi' hfit', ok_bind]
    rfl

namespace Built

variable {keccak256 : List U8 → Digest} {T : MerkleTree} (hT : Built keccak256 T)

include hT

/-- The proof for a leaf of the tree is the opening of its index. -/
theorem proof_eq_ok {t : Target} {i : Usize t} (hi : i.toNat < T.leaves.length) :
    T.proof i = .ok
      ⟨i, path (branchHash keccak256) T.depth (paddedHash keccak256 T.leaves) i.toNat⟩ := by
  have hslice : (slice T.nodes 0 T.depth : HcaResult (List (List Digest))) =
      .ok ((List.range T.depth).map fun j =>
        levelList (branchHash keccak256) (paddedHash keccak256 T.leaves)
          (2 ^ (T.depth - j)) j) := by
    rw [slice_eq_ok, hT.nodes_eq]
    refine ⟨Nat.zero_le _, ?_, ?_⟩
    · simp [treeLevels]
    · rw [List.drop_zero, treeLevels, ← List.map_take, List.take_range,
        Nat.min_eq_left (Nat.le_succ _)]
  have hloop := proofLoop_eq_ok (t := t) (branchHash keccak256)
    (paddedHash keccak256 T.leaves) (hi.trans_le hT.length_le) i.isLt
  rw [MerkleTree.proof, rejectIf_neg (by omega), ok_bind, hslice, ok_bind, hloop]
  rfl

/-- The opening of a leaf of the tree verifies. -/
theorem verify_path {t : Target} {i : Usize t} {l : Leaf} (hl : T.leaves[i.toNat]? = some l) :
    MerkleTree.verify keccak256 (l.hash keccak256)
      ⟨i, path (branchHash keccak256) T.depth (paddedHash keccak256 T.leaves) i.toNat⟩
      (root (branchHash keccak256) T.depth (paddedHash keccak256 T.leaves)) = .ok true := by
  obtain ⟨hi, hget⟩ := List.getElem?_eq_some_iff.mp hl
  have hleaf : l.hash keccak256 = paddedHash keccak256 T.leaves i.toNat := by
    have hmin : min i.toNat (T.leaves.length - 1) = i.toNat := by omega
    simp [paddedHash, hmin, hl]
  rw [verify_eq_ok_true]
  refine ⟨?_, ?_⟩
  · rw [HashTree.length_path]
    exact hT.depth_le
  · simp only [hleaf]
    exact HashTree.climb_path_eq_root _ _ (hi.trans_le hT.length_le)

end Built

/-! ## Completeness -/

/-- Whatever the hash function, every index of a leaf has a proof with that index and with
one sibling for each level, at most `MAX_TREE_DEPTH`, which verifies for the leaf against
the root; every other index is rejected as out of bounds.
SOURCE: merkle.rs:165-293 -/
theorem merkle_completeness {t : Target} {keccak256 : List U8 → Digest} {leaves : List Leaf}
    {T : MerkleTree} (h : MerkleTree.new t keccak256 leaves = .ok T) :
    (∀ i : Usize t, i.toNat < leaves.length →
      ∃ p l authRoot, T.proof i = .ok p ∧ p.leafIndex = i ∧ p.siblings.length = T.depth ∧
        T.depth ≤ maxTreeDepth ∧ leaves[i.toNat]? = some l ∧ T.authRoot = .ok authRoot ∧
        MerkleTree.verify keccak256 (l.hash keccak256) p authRoot = .ok true) ∧
    (∀ i : Usize t, leaves.length ≤ i.toNat →
      T.proof i = .error (.err (.leafIndexOutOfBounds i.toNat leaves.length))) := by
  obtain ⟨rfl, hT⟩ := new_built h
  constructor
  · intro i hi
    obtain ⟨l, hl⟩ : ∃ l, T.leaves[i.toNat]? = some l :=
      ⟨_, List.getElem?_eq_getElem hi⟩
    exact ⟨_, l, _, hT.proof_eq_ok hi, rfl, HashTree.length_path _ _ _ _, hT.depth_le, hl,
      hT.authRoot_eq, hT.verify_path hl⟩
  · intro i hi
    rw [MerkleTree.proof, rejectIf_pos hi, error_bind]

/-- The constructor makes the sample tree. -/
theorem new_sampleLeaves :
    MerkleTree.new .usize64 sampleHash sampleLeaves = .ok sampleTree := by
  decide +kernel

/-- The sample tree proves its three leaves and refuses every other index. -/
theorem merkle_completeness_sample :
    (∀ i : Usize .usize64, i.toNat < 3 →
      ∃ p l authRoot, sampleTree.proof i = .ok p ∧ p.leafIndex = i ∧ p.siblings.length = 2 ∧
        2 ≤ maxTreeDepth ∧ sampleLeaves[i.toNat]? = some l ∧
        sampleTree.authRoot = .ok authRoot ∧
        MerkleTree.verify sampleHash (l.hash sampleHash) p authRoot = .ok true) ∧
    (∀ i : Usize .usize64, 3 ≤ i.toNat →
      sampleTree.proof i = .error (.err (.leafIndexOutOfBounds i.toNat 3))) :=
  merkle_completeness new_sampleLeaves

end Hca.Analysis
