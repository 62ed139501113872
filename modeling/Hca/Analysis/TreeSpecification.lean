import Hca.Analysis.MerkleProofs
import Hca.Interface.TreeSpecification

set_option autoImplicit false

/-!
# `MerkleTree::new` builds the specified tree

The scan for duplicates stops at the first leaf whose hash occurred before. The tree built
otherwise has the shape of the specification level by level, and its root, computed from
the leaves up, is the one computed from the root down.
-/

namespace Hca.Analysis

open Hca.Library Hca.Model Hca.Program Hca.Interface
open HashTree (up level root path sibling)

/-! ## The scan for duplicates -/

/-- A leaf hash is repeated right after the leaves before it iff it is one of theirs. -/
theorem repeatsHash_append_cons (keccak256 : List U8 → Digest) (before leaves : List Leaf)
    (leaf : Leaf) : RepeatsHash keccak256 (before ++ leaf :: leaves) before.length ↔
      leaf.hash keccak256 ∈ before.map (Leaf.hash keccak256) := by
  constructor
  · rintro ⟨l, hl, j, hj, earlier, hearlier, heq⟩
    rw [List.getElem?_append_right le_rfl, Nat.sub_self, List.getElem?_cons_zero,
      Option.some.injEq] at hl
    rw [List.getElem?_append_left hj] at hearlier
    subst hl
    exact List.mem_map.mpr ⟨earlier, List.mem_of_getElem? hearlier, heq⟩
  · intro hmem
    obtain ⟨earlier, hearlier, heq⟩ := List.mem_map.mp hmem
    obtain ⟨j, hj⟩ := List.mem_iff_getElem?.mp hearlier
    obtain ⟨hlt, -⟩ := List.getElem?_eq_some_iff.mp hj
    refine ⟨leaf, ?_, j, hlt, earlier, ?_, heq⟩
    · simp
    · rw [List.getElem?_append_left hlt, hj]

/-- The scan fails at the first position whose hash occurred before. -/
theorem checkDuplicates_eq_error (keccak256 : List U8 → Digest) {before leaves : List Leaf}
    {seen : List Digest} (hseen : ∀ h, h ∈ seen ↔ h ∈ before.map (Leaf.hash keccak256))
    (hbefore : ∀ j < before.length, ¬ RepeatsHash keccak256 (before ++ leaves) j)
    (hne : checkDuplicates keccak256 before.length seen leaves ≠ .ok ()) :
    ∃ i, IsLeast {i | RepeatsHash keccak256 (before ++ leaves) i} i ∧
      checkDuplicates keccak256 before.length seen leaves =
        .error (.err (.duplicateLeaf i)) := by
  induction leaves generalizing before seen with
  | nil => exact absurd rfl hne
  | cons leaf leaves ih =>
    have hhere := repeatsHash_append_cons keccak256 before leaves leaf
    rw [← hseen] at hhere
    by_cases hleaf : leaf.hash keccak256 ∈ seen
    · refine ⟨before.length, ⟨hhere.mpr hleaf, ?_⟩, ?_⟩
      · intro j hj
        by_contra hlt
        exact hbefore j (not_le.mp hlt) hj
      · rw [checkDuplicates, rejectIf_pos hleaf, error_bind]
    · have hassoc : before ++ leaf :: leaves = before ++ [leaf] ++ leaves := by simp
      have hlen : before.length + 1 = (before ++ [leaf]).length := by simp
      rw [checkDuplicates, rejectIf_neg hleaf, ok_bind, hlen] at hne ⊢
      rw [hassoc]
      apply ih _ _ hne
      · intro h
        simp [hseen, or_comm]
      · intro j hj
        rw [← hassoc]
        rcases Nat.lt_succ_iff_lt_or_eq.mp (hlen ▸ hj) with hlt | rfl
        · exact hbefore j hlt
        · exact fun hrepeat => hleaf (hhere.mp hrepeat)

/-! ## The shape of the tree -/

namespace Built

variable {keccak256 : List U8 → Digest} {T : MerkleTree} (hT : Built keccak256 T)

include hT

/-- The lowest level: the leaf hashes and copies of the last one. -/
theorem nodes_zero : ∃ last, (T.leaves.map (Leaf.hash keccak256)).getLast? = some last ∧
    T.nodes[0]? = some (T.leaves.map (Leaf.hash keccak256) ++
      List.replicate (2 ^ T.depth - T.leaves.length) last) := by
  obtain ⟨last, hlast, hlevel⟩ := exists_paddedLevel keccak256 hT.leaves_ne (2 ^ T.depth)
  refine ⟨last, hlast, ?_⟩
  rw [hT.nodes_eq, treeLevels_getElem? _ _ (Nat.zero_le _),
    paddedLevel_eq_ok keccak256 hT.length_le hlevel]
  rfl

/-- Every node above the lowest level is the branch of the two nodes below it. -/
theorem exists_branch {k i : ℕ} (hk : k < T.depth) (hi : i < 2 ^ (T.depth - (k + 1))) :
    ∃ left right, nodeAt T k (2 * i) = some left ∧ nodeAt T k (2 * i + 1) = some right ∧
      nodeAt T (k + 1) i = some (branchHash keccak256 left right) := by
  have hwidth : 2 ^ (T.depth - k) = 2 * 2 ^ (T.depth - (k + 1)) := by
    rw [← pow_succ', show T.depth - (k + 1) + 1 = T.depth - k by omega]
  have hparent := hT.nodes_getElem? (Nat.succ_le_of_lt hk) hi
  rw [HashTree.level_succ] at hparent
  exact ⟨_, _, hT.nodes_getElem? hk.le (by omega), hT.nodes_getElem? hk.le (by omega), hparent⟩

/-- The root computed from the leaves up is the one computed from the root down. -/
theorem authRoot_halved : ∃ level0 authRoot, T.nodes[0]? = some level0 ∧
    T.authRoot = .ok authRoot ∧
      HashTree.halvedRoot (branchHash keccak256) level0 = some authRoot := by
  refine ⟨_, _, ?_, hT.authRoot_eq, HashTree.halvedRoot_map_range _ _ _⟩
  rw [hT.nodes_eq, treeLevels_getElem? _ _ (Nat.zero_le _)]
  rfl

/-- The loop of `proof` stays inside the levels. -/
theorem siblings_inside {t : Target} {i : Usize t} (hi : i.toNat < T.leaves.length) :
    ∃ p, T.proof i = .ok p ∧ ∀ k < T.depth, ∃ level s, T.nodes[k]? = some level ∧
      MerkleTree.siblingIndex t (i.toNat / 2 ^ k) = .ok s ∧ s < level.length ∧
        p.siblings[k]? = level[s]? := by
  refine ⟨_, hT.proof_eq_ok hi, ?_⟩
  intro k hk
  obtain ⟨e, he⟩ : ∃ e, T.depth = k + (e + 1) := ⟨T.depth - k - 1, by omega⟩
  have hindex : i.toNat / 2 ^ k < 2 ^ (T.depth - k) := by
    apply Nat.div_lt_of_lt_mul
    rw [← pow_add, Nat.add_sub_cancel' hk.le]
    exact hi.trans_le hT.length_le
  have hinside : sibling (i.toNat / 2 ^ k) < 2 ^ (T.depth - k) := by
    rw [he, Nat.add_sub_cancel_left] at hindex ⊢
    exact sibling_lt hindex
  refine ⟨levelList (branchHash keccak256) (paddedHash keccak256 T.leaves)
    (2 ^ (T.depth - k)) k, sibling (i.toNat / 2 ^ k), ?_, ?_, ?_, ?_⟩
  · rw [hT.nodes_eq, treeLevels_getElem? _ _ hk.le]
  · exact siblingIndex_eq_ok ((Nat.div_le_self _ _).trans_lt i.isLt)
  · simpa [levelList] using hinside
  · rw [HashTree.path_getElem? _ _ _ hk, levelList_getElem? _ _ hinside]

/-- A built tree is the specified one. -/
theorem specifiedTree (t : Target) : SpecifiedTree t keccak256 T.leaves T where
  leaves_eq := rfl
  depth_least := ⟨hT.length_le, fun e he => hT.depth_minimal e he⟩
  levels := by simp [hT.nodes_eq, treeLevels]
  widths := by
    intro k hk
    exact ⟨_, hT.nodes_eq ▸ treeLevels_getElem? _ _ hk, by simp [levelList]⟩
  padded := hT.nodes_zero
  branches := fun _ hk _ hi => hT.exists_branch hk hi
  root_eq := hT.authRoot_halved
  siblings_inside := fun _ hi => hT.siblings_inside hi

end Built

/-! ## The constructor -/

/-- `new` returns a tree iff there are leaves, at most `2 ^ MAX_TREE_DEPTH`, with distinct
hashes, and fails with the error of the first condition that is not met; the tree it
returns is the specified one.
SOURCE: merkle.rs:165-262, merkle.rs:380-389, SPECIFICATION.md:61-74 -/
theorem new_builds_specified_tree (keccak256 : List U8 → Digest) (leaves : List Leaf) :
    ((∃ T, MerkleTree.new .usize64 keccak256 leaves = .ok T) ↔
      leaves ≠ [] ∧ leaves.length ≤ 2 ^ 32 ∧
        (leaves.map (Leaf.hash keccak256)).Nodup) ∧
    (leaves = [] → MerkleTree.new .usize64 keccak256 leaves = .error (.err .emptyTree)) ∧
    (2 ^ 32 < leaves.length → MerkleTree.new .usize64 keccak256 leaves =
      .error (.err (.treeTooDeep (64 - leadingZeros 64 leaves.length)))) ∧
    (leaves ≠ [] → leaves.length ≤ 2 ^ 32 → ¬ (leaves.map (Leaf.hash keccak256)).Nodup →
      ∃ index, IsLeast {i | RepeatsHash keccak256 leaves i} index ∧
        MerkleTree.new .usize64 keccak256 leaves = .error (.err (.duplicateLeaf index))) ∧
    (∀ T, MerkleTree.new .usize64 keccak256 leaves = .ok T →
      SpecifiedTree .usize64 keccak256 leaves T) := by
  refine ⟨?_, ?_, ?_, ?_, ?_⟩
  · rw [new_isOk_iff]
    constructor
    · intro h
      exact ⟨h.leaves_ne, h.length_le, h.nodup⟩
    · rintro ⟨hne, hlen, hnodup⟩
      exact ⟨hne, hlen, hlen.trans (by decide), hnodup⟩
  · intro hnil
    rw [MerkleTree.new, rejectIf_pos hnil, error_bind]
  · intro hlen
    have hne : leaves ≠ [] := by
      rintro rfl
      simp at hlen
    rw [MerkleTree.new, rejectIf_neg hne, ok_bind,
      rejectIf_pos ⟨by decide, by rwa [Nat.one_shiftLeft]⟩, error_bind]
    rfl
  · intro hne hlen hdup
    have hbound : ¬ (maxTreeDepth < Target.usize64.bits ∧
        leaves.length > 1 <<< maxTreeDepth) := by
      rw [Nat.one_shiftLeft]
      exact fun h => absurd hlen (not_le.mpr h.2)
    have hscan : checkDuplicates keccak256 0 [] leaves ≠ .ok () := by
      rw [ne_eq, checkDuplicates_eq_ok]
      exact fun h => hdup h.1
    obtain ⟨index, hleast, herror⟩ :=
      @checkDuplicates_eq_error keccak256 [] leaves [] (by simp) (by simp) hscan
    refine ⟨index, hleast, ?_⟩
    rw [MerkleTree.new, rejectIf_neg hne, ok_bind, rejectIf_neg hbound, ok_bind]
    exact congrArg (· >>= _) herror
  · intro T hT
    obtain ⟨rfl, hbuilt⟩ := new_built hT
    exact hbuilt.specifiedTree .usize64

end Hca.Analysis
