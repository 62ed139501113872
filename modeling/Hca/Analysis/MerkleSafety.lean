import Hca.Analysis.CompactProofs

set_option autoImplicit false

/-!
# Merkle operations that return

On a tree that `new` returned, every access of the Merkle operations is inside the levels of
the tree; a proof or a compact set from elsewhere is only read with checked accesses. The
one access without a check is the entry of `expand`: out of range, it panics.
-/

namespace Hca.Analysis

open Hca.Library Hca.Model Hca.Program

/-! ## Construction and proofs -/

/-- Looking for duplicates returns. -/
theorem returns_checkDuplicates (keccak256 : List U8 → Digest) (i : ℕ) (seen : List Digest)
    (leaves : List Leaf) : Returns (checkDuplicates keccak256 i seen leaves) := by
  induction leaves generalizing i seen with
  | nil => exact returns_ok ()
  | cons l leaves ih => exact (returns_rejectIf _ _).bind fun _ _ => ih _ _

/-- On 64 bits the constructor returns: a list that the depth limit lets pass cannot overflow. -/
theorem returns_new (keccak256 : List U8 → Digest) (leaves : List Leaf) :
    Returns (MerkleTree.new .usize64 keccak256 leaves) := by
  by_cases hne : leaves = []
  · rw [MerkleTree.new, rejectIf_pos hne]
    exact returns_err _
  by_cases hbound : maxTreeDepth < Target.usize64.bits ∧ leaves.length > 1 <<< maxTreeDepth
  · rw [MerkleTree.new, rejectIf_neg hne, ok_bind, rejectIf_pos hbound]
    exact returns_err _
  rcases returns_checkDuplicates keccak256 0 [] leaves with ⟨u, hdup⟩ | ⟨e, hdup⟩
  · -- what is left to do succeeds
    have hlength : leaves.length ≤ 2 ^ maxTreeDepth := by
      have hle := not_and.mp hbound (by decide)
      rwa [Nat.one_shiftLeft, gt_iff_lt, not_lt] at hle
    have hbuild : Buildable .usize64 keccak256 leaves := by
      refine ⟨hne, hlength, ?_, ((checkDuplicates_eq_ok keccak256).mp hdup).1⟩
      exact hlength.trans (Nat.pow_le_pow_right (by decide) (by decide))
    obtain ⟨T, hT⟩ := new_isOk_iff.mpr hbuild
    rw [hT]
    exact returns_ok T
  · rw [MerkleTree.new, rejectIf_neg hne, ok_bind, rejectIf_neg hbound, ok_bind, hdup]
    exact returns_err e

section Built

variable {keccak256 : List U8 → Digest} {T : MerkleTree} (hT : Built keccak256 T) {t : Target}

include hT

/-- The root of a built tree is there. -/
theorem Built.returns_authRoot : Returns T.authRoot := by
  rw [hT.authRoot_eq]
  exact returns_ok _

/-- A built tree proves every index or refuses it. -/
theorem Built.returns_proof (leafIndex : Usize t) : Returns (T.proof leafIndex) := by
  rcases Nat.lt_or_ge leafIndex.toNat T.leaves.length with hlt | hge
  · rw [hT.proof_eq_ok hlt]
    exact returns_ok _
  · rw [MerkleTree.proof, rejectIf_pos hge]
    exact returns_err _

/-- So it does a list of indices. -/
theorem Built.returns_proofs (indices : List (Usize t)) : Returns (T.proofs indices) :=
  Returns.mapM fun leafIndex _ => hT.returns_proof leafIndex

/-- The table takes any sibling, so the proofs decide whether the loop returns. -/
theorem Built.returns_compactProofs (indices : List (Usize t)) :
    Returns (T.compactProofs indices) := by
  rcases hT.returns_proofs indices with ⟨ps, hps⟩ | ⟨e, herr⟩
  · obtain ⟨C, hC, -⟩ := compactProofs_eq_ok hps
    rw [hC]
    exact returns_ok C
  · rw [MerkleTree.compactProofs, compactLoop_eq_error herr, error_bind]
    exact returns_err e

end Built

/-! ## Verification -/

variable {t : Target}

/-- Verification returns on every proof. -/
theorem returns_verify (keccak256 : List U8 → Digest) (leafHash : Digest) (p : MerkleProof t)
    (authRoot : Digest) : Returns (MerkleTree.verify keccak256 leafHash p authRoot) :=
  (returns_rejectIf _ _).bind fun _ _ => returns_pure _

/-- So does that of a batch. -/
theorem returns_verifyBatch (keccak256 : List U8 → Digest) (authRoot : Digest)
    (items : List (Digest × MerkleProof t)) :
    Returns (MerkleTree.verifyBatch keccak256 authRoot items) := by
  induction items with
  | nil => exact returns_ok _
  | cons item items ih =>
    obtain ⟨leafHash, p⟩ := item
    apply (returns_verify keccak256 leafHash p authRoot).bind
    intro valid _
    split
    · exact returns_pure false
    · exact ih

/-- `expand` returns iff the entry is one of the set. -/
theorem returns_expand_iff {C : CompactProofSet t} {entry : ℕ} :
    Returns (C.expand entry) ↔ entry < C.proofs.length := by
  constructor
  · intro h
    exact returns_index.mp h.of_bind
  · intro hentry
    apply (returns_index.mpr hentry).bind
    rintro ⟨leafIndex, sibIndices⟩ _
    exact (Returns.mapM fun i _ => returns_okOr _ _).bind fun siblings _ => returns_pure _

/-- A set from anywhere is verified without a panic: there is an entry for each leaf hash. -/
theorem returns_verifyAll (keccak256 : List U8 → Digest) (C : CompactProofSet t)
    (leafHashes : List Digest) (authRoot : Digest) :
    Returns (C.verifyAll keccak256 leafHashes authRoot) := by
  by_cases hlen : leafHashes.length = C.proofs.length
  · rw [verifyAll_eq_allM hlen]
    apply Returns.allM
    rintro ⟨leafHash, k⟩ hmem
    have hk : k < leafHashes.length :=
      (List.getElem?_eq_some_iff.mp (List.mem_zipIdx_iff_getElem?.mp hmem)).1
    apply (returns_expand_iff.mpr (hlen ▸ hk)).bind
    intro p _
    exact returns_verify keccak256 leafHash p authRoot
  · rw [CompactProofSet.verifyAll, rejectIf_pos hlen]
    exact returns_err _

/-! ## Every call -/

/-- A tree that `new` returned. -/
def BuiltTree (keccak256 : List U8 → Digest) : Type :=
  {T : MerkleTree // ∃ leaves, MerkleTree.new .usize64 keccak256 leaves = .ok T}

/-- The calls of the Merkle operations on a 64-bit target: a tree is one that was built, and
everything else is any value of its type. -/
inductive MerkleCall (keccak256 : List U8 → Digest) where
  | new (leaves : List Leaf)
  | authRoot (T : BuiltTree keccak256)
  | proof (T : BuiltTree keccak256) (leafIndex : Usize .usize64)
  | proofs (T : BuiltTree keccak256) (indices : List (Usize .usize64))
  | compactProofs (T : BuiltTree keccak256) (indices : List (Usize .usize64))
  | verify (leafHash : Digest) (proof : MerkleProof .usize64) (authRoot : Digest)
  | verifyBatch (items : List (Digest × MerkleProof .usize64)) (authRoot : Digest)
  | expand (C : CompactProofSet .usize64) (entry : Usize .usize64)
  | verifyAll (C : CompactProofSet .usize64) (leafHashes : List Digest) (authRoot : Digest)

namespace MerkleCall

variable {keccak256 : List U8 → Digest}

/-- The call returns a value or an error. -/
def Returns : MerkleCall keccak256 → Prop
  | .new leaves => Library.Returns (MerkleTree.new .usize64 keccak256 leaves)
  | .authRoot T => Library.Returns T.val.authRoot
  | .proof T leafIndex => Library.Returns (T.val.proof leafIndex)
  | .proofs T indices => Library.Returns (T.val.proofs indices)
  | .compactProofs T indices => Library.Returns (T.val.compactProofs indices)
  | .verify leafHash p root => Library.Returns (MerkleTree.verify keccak256 leafHash p root)
  | .verifyBatch items root => Library.Returns (MerkleTree.verifyBatch keccak256 root items)
  | .expand C entry => Library.Returns (C.expand entry.toNat)
  | .verifyAll C leafHashes root => Library.Returns (C.verifyAll keccak256 leafHashes root)

/-- The entry that a compact set is asked for is one of its entries. -/
def EntryInRange : MerkleCall keccak256 → Prop
  | .expand C entry => entry.toNat < C.proofs.length
  | _ => True

end MerkleCall

/-- A word has no more leading zeros than bits. -/
theorem leadingZeros_le (bits x : ℕ) : leadingZeros bits x ≤ bits := by
  have hle : (List.range bits).reverse.findIdx x.testBit ≤ (List.range bits).reverse.length :=
    List.findIdx_le_length
  simpa [leadingZeros] using hle

/-- A Merkle operation returns iff it is not `expand` with an entry out of range. The shift
and the subtraction that give the bound on the number of leaves stay within a `usize`.
SOURCE: merkle.rs:114-145, merkle.rs:165-346 -/
theorem merkleCall_returns_iff (keccak256 : List U8 → Digest) :
    (∀ call : MerkleCall keccak256, call.Returns ↔ call.EntryInRange) ∧
      maxTreeDepth < Target.usize64.bits ∧
      ∀ x, leadingZeros Target.usize64.bits x ≤ Target.usize64.bits := by
  refine ⟨?_, by decide, leadingZeros_le _⟩
  have hbuilt : ∀ T : BuiltTree keccak256, Built keccak256 T.val := by
    rintro ⟨T, leaves, hnew⟩
    exact (new_built hnew).2
  intro call
  cases call with
  | new leaves => exact iff_of_true (returns_new keccak256 leaves) trivial
  | authRoot T => exact iff_of_true (hbuilt T).returns_authRoot trivial
  | proof T leafIndex => exact iff_of_true ((hbuilt T).returns_proof leafIndex) trivial
  | proofs T indices => exact iff_of_true ((hbuilt T).returns_proofs indices) trivial
  | compactProofs T indices =>
    exact iff_of_true ((hbuilt T).returns_compactProofs indices) trivial
  | verify leafHash p root => exact iff_of_true (returns_verify _ leafHash p root) trivial
  | verifyBatch items root => exact iff_of_true (returns_verifyBatch _ root items) trivial
  | expand C entry => exact returns_expand_iff
  | verifyAll C leafHashes root =>
    exact iff_of_true (returns_verifyAll _ C leafHashes root) trivial

/-- The first entry of a compact set without entries panics. -/
theorem expand_panics :
    CompactProofSet.expand (⟨[], []⟩ : CompactProofSet .usize64) 0 = .error .panic := rfl

end Hca.Analysis
