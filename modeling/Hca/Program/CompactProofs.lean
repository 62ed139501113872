import Hca.Program.Merkle

set_option autoImplicit false

/-!
# Batch and compact proofs

Several proofs of one tree: a list of them, verified one after the other, and the compact
form, which keeps every sibling once in a table and refers to it by position. The fields of
a compact set are public in the source, and it can be deserialized: its positions need not
be inside the table.
-/

namespace Hca.Program

open Hca.Library Hca.Model

variable {t : Target}

/-- The table of sibling hashes and, for each proof, its leaf index and the table positions
of its siblings.
SOURCE: merkle.rs:103-108 -/
structure CompactProofSet (t : Target) where
  siblings : List Digest
  proofs : List (Usize t × List ℕ)
  deriving DecidableEq

/-! ## Verification -/

namespace CompactProofSet

/-- The proof of an entry; the entry is a position in `proofs`.
SOURCE: merkle.rs:114-129 -/
def expand (C : CompactProofSet t) (entry : ℕ) : HcaResult (MerkleProof t) := do
  let (leafIndex, sibIndices) ← index C.proofs entry
  let siblings ← sibIndices.mapM fun i => okOr C.siblings[i]? .proofVerificationFailed
  pure { leafIndex, siblings }

/-- The loop of `verify_all` from the leaf hash at position `i` on.
SOURCE: merkle.rs:138-144 -/
def verifyLoop (keccak256 : List U8 → Digest) (C : CompactProofSet t) (authRoot : Digest) :
    ℕ → List Digest → HcaResult Bool
  | _, [] => .ok true
  | i, leafHash :: leafHashes => do
      let proof ← C.expand i
      let valid ← MerkleTree.verify keccak256 leafHash proof authRoot
      if valid = false then pure false
      else verifyLoop keccak256 C authRoot (i + 1) leafHashes

/-- SOURCE: merkle.rs:134-145 -/
def verifyAll (keccak256 : List U8 → Digest) (C : CompactProofSet t) (leafHashes : List Digest)
    (authRoot : Digest) : HcaResult Bool := do
  rejectIf (leafHashes.length ≠ C.proofs.length) .proofVerificationFailed
  C.verifyLoop keccak256 authRoot 0 leafHashes

end CompactProofSet

namespace MerkleTree

/-- SOURCE: merkle.rs:336-346 -/
def verifyBatch (keccak256 : List U8 → Digest) (authRoot : Digest) :
    List (Digest × MerkleProof t) → HcaResult Bool
  | [] => .ok true
  | (leafHash, proof) :: items => do
      let valid ← verify keccak256 leafHash proof authRoot
      if valid = false then pure false else verifyBatch keccak256 authRoot items

/-! ## Construction -/

/-- SOURCE: merkle.rs:299-301 -/
def proofs (T : MerkleTree) (indices : List (Usize t)) : HcaResult (List (MerkleProof t)) :=
  indices.mapM T.proof

/-- The position of a sibling in the table, where it is pushed if it is not there yet.
SOURCE: merkle.rs:316-319 -/
def tableIndex (table : List Digest) (sib : Digest) : HcaResult (ℕ × List Digest) :=
  match table.findIdx? (· = sib) with
  | some idx => .ok (idx, table)
  | none => do
      let table := table ++ [sib]
      let idx ← sub table.length 1
      pure (idx, table)

/-- The table positions of the siblings of one proof, and the table with them.
SOURCE: merkle.rs:314-321 -/
def tableIndices : List Digest → List Digest → HcaResult (List ℕ × List Digest)
  | table, [] => .ok ([], table)
  | table, sib :: siblings => do
      let (idx, table) ← tableIndex table sib
      let (sibIndices, table) ← tableIndices table siblings
      pure (idx :: sibIndices, table)

/-- The loop of `compact_proofs` over the leaf indices.
SOURCE: merkle.rs:312-323 -/
def compactLoop (T : MerkleTree) :
    List Digest → List (Usize t) → HcaResult (List (Usize t × List ℕ) × List Digest)
  | table, [] => .ok ([], table)
  | table, leafIndex :: indices => do
      let proof ← T.proof leafIndex
      let (sibIndices, table) ← tableIndices table proof.siblings
      let (perLeaf, table) ← compactLoop T table indices
      pure ((leafIndex, sibIndices) :: perLeaf, table)

/-- SOURCE: merkle.rs:308-329 -/
def compactProofs (T : MerkleTree) (indices : List (Usize t)) :
    HcaResult (CompactProofSet t) := do
  let (perLeaf, table) ← compactLoop T [] indices
  pure { siblings := table, proofs := perLeaf }

end MerkleTree

end Hca.Program
