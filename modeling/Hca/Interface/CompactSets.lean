import Hca.Interface.HashInputs
import Hca.Program.CompactProofs

set_option autoImplicit false

/-!
# What a compact set says

The entries of a compact set taken one by one: whether its positions are inside the table,
and what becomes of an entry that is expanded and verified for a leaf hash. An entry is
reached only when all the entries before it are accepted.
-/

namespace Hca.Interface

open Hca.Library Hca.Model Hca.Program

variable {t : Target}

/-- Every position of every entry is inside the table. -/
def TableInRange (C : CompactProofSet t) : Prop :=
  ∀ entry ∈ C.proofs, ∀ i ∈ entry.2, i < C.siblings.length

/-- No entry has more siblings than a tree has levels below its root. -/
def WithinDepth (C : CompactProofSet t) : Prop :=
  ∀ entry ∈ C.proofs, entry.2.length ≤ maxTreeDepth

variable (keccak256 : List U8 → Digest) (C : CompactProofSet t) (authRoot : Digest)

/-- The entry at position `k` expands, and verifying its proof for the leaf hash returns
`valid`. -/
def EntryVerifies (k : ℕ) (leafHash : Digest) (valid : Bool) : Prop :=
  ∃ p, C.expand k = .ok p ∧ MerkleTree.verify keccak256 leafHash p authRoot = .ok valid

/-- Expanding the entry at position `k`, or verifying its proof, faults with `e`. -/
def EntryFails (k : ℕ) (leafHash : Digest) (e : Fault HcaError) : Prop :=
  C.expand k = .error e ∨
    ∃ p, C.expand k = .ok p ∧ MerkleTree.verify keccak256 leafHash p authRoot = .error e

/-- All entries before position `k` verify for their leaf hashes. -/
def EarlierVerify (leafHashes : List Digest) (k : ℕ) : Prop :=
  ∀ j < k, ∀ leafHash, leafHashes[j]? = some leafHash →
    EntryVerifies keccak256 C authRoot j leafHash true

/-- What `verify` hashes for the entry at position `item.2`, if it expands. -/
def entryInputs (item : Digest × ℕ) : List (List U8) :=
  match C.expand item.2 with
  | .ok p => verifyInputs keccak256 item.1 p
  | .error _ => []

/-- What checking the set for the leaves hashes. -/
def setInputs (ls : List Leaf) : List (List U8) :=
  ls.map Leaf.hashInput ++ (ls.map (Leaf.hash keccak256)).zipIdx.flatMap (entryInputs keccak256 C)

end Hca.Interface
