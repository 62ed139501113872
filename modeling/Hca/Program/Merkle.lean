import Hca.Program.Leaf

set_option autoImplicit false

/-!
# The Merkle tree

Construction, authentication root, proofs and verification, as the crate computes them:
levels of hashes from the leaves up, the last leaf hash repeated to a power of two.
-/

namespace Hca.Program

open Hca.Library Hca.Model

/-- An inclusion proof: the index of the proven leaf and the sibling hashes from leaf to
root.
SOURCE: merkle.rs:82-89 -/
structure MerkleProof (t : Target) where
  leafIndex : Usize t
  siblings : List Digest
  deriving DecidableEq

/-- A tree: its leaves in insertion order, all levels of nodes from the leaf hashes to the
root, and its depth.
SOURCE: merkle.rs:148-158 -/
structure MerkleTree where
  leaves : List Leaf
  nodes : List (List Digest)
  depth : ℕ
  deriving DecidableEq

/-! ## Hashing -/

/-- The byte string `branch_hash` passes to keccak256.
SOURCE: merkle.rs:373-378 -/
def branchInput (left right : Digest) : List U8 :=
  taggedInput TagHashes.branch (left.val ++ right.val)

/-- `branch = tagged_hash("HCABranch", left || right)`
SOURCE: merkle.rs:373-378 -/
def branchHash (keccak256 : List U8 → Digest) (left right : Digest) : Digest :=
  taggedHash keccak256 TagHashes.branch (left.val ++ right.val)

/-! ## Sizes -/

/-- `x.leading_zeros()` of an integer of `bits` bits. -/
def leadingZeros (bits x : ℕ) : ℕ := (List.range bits).reverse.findIdx x.testBit

/-- `x.trailing_zeros()` of an integer of `bits` bits. -/
def trailingZeros (bits x : ℕ) : ℕ := (List.range bits).findIdx x.testBit

/-- One round of `while p < n { p <<= 1; }`; the shift drops the bits that leave the
`usize`.
SOURCE: merkle.rs:385-387 -/
def nextPowerOfTwoRound (t : Target) (n p : ℕ) : HcaResult (ℕ ⊕ ℕ) :=
  if p < n then .ok (.inl ((p <<< 1) % 2 ^ t.bits)) else .ok (.inr p)

/-- The least power of two that is at least `n`. After `usize::BITS` shifts `p` is zero
and stays so: a loop that has not ended by then never does.
SOURCE: merkle.rs:380-389 -/
def nextPowerOfTwo (t : Target) (n : ℕ) : HcaResult ℕ :=
  if n ≤ 1 then .ok 1 else loop (nextPowerOfTwoRound t n) (t.bits + 1) 1

/-! ## Construction -/

/-- The duplicate scan: `seen` holds the hashes of the leaves before index `i`.
SOURCE: merkle.rs:176-184 -/
def checkDuplicates (keccak256 : List U8 → Digest) :
    ℕ → List Digest → List Leaf → HcaResult Unit
  | _, _, [] => .ok ()
  | i, seen, leaf :: leaves => do
      rejectIf (leaf.hash keccak256 ∈ seen) (.duplicateLeaf i)
      checkDuplicates keccak256 (i + 1) (leaf.hash keccak256 :: seen) leaves

/-- `level_0`, padded with its last hash up to `size` entries.
SOURCE: merkle.rs:188-198 -/
def paddedLevel (keccak256 : List U8 → Digest) (leaves : List Leaf) (size : ℕ) :
    HcaResult (List Digest) := do
  let level0 := leaves.map (Leaf.hash keccak256)
  let last ← unwrap level0.getLast?
  pure (level0 ++ List.replicate (size - level0.length) last)

/-- `level.chunks(2)` -/
def chunks2 {α : Type} : List α → List (List α)
  | [] => []
  | [a] => [[a]]
  | a :: b :: rest => [a, b] :: chunks2 rest

/-- The level above `prev`.
SOURCE: merkle.rs:210-218 -/
def nextLevel (keccak256 : List U8 → Digest) (prev : List Digest) : HcaResult (List Digest) :=
  (chunks2 prev).mapM fun pair => do
    let left ← index pair 0
    let right ← index pair 1
    pure (branchHash keccak256 left right)

/-- `for _ in 0..depth`: each round pushes the level above the last one.
SOURCE: merkle.rs:207-220 -/
def buildLevels (keccak256 : List U8 → Digest) :
    ℕ → List (List Digest) → HcaResult (List (List Digest))
  | 0, levels => .ok levels
  | rounds + 1, levels => do
      let prev ← unwrap levels.getLast?
      let next ← nextLevel keccak256 prev
      buildLevels keccak256 rounds (levels ++ [next])

namespace MerkleTree

/-- Builds the tree over a list of leaves.
SOURCE: merkle.rs:165-227 -/
def new (t : Target) (keccak256 : List U8 → Digest) (leaves : List Leaf) :
    HcaResult MerkleTree := do
  rejectIf (leaves = []) .emptyTree
  rejectIf (maxTreeDepth < t.bits ∧ leaves.length > 1 <<< maxTreeDepth)
    (.treeTooDeep (t.bits - leadingZeros t.bits leaves.length))
  checkDuplicates keccak256 0 [] leaves
  let size ← nextPowerOfTwo t leaves.length
  let level0 ← paddedLevel keccak256 leaves size
  let depth := if size = 1 then 0 else trailingZeros t.bits size
  let levels ← buildLevels keccak256 depth [level0]
  pure { leaves, nodes := levels, depth }

/-- SOURCE: merkle.rs:230-232 -/
def authRoot (T : MerkleTree) : HcaResult Digest := do
  let top ← unwrap T.nodes.getLast?
  unwrap top.head?

/-! ## Proofs -/

/-- `if idx % 2 == 0 { idx + 1 } else { idx - 1 }`
SOURCE: merkle.rs:248 -/
def siblingIndex (t : Target) (idx : ℕ) : HcaResult ℕ :=
  if idx % 2 = 0 then add t.bits idx 1 else sub idx 1

/-- The node of `level` at `sibling`; the last one stands in for an index out of bounds.
SOURCE: merkle.rs:250-253 -/
def siblingHash (level : List Digest) (sibling : ℕ) : HcaResult Digest :=
  match level[sibling]? with
  | some h => .ok h
  | none => unwrap level.getLast?

/-- The loop of `proof` over the levels below the root.
SOURCE: merkle.rs:247-256 -/
def proofLoop (t : Target) : List (List Digest) → ℕ → HcaResult (List Digest)
  | [], _ => .ok []
  | level :: levels, idx => do
      let sibling ← siblingIndex t idx
      let hash ← siblingHash level sibling
      let siblings ← proofLoop t levels (idx / 2)
      pure (hash :: siblings)

/-- The proof for the leaf at `leafIndex`.
SOURCE: merkle.rs:235-262 -/
def proof {t : Target} (T : MerkleTree) (leafIndex : Usize t) : HcaResult (MerkleProof t) := do
  rejectIf (leafIndex.toNat ≥ T.leaves.length)
    (.leafIndexOutOfBounds leafIndex.toNat T.leaves.length)
  let levels ← slice T.nodes 0 T.depth
  let siblings ← proofLoop t levels leafIndex.toNat
  pure { leafIndex, siblings }

/-! ## Verification -/

/-- One round of the loop of `verify`: the state is `(current, idx)`.
SOURCE: merkle.rs:283-290 -/
def verifyRound (keccak256 : List U8 → Digest) (s : Digest × ℕ) (sibling : Digest) :
    Digest × ℕ :=
  let (current, idx) := s
  (if idx % 2 = 0 then branchHash keccak256 current sibling
    else branchHash keccak256 sibling current, idx / 2)

/-- Verifies a proof against the root.
SOURCE: merkle.rs:268-293 -/
def verify {t : Target} (keccak256 : List U8 → Digest) (leafHash : Digest)
    (proof : MerkleProof t) (authRoot : Digest) : HcaResult Bool := do
  rejectIf (proof.siblings.length > maxTreeDepth) (.treeTooDeep proof.siblings.length)
  let (current, _) :=
    proof.siblings.foldl (verifyRound keccak256) (leafHash, proof.leafIndex.toNat)
  pure (decide (current = authRoot))

/-! ## Storage -/

/-- What is stored of a tree: its leaves, each with the three fields given.
SOURCE: merkle.rs:348-353 -/
structure Serializable where
  leaves : List Leaf

/-- Loading a stored tree: `stored` is what the deserializer returns for the leaf list,
`custom` how it wraps an error of the crate.
SOURCE: merkle.rs:365-371 -/
def deserialize {ε : Type} (t : Target) (keccak256 : List U8 → Digest) (custom : HcaError → ε)
    (stored : Outcome ε Serializable) : Outcome ε MerkleTree := do
  let raw ← stored
  mapErr custom (MerkleTree.new t keccak256 raw.leaves)

end MerkleTree

end Hca.Program
