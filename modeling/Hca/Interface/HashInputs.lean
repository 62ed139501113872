import Hca.Program.Witness

set_option autoImplicit false

/-!
# The byte strings that are hashed

What the tree operations pass to keccak256: building a tree hashes its leaves and all
pairs of neighbours below the root, hashing a leaf hashes one string, and `verify` hashes
one pair for each sibling. Collision resistance is assumed of these strings only.
-/

namespace Hca.Interface

open Hca.Library Hca.Model Hca.Program

/-- keccak256 has no collision among the given byte strings. -/
def NoCollision (keccak256 : List U8 → Digest) (inputs : List (List U8)) : Prop :=
  ∀ a ∈ inputs, ∀ b ∈ inputs, keccak256 a = keccak256 b → a = b

instance (keccak256 : List U8 → Digest) (inputs : List (List U8)) :
    Decidable (NoCollision keccak256 inputs) :=
  inferInstanceAs (Decidable (∀ a ∈ inputs, ∀ b ∈ inputs, keccak256 a = keccak256 b → a = b))

/-- What `chunks(2)` of one level feeds to `branch_hash`. -/
def levelInputs : List Digest → List (List U8)
  | a :: b :: rest => branchInput a b :: levelInputs rest
  | _ => []

/-- What `MerkleTree::new` hashes on its way to `T`. -/
def treeInputs (T : MerkleTree) : List (List U8) :=
  T.leaves.map Leaf.hashInput ++ (T.nodes.take T.depth).flatMap levelInputs

/-- What the loop of `verify` hashes, started in the given state. -/
def climbInputs (keccak256 : List U8 → Digest) : Digest × ℕ → List Digest → List (List U8)
  | _, [] => []
  | (current, idx), sibling :: siblings =>
      (if idx % 2 = 0 then branchInput current sibling else branchInput sibling current) ::
        climbInputs keccak256 (MerkleTree.verifyRound keccak256 (current, idx) sibling) siblings

/-- What `MerkleTree::verify` hashes. -/
def verifyInputs {t : Target} (keccak256 : List U8 → Digest) (leafHash : Digest)
    (proof : MerkleProof t) : List (List U8) :=
  climbInputs keccak256 (leafHash, proof.leafIndex.toNat) proof.siblings

/-- A small stand-in for keccak256 on which concrete trees can be evaluated. -/
def sampleHash (input : List U8) : Digest :=
  ⟨BigEndian.toBytes 32 (BigEndian.ofBytes input % (2 ^ 256 - 189)),
    BigEndian.length_toBytes _ _⟩

/-- Three leaves, so that one position of their tree is padding. -/
def sampleLeaves : List Leaf := [⟨1, [0x00], "a"⟩, ⟨1, [0x01], "b"⟩, ⟨1, [0x02], "c"⟩]

/-- The tree over the sample leaves, written out as the constructor computes it. -/
def sampleTree : MerkleTree where
  leaves := sampleLeaves
  nodes :=
    let level0 := sampleLeaves.map (Leaf.hash sampleHash)
    let last := Leaf.hash sampleHash ⟨1, [0x02], "c"⟩
    let left := branchHash sampleHash (level0.getD 0 default) (level0.getD 1 default)
    let right := branchHash sampleHash last last
    [level0 ++ [last], [left, right], [branchHash sampleHash left right]]
  depth := 2

end Hca.Interface
