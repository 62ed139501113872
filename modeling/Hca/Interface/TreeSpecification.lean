import Hca.Library.HashTree
import Hca.Program.Merkle
import Mathlib.Order.Bounds.Basic

set_option autoImplicit false

/-!
# The tree of the specification

The tree that belongs to a list of leaves, said without the order in which the constructor
computes it: the least depth that has room for the leaves, the padded leaf hashes, the
branches above them, and the root computed from the root down.
-/

namespace Hca.Interface

open Hca.Library Hca.Model Hca.Program

/-- The hash of the leaf at position `i` is that of an earlier leaf. -/
def RepeatsHash (keccak256 : List U8 → Digest) (leaves : List Leaf) (i : ℕ) : Prop :=
  ∃ leaf, leaves[i]? = some leaf ∧ ∃ j < i, ∃ earlier, leaves[j]? = some earlier ∧
    earlier.hash keccak256 = leaf.hash keccak256

/-- The node at position `i` of level `k`. -/
def nodeAt (T : MerkleTree) (k i : ℕ) : Option Digest :=
  T.nodes[k]?.bind fun level => level[i]?

/-- `T` is the tree over `leaves`. Its proofs read every sibling from inside its level; at
level `k`, the proof for leaf `i` is at index `i / 2 ^ k`. -/
structure SpecifiedTree (t : Target) (keccak256 : List U8 → Digest) (leaves : List Leaf)
    (T : MerkleTree) : Prop where
  leaves_eq : T.leaves = leaves
  depth_least : IsLeast {d | leaves.length ≤ 2 ^ d} T.depth
  levels : T.nodes.length = T.depth + 1
  widths : ∀ k ≤ T.depth, ∃ level, T.nodes[k]? = some level ∧ level.length = 2 ^ (T.depth - k)
  padded : ∃ last, (leaves.map (Leaf.hash keccak256)).getLast? = some last ∧
    T.nodes[0]? = some (leaves.map (Leaf.hash keccak256) ++
      List.replicate (2 ^ T.depth - leaves.length) last)
  branches : ∀ k < T.depth, ∀ i < 2 ^ (T.depth - (k + 1)), ∃ left right,
    nodeAt T k (2 * i) = some left ∧ nodeAt T k (2 * i + 1) = some right ∧
      nodeAt T (k + 1) i = some (branchHash keccak256 left right)
  root_eq : ∃ level0 authRoot, T.nodes[0]? = some level0 ∧ T.authRoot = .ok authRoot ∧
    HashTree.halvedRoot (branchHash keccak256) level0 = some authRoot
  siblings_inside : ∀ i : Usize t, i.toNat < leaves.length → ∃ p, T.proof i = .ok p ∧
    ∀ k < T.depth, ∃ level s, T.nodes[k]? = some level ∧
      MerkleTree.siblingIndex t (i.toNat / 2 ^ k) = .ok s ∧ s < level.length ∧
        p.siblings[k]? = level[s]?

end Hca.Interface
