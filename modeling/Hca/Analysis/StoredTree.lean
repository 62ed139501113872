import Hca.Analysis.LeafAdmission
import Hca.Analysis.MerkleConstruction
import Hca.Interface.HashInputs

set_option autoImplicit false

/-!
# Loading stored trees

A stored tree is its list of leaves, and loading one builds the tree again. The constructor
of the tree hashes the leaves and does not look into them, so a list that can be built is
loaded whatever its versions and scripts are: the leaves of a loaded tree are admissible
exactly when the stored ones were.
-/

namespace Hca.Analysis

open Hca.Library Hca.Model Hca.Program Hca.Interface

/-- A stored tree is loaded iff the constructor makes it of the stored leaves. -/
theorem deserialize_eq_ok {ε : Type} {t : Target} {keccak256 : List U8 → Digest}
    {custom : HcaError → ε} {leaves : List Leaf} {T : MerkleTree} :
    MerkleTree.deserialize t keccak256 custom (.ok ⟨leaves⟩) = .ok T ↔
      MerkleTree.new t keccak256 leaves = .ok T := by
  rw [MerkleTree.deserialize, ok_bind, mapErr_eq_ok]

/-- Every leaf of a loaded tree passes `Leaf::new` iff the stored leaves are admissible or
cannot be built into a tree at all.
SOURCE: merkle.rs:365-371, merkle.rs:50-64 -/
theorem loaded_leaves_admissible_iff {ε : Type} (t : Target) (keccak256 : List U8 → Digest)
    (custom : HcaError → ε) (leaves : List Leaf) :
    (∀ T, MerkleTree.deserialize t keccak256 custom (.ok ⟨leaves⟩) = .ok T →
        ∀ l ∈ T.leaves, ∃ leaf, Leaf.new l.version l.script l.description = .ok leaf) ↔
      ¬ Buildable t keccak256 leaves ∨ ∀ l ∈ leaves, Admissible l.version l.script := by
  simp only [deserialize_eq_ok, leafNew_isOk_iff]
  constructor
  · intro h
    by_cases hbuild : Buildable t keccak256 leaves
    · right
      obtain ⟨T, hT⟩ := new_isOk_iff.mpr hbuild
      rw [← (new_built hT).1]
      exact h T hT
    · exact Or.inl hbuild
  · rintro h T hT l hl
    rw [(new_built hT).1] at hl
    rcases h with hbuild | hall
    · exact absurd (new_isOk_iff.mp ⟨T, hT⟩) hbuild
    · exact hall l hl

/-- A leaf of the reserved version whose script is one banned instruction. -/
def bannedLeaf : Leaf := ⟨0x00, [0xFF], "stored"⟩

/-- The reserved leaf version is loaded, with a script that self-destructs. -/
theorem banned_leaf_loaded :
    MerkleTree.deserialize .usize64 sampleHash id (.ok ⟨[bannedLeaf]⟩) =
        .ok ⟨[bannedLeaf], [[bannedLeaf.hash sampleHash]], 0⟩ ∧
      Leaf.new bannedLeaf.version bannedLeaf.script bannedLeaf.description =
        .error (.err (.invalidLeafVersion 0x00)) ∧
      Leaf.new 0x01 bannedLeaf.script bannedLeaf.description =
        .error (.err (.bannedOpcode 0xFF "SELFDESTRUCT")) := by
  decide +kernel

end Hca.Analysis
