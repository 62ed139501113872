import Hca.Interface.Spends

set_option autoImplicit false

/-!
# Two targets

The crate is compiled for 32-bit targets, where it serves wallets in the browser, and for
64-bit ones. A witness of one is read on the other with the same fields: its leaf index is
converted.
-/

namespace Hca.Interface

open Hca.Library Hca.Model Hca.Program

variable {t : Target}

/-- The most bytes that fit a slice on every target. -/
def sliceMax : ℕ := Target.usize32.isizeMax

/-- The proof with its index converted to the other target. -/
def proofOn (t' : Target) (p : MerkleProof t) : MerkleProof t' :=
  ⟨p.leafIndex.setWidth t'.bits, p.siblings⟩

/-- The witness with its proof converted to the other target. -/
def witnessOn (t' : Target) (w : HCAWitness t) : HCAWitness t' :=
  ⟨w.leafVersion, w.leafScript, proofOn t' w.merkleProof, w.witnessData⟩

/-- The index fits every target. -/
def PortableIndex (i : Usize t) : Prop := i.toNat < 2 ^ 32

instance (i : Usize t) : Decidable (PortableIndex i) := inferInstanceAs (Decidable (_ < _))

end Hca.Interface
