import Hca.Interface.HashInputs
import Hca.Program.Rlp

set_option autoImplicit false

/-!
# Spends

A spend is a byte string that decodes to a transaction and a witness, where the proof of the
witness is accepted for its leaf. Its signature signs the transaction under the hash of that
leaf.
-/

namespace Hca.Interface

open Hca.Library Hca.Model Hca.Program

variable {t : Target}

/-- The leaf that a witness reveals. -/
def revealedLeaf (w : HCAWitness t) : Leaf := ⟨w.leafVersion, w.leafScript, ""⟩

/-- The byte string is a spend from the account with the given root. -/
structure Spends (keccak256 : List U8 → Digest) (authRoot : Digest) (raw : List U8)
    (tx : TxMessage) (w : HCAWitness t) : Prop where
  decoded : decodeHcaTx t raw = .ok (tx, w)
  verified : MerkleTree.verify keccak256 ((revealedLeaf w).hash keccak256) w.merkleProof authRoot =
    .ok true

/-- What a spend is signed over. -/
def spendHash (keccak256 : List U8 → Digest) (tx : TxMessage) (w : HCAWitness t) : Digest :=
  tx.signingHash keccak256 ((revealedLeaf w).hash keccak256)

/-- The byte string behind the signing hash of a spend. -/
def signingInput (keccak256 : List U8 → Digest) (tx : TxMessage) (w : HCAWitness t) : List U8 :=
  taggedInput TagHashes.witness (tx.signingData ((revealedLeaf w).hash keccak256))

/-- What checking a spend hashes: the leaf, the pairs of the proof and the signed message. -/
def spendInputs (keccak256 : List U8 → Digest) (tx : TxMessage) (w : HCAWitness t) :
    List (List U8) :=
  [(revealedLeaf w).hashInput] ++
    verifyInputs keccak256 ((revealedLeaf w).hash keccak256) w.merkleProof ++
    [signingInput keccak256 tx w]

end Hca.Interface
