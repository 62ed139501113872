import Hca.Program.Merkle
import Hca.Library.BigEndian

set_option autoImplicit false

/-!
# Transactions, rotations and witnesses

The transaction message and the rotation request with their signing hashes, and the
witness that carries a leaf, its proof and a signature.
-/

namespace Hca.Program

open Hca.Library Hca.Model

/-- `x.to_be_bytes()` -/
def toBeBytes {n : ℕ} (x : BitVec n) : List U8 := BigEndian.toBytes (n / 8) x.toNat

/-! ## Transactions -/

/-- SOURCE: witness.rs:18-37 -/
structure TxMessage where
  chainId : U64
  nonce : U64
  «from» : Bytes 20
  «to» : Bytes 20
  value : U128
  data : List U8
  gasLimit : U64
  maxFeePerGas : U128
  maxPriorityFeePerGas : U128
  deriving DecidableEq

namespace TxMessage

/-- The buffer `data` of `signing_hash`; calldata goes in after its length as a `u64`.
SOURCE: witness.rs:55-70 -/
def signingData (tx : TxMessage) (leafHash : Digest) : List U8 :=
  toBeBytes tx.chainId ++ toBeBytes tx.nonce ++ tx.«from».val ++ tx.«to».val ++
    toBeBytes tx.value ++ toBeBytes (BitVec.ofNat 64 tx.data.length) ++ tx.data ++
    toBeBytes tx.gasLimit ++ toBeBytes tx.maxFeePerGas ++ toBeBytes tx.maxPriorityFeePerGas ++
    leafHash.val

/-- SOURCE: witness.rs:54-73 -/
def signingHash (keccak256 : List U8 → Digest) (tx : TxMessage) (leafHash : Digest) : Digest :=
  taggedHash keccak256 TagHashes.witness (tx.signingData leafHash)

end TxMessage

/-! ## Rotations -/

/-- SOURCE: witness.rs:196-205 -/
structure RotationRequest where
  chainId : U64
  nonce : U64
  «from» : Bytes 20
  newAuthRoot : Digest
  deriving DecidableEq

namespace RotationRequest

/-- SOURCE: witness.rs:210-227 -/
def new (chainId nonce : U64) («from» : Bytes 20) (newAuthRoot : Digest) :
    HcaResult RotationRequest := do
  rejectIf (newAuthRoot = List.Vector.replicate 32 0)
    (.invalidRotation "new_auth_root must not be zero")
  pure { chainId, nonce, «from», newAuthRoot }

/-- The buffer `data` of `signing_hash`.
SOURCE: witness.rs:240-244 -/
def signingData (r : RotationRequest) : List U8 :=
  toBeBytes r.chainId ++ toBeBytes r.nonce ++ r.«from».val ++ r.newAuthRoot.val

/-- SOURCE: witness.rs:239-246 -/
def signingHash (keccak256 : List U8 → Digest) (r : RotationRequest) : Digest :=
  taggedHash keccak256 TagHashes.rotate r.signingData

end RotationRequest

/-! ## Witnesses -/

/-- SOURCE: witness.rs:83-92 -/
structure HCAWitness (t : Target) where
  leafVersion : U8
  leafScript : List U8
  merkleProof : MerkleProof t
  witnessData : List U8
  deriving DecidableEq

namespace HCAWitness

variable {t : Target}

/-- SOURCE: witness.rs:96-103 -/
def build (leaf : Leaf) (proof : MerkleProof t) : HCAWitness t where
  leafVersion := leaf.version
  leafScript := leaf.script
  merkleProof := proof
  witnessData := []

/-- SOURCE: witness.rs:108-114 -/
def attachSignature (w : HCAWitness t) (signature : List U8) : HcaResult (HCAWitness t) := do
  rejectIf (signature = []) .emptySignature
  pure { w with witnessData := signature }

/-- SOURCE: witness.rs:117-119 -/
def isSigned (w : HCAWitness t) : Bool := !w.witnessData.isEmpty

/-- The gas of the proof and of the script; a script that does not validate counts with the
cap.
SOURCE: witness.rs:131-140 -/
def estimateGas (w : HCAWitness t) : HcaResult ℕ := do
  let levelGas ← mul 64 w.merkleProof.siblings.length merkleGasPerLevel
  let proofGas ← add 64 merkleBaseGas levelGas
  let leafGas ← match validateLeafScript w.leafScript with
    | .error (.err _) => pure maxLeafGas
    | gas => gas
  add 64 proofGas leafGas

end HCAWitness

end Hca.Program
