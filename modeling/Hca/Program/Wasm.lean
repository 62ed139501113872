import Hca.Model.Json
import Hca.Program.Text
import Hca.Program.Witness

set_option autoImplicit false

/-!
# The WASM bindings

The entry points that take JSON texts and return JSON texts. Errors reach JavaScript as the
texts of the errors.
-/

namespace Hca.Program.Wasm

open Hca.Library Hca.Model

/-! ## Reading JSON -/

/-- `hex::decode(v[key].as_str().unwrap_or("").trim_start_matches("0x")).unwrap_or_default()` -/
def hexField (v : Value) (key : String) : List U8 :=
  (hexDecode (trimStartMatches0x ((v.index key).asStr.getD "").toList)).getD []

/-- The leaf of one object; the version goes through `as u8`.
SOURCE: wasm.rs:57-68, wasm.rs:186-197 -/
def leafOf (l : Value) : Outcome String Leaf :=
  mapErr HcaError.display
    (Leaf.new (((l.index "version").asU64.getD 1).setWidth 8) (hexField l "script")
      ((l.index "description").asStr.getD ""))

/-- An address field; anything but 20 bytes leaves the address zero.
SOURCE: wasm.rs:202-214 -/
def addressField (tx : Value) (key : String) : Bytes 20 :=
  let bytes := hexField tx key
  (if h : bytes.length = 20 then some ⟨bytes, h⟩ else none).getD (List.Vector.replicate 20 0)

/-- `tx[key].as_u64().unwrap_or(default)` -/
def u64Field (tx : Value) (key : String) (default : U64) : U64 :=
  (tx.index key).asU64.getD default

/-- The message that `build_witness` signs.
SOURCE: wasm.rs:202-229 -/
def txMessage (tx : Value) : TxMessage where
  chainId := u64Field tx "chain_id" 11155111
  nonce := u64Field tx "nonce" 0
  «from» := addressField tx "from"
  «to» := addressField tx "to"
  value := (u64Field tx "value" 0).setWidth 128
  data := ((tx.index "data").asStr.bind fun s => hexDecode (stripPrefix0x s.toList)).getD []
  gasLimit := u64Field tx "gas_limit" 100000
  maxFeePerGas := (u64Field tx "max_fee" 1000000000).setWidth 128
  maxPriorityFeePerGas := (u64Field tx "max_priority_fee" 100000000).setWidth 128

/-! ## Entry points -/

variable (lib : JsonLib) (t : Target) (keccak256 : List U8 → Digest)

/-- SOURCE: wasm.rs:75-85 -/
def accountJson (leaves : List Leaf) (authRoot : Digest) (address : Bytes 20) : Value :=
  .object
    [("address", .string (hexEncode0x address.val)),
      ("auth_root", .string (hexEncode0x authRoot.val)),
      ("leaf_count", .ofNat leaves.length),
      ("leaves", .array (leaves.zipIdx.map fun entry => .object
        [("index", .ofNat entry.2),
          ("version", .ofNat entry.1.version.toNat),
          ("hash", .string (hexEncode0x (entry.1.hash keccak256).val)),
          ("description", .string entry.1.description)]))]

/-- SOURCE: wasm.rs:53-88 -/
def createHcaAccount (leavesJson : String) : Outcome String String := do
  let raw ← lib.vecFromStr leavesJson
  let leaves ← raw.mapM leafOf
  let tree ← mapErr HcaError.display (MerkleTree.new t keccak256 leaves)
  let authRoot ← mapErr HcaError.display tree.authRoot
  let address := deriveAddress keccak256 authRoot
  pure (lib.toStr (accountJson keccak256 leaves authRoot address))

/-- SOURCE: wasm.rs:131-136 -/
def proofJson (proof : MerkleProof t) (leafHash authRoot : Digest) : Value :=
  .object
    [("leaf_index", .ofNat proof.leafIndex.toNat),
      ("leaf_hash", .string (hexEncode0x leafHash.val)),
      ("siblings", .array (proof.siblings.map fun s => .string (hexEncode0x s.val))),
      ("auth_root", .string (hexEncode0x authRoot.val))]

/-- SOURCE: wasm.rs:106-139 -/
def generateProof (leavesJson : String) (leafIndex : Usize t) : Outcome String String := do
  let raw ← lib.vecFromStr leavesJson
  let leaves ← raw.mapM leafOf
  let tree ← mapErr HcaError.display (MerkleTree.new t keccak256 leaves)
  let proof ← mapErr HcaError.display (tree.proof leafIndex)
  let leaf ← index leaves leafIndex.toNat
  let leafHash := leaf.hash keccak256
  let authRoot ← mapErr HcaError.display tree.authRoot
  pure (lib.toStr (proofJson t proof leafHash authRoot))

/-- SOURCE: wasm.rs:241-252 -/
def witnessJson (leafHash signingHash : Digest) (witness : HCAWitness t) (estimatedGas : ℕ)
    (authRoot : Digest) : Value :=
  .object
    [("leaf_hash", .string (hexEncode0x leafHash.val)),
      ("signing_hash", .string (hexEncode0x signingHash.val)),
      ("leaf_script", .string (hexEncode0x witness.leafScript)),
      ("leaf_version", .ofNat witness.leafVersion.toNat),
      ("merkle_proof", .object
        [("leaf_index", .ofNat witness.merkleProof.leafIndex.toNat),
          ("siblings", .array
            (witness.merkleProof.siblings.map fun s => .string (hexEncode0x s.val)))]),
      ("estimated_gas", .ofNat estimatedGas),
      ("auth_root", .string (hexEncode0x authRoot.val))]

/-- SOURCE: wasm.rs:178-255 -/
def buildWitness (leavesJson : String) (leafIndex : Usize t) (txJson : String) :
    Outcome String String := do
  let raw ← lib.vecFromStr leavesJson
  let leaves ← raw.mapM leafOf
  let tx ← lib.fromStr txJson
  let msg := txMessage tx
  let tree ← mapErr HcaError.display (MerkleTree.new t keccak256 leaves)
  let proof ← mapErr HcaError.display (tree.proof leafIndex)
  let leaf ← index leaves leafIndex.toNat
  let leafHash := leaf.hash keccak256
  let signingHash := msg.signingHash keccak256 leafHash
  let witness := HCAWitness.build leaf proof
  let estimatedGas ← mapErr HcaError.display witness.estimateGas
  let authRoot ← mapErr HcaError.display tree.authRoot
  pure (lib.toStr (witnessJson t leafHash signingHash witness estimatedGas authRoot))

end Hca.Program.Wasm
