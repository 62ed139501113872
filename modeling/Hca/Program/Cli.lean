import Hca.Model.Json
import Hca.Program.Rlp
import Hca.Program.Text

set_option autoImplicit false

/-!
# The command line tool

The parsers of JSON transactions, leaves, proofs and witnesses, and the two commands that
act on a transaction. Errors are the texts the tool prints.
-/

namespace Hca.Program.Cli

open Hca.Library Hca.Model

variable (lib : JsonLib)

/-! ## Hexadecimal arguments -/

/-- SOURCE: bin/hca.rs:589-592 -/
def decodeHex (s : String) : Outcome String (List U8) :=
  let digits := stripPrefix0x s.toList
  match hexDecode digits with
  | some bytes => .ok bytes
  | none =>
    let s := String.ofList digits
    .error (.err ("invalid hex '" ++ s ++ "': " ++ lib.hexError s))

/-- SOURCE: bin/hca.rs:594-602 -/
def decode32 (s : String) : Outcome String Digest := do
  let v ← decodeHex lib s
  rejectIf (v.length ≠ 32) s!"expected 32 bytes, got {v.length}"
  copyFromSlice 32 v

/-! ## Leaves, proofs and witnesses -/

/-- One byte, as a hexadecimal string. -/
def decodeByte (s msg : String) : Outcome String U8 := do
  let bytes ← decodeHex lib s
  rejectIf (bytes.length ≠ 1) msg
  index bytes 0

/-- The leaf object at position `i`.
SOURCE: bin/hca.rs:622-640 -/
def parseLeaf (v : Value) (i : ℕ) : Outcome String Leaf := do
  let versionStr ← okOr (v.index "version").asStr s!"leaf[{i}]: missing 'version'"
  let version ← decodeByte lib versionStr s!"leaf[{i}]: version must be 1 byte"
  let scriptHex ← okOr (v.index "script").asStr s!"leaf[{i}]: missing 'script'"
  let script ← decodeHex lib scriptHex
  let description := (v.index "description").asStr.getD ""
  mapErr HcaError.display (Leaf.new version script description)

/-- SOURCE: bin/hca.rs:616-642 -/
def parseLeaves (jsonStr : String) : Outcome String (List Leaf) := do
  let arr ← mapErr ("invalid leaves JSON: " ++ ·) (lib.vecFromStr jsonStr)
  arr.zipIdx.mapM fun entry => parseLeaf lib entry.1 entry.2

/-- `x as usize` -/
def asUsize (t : Target) (x : U64) : Usize t := x.setWidth t.bits

/-- SOURCE: bin/hca.rs:644-669 -/
def parseProof (t : Target) (jsonStr : String) : Outcome String (MerkleProof t) := do
  let v ← mapErr ("invalid proof JSON: " ++ ·) (lib.fromStr jsonStr)
  let leafIndex ← okOr (v.index "leaf_index").asU64 "proof: missing 'leaf_index'"
  let siblings ← okOr (v.index "siblings").asArray "proof: missing 'siblings'"
  let siblings ← siblings.zipIdx.mapM fun entry => do
    let s ← okOr entry.1.asStr s!"siblings[{entry.2}] must be a string"
    decode32 lib s
  pure { leafIndex := asUsize t leafIndex, siblings }

/-- SOURCE: bin/hca.rs:719-741 -/
def parseWitness (t : Target) (v : Value) : Outcome String (HCAWitness t) := do
  let versionStr ← okOr (v.index "leaf_version").asStr "witness: missing 'leaf_version'"
  let leafVersion ← decodeByte lib versionStr "witness.leaf_version must be 1 byte"
  let scriptStr ← okOr (v.index "leaf_script").asStr "witness: missing 'leaf_script'"
  let leafScript ← decodeHex lib scriptStr
  let proof ← parseProof lib t (lib.toStr v)
  let leaf ← mapErr HcaError.display (Leaf.new leafVersion leafScript "")
  pure (HCAWitness.build leaf proof)

/-! ## Transactions -/

/-- An address field, which must be a string of 20 bytes. -/
def parseAddress (v : Value) (key : String) : Outcome String (Bytes 20) := do
  let s ← okOr (v.index key).asStr ("tx: missing '" ++ key ++ "'")
  let bytes ← decodeHex lib s
  rejectIf (bytes.length ≠ 20) ("tx." ++ key ++ s!": expected 20 bytes, got {bytes.length}")
  copyFromSlice 20 bytes

/-- A field that must be an integer of 64 bits. -/
def parseU64 (v : Value) (key : String) : Outcome String U64 :=
  okOr (v.index key).asU64 ("tx: missing '" ++ key ++ "'")

/-- `v[key].as_str().unwrap_or("0").parse()` into a `u128`. -/
def parseU128 (v : Value) (key : String) : Outcome String U128 :=
  okOr (parseUint 128 ((v.index key).asStr.getD "0").toList)
    ("tx." ++ key ++ ": invalid integer")

/-- `v["data"].as_str().map(decode_hex).transpose()?.unwrap_or_default()` -/
def parseData (v : Value) : Outcome String (List U8) :=
  match (v.index "data").asStr with
  | some s => decodeHex lib s
  | none => .ok []

/-- The fields in the order in which they are read.
SOURCE: bin/hca.rs:671-717 -/
def parseTxMessage (v : Value) : Outcome String TxMessage := do
  let «from» ← parseAddress lib v "from"
  let «to» ← parseAddress lib v "to"
  let value ← parseU128 v "value"
  let data ← parseData lib v
  let chainId ← parseU64 v "chain_id"
  let nonce ← parseU64 v "nonce"
  let gasLimit ← parseU64 v "gas_limit"
  let maxFeePerGas ← parseU128 v "max_fee_per_gas"
  let maxPriorityFeePerGas ← parseU128 v "max_priority_fee_per_gas"
  pure { chainId, nonce, «from», «to», value, data, gasLimit, maxFeePerGas,
         maxPriorityFeePerGas }

/-! ## Commands -/

/-- SOURCE: bin/hca.rs:267-275 -/
def cmdSigningHash (keccak256 : List U8 → Digest) (txJson leafHashHex : String) :
    Outcome String String := do
  let txVal ← mapErr ("invalid tx JSON: " ++ ·) (lib.fromStr txJson)
  let tx ← parseTxMessage lib txVal
  let leafHash ← decode32 lib leafHashHex
  let hash := tx.signingHash keccak256 leafHash
  pure (lib.toStringPretty (.object [("signing_hash", .string (hexEncode0x hash.val))]))

/-- SOURCE: bin/hca.rs:242-265 -/
def cmdEncodeTx (t : Target) (txJson witnessJson : String) : Outcome String String := do
  let txVal ← mapErr ("invalid tx JSON: " ++ ·) (lib.fromStr txJson)
  let witVal ← mapErr ("invalid witness JSON: " ++ ·) (lib.fromStr witnessJson)
  let tx ← parseTxMessage lib txVal
  let witness ← parseWitness lib t witVal
  let sigHex := (witVal.index "witness_data").asStr.getD "0x"
  let sig ← decodeHex lib sigHex
  let witness ← (if sig.isEmpty then pure witness
    else mapErr HcaError.display (witness.attachSignature sig))
  rejectIf (witness.isSigned = false)
    "witness_data is empty — cannot encode unsigned witness"
  let encoded ← mapErr HcaError.display (encodeHcaTx t tx witness)
  pure (lib.toStringPretty (.object [("encoded", .string (hexEncode0x encoded))]))

end Hca.Program.Cli
