import Hca.Program.Cli

set_option autoImplicit false

/-!
# The commands of the command line tool

The subcommands that create accounts, make and verify proofs and hash rotations, the
generator of test vectors and the checker that reads them back, and the dispatch over all
of them. `sha256`, `keccak256` and the reading of files are external.
-/

namespace Hca.Program.Cli

open Hca.Library Hca.Model

variable (lib : JsonLib) (t : Target) (sha256 keccak256 : List U8 → Digest)

/-! ## Accounts and proofs -/

/-- SOURCE: bin/hca.rs:195-201 -/
def accountJson (tree : MerkleTree) (authRoot : Digest) (address : Bytes 20) : Value :=
  .object
    [("address", .string (hexEncode0x address.val)),
      ("auth_root", .string (hexEncode0x authRoot.val)),
      ("depth", .ofNat tree.depth),
      ("leaf_count", .ofNat tree.leaves.length),
      ("leaf_hashes", .array
        (tree.leaves.map fun l => .string (hexEncode0x (l.hash keccak256).val)))]

/-- SOURCE: bin/hca.rs:188-204 -/
def cmdCreateAccount (leavesJson : String) : Outcome String String := do
  let leaves ← parseLeaves lib leavesJson
  let tree ← mapErr HcaError.display (MerkleTree.new t keccak256 leaves)
  let authRoot ← mapErr HcaError.display tree.authRoot
  let address := deriveAddress keccak256 authRoot
  pure (lib.toStringPretty (accountJson keccak256 tree authRoot address))

/-- SOURCE: bin/hca.rs:209 -/
def addressJson (address : Bytes 20) : Value :=
  .object [("address", .string (hexEncode0x address.val))]

/-- SOURCE: bin/hca.rs:206-210 -/
def cmdDeriveAddress (rootHex : String) : Outcome String String := do
  let authRoot ← decode32 lib rootHex
  let address := deriveAddress keccak256 authRoot
  pure (lib.toStringPretty (addressJson address))

/-- SOURCE: bin/hca.rs:218-223 -/
def proofJson (proof : MerkleProof t) (leafHash authRoot : Digest) : Value :=
  .object
    [("leaf_index", .ofNat proof.leafIndex.toNat),
      ("leaf_hash", .string (hexEncode0x leafHash.val)),
      ("auth_root", .string (hexEncode0x authRoot.val)),
      ("siblings", .array (proof.siblings.map fun s => .string (hexEncode0x s.val)))]

/-- SOURCE: bin/hca.rs:212-226 -/
def cmdGenerateProof (leavesJson : String) (leafIndex : Usize t) : Outcome String String := do
  let leaves ← parseLeaves lib leavesJson
  let tree ← mapErr HcaError.display (MerkleTree.new t keccak256 leaves)
  let proof ← mapErr HcaError.display (tree.proof leafIndex)
  let leaf ← index tree.leaves leafIndex.toNat
  let leafHash := leaf.hash keccak256
  let authRoot ← mapErr HcaError.display tree.authRoot
  pure (lib.toStringPretty (proofJson t proof leafHash authRoot))

/-- SOURCE: bin/hca.rs:239 -/
def validJson (valid : Bool) : Value := .object [("valid", .bool valid)]

/-- SOURCE: bin/hca.rs:228-240 -/
def cmdVerifyProof (leafHashHex proofText authRootHex : String) : Outcome String String := do
  let leafHash ← decode32 lib leafHashHex
  let authRoot ← decode32 lib authRootHex
  let proof ← parseProof lib t proofText
  let valid ← mapErr HcaError.display (MerkleTree.verify keccak256 leafHash proof authRoot)
  pure (lib.toStringPretty (validJson valid))

/-! ## Rotations -/

/-- SOURCE: bin/hca.rs:277-298 -/
def cmdRotationHash (chainId nonce : U64) (fromHex newAuthRootHex : String) :
    Outcome String String := do
  let fromBytes ← decodeHex lib fromHex
  rejectIf (fromBytes.length ≠ 20) s!"from: expected 20 bytes, got {fromBytes.length}"
  let «from» ← copyFromSlice 20 fromBytes
  let newAuthRoot ← decode32 lib newAuthRootHex
  let req ← mapErr HcaError.display (RotationRequest.new chainId nonce «from» newAuthRoot)
  pure (lib.toStringPretty
    (.object [("rotation_hash", .string (hexEncode0x (req.signingHash keccak256).val))]))

/-! ## Test vectors -/

/-- SOURCE: bin/hca.rs:302-321 -/
def taggedHashCases : List (String × String) :=
  [("HCAAddr", "0x"),
    ("HCAAddr", "0x0000000000000000000000000000000000000000000000000000000000000000"),
    ("HCALeaf", "0x0000000000000000000000000000000000000000000000000000000000000000"),
    ("HCABranch", "0x0000000000000000000000000000000000000000000000000000000000000000"),
    ("HCAWitness", "0x0000000000000000000000000000000000000000000000000000000000000000"),
    ("HCARotate", "0x010203")]

/-- SOURCE: bin/hca.rs:337-341 -/
def addressCases : List String :=
  ["0x0000000000000000000000000000000000000000000000000000000000000000",
    "0xdeadbeefdeadbeefdeadbeefdeadbeefdeadbeefdeadbeefdeadbeefdeadbeef",
    "0xabababababababababababababababababababababababababababababababab"]

/-- SOURCE: bin/hca.rs:356-360 -/
def leafCases : List (U8 × List U8 × String) :=
  [(0x01, [0x60, 0x01], "primary"), (0x01, [0x60, 0x02], "recovery"),
    (0x01, [0x60, 0x03], "timelock")]

/-- SOURCE: bin/hca.rs:379-392 -/
def rotationCases : List (U64 × U64 × String × String) :=
  [(1, 0, "0x0101010101010101010101010101010101010101",
      "0xdeadbeefdeadbeefdeadbeefdeadbeefdeadbeefdeadbeefdeadbeefdeadbeef"),
    (11155111, 3, "0x0202020202020202020202020202020202020202",
      "0xabababababababababababababababababababababababababababababababab")]

/-- SOURCE: bin/hca.rs:323-334 -/
def taggedHashVector (entry : String × String) : Outcome String Value := do
  let data ← unwrapOk (decodeHex lib entry.2)
  let got := taggedHashStr sha256 keccak256 entry.1 data
  pure (.object
    [("tag", .string entry.1), ("data", .string entry.2),
      ("expected", .string (hexEncode0x got.val))])

/-- SOURCE: bin/hca.rs:343-353 -/
def addressVector (rootHex : String) : Outcome String Value := do
  let root ← unwrapOk (decode32 lib rootHex)
  let addr := deriveAddress keccak256 root
  pure (.object [("auth_root", .string rootHex), ("address", .string (hexEncode0x addr.val))])

/-- SOURCE: bin/hca.rs:364-376 -/
def proofVector (leaves : List Leaf) (tree : MerkleTree) (root : Digest) (i : ℕ) :
    Outcome String Value := do
  let proof ← unwrapOk (tree.proof (BitVec.ofNat t.bits i))
  let leaf ← index leaves i
  let lh := leaf.hash keccak256
  let valid ← unwrapOk (MerkleTree.verify keccak256 lh proof root)
  pure (.object
    [("leaf_index", .ofNat i),
      ("leaf_hash", .string (hexEncode0x lh.val)),
      ("auth_root", .string (hexEncode0x root.val)),
      ("siblings", .array (proof.siblings.map fun s => .string (hexEncode0x s.val))),
      ("valid", .bool valid)])

/-- SOURCE: bin/hca.rs:394-413 -/
def rotationVector (entry : U64 × U64 × String × String) : Outcome String Value := do
  let (chainId, nonce, fromHex, rootHex) := entry
  let b ← unwrapOk (decodeHex lib fromHex)
  let «from» ← copyFromSlice 20 b
  let newRoot ← unwrapOk (decode32 lib rootHex)
  let req ← unwrapOk (RotationRequest.new chainId nonce «from» newRoot)
  pure (.object
    [("chain_id", .number (.posInt chainId)),
      ("nonce", .number (.posInt nonce)),
      ("from", .string fromHex),
      ("new_auth_root", .string rootHex),
      ("rotation_hash", .string (hexEncode0x (req.signingHash keccak256).val))])

/-- SOURCE: bin/hca.rs:415-422 -/
def vectorsJson (taggedHashes addresses proofs rotations : List Value) : Value :=
  .object
    [("description", .string "HCA cross-implementation test vectors (EIP-8215)"),
      ("version", .string "0.3.0"),
      ("tagged_hash", .array taggedHashes),
      ("address", .array addresses),
      ("merkle_proofs", .array proofs),
      ("rotation", .array rotations)]

/-- The object that `generate-vectors` prints.
SOURCE: bin/hca.rs:300-422 -/
def generateVectors : Outcome String Value := do
  let taggedHashes ← taggedHashCases.mapM (taggedHashVector lib sha256 keccak256)
  let addresses ← addressCases.mapM (addressVector lib keccak256)
  let leaves ← leafCases.mapM fun (version, script, description) =>
    mapErr HcaError.display (Leaf.new version script description)
  let tree ← mapErr HcaError.display (MerkleTree.new t keccak256 leaves)
  let root ← mapErr HcaError.display tree.authRoot
  let proofs ← (List.range leaves.length).mapM (proofVector t keccak256 leaves tree root)
  let rotations ← rotationCases.mapM (rotationVector lib keccak256)
  pure (vectorsJson taggedHashes addresses proofs rotations)

/-- SOURCE: bin/hca.rs:300-425 -/
def cmdGenerateVectors : Outcome String String := do
  let out ← generateVectors lib t sha256 keccak256
  pure (lib.toStringPretty out)

/-! ## Checking vectors -/

/-- What the checker keeps: the counts, and the lines it writes to stderr. -/
structure Tally where
  passed : ℕ
  failed : ℕ
  report : List String
  deriving DecidableEq

/-- Counts one vector; `line` is written when it failed. -/
def Tally.count (s : Tally) (result : Bool × String) : Tally :=
  if result.1 then { s with passed := s.passed + 1 }
  else { s with failed := s.failed + 1, report := s.report ++ [result.2] }

/-- `if let Some(arr) = doc[key].as_array()` with the loop over its entries: `check` says
whether the entry at a position passes, and the line to write if it does not. -/
def checkSection (check : Value → ℕ → Outcome String (Bool × String)) (doc : Value)
    (key : String) (s : Tally) : Outcome String Tally :=
  match (doc.index key).asArray with
  | some arr => arr.zipIdx.foldlM (fun s entry => do
      let result ← check entry.1 entry.2
      pure (s.count result)) s
  | none => pure s

/-- SOURCE: bin/hca.rs:438-461 -/
def checkTaggedHash (v : Value) (i : ℕ) : Outcome String (Bool × String) := do
  let tag ← okOr (v.index "tag").asStr s!"tagged_hash[{i}]: missing tag"
  let dataHex ← okOr (v.index "data").asStr s!"tagged_hash[{i}]: missing data"
  let data ← decodeHex lib dataHex
  let expectedHex ← okOr (v.index "expected").asStr s!"tagged_hash[{i}]: missing expected"
  let expected ← decode32 lib expectedHex
  let got := taggedHashStr sha256 keccak256 tag data
  pure (decide (got = expected), s!"FAIL tagged_hash[{i}]: got " ++ hexEncode0x got.val ++
    " expected " ++ hexEncode0x expected.val)

/-- The address is compared as a text.
SOURCE: bin/hca.rs:469-487 -/
def checkAddress (v : Value) (i : ℕ) : Outcome String (Bool × String) := do
  let rootHex ← okOr (v.index "auth_root").asStr s!"address[{i}]: missing auth_root"
  let root ← decode32 lib rootHex
  let expectedHex ← okOr (v.index "address").asStr s!"address[{i}]: missing address"
  let got := deriveAddress keccak256 root
  pure (decide (hexEncode0x got.val = expectedHex), s!"FAIL address[{i}]: got " ++
    hexEncode0x got.val ++ " expected " ++ expectedHex)

/-- The proof is parsed from the printed entry; an entry that says nothing about its validity
is expected to be valid.
SOURCE: bin/hca.rs:495-517 -/
def checkProof (v : Value) (i : ℕ) : Outcome String (Bool × String) := do
  let leafHashHex ← okOr (v.index "leaf_hash").asStr s!"merkle_proofs[{i}]: missing leaf_hash"
  let leafHash ← decode32 lib leafHashHex
  let rootHex ← okOr (v.index "auth_root").asStr s!"merkle_proofs[{i}]: missing auth_root"
  let authRoot ← decode32 lib rootHex
  let proof ← parseProof lib t (lib.toStr v)
  let expectedValid := (v.index "valid").asBool.getD true
  let got ← mapErr HcaError.display (MerkleTree.verify keccak256 leafHash proof authRoot)
  pure (decide (got = expectedValid),
    s!"FAIL merkle_proofs[{i}]: got valid={got} expected valid={expectedValid}")

/-- SOURCE: bin/hca.rs:524-562 -/
def checkRotation (v : Value) (i : ℕ) : Outcome String (Bool × String) := do
  let chainId ← okOr (v.index "chain_id").asU64 s!"rotation[{i}]: missing chain_id"
  let nonce ← okOr (v.index "nonce").asU64 s!"rotation[{i}]: missing nonce"
  let fromHex ← okOr (v.index "from").asStr s!"rotation[{i}]: missing from"
  let fromBytes ← decodeHex lib fromHex
  rejectIf (fromBytes.length ≠ 20) s!"rotation[{i}]: from must be 20 bytes"
  let «from» ← copyFromSlice 20 fromBytes
  let rootHex ← okOr (v.index "new_auth_root").asStr s!"rotation[{i}]: missing new_auth_root"
  let newRoot ← decode32 lib rootHex
  let expectedHex ← okOr (v.index "rotation_hash").asStr
    s!"rotation[{i}]: missing rotation_hash"
  let expected ← decode32 lib expectedHex
  let req ← mapErr HcaError.display (RotationRequest.new chainId nonce «from» newRoot)
  let got := req.signingHash keccak256
  pure (decide (got = expected), s!"FAIL rotation[{i}]: got " ++ hexEncode0x got.val ++
    " expected " ++ hexEncode0x expected.val)

/-- The four sections, one after the other.
SOURCE: bin/hca.rs:432-565 -/
def checkVectors (doc : Value) : Outcome String Tally := do
  let s ← checkSection (checkTaggedHash lib sha256 keccak256) doc "tagged_hash" ⟨0, 0, []⟩
  let s ← checkSection (checkAddress lib keccak256) doc "address" s
  let s ← checkSection (checkProof lib t keccak256) doc "merkle_proofs" s
  checkSection (checkRotation lib keccak256) doc "rotation" s

/-- SOURCE: bin/hca.rs:568-573 -/
def tallyJson (s : Tally) : Value :=
  .object
    [("total", .ofNat (s.passed + s.failed)),
      ("passed", .ofNat s.passed),
      ("failed", .ofNat s.failed),
      ("ok", .bool (decide (s.failed = 0)))]

variable (readToString : String → Outcome String String)

/-- SOURCE: bin/hca.rs:427-585 -/
def cmdVerifyVectors (path : String) : Outcome String String := do
  let raw ← mapErr (fun e => s!"cannot read {path}: {e}") (readToString path)
  let doc ← mapErr (fun e => s!"invalid JSON in {path}: {e}") (lib.fromStr raw)
  let s ← checkVectors lib t sha256 keccak256 doc
  let total := s.passed + s.failed
  let out := tallyJson s
  rejectIf (s.failed > 0)
    (s!"{s.failed} of {total} vectors failed\n" ++ lib.toStringPretty out)
  pure (lib.toStringPretty out)

/-! ## Dispatch -/

/-- The subcommands with their arguments.
SOURCE: bin/hca.rs:38-149 -/
inductive Command where
  | createAccount (leaves : String)
  | deriveAddress (authRoot : String)
  | generateProof (leaves : String) (index : Usize t)
  | verifyProof (leafHash proof authRoot : String)
  | encodeTx (tx witness : String)
  | signingHash (tx leafHash : String)
  | rotationHash (chainId nonce : U64) («from» newAuthRoot : String)
  | generateVectors
  | verifyVectors (file : String)

/-- What `main` prints: the value to stdout, an error to stderr.
SOURCE: bin/hca.rs:153-184 -/
def run : Command t → Outcome String String
  | .createAccount leaves => cmdCreateAccount lib t keccak256 leaves
  | .deriveAddress authRoot => cmdDeriveAddress lib keccak256 authRoot
  | .generateProof leaves leafIndex => cmdGenerateProof lib t keccak256 leaves leafIndex
  | .verifyProof leafHash proof authRoot => cmdVerifyProof lib t keccak256 leafHash proof authRoot
  | .encodeTx tx witness => cmdEncodeTx lib t tx witness
  | .signingHash tx leafHash => cmdSigningHash lib keccak256 tx leafHash
  | .rotationHash chainId nonce «from» newAuthRoot =>
      cmdRotationHash lib keccak256 chainId nonce «from» newAuthRoot
  | .generateVectors => cmdGenerateVectors lib t sha256 keccak256
  | .verifyVectors file => cmdVerifyVectors lib t sha256 keccak256 readToString file

end Hca.Program.Cli
