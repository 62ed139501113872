import Hca.Interface.PrintedJson
import Hca.Program.Commands

set_option autoImplicit false

/-!
# Test vectors

What the entries of a file of test vectors state, section by section. A section that is
missing or no array states nothing.
-/

namespace Hca.Interface

open Hca.Library Hca.Model Hca.Program

variable (lib : JsonLib) (t : Target) (sha256 keccak256 : List U8 → Digest)

/-- The entry states the hash of its data under its tag. -/
def TaggedHashHolds (v : Value) : Prop :=
  ∃ tag data expected, v.index "tag" = .string tag ∧
    declaredBytes (v.index "data") = some data ∧
    declaredBytes (v.index "expected") = some expected.val ∧
    taggedHashStr sha256 keccak256 tag data = expected

/-- The entry states the address of its root. -/
def AddressHolds (v : Value) : Prop :=
  ∃ authRoot, declaredBytes (v.index "auth_root") = some authRoot.val ∧
    declaredBytes (v.index "address") = some (deriveAddress keccak256 authRoot).val

/-- The address of the entry is written in the form in which addresses are printed: with `0x`,
and in lower-case digits. -/
def AddressPrinted (v : Value) : Prop :=
  ∃ address : Bytes 20, v.index "address" = .string (hexEncode0x address.val)

/-- The entry states whether its proof verifies; an entry that does not say so states that
it does. -/
def ProofHolds (v : Value) : Prop :=
  ∃ (leafHash authRoot : Digest) (p : MerkleProof t),
    declaredBytes (v.index "leaf_hash") = some leafHash.val ∧
    declaredBytes (v.index "auth_root") = some authRoot.val ∧
    RereadDeclaresProof lib v p ∧
    MerkleTree.verify keccak256 leafHash p authRoot = .ok ((v.index "valid").asBool.getD true)

/-- The entry states the hash of its rotation, which is not to the zero root. -/
def RotationHolds (v : Value) : Prop :=
  ∃ r : RotationRequest, v.index "chain_id" = .number (.posInt r.chainId) ∧
    v.index "nonce" = .number (.posInt r.nonce) ∧
    declaredBytes (v.index "from") = some r.«from».val ∧
    declaredBytes (v.index "new_auth_root") = some r.newAuthRoot.val ∧
    r.newAuthRoot ≠ List.Vector.replicate 32 0 ∧
    declaredBytes (v.index "rotation_hash") = some (r.signingHash keccak256).val

/-- The entries of a section. -/
def sectionEntries (doc : Value) (key : String) : List Value := (doc.index key).asArray.getD []

/-- What the file states, in the order in which it is checked, for a reading of its address
entries. -/
def statementsWith (Address : Value → Prop) (doc : Value) : List Prop :=
  (sectionEntries doc "tagged_hash").map (TaggedHashHolds sha256 keccak256) ++
    (sectionEntries doc "address").map Address ++
    (sectionEntries doc "merkle_proofs").map (ProofHolds lib t keccak256) ++
    (sectionEntries doc "rotation").map (RotationHolds keccak256)

/-- What the file states. -/
def statements (doc : Value) : List Prop :=
  statementsWith lib t sha256 keccak256 (AddressHolds keccak256) doc

/-- What is asked of the file: that it states this, and prints its addresses as the tool does. -/
def requirements (doc : Value) : List Prop :=
  statementsWith lib t sha256 keccak256 (fun v => AddressHolds keccak256 v ∧ AddressPrinted v) doc

/-- The leaves whose proofs the tool generates vectors for. -/
def vectorLeaves : List Leaf :=
  [⟨0x01, [0x60, 0x01], "primary"⟩, ⟨0x01, [0x60, 0x02], "recovery"⟩,
    ⟨0x01, [0x60, 0x03], "timelock"⟩]

end Hca.Interface
