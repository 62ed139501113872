import Hca.Analysis.MerkleSafety
import Hca.Analysis.SpendGas
import Hca.Analysis.Vectors

set_option autoImplicit false

/-!
# Commands that return

No command of the command line tool and no WASM entry point panics or loops, whatever texts
it is given: lengths are checked before bytes are copied, a leaf is indexed only where its
proof was made, and the constants of the vector generator decode. The JSON library is assumed
to return, and to give arrays that memory can hold.
-/

namespace Hca.Analysis

open Hca.Library Hca.Model Hca.Program Hca.Interface

/-! ## The library -/

/-- The parsers return, and an array has no more items than a `Vec` can hold. -/
structure TotalJson (lib : JsonLib) (t : Target) : Prop where
  fromStr : ∀ s, Returns (lib.fromStr s)
  vecFromStr : ∀ s, Returns (lib.vecFromStr s)
  vec_length_le : ∀ s items, lib.vecFromStr s = .ok items → items.length ≤ t.isizeMax

variable {lib : JsonLib} {t : Target} {keccak256 : List U8 → Digest}

/-! ## Parsers -/

/-- A text is decoded or refused. -/
theorem returns_decodeHex (s : String) : Returns (Cli.decodeHex lib s) := by
  unfold Cli.decodeHex
  dsimp only
  split <;> simp

/-- A copy of bytes whose number was checked. -/
theorem returns_copyFromSlice {n : ℕ} {bytes : List U8} {msg : String} {u : Unit}
    (h : rejectIf (bytes.length ≠ n) msg = .ok u) :
    Returns (copyFromSlice n bytes : Outcome String (Bytes n)) := by
  have hlen : bytes.length = n := not_not.mp (rejectIf_eq_ok.mp h)
  rw [copyFromSlice, dif_pos hlen]
  exact returns_ok _

/-- So is the text of a hash; the copy is of 32 bytes. -/
theorem returns_decode32 (s : String) : Returns (Cli.decode32 lib s) :=
  (returns_decodeHex s).bind fun _ _ =>
    (returns_rejectIf _ _).bind fun _ hu => returns_copyFromSlice hu

/-- And the text of a byte: the byte is there when it is looked up. -/
theorem returns_decodeByte (s msg : String) : Returns (Cli.decodeByte lib s msg) := by
  unfold Cli.decodeByte
  apply (returns_decodeHex s).bind
  intro bytes _
  apply (returns_rejectIf _ _).bind
  intro u hu
  have hlen : bytes.length = 1 := not_not.mp (rejectIf_eq_ok.mp hu)
  exact returns_index.mpr (by omega)

/-- Reading a leaf object returns, since each of its fields does. -/
theorem returns_parseLeaf (v : Value) (i : ℕ) : Returns (Cli.parseLeaf lib v i) := by
  unfold Cli.parseLeaf
  apply (returns_okOr _ _).bind
  intro versionStr _
  apply (returns_decodeByte _ _).bind
  intro version _
  apply (returns_okOr _ _).bind
  intro scriptHex _
  apply (returns_decodeHex _).bind
  intro script _
  exact (returns_mapErr _).mpr (returns_leafNew _ _ _)

/-- An address is copied only after its length was checked. -/
theorem returns_parseAddress (v : Value) (key : String) : Returns (Cli.parseAddress lib v key) := by
  unfold Cli.parseAddress
  apply (returns_okOr _ _).bind
  intro s _
  apply (returns_decodeHex _).bind
  intro bytes _
  exact (returns_rejectIf _ _).bind fun _ hu => returns_copyFromSlice hu

/-- The calldata is decoded, refused or defaulted. -/
theorem returns_parseData (v : Value) : Returns (Cli.parseData lib v) := by
  unfold Cli.parseData
  split
  · exact returns_decodeHex _
  · exact returns_ok _

/-- Reading a transaction object returns, since each of its fields does. -/
theorem returns_parseTxMessage (v : Value) : Returns (Cli.parseTxMessage lib v) := by
  unfold Cli.parseTxMessage
  apply (returns_parseAddress _ _).bind
  intro sender _
  apply (returns_parseAddress _ _).bind
  intro recipient _
  apply (returns_okOr _ _).bind
  intro value _
  apply (returns_parseData _).bind
  intro data _
  apply (returns_okOr _ _).bind
  intro chainId _
  apply (returns_okOr _ _).bind
  intro nonce _
  apply (returns_okOr _ _).bind
  intro gasLimit _
  apply (returns_okOr _ _).bind
  intro maxFee _
  exact (returns_okOr _ _).bind fun maxPriority _ => returns_pure _

section Parsers

variable (hlib : TotalJson lib t)

include hlib

/-- So does reading a text of leaves, if its array can be read. -/
theorem returns_parseLeaves (leavesJson : String) : Returns (Cli.parseLeaves lib leavesJson) :=
  ((returns_mapErr _).mpr (hlib.vecFromStr leavesJson)).bind fun _ _ =>
    Returns.mapM fun _ _ => returns_parseLeaf _ _

/-- No more leaves are read than fit memory, so building their tree does not overflow. -/
theorem length_parseLeaves_le {leavesJson : String} {leaves : List Leaf}
    (h : Cli.parseLeaves lib leavesJson = .ok leaves) : leaves.length ≤ t.isizeMax := by
  unfold Cli.parseLeaves at h
  simp only [bind_eq_ok, mapErr_eq_ok, mapM_eq_ok] at h
  obtain ⟨raw, hraw, hleaves⟩ := h
  rw [← hleaves.length_eq, List.length_zipIdx]
  exact hlib.vec_length_le _ _ hraw

/-- Reading the text of a proof returns: every sibling is checked before it is copied. -/
theorem returns_parseProof (text : String) : Returns (Cli.parseProof lib t text) := by
  unfold Cli.parseProof
  apply ((returns_mapErr _).mpr (hlib.fromStr text)).bind
  intro v _
  apply (returns_okOr _ _).bind
  intro leafIndex _
  apply (returns_okOr _ _).bind
  intro items _
  have hitems : Returns (items.zipIdx.mapM fun entry => do
      let s ← okOr entry.1.asStr s!"siblings[{entry.2}] must be a string"
      Cli.decode32 lib s) := by
    apply Returns.mapM
    intro entry _
    exact (returns_okOr _ _).bind fun s _ => returns_decode32 s
  exact hitems.bind fun siblings _ => returns_pure _

/-- Reading a witness returns, its proof included. -/
theorem returns_parseWitness (v : Value) : Returns (Cli.parseWitness lib t v) := by
  unfold Cli.parseWitness
  apply (returns_okOr _ _).bind
  intro versionStr _
  apply (returns_decodeByte _ _).bind
  intro version _
  apply (returns_okOr _ _).bind
  intro scriptStr _
  apply (returns_decodeHex _).bind
  intro script _
  apply (returns_parseProof hlib _).bind
  intro p _
  exact ((returns_mapErr _).mpr (returns_leafNew _ _ _)).bind fun leaf _ => returns_pure _

end Parsers

/-! ## Trees -/

/-- A tree is built, or an error is returned, for every list of leaves that fits memory: up to
half the range of a `usize`, the rounds of the doubling loop reach the number of leaves. -/
theorem returns_new_of_length_le {leaves : List Leaf} (hlen : leaves.length ≤ t.isizeMax) :
    Returns (MerkleTree.new t keccak256 leaves) := by
  by_cases hne : leaves = []
  · rw [MerkleTree.new, rejectIf_pos hne]
    exact returns_err _
  by_cases hbound : maxTreeDepth < t.bits ∧ leaves.length > 1 <<< maxTreeDepth
  · rw [MerkleTree.new, rejectIf_neg hne, ok_bind, rejectIf_pos hbound]
    exact returns_err _
  rcases returns_checkDuplicates keccak256 0 [] leaves with ⟨u, hdup⟩ | ⟨e, hdup⟩
  · have hfit : leaves.length ≤ 2 ^ (t.bits - 1) := hlen.trans (Nat.sub_le _ _)
    have hdepth : leaves.length ≤ 2 ^ maxTreeDepth := by
      cases t with
      | usize32 => exact hfit.trans (by decide)
      | usize64 =>
        have hle := not_and.mp hbound (by decide)
        rwa [Nat.one_shiftLeft, gt_iff_lt, not_lt] at hle
    have hbuild : Buildable t keccak256 leaves :=
      ⟨hne, hdepth, hfit, ((checkDuplicates_eq_ok keccak256).mp hdup).1⟩
    obtain ⟨T, hT⟩ := new_isOk_iff.mpr hbuild
    rw [hT]
    exact returns_ok T
  · rw [MerkleTree.new, rejectIf_neg hne, ok_bind, rejectIf_neg hbound, ok_bind, hdup]
    exact returns_err e

/-- Where a proof is made, there is a leaf. -/
theorem returns_index_of_proof {T : MerkleTree} {i : Usize t} {p : MerkleProof t}
    {ε : Type} (h : T.proof i = .ok p) : Returns (index T.leaves i.toNat : Outcome ε Leaf) :=
  returns_index.mpr (proof_index_lt h)

/-! ## Commands -/

section Commands

variable (hlib : TotalJson lib t)

include hlib

/-- `create-account` returns: the root of a tree that was built is there. -/
theorem returns_cmdCreateAccount (leavesJson : String) :
    Returns (Cli.cmdCreateAccount lib t keccak256 leavesJson) := by
  unfold Cli.cmdCreateAccount
  apply (returns_parseLeaves hlib _).bind
  intro leaves hleaves
  apply ((returns_mapErr _).mpr
    (returns_new_of_length_le (length_parseLeaves_le hlib hleaves))).bind
  intro T hT
  exact ((returns_mapErr _).mpr (new_built (mapErr_eq_ok.mp hT)).2.returns_authRoot).bind
    fun _ _ => returns_pure _

/-- `generate-proof` returns: with the proof of an index there is the leaf. -/
theorem returns_cmdGenerateProof (leavesJson : String) (i : Usize t) :
    Returns (Cli.cmdGenerateProof lib t keccak256 leavesJson i) := by
  unfold Cli.cmdGenerateProof
  apply (returns_parseLeaves hlib _).bind
  intro leaves hleaves
  apply ((returns_mapErr _).mpr
    (returns_new_of_length_le (length_parseLeaves_le hlib hleaves))).bind
  intro T hT
  obtain ⟨-, hbuilt⟩ := new_built (mapErr_eq_ok.mp hT)
  apply ((returns_mapErr _).mpr (hbuilt.returns_proof i)).bind
  intro p hp
  apply (returns_index_of_proof (mapErr_eq_ok.mp hp)).bind
  intro l _
  exact ((returns_mapErr _).mpr hbuilt.returns_authRoot).bind fun _ _ => returns_pure _

/-- `verify-proof` returns, since reading and climbing do. -/
theorem returns_cmdVerifyProof (leafHashHex proofText authRootHex : String) :
    Returns (Cli.cmdVerifyProof lib t keccak256 leafHashHex proofText authRootHex) := by
  unfold Cli.cmdVerifyProof
  apply (returns_decode32 _).bind
  intro leafHash _
  apply (returns_decode32 _).bind
  intro authRoot _
  apply (returns_parseProof hlib _).bind
  intro p _
  exact ((returns_mapErr _).mpr (returns_verify _ _ _ _)).bind fun _ _ => returns_pure _

/-- `encode-tx` returns: there is no limit that an encoding could run into. -/
theorem returns_cmdEncodeTx (txJson witnessJson : String) :
    Returns (Cli.cmdEncodeTx lib t txJson witnessJson) := by
  unfold Cli.cmdEncodeTx
  apply ((returns_mapErr _).mpr (hlib.fromStr txJson)).bind
  intro txVal _
  apply ((returns_mapErr _).mpr (hlib.fromStr witnessJson)).bind
  intro witVal _
  apply (returns_parseTxMessage _).bind
  intro tx _
  apply (returns_parseWitness hlib _).bind
  intro w _
  apply (returns_decodeHex _).bind
  intro sig _
  have hattach : Returns (if sig.isEmpty then pure w
      else mapErr HcaError.display (w.attachSignature sig) : Outcome String (HCAWitness t)) := by
    split
    · exact returns_pure w
    · exact (returns_mapErr _).mpr ((returns_rejectIf _ _).bind fun _ _ => returns_pure _)
  apply hattach.bind
  intro signed _
  apply (returns_rejectIf _ _).bind
  intro _ _
  have hencode : Returns (encodeHcaTx t tx signed) :=
    (returns_rejectIf _ _).bind fun _ _ => returns_pure _
  exact ((returns_mapErr _).mpr hencode).bind fun _ _ => returns_pure _

/-- `signing-hash` returns, since hashing cannot fail. -/
theorem returns_cmdSigningHash (txJson leafHashHex : String) :
    Returns (Cli.cmdSigningHash lib keccak256 txJson leafHashHex) := by
  unfold Cli.cmdSigningHash
  apply ((returns_mapErr _).mpr (hlib.fromStr txJson)).bind
  intro txVal _
  apply (returns_parseTxMessage _).bind
  intro tx _
  exact (returns_decode32 _).bind fun _ _ => returns_pure _

end Commands

/-- A rotation is made or refused. -/
theorem returns_rotationNew (chainId nonce : U64) (sender : Bytes 20) (newAuthRoot : Digest) :
    Returns (RotationRequest.new chainId nonce sender newAuthRoot) :=
  (returns_rejectIf _ _).bind fun _ _ => returns_pure _

/-- `rotation-hash` returns: the sender is copied after its length was checked. -/
theorem returns_cmdRotationHash (chainId nonce : U64) (fromHex newAuthRootHex : String) :
    Returns (Cli.cmdRotationHash lib keccak256 chainId nonce fromHex newAuthRootHex) := by
  unfold Cli.cmdRotationHash
  apply (returns_decodeHex _).bind
  intro fromBytes _
  apply (returns_rejectIf _ _).bind
  intro u hu
  apply (returns_copyFromSlice hu).bind
  intro sender _
  apply (returns_decode32 _).bind
  intro newAuthRoot _
  exact ((returns_mapErr _).mpr (returns_rotationNew _ _ _ _)).bind fun _ _ => returns_pure _

/-- The constants of the generator decode, so its unwraps do not panic. -/
theorem returns_cmdGenerateVectors (sha256 : List U8 → Digest) :
    Returns (Cli.cmdGenerateVectors lib t sha256 keccak256) := by
  obtain ⟨tagged, htagged, -⟩ := exists_taggedHashVectors lib sha256 keccak256
  obtain ⟨addresses, haddresses, -⟩ := exists_addressVectors lib keccak256
  obtain ⟨rotations, hrotations, -⟩ := exists_rotationVectors lib keccak256
  have hlen : vectorLeaves.length ≤ t.isizeMax := by
    cases t <;> decide
  apply Returns.bind _ fun out _ => returns_pure _
  rw [Cli.generateVectors, htagged, ok_bind, haddresses, ok_bind, mapM_leafCases, ok_bind]
  apply ((returns_mapErr _).mpr (returns_new_of_length_le hlen)).bind
  intro T hT
  have hnew := mapErr_eq_ok.mp hT
  have hroot := (new_built hnew).2.authRoot_eq
  obtain ⟨proofs, hproofs, -⟩ := exists_proofVectors lib hnew hroot
  rw [hroot, mapErr, ok_bind, hproofs, ok_bind, hrotations]
  exact returns_pure _

/-- A section is checked to its end if every entry is. -/
theorem returns_checkSection {check : Value → ℕ → Outcome String (Bool × String)}
    (h : ∀ v i, Returns (check v i)) (doc : Value) (key : String) (s : Cli.Tally) :
    Returns (Cli.checkSection check doc key s) := by
  unfold Cli.checkSection
  split
  · rw [foldlM_update]
    exact (Returns.mapM fun entry _ => h _ _).bind fun results _ => returns_pure _
  · exact returns_pure s

/-- An entry with a tagged hash is judged or refused. -/
theorem returns_checkTaggedHash (sha256 : List U8 → Digest) (v : Value) (i : ℕ) :
    Returns (Cli.checkTaggedHash lib sha256 keccak256 v i) := by
  unfold Cli.checkTaggedHash
  apply (returns_okOr _ _).bind
  intro tag _
  apply (returns_okOr _ _).bind
  intro dataHex _
  apply (returns_decodeHex _).bind
  intro data _
  apply (returns_okOr _ _).bind
  intro expectedHex _
  exact (returns_decode32 _).bind fun _ _ => returns_pure _

/-- So is an entry with an address. -/
theorem returns_checkAddress (v : Value) (i : ℕ) :
    Returns (Cli.checkAddress lib keccak256 v i) := by
  unfold Cli.checkAddress
  apply (returns_okOr _ _).bind
  intro rootHex _
  apply (returns_decode32 _).bind
  intro root _
  exact (returns_okOr _ _).bind fun _ _ => returns_pure _

/-- And an entry with a proof, if its text can be read. -/
theorem returns_checkProof (hlib : TotalJson lib t) (v : Value) (i : ℕ) :
    Returns (Cli.checkProof lib t keccak256 v i) := by
  unfold Cli.checkProof
  apply (returns_okOr _ _).bind
  intro leafHashHex _
  apply (returns_decode32 _).bind
  intro leafHash _
  apply (returns_okOr _ _).bind
  intro rootHex _
  apply (returns_decode32 _).bind
  intro authRoot _
  apply (returns_parseProof hlib _).bind
  intro p _
  exact ((returns_mapErr _).mpr (returns_verify _ _ _ _)).bind fun _ _ => returns_pure _

/-- And an entry with a rotation, whose sender is copied after its length was checked. -/
theorem returns_checkRotation (v : Value) (i : ℕ) :
    Returns (Cli.checkRotation lib keccak256 v i) := by
  unfold Cli.checkRotation
  apply (returns_okOr _ _).bind
  intro chainId _
  apply (returns_okOr _ _).bind
  intro nonce _
  apply (returns_okOr _ _).bind
  intro fromHex _
  apply (returns_decodeHex _).bind
  intro fromBytes _
  apply (returns_rejectIf _ _).bind
  intro u hu
  apply (returns_copyFromSlice hu).bind
  intro sender _
  apply (returns_okOr _ _).bind
  intro rootHex _
  apply (returns_decode32 _).bind
  intro newRoot _
  apply (returns_okOr _ _).bind
  intro expectedHex _
  apply (returns_decode32 _).bind
  intro expected _
  exact ((returns_mapErr _).mpr (returns_rotationNew _ _ _ _)).bind fun _ _ => returns_pure _

/-- `verify-vectors` returns on every file that the system reads or refuses to. -/
theorem returns_cmdVerifyVectors (hlib : TotalJson lib t) (sha256 : List U8 → Digest)
    {readToString : String → Outcome String String} (hread : ∀ path, Returns (readToString path))
    (path : String) :
    Returns (Cli.cmdVerifyVectors lib t sha256 keccak256 readToString path) := by
  unfold Cli.cmdVerifyVectors Cli.checkVectors
  apply ((returns_mapErr _).mpr (hread path)).bind
  intro raw _
  apply ((returns_mapErr _).mpr (hlib.fromStr raw)).bind
  intro doc _
  have hcheck : Returns (Cli.checkVectors lib t sha256 keccak256 doc) := by
    unfold Cli.checkVectors
    apply (returns_checkSection (returns_checkTaggedHash sha256) _ _ _).bind
    intro s _
    apply (returns_checkSection returns_checkAddress _ _ _).bind
    intro s _
    apply (returns_checkSection (returns_checkProof hlib) _ _ _).bind
    intro s _
    exact returns_checkSection returns_checkRotation _ _ _
  apply hcheck.bind
  intro s _
  exact (returns_rejectIf _ _).bind fun _ _ => returns_pure _

/-! ## WASM entry points -/

/-- A call of an entry point, with its arguments. -/
inductive WasmCall (t : Target) where
  | createHcaAccount (leavesJson : String)
  | generateProof (leavesJson : String) (leafIndex : Usize t)
  | buildWitness (leavesJson : String) (leafIndex : Usize t) (txJson : String)

/-- What the call returns to JavaScript. -/
def WasmCall.run (lib : JsonLib) (t : Target) (keccak256 : List U8 → Digest) :
    WasmCall t → Outcome String String
  | .createHcaAccount leavesJson => Wasm.createHcaAccount lib t keccak256 leavesJson
  | .generateProof leavesJson leafIndex => Wasm.generateProof lib t keccak256 leavesJson leafIndex
  | .buildWitness leavesJson leafIndex txJson =>
      Wasm.buildWitness lib t keccak256 leavesJson leafIndex txJson

/-- A leaf object of the WASM entry points is accepted or refused. -/
theorem returns_leafOf (v : Value) : Returns (Wasm.leafOf v) :=
  (returns_mapErr _).mpr (returns_leafNew _ _ _)

/-- The WASM entry points return on every call. -/
theorem returns_wasmCall (hlib : TotalJson lib t) (call : WasmCall t) :
    Returns (call.run lib t keccak256) := by
  -- all three build the tree of the leaves
  have htree : ∀ {leavesJson : String} {raw : List Value} {leaves : List Leaf},
      lib.vecFromStr leavesJson = .ok raw → raw.mapM Wasm.leafOf = .ok leaves →
        Returns (MerkleTree.new t keccak256 leaves) := by
    intro leavesJson raw leaves hraw hleaves
    apply returns_new_of_length_le
    rw [← (mapM_eq_ok.mp hleaves).length_eq]
    exact hlib.vec_length_le _ _ hraw
  cases call with
  | createHcaAccount leavesJson =>
    apply (hlib.vecFromStr leavesJson).bind
    intro raw hraw
    apply (Returns.mapM fun v _ => returns_leafOf v).bind
    intro leaves hleaves
    apply ((returns_mapErr _).mpr (htree hraw hleaves)).bind
    intro T hT
    exact ((returns_mapErr _).mpr (new_built (mapErr_eq_ok.mp hT)).2.returns_authRoot).bind
      fun _ _ => returns_pure _
  | generateProof leavesJson leafIndex =>
    apply (hlib.vecFromStr leavesJson).bind
    intro raw hraw
    apply (Returns.mapM fun v _ => returns_leafOf v).bind
    intro leaves hleaves
    apply ((returns_mapErr _).mpr (htree hraw hleaves)).bind
    intro T hT
    obtain ⟨rfl, hbuilt⟩ := new_built (mapErr_eq_ok.mp hT)
    apply ((returns_mapErr _).mpr (hbuilt.returns_proof leafIndex)).bind
    intro p hp
    apply (returns_index_of_proof (mapErr_eq_ok.mp hp)).bind
    intro l _
    exact ((returns_mapErr _).mpr hbuilt.returns_authRoot).bind fun _ _ => returns_pure _
  | buildWitness leavesJson leafIndex txJson =>
    apply (hlib.vecFromStr leavesJson).bind
    intro raw hraw
    apply (Returns.mapM fun v _ => returns_leafOf v).bind
    intro leaves hleaves
    apply (hlib.fromStr txJson).bind
    intro tx _
    apply ((returns_mapErr _).mpr (htree hraw hleaves)).bind
    intro T hT
    obtain ⟨rfl, hbuilt⟩ := new_built (mapErr_eq_ok.mp hT)
    apply ((returns_mapErr _).mpr (hbuilt.returns_proof leafIndex)).bind
    intro p hp
    apply (returns_index_of_proof (mapErr_eq_ok.mp hp)).bind
    intro l _
    have hgas : Returns (HCAWitness.build l p).estimateGas := by
      rw [hbuilt.estimateGas_build (mapErr_eq_ok.mp hp)]
      exact returns_ok _
    apply ((returns_mapErr _).mpr hgas).bind
    intro estimated _
    exact ((returns_mapErr _).mpr hbuilt.returns_authRoot).bind fun _ _ => returns_pure _

/-! ## Every entry point -/

/-- Every command and every WASM entry point returns a text or an error, whatever the texts,
the files and the indices it is given.
SOURCE: bin/hca.rs:153-741, wasm.rs:53-255 -/
theorem entry_points_return (hlib : TotalJson lib t) (sha256 : List U8 → Digest)
    {readToString : String → Outcome String String} (hread : ∀ path, Returns (readToString path)) :
    (∀ command, Returns (Cli.run lib t sha256 keccak256 readToString command)) ∧
      ∀ call : WasmCall t, Returns (call.run lib t keccak256) := by
  refine ⟨?_, returns_wasmCall hlib⟩
  intro command
  cases command with
  | createAccount leaves => exact returns_cmdCreateAccount hlib leaves
  | deriveAddress authRoot => exact (returns_decode32 _).bind fun _ _ => returns_pure _
  | generateProof leaves leafIndex => exact returns_cmdGenerateProof hlib leaves leafIndex
  | verifyProof leafHash p authRoot => exact returns_cmdVerifyProof hlib leafHash p authRoot
  | encodeTx tx w => exact returns_cmdEncodeTx hlib tx w
  | signingHash tx leafHash => exact returns_cmdSigningHash hlib tx leafHash
  | rotationHash chainId nonce sender newAuthRoot =>
    exact returns_cmdRotationHash chainId nonce sender newAuthRoot
  | generateVectors => exact returns_cmdGenerateVectors sha256
  | verifyVectors file => exact returns_cmdVerifyVectors hlib sha256 hread file

/-- The sample library answers every text. -/
theorem totalJson_sampleLib {leaves : List Value} (hlen : leaves.length ≤ t.isizeMax) (tx : Value) :
    TotalJson (sampleLib leaves tx) t where
  fromStr s := by
    simp only [sampleLib]
    split <;> simp
  vecFromStr s := by
    simp only [sampleLib]
    split <;> simp
  vec_length_le s items h := by
    simp only [sampleLib] at h
    split at h
    · rw [← Except.ok.inj h]
      exact hlen
    · cases h

/-- With the sample library, no command and no call panics or runs forever. -/
theorem entry_points_return_sample :
    (∀ command, Returns (Cli.run (sampleLib [] addressFile) .usize64 sampleHash sampleHash
      readAddressFile command)) ∧
      ∀ call : WasmCall .usize64,
        Returns (call.run (sampleLib [] addressFile) .usize64 sampleHash) :=
  entry_points_return (totalJson_sampleLib (Nat.zero_le _) _) sampleHash fun _ => returns_ok _

end Hca.Analysis
