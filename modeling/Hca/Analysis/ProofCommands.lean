import Hca.Analysis.HexTexts
import Hca.Analysis.JsonLeaves
import Hca.Analysis.MerkleSoundness
import Hca.Analysis.TargetAgreement
import Hca.Interface.PrintedJson

set_option autoImplicit false

/-!
# Accounts and proofs on the command line

Each command of the proof workflow is described by the values it reads and prints. What one
command prints is what the next one reads, so the commands can be run one after the other:
a generated proof verifies against the account of the same leaves, and what verifies was
declared. Leaves that the command line tool accepts are the same leaves for the WASM entry
points.
-/

namespace Hca.Analysis

open Hca.Library Hca.Model Hca.Program Hca.Interface

variable {lib : JsonLib} {t : Target} {keccak256 : List U8 → Digest}

/-! ## The commands -/

/-- `create-account` prints the account of the tree over the leaves that are read. -/
theorem cmdCreateAccount_eq_ok {leavesJson out : String} :
    Cli.cmdCreateAccount lib t keccak256 leavesJson = .ok out ↔
      ∃ T authRoot, Cli.parseLeaves lib leavesJson = .ok T.leaves ∧
        MerkleTree.new t keccak256 T.leaves = .ok T ∧ T.authRoot = .ok authRoot ∧
        out = lib.toStringPretty
          (Cli.accountJson keccak256 T authRoot (deriveAddress keccak256 authRoot)) := by
  unfold Cli.cmdCreateAccount
  simp only [bind_eq_ok, mapErr_eq_ok, pure_eq_ok]
  constructor
  · rintro ⟨leaves, hleaves, T, hT, authRoot, hroot, rfl⟩
    obtain ⟨rfl, -⟩ := new_built hT
    exact ⟨T, authRoot, hleaves, hT, hroot, rfl⟩
  · rintro ⟨T, authRoot, hleaves, hT, hroot, rfl⟩
    exact ⟨T.leaves, hleaves, T, hT, authRoot, hroot, rfl⟩

/-- `generate-proof` prints the proof of this tree for the index, with the hash of the leaf
there. -/
theorem cmdGenerateProof_eq_ok {leavesJson out : String} {i : Usize t} :
    Cli.cmdGenerateProof lib t keccak256 leavesJson i = .ok out ↔
      ∃ T p l authRoot, Cli.parseLeaves lib leavesJson = .ok T.leaves ∧
        MerkleTree.new t keccak256 T.leaves = .ok T ∧ T.proof i = .ok p ∧
        T.leaves[i.toNat]? = some l ∧ T.authRoot = .ok authRoot ∧
        out = lib.toStringPretty (Cli.proofJson t p (l.hash keccak256) authRoot) := by
  unfold Cli.cmdGenerateProof
  simp only [bind_eq_ok, mapErr_eq_ok, pure_eq_ok, index_eq_ok]
  constructor
  · rintro ⟨leaves, hleaves, T, hT, p, hp, l, hl, authRoot, hroot, rfl⟩
    obtain ⟨rfl, -⟩ := new_built hT
    exact ⟨T, p, l, authRoot, hleaves, hT, hp, hl, hroot, rfl⟩
  · rintro ⟨T, p, l, authRoot, hleaves, hT, hp, hl, hroot, rfl⟩
    exact ⟨T.leaves, hleaves, T, hT, p, hp, l, hl, authRoot, hroot, rfl⟩

/-- `verify-proof` prints the verdict on the hash, the proof and the root that are read. -/
theorem cmdVerifyProof_eq_ok {leafHashHex proofText authRootHex out : String} :
    Cli.cmdVerifyProof lib t keccak256 leafHashHex proofText authRootHex = .ok out ↔
      ∃ leafHash authRoot p valid, Cli.decode32 lib leafHashHex = .ok leafHash ∧
        Cli.decode32 lib authRootHex = .ok authRoot ∧ Cli.parseProof lib t proofText = .ok p ∧
        MerkleTree.verify keccak256 leafHash p authRoot = .ok valid ∧
        out = lib.toStringPretty (Cli.validJson valid) := by
  unfold Cli.cmdVerifyProof
  simp only [bind_eq_ok, mapErr_eq_ok, pure_eq_ok]
  constructor
  · rintro ⟨leafHash, hleaf, authRoot, hroot, p, hp, valid, hvalid, rfl⟩
    exact ⟨leafHash, authRoot, p, valid, hleaf, hroot, hp, hvalid, rfl⟩
  · rintro ⟨leafHash, authRoot, p, valid, hleaf, hroot, hp, hvalid, rfl⟩
    exact ⟨leafHash, hleaf, authRoot, hroot, p, hp, valid, hvalid, rfl⟩

/-- `derive-address` of a printed root prints the address of the root. -/
theorem cmdDeriveAddress_hexEncode0x (authRoot : Digest) :
    Cli.cmdDeriveAddress lib keccak256 (hexEncode0x authRoot.val) =
      .ok (lib.toStringPretty (Cli.addressJson (deriveAddress keccak256 authRoot))) := by
  rw [Cli.cmdDeriveAddress, decode32_hexEncode0x, ok_bind]
  rfl

/-! ## Printed proofs -/

/-- The value prints the proof: its index as a number, its siblings as texts. -/
structure PrintsProof (v : Value) (p : MerkleProof t) : Prop where
  leafIndex : v.index "leaf_index" = .ofNat p.leafIndex.toNat
  siblings : v.index "siblings" = .array (p.siblings.map fun s => .string (hexEncode0x s.val))

/-- The command line tool prints a proof. -/
theorem cli_printsProof (p : MerkleProof t) (leafHash authRoot : Digest) :
    PrintsProof (Cli.proofJson t p leafHash authRoot) p := ⟨rfl, rfl⟩

/-- So does the WASM entry point. -/
theorem wasm_printsProof (p : MerkleProof t) (leafHash authRoot : Digest) :
    PrintsProof (Wasm.proofJson t p leafHash authRoot) p := ⟨rfl, rfl⟩

/-- An index survives its way through a number of 64 bits. -/
theorem asUsize_ofNat (i : Usize t) : Cli.asUsize t (BitVec.ofNat 64 i.toNat) = i := by
  have hlt : i.toNat < 2 ^ 64 :=
    i.isLt.trans_le (Nat.pow_le_pow_right (by decide) t.bits_le)
  apply BitVec.eq_of_toNat_eq
  rw [Cli.asUsize, BitVec.toNat_setWidth, BitVec.toNat_ofNat, Nat.mod_eq_of_lt hlt,
    Nat.mod_eq_of_lt i.isLt]

/-- What is printed of a proof declares it. -/
theorem PrintsProof.declaresProof {v : Value} {p : MerkleProof t} (h : PrintsProof v p) :
    DeclaresProof v p where
  leafIndex := ⟨_, h.leafIndex, (asUsize_ofNat _).symm⟩
  siblings := ⟨_, h.siblings, forall₂_declaredBytes_map⟩

/-- The text of an object is read as the proof that the object declares. -/
theorem parseProof_of_readsBack {text : String} {v : Value} {p : MerkleProof t}
    (hread : ReadsBackAs lib text v) (hdeclares : DeclaresProof v p) :
    Cli.parseProof lib t text = .ok p := by
  obtain ⟨v', hv', hsame⟩ := hread
  exact parseProof_eq_ok.mpr ⟨v', hv', hsame.declaresProof hdeclares⟩

/-- The text of a proof of a tree verifies for its leaf against the printed root. -/
theorem cmdVerifyProof_of_proof {T : MerkleTree} {i : Usize t} {p : MerkleProof t} {l : Leaf}
    {authRoot : Digest} {text : String} {v : Value} (hT : Built keccak256 T)
    (hp : T.proof i = .ok p) (hl : T.leaves[i.toNat]? = some l) (hroot : T.authRoot = .ok authRoot)
    (hread : ReadsBackAs lib text v) (hprints : PrintsProof v p) :
    Cli.cmdVerifyProof lib t keccak256 (hexEncode0x (l.hash keccak256).val) text
      (hexEncode0x authRoot.val) = .ok (lib.toStringPretty (Cli.validJson true)) := by
  have hi : i.toNat < T.leaves.length := (List.getElem?_eq_some_iff.mp hl).1
  rw [hT.proof_eq_ok hi, Except.ok.injEq] at hp
  rw [hT.authRoot_eq, Except.ok.injEq] at hroot
  rw [cmdVerifyProof_eq_ok]
  refine ⟨_, _, p, true, decode32_hexEncode0x _, decode32_hexEncode0x _,
    parseProof_of_readsBack hread hprints.declaresProof, ?_, rfl⟩
  rw [← hp, ← hroot]
  exact hT.verify_path hl

/-! ## A sample account -/

/-- A leaf object as the command line tool reads it. -/
def cliLeafValue (script description : String) : Value :=
  .object
    [("version", .string "0x01"), ("script", .string script), ("description", .string description)]

/-- The objects of the sample leaves. -/
def cliLeafValues : List Value :=
  [cliLeafValue "0x00" "a", cliLeafValue "0x01" "b", cliLeafValue "0x02" "c"]

/-- The proof of the last leaf, as it is printed. -/
def cliProofValue : Value :=
  Cli.proofJson .usize64 (lastLeafProof 2) (lastLeaf.hash sampleHash) sampleRoot

/-- A library that reads the leaves and the proof. -/
def cliLib : JsonLib := sampleLib cliLeafValues cliProofValue

/-- The objects are read as the sample leaves. -/
theorem parseLeaves_cliLeafValues (v : Value) :
    Cli.parseLeaves (sampleLib cliLeafValues v) (printJson (.array cliLeafValues)) =
      .ok sampleLeaves := by
  rw [Cli.parseLeaves, sampleLib_vecFromStr]
  rfl

/-- `generate-proof` prints the proof of the last leaf. -/
theorem generateProof_cliLeafValues :
    Cli.cmdGenerateProof cliLib .usize64 sampleHash (printJson (.array cliLeafValues)) 2 =
      .ok (printJson cliProofValue) := by
  rw [cmdGenerateProof_eq_ok]
  exact ⟨sampleTree, lastLeafProof 2, lastLeaf, sampleRoot, parseLeaves_cliLeafValues _,
    new_sampleLeaves, proof_lastLeaf, rfl, authRoot_sampleTree, rfl⟩

/-! ## Running the commands -/

/-- When a proof is generated for leaves, the account of the same leaves is created, with the
root that is printed beside the proof; deriving the address of that root gives the address
of the account, and the text of the proof verifies.
SOURCE: bin/hca.rs:188-240, bin/hca.rs:644-669 -/
theorem generated_proof_verifies {leavesJson out : String} {i : Usize t}
    (h : Cli.cmdGenerateProof lib t keccak256 leavesJson i = .ok out) :
    ∃ T p leafHash authRoot, out = lib.toStringPretty (Cli.proofJson t p leafHash authRoot) ∧
      Cli.cmdCreateAccount lib t keccak256 leavesJson = .ok (lib.toStringPretty
        (Cli.accountJson keccak256 T authRoot (deriveAddress keccak256 authRoot))) ∧
      Cli.cmdDeriveAddress lib keccak256 (hexEncode0x authRoot.val) =
        .ok (lib.toStringPretty (Cli.addressJson (deriveAddress keccak256 authRoot))) ∧
      (ReadsBackAs lib out (Cli.proofJson t p leafHash authRoot) →
        Cli.cmdVerifyProof lib t keccak256 (hexEncode0x leafHash.val) out
          (hexEncode0x authRoot.val) = .ok (lib.toStringPretty (Cli.validJson true))) := by
  obtain ⟨T, p, l, authRoot, hleaves, hT, hp, hl, hroot, rfl⟩ := cmdGenerateProof_eq_ok.mp h
  refine ⟨T, p, l.hash keccak256, authRoot, rfl, ?_, cmdDeriveAddress_hexEncode0x authRoot, ?_⟩
  · exact cmdCreateAccount_eq_ok.mpr ⟨T, authRoot, hleaves, hT, hroot, rfl⟩
  · intro hread
    exact cmdVerifyProof_of_proof (new_built hT).2 hp hl hroot hread (cli_printsProof p _ authRoot)

/-- The proof of the last leaf of three, generated and verified by the commands. -/
theorem generated_proof_verifies_sample :
    ∃ T p leafHash authRoot,
      printJson cliProofValue = printJson (Cli.proofJson .usize64 p leafHash authRoot) ∧
      Cli.cmdCreateAccount cliLib .usize64 sampleHash (printJson (.array cliLeafValues)) =
        .ok (printJson
          (Cli.accountJson sampleHash T authRoot (deriveAddress sampleHash authRoot))) ∧
      Cli.cmdDeriveAddress cliLib sampleHash (hexEncode0x authRoot.val) =
        .ok (printJson (Cli.addressJson (deriveAddress sampleHash authRoot))) ∧
      (ReadsBackAs cliLib (printJson cliProofValue)
          (Cli.proofJson .usize64 p leafHash authRoot) →
        Cli.cmdVerifyProof cliLib .usize64 sampleHash (hexEncode0x leafHash.val)
          (printJson cliProofValue) (hexEncode0x authRoot.val) =
            .ok (printJson (Cli.validJson true))) :=
  generated_proof_verifies generateProof_cliLeafValues

/-- What verifies was declared: when a proof verifies for the hash of a leaf against the root
of an account, an object of the leaves declares the version and the script of that leaf.
SOURCE: bin/hca.rs:188-240, bin/hca.rs:616-669 -/
theorem verified_leaf_declared {leavesJson leafHashHex proofText : String} {raw : List Value}
    {T : MerkleTree} {authRoot : Digest} {l : Leaf} {p : MerkleProof t}
    (hjson : lib.vecFromStr leavesJson = .ok raw)
    (hleaves : Cli.parseLeaves lib leavesJson = .ok T.leaves)
    (hnew : MerkleTree.new t keccak256 T.leaves = .ok T) (hroot : T.authRoot = .ok authRoot)
    (hhash : Cli.decode32 lib leafHashHex = .ok (l.hash keccak256))
    (hproof : Cli.parseProof lib t proofText = .ok p)
    (hcoll : NoCollision keccak256
      (treeInputs T ++ [l.hashInput] ++ verifyInputs keccak256 (l.hash keccak256) p))
    (hprinter : lib.toStringPretty (Cli.validJson true) ≠
      lib.toStringPretty (Cli.validJson false)) :
    Cli.cmdCreateAccount lib t keccak256 leavesJson = .ok (lib.toStringPretty
        (Cli.accountJson keccak256 T authRoot (deriveAddress keccak256 authRoot))) ∧
      (Cli.cmdVerifyProof lib t keccak256 leafHashHex proofText (hexEncode0x authRoot.val) =
          .ok (lib.toStringPretty (Cli.validJson true)) →
        ∃ v ∈ raw, declaredBytes (v.index "version") = some [l.version] ∧
          declaredBytes (v.index "script") = some l.script) := by
  refine ⟨cmdCreateAccount_eq_ok.mpr ⟨T, authRoot, hleaves, hnew, hroot, rfl⟩, ?_⟩
  intro hverify
  obtain ⟨leafHash, root', p', valid, hhash', hroot', hproof', hvalid, hprinted⟩ :=
    cmdVerifyProof_eq_ok.mp hverify
  rw [hhash, Except.ok.injEq] at hhash'
  rw [decode32_hexEncode0x, Except.ok.injEq] at hroot'
  rw [hproof, Except.ok.injEq] at hproof'
  subst hhash' hroot' hproof'
  cases valid with
  | false => exact absurd hprinted hprinter
  | true =>
    obtain ⟨-, -, l', hget, hversion, hscript⟩ :=
      (new_built hnew).2.opening_of_verify hroot hcoll hvalid
    obtain ⟨hlen, hitems⟩ := List.forall₂_iff_get.mp (parseLeaves_declared hjson hleaves)
    obtain ⟨hlt, hget'⟩ := List.getElem?_eq_some_iff.mp hget
    have hitem := hitems _ (hlen ▸ hlt) hlt
    simp only [List.get_eq_getElem, hget', ← hversion, ← hscript] at hitem
    exact ⟨_, List.getElem_mem _, hitem⟩

/-- The leaf whose proof verifies is declared by one of the three objects. -/
theorem verified_leaf_declared_sample :
    ∃ v ∈ cliLeafValues, declaredBytes (v.index "version") = some [lastLeaf.version] ∧
      declaredBytes (v.index "script") = some lastLeaf.script := by
  have hread : ReadsBackAs cliLib (printJson cliProofValue) cliProofValue :=
    ⟨_, sampleLib_fromStr _ _, .refl _⟩
  have hprints : PrintsProof cliProofValue (lastLeafProof 2) := cli_printsProof _ _ _
  have hproof := parseProof_of_readsBack hread hprints.declaresProof
  have hprinter : printJson (Cli.validJson true) ≠ printJson (Cli.validJson false) := by
    have hne : ¬ toString true = toString false := by decide
    simpa [Cli.validJson, printJson] using hne
  have hverify := cmdVerifyProof_of_proof (l := lastLeaf) (new_built new_sampleLeaves).2
    proof_lastLeaf rfl authRoot_sampleTree hread hprints
  exact (verified_leaf_declared (T := sampleTree) (sampleLib_vecFromStr _ _)
    (parseLeaves_cliLeafValues _) new_sampleLeaves authRoot_sampleTree (decode32_hexEncode0x _)
    hproof acceptsLastLeaf_two.1 hprinter).2 hverify

/-! ## The same leaves in the WASM entry points -/

/-- A leaf object that the command line tool accepts gives the WASM entry points the same
leaf: its version is a text, so the default version stands in, which is the active one. -/
theorem leafOf_of_parseLeaf {v : Value} {i : ℕ} {leaf : Leaf}
    (h : Cli.parseLeaf lib v i = .ok leaf) : Wasm.leafOf v = .ok leaf := by
  unfold Cli.parseLeaf at h
  simp only [bind_eq_ok, okOr_eq_ok, Value.asStr_eq_some, decodeHex_eq_ok, mapErr_eq_ok] at h
  obtain ⟨versionStr, hversion, version, -, scriptStr, hscript, script, hbytes, hnew⟩ := h
  have hactive := (leafNew_isOk_iff.mp ⟨leaf, hnew⟩).version_eq
  have hdefault : ((v.index "version").asU64.getD 1).setWidth 8 = version := by
    rw [hversion, hactive]
    rfl
  rw [Wasm.leafOf, mapErr_eq_ok, hdefault, hexField_of_declared (hscript ▸ hbytes)]
  exact hnew

/-- So do the texts of such objects. -/
theorem leavesOf_of_parseLeaves {leavesJson : String} {leaves : List Leaf}
    (h : Cli.parseLeaves lib leavesJson = .ok leaves) :
    ∃ raw, lib.vecFromStr leavesJson = .ok raw ∧ raw.mapM Wasm.leafOf = .ok leaves := by
  unfold Cli.parseLeaves at h
  simp only [bind_eq_ok, mapErr_eq_ok, mapM_eq_ok] at h
  obtain ⟨raw, hraw, hleaves⟩ := h
  refine ⟨raw, hraw, mapM_eq_ok.mpr ?_⟩
  rw [← List.zipIdx_map_fst 0 raw, List.forall₂_map_left_iff]
  exact hleaves.imp fun _ _ => leafOf_of_parseLeaf

/-- The account that the WASM entry point prints for the leaves of a tree. -/
theorem createHcaAccount_of_tree {leavesJson : String} {raw : List Value} {T : MerkleTree}
    {authRoot : Digest} (hraw : lib.vecFromStr leavesJson = .ok raw)
    (hleaves : raw.mapM Wasm.leafOf = .ok T.leaves)
    (hnew : MerkleTree.new t keccak256 T.leaves = .ok T) (hroot : T.authRoot = .ok authRoot) :
    Wasm.createHcaAccount lib t keccak256 leavesJson = .ok (lib.toStr
      (Wasm.accountJson keccak256 T.leaves authRoot (deriveAddress keccak256 authRoot))) := by
  rw [Wasm.createHcaAccount, hraw, ok_bind, hleaves, ok_bind, hnew, mapErr, ok_bind, hroot, mapErr,
    ok_bind]
  rfl

/-- Where the command line tool generates a proof, the WASM entry points generate the same
proof and create the account with the same root and address; and the command line tool
verifies the text of the WASM proof.
SOURCE: wasm.rs:53-139, bin/hca.rs:188-240, bin/hca.rs:616-669 -/
theorem wasm_proof_verifies {leavesJson out : String} {i : Usize t}
    (h : Cli.cmdGenerateProof lib t keccak256 leavesJson i = .ok out) :
    ∃ T p leafHash authRoot, out = lib.toStringPretty (Cli.proofJson t p leafHash authRoot) ∧
      Cli.cmdCreateAccount lib t keccak256 leavesJson = .ok (lib.toStringPretty
        (Cli.accountJson keccak256 T authRoot (deriveAddress keccak256 authRoot))) ∧
      Wasm.createHcaAccount lib t keccak256 leavesJson = .ok (lib.toStr
        (Wasm.accountJson keccak256 T.leaves authRoot (deriveAddress keccak256 authRoot))) ∧
      Wasm.generateProof lib t keccak256 leavesJson i =
        .ok (lib.toStr (Wasm.proofJson t p leafHash authRoot)) ∧
      ∀ text, ReadsBackAs lib text (Wasm.proofJson t p leafHash authRoot) →
        Cli.cmdVerifyProof lib t keccak256 (hexEncode0x leafHash.val) text
          (hexEncode0x authRoot.val) = .ok (lib.toStringPretty (Cli.validJson true)) := by
  obtain ⟨T, p, l, authRoot, hleaves, hT, hp, hl, hroot, rfl⟩ := cmdGenerateProof_eq_ok.mp h
  obtain ⟨raw, hraw, hread⟩ := leavesOf_of_parseLeaves hleaves
  have hindex : (index T.leaves i.toNat : Outcome String Leaf) = .ok l := index_eq_ok.mpr hl
  refine ⟨T, p, l.hash keccak256, authRoot, rfl,
    cmdCreateAccount_eq_ok.mpr ⟨T, authRoot, hleaves, hT, hroot, rfl⟩, ?_, ?_, ?_⟩
  · exact createHcaAccount_of_tree hraw hread hT hroot
  · rw [Wasm.generateProof, hraw, ok_bind, hread, ok_bind, hT, mapErr, ok_bind, hp, mapErr,
      ok_bind, hindex, ok_bind, hroot, mapErr, ok_bind]
    rfl
  · intro text hread
    exact cmdVerifyProof_of_proof (new_built hT).2 hp hl hroot hread (wasm_printsProof p _ authRoot)

/-- Both entry points prove the last leaf of three alike. -/
theorem wasm_proof_verifies_sample :
    ∃ T p leafHash authRoot,
      printJson cliProofValue = printJson (Cli.proofJson .usize64 p leafHash authRoot) ∧
      Cli.cmdCreateAccount cliLib .usize64 sampleHash (printJson (.array cliLeafValues)) =
        .ok (printJson
          (Cli.accountJson sampleHash T authRoot (deriveAddress sampleHash authRoot))) ∧
      Wasm.createHcaAccount cliLib .usize64 sampleHash (printJson (.array cliLeafValues)) =
        .ok (printJson
          (Wasm.accountJson sampleHash T.leaves authRoot (deriveAddress sampleHash authRoot))) ∧
      Wasm.generateProof cliLib .usize64 sampleHash (printJson (.array cliLeafValues)) 2 =
        .ok (printJson (Wasm.proofJson .usize64 p leafHash authRoot)) ∧
      ∀ text, ReadsBackAs cliLib text (Wasm.proofJson .usize64 p leafHash authRoot) →
        Cli.cmdVerifyProof cliLib .usize64 sampleHash (hexEncode0x leafHash.val) text
          (hexEncode0x authRoot.val) = .ok (printJson (Cli.validJson true)) :=
  wasm_proof_verifies generateProof_cliLeafValues

/-! ## From one target to another -/

/-- `generate_proof` prints the proof of the tree over the leaves that it reads. -/
theorem generateProof_eq_ok {leavesJson out : String} {i : Usize t} :
    Wasm.generateProof lib t keccak256 leavesJson i = .ok out ↔
      ∃ raw T p l authRoot, lib.vecFromStr leavesJson = .ok raw ∧
        raw.mapM Wasm.leafOf = .ok T.leaves ∧ MerkleTree.new t keccak256 T.leaves = .ok T ∧
        T.proof i = .ok p ∧ T.leaves[i.toNat]? = some l ∧ T.authRoot = .ok authRoot ∧
        out = lib.toStr (Wasm.proofJson t p (l.hash keccak256) authRoot) := by
  unfold Wasm.generateProof
  simp only [bind_eq_ok, mapErr_eq_ok, pure_eq_ok, index_eq_ok]
  constructor
  · rintro ⟨raw, hraw, leaves, hleaves, T, hT, p, hp, l, hl, authRoot, hroot, rfl⟩
    obtain ⟨rfl, -⟩ := new_built hT
    exact ⟨raw, T, p, l, authRoot, hraw, hleaves, hT, hp, hl, hroot, rfl⟩
  · rintro ⟨raw, T, p, l, authRoot, hraw, hleaves, hT, hp, hl, hroot, rfl⟩
    exact ⟨raw, hraw, T.leaves, hleaves, T, hT, p, hp, l, hl, authRoot, hroot, rfl⟩

/-- A proof that the WASM entry point generates on one target is a proof on every target that
has room for its index: the account that the command line tool creates there for the same leaves
is the one that the WASM entry point creates, and the text of the proof verifies there against
its root.
SOURCE: wasm.rs:53-139, bin/hca.rs:188-240, bin/hca.rs:616-669 -/
theorem wasm_proof_crosses_targets {t t' : Target} {leavesJson out : String} {i : Usize t}
    (h : Wasm.generateProof lib t keccak256 leavesJson i = .ok out)
    (hfit : i.toNat < 2 ^ t'.bits) :
    ∃ T p leafHash authRoot, out = lib.toStr (Wasm.proofJson t p leafHash authRoot) ∧
      Wasm.createHcaAccount lib t keccak256 leavesJson = .ok (lib.toStr
        (Wasm.accountJson keccak256 T.leaves authRoot (deriveAddress keccak256 authRoot))) ∧
      (∀ account, Cli.cmdCreateAccount lib t' keccak256 leavesJson = .ok account →
        account = lib.toStringPretty
          (Cli.accountJson keccak256 T authRoot (deriveAddress keccak256 authRoot))) ∧
      ∀ text, ReadsBackAs lib text (Wasm.proofJson t p leafHash authRoot) →
        Cli.cmdVerifyProof lib t' keccak256 (hexEncode0x leafHash.val) text
          (hexEncode0x authRoot.val) = .ok (lib.toStringPretty (Cli.validJson true)) := by
  obtain ⟨raw, T, p, l, authRoot, hraw, hleaves, hnew, hp, hl, hroot, rfl⟩ :=
    generateProof_eq_ok.mp h
  obtain ⟨-, hT⟩ := new_built hnew
  refine ⟨T, p, l.hash keccak256, authRoot, rfl,
    createHcaAccount_of_tree hraw hleaves hnew hroot, ?_, ?_⟩
  · intro account haccount
    obtain ⟨T', root', hleaves', hnew', hroot', rfl⟩ := cmdCreateAccount_eq_ok.mp haccount
    obtain ⟨raw', hraw', hread⟩ := leavesOf_of_parseLeaves hleaves'
    obtain rfl := Except.ok.inj (hraw.symm.trans hraw')
    have hsame := hT.eq_of_leaves_eq (new_built hnew').2 (Except.ok.inj (hleaves.symm.trans hread))
    subst hsame
    rw [hroot, Except.ok.injEq] at hroot'
    rw [hroot']
  · intro text hread
    have hlt : i.toNat < T.leaves.length := (List.getElem?_eq_some_iff.mp hl).1
    have hi : (BitVec.ofNat t'.bits i.toNat).toNat = i.toNat := by
      rw [BitVec.toNat_ofNat, Nat.mod_eq_of_lt hfit]
    -- The tree makes the proof of the same index, with the same siblings, on the other target.
    have hp' := hT.proof_eq_ok (hi.symm ▸ hlt : (BitVec.ofNat t'.bits i.toNat).toNat < _)
    rw [hT.proof_eq_ok hlt, Except.ok.injEq] at hp
    subst hp
    exact cmdVerifyProof_of_proof hT hp' (hi.symm ▸ hl) hroot hread
      ⟨by rw [hi]; rfl, by rw [hi]; rfl⟩

/-- The constructor makes the sample tree on the narrow target too. -/
theorem new_sampleLeaves_usize32 :
    MerkleTree.new .usize32 sampleHash sampleLeaves = .ok sampleTree :=
  (new_on .usize64 .usize32 (by decide)).trans new_sampleLeaves

/-- The proof of the last leaf on the narrow target. -/
def lastLeafProof32 : MerkleProof .usize32 := ⟨2, (lastLeafProof 2).siblings⟩

/-- The proof that a 32-bit target generates verifies on a 64-bit one. -/
theorem wasm_proof_crosses_targets_sample :
    ∃ T p leafHash authRoot,
      printJson (Wasm.proofJson .usize32 lastLeafProof32 (lastLeaf.hash sampleHash) sampleRoot) =
        printJson (Wasm.proofJson .usize32 p leafHash authRoot) ∧
      Wasm.createHcaAccount cliLib .usize32 sampleHash (printJson (.array cliLeafValues)) =
        .ok (printJson
          (Wasm.accountJson sampleHash T.leaves authRoot (deriveAddress sampleHash authRoot))) ∧
      (∀ account, Cli.cmdCreateAccount cliLib .usize64 sampleHash
          (printJson (.array cliLeafValues)) = .ok account →
        account = printJson
          (Cli.accountJson sampleHash T authRoot (deriveAddress sampleHash authRoot))) ∧
      ∀ text, ReadsBackAs cliLib text (Wasm.proofJson .usize32 p leafHash authRoot) →
        Cli.cmdVerifyProof cliLib .usize64 sampleHash (hexEncode0x leafHash.val) text
          (hexEncode0x authRoot.val) = .ok (printJson (Cli.validJson true)) := by
  have hgenerate : Wasm.generateProof cliLib .usize32 sampleHash
      (printJson (.array cliLeafValues)) 2 = .ok (printJson (Wasm.proofJson .usize32
        lastLeafProof32 (lastLeaf.hash sampleHash) sampleRoot)) := by
    rw [generateProof_eq_ok]
    exact ⟨cliLeafValues, sampleTree, lastLeafProof32, lastLeaf, sampleRoot,
      sampleLib_vecFromStr _ _, rfl, new_sampleLeaves_usize32, rfl, rfl, authRoot_sampleTree, rfl⟩
  exact wasm_proof_crosses_targets hgenerate (by decide)

end Hca.Analysis
