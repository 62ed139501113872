import Hca.Analysis.ProofCommands
import Hca.Analysis.TreeSpecification
import Hca.Interface.Policies

set_option autoImplicit false

/-!
# Which texts are accounts

The command line tool makes an account of a text iff the text declares a policy, and a proof for
every position in the policy and for no other. The tree, its root and the proofs are the ones of
the specification for the declared leaves.
-/

namespace Hca.Analysis

open Hca.Library Hca.Model Hca.Program Hca.Interface

variable {lib : JsonLib} {t : Target} {keccak256 : List U8 → Digest}

/-! ## Reading the leaves -/

/-- A leaf object is accepted iff it declares the leaf, at whatever position it stands. -/
theorem parseLeaf_eq_ok_iff {v : Value} {i : ℕ} {leaf : Leaf} :
    Cli.parseLeaf lib v i = .ok leaf ↔ DeclaresLeaf v leaf := by
  unfold Cli.parseLeaf
  simp only [bind_eq_ok, okOr_eq_ok, Value.asStr_eq_some, decodeByte_eq_ok, decodeHex_eq_ok,
    mapErr_eq_ok]
  constructor
  · rintro ⟨versionStr, hversion, version, hbyte, scriptStr, hscript, script, hbytes, hnew⟩
    obtain rfl := leafNew_eq hnew
    exact ⟨hversion ▸ hbyte, hscript ▸ hbytes, rfl, leafNew_isOk_iff.mp ⟨_, hnew⟩⟩
  · rintro ⟨hbyte, hbytes, hdescription, hadm⟩
    obtain ⟨versionStr, hversion, hbyte⟩ := declaredBytes_eq_some.mp hbyte
    obtain ⟨scriptStr, hscript, hbytes⟩ := declaredBytes_eq_some.mp hbytes
    obtain ⟨leaf', hnew⟩ :
        ∃ leaf', Leaf.new leaf.version leaf.script leaf.description = .ok leaf' :=
      leafNew_isOk_iff.mpr hadm
    obtain rfl := leafNew_eq hnew
    exact ⟨versionStr, hversion, _, hbyte, scriptStr, hscript, _, hbytes, hdescription ▸ hnew⟩

/-- The leaves of a text are those that its objects declare, in their order. -/
theorem parseLeaves_eq_ok {leavesJson : String} {raw : List Value} {leaves : List Leaf}
    (hjson : lib.vecFromStr leavesJson = .ok raw) :
    Cli.parseLeaves lib leavesJson = .ok leaves ↔ List.Forall₂ DeclaresLeaf raw leaves := by
  unfold Cli.parseLeaves
  simp only [hjson, mapErr, ok_bind, mapM_eq_ok, parseLeaf_eq_ok_iff]
  conv_rhs => rw [← List.zipIdx_map_fst 0 raw, List.forall₂_map_left_iff]

/-! ## Policies -/

/-- Distinct leaves are leaves with distinct hashes, where no two inputs collide. -/
theorem nodup_hashes_iff {leaves : List Leaf}
    (hcoll : NoCollision keccak256 (leaves.map Leaf.hashInput)) :
    (leaves.map (Leaf.hash keccak256)).Nodup ↔
      (leaves.map fun l => (l.version, l.script)).Nodup := by
  have hmem : ∀ l ∈ leaves, l.hashInput ∈ leaves.map Leaf.hashInput :=
    fun l hl => List.mem_map_of_mem hl
  have hsame : ∀ l ∈ leaves, ∀ l' ∈ leaves, l.hash keccak256 = l'.hash keccak256 ↔
      (l.version, l.script) = (l'.version, l'.script) := by
    intro l hl l' hl'
    rw [Prod.mk.injEq]
    constructor
    · exact leaf_eq_of_hash_eq hcoll (hmem l hl) (hmem l' hl')
    · rintro ⟨hversion, hscript⟩
      rw [Leaf.hash, Leaf.hash, hversion, hscript]
  rw [List.Nodup, List.Nodup, List.pairwise_map, List.pairwise_map]
  exact List.Pairwise.iff_of_mem fun hl hl' => not_congr (hsame _ hl _ hl')

/-- A tree can be built over the leaves that objects declare iff they are a policy. -/
theorem buildable_iff_declaresPolicy {raw : List Value} {leaves : List Leaf}
    (hitems : List.Forall₂ DeclaresLeaf raw leaves)
    (hcoll : NoCollision keccak256 (leaves.map Leaf.hashInput)) :
    Buildable t keccak256 leaves ↔ DeclaresPolicy t raw leaves := by
  have hlen := hitems.length_eq
  have hne : leaves ≠ [] ↔ raw ≠ [] := by
    rw [← List.length_pos_iff, ← List.length_pos_iff, hlen]
  constructor
  · intro h
    exact ⟨hitems, hne.mp h.leaves_ne, hlen ▸ h.length_le, hlen ▸ h.length_le_usize,
      (nodup_hashes_iff hcoll).mp h.nodup⟩
  · intro h
    exact ⟨hne.mpr h.items_ne, hlen ▸ h.length_le, hlen ▸ h.length_le_usize,
      (nodup_hashes_iff hcoll).mpr h.distinct⟩

/-! ## The commands -/

/-- Which texts are accounts. An account is created of an array of objects iff they declare a
policy, and a proof is generated iff moreover the index is that of an object. What is printed is
the account of the specified tree over the declared leaves, and the proof that this tree makes.
SOURCE: bin/hca.rs:188-226, bin/hca.rs:616-642, merkle.rs:50-64, merkle.rs:165-262 -/
theorem policy_text_exact {leavesJson : String} {raw : List Value}
    (hjson : lib.vecFromStr leavesJson = .ok raw)
    (hcoll : ∀ leaves, List.Forall₂ DeclaresLeaf raw leaves →
      NoCollision keccak256 (leaves.map Leaf.hashInput)) :
    ((∃ out, Cli.cmdCreateAccount lib t keccak256 leavesJson = .ok out) ↔
      ∃ leaves, DeclaresPolicy t raw leaves) ∧
    (∀ i : Usize t, (∃ out, Cli.cmdGenerateProof lib t keccak256 leavesJson i = .ok out) ↔
      (∃ leaves, DeclaresPolicy t raw leaves) ∧ i.toNat < raw.length) ∧
    ∀ leaves, DeclaresPolicy t raw leaves → ∃ T authRoot,
      SpecifiedTree t keccak256 leaves T ∧ T.authRoot = .ok authRoot ∧
      Cli.cmdCreateAccount lib t keccak256 leavesJson = .ok (lib.toStringPretty
        (Cli.accountJson keccak256 T authRoot (deriveAddress keccak256 authRoot))) ∧
      ∀ (i : Usize t) (l : Leaf), leaves[i.toNat]? = some l → ∃ p, T.proof i = .ok p ∧
        Cli.cmdGenerateProof lib t keccak256 leavesJson i =
          .ok (lib.toStringPretty (Cli.proofJson t p (l.hash keccak256) authRoot)) := by
  have hread := fun leaves =>
    (parseLeaves_eq_ok hjson : Cli.parseLeaves lib leavesJson = .ok leaves ↔ _)
  have hpolicy : ∀ T, Cli.parseLeaves lib leavesJson = .ok T.leaves →
      MerkleTree.new t keccak256 T.leaves = .ok T → DeclaresPolicy t raw T.leaves := by
    intro T hleaves hT
    have hitems := (hread _).mp hleaves
    exact (buildable_iff_declaresPolicy hitems (hcoll _ hitems)).mp (new_isOk_iff.mp ⟨T, hT⟩)
  have hprints : ∀ leaves, DeclaresPolicy t raw leaves → ∃ T authRoot,
      SpecifiedTree t keccak256 leaves T ∧ T.authRoot = .ok authRoot ∧
      Cli.cmdCreateAccount lib t keccak256 leavesJson = .ok (lib.toStringPretty
        (Cli.accountJson keccak256 T authRoot (deriveAddress keccak256 authRoot))) ∧
      ∀ (i : Usize t) (l : Leaf), leaves[i.toNat]? = some l → ∃ p, T.proof i = .ok p ∧
        Cli.cmdGenerateProof lib t keccak256 leavesJson i =
          .ok (lib.toStringPretty (Cli.proofJson t p (l.hash keccak256) authRoot)) := by
    intro leaves h
    obtain ⟨T, hT⟩ := new_isOk_iff.mpr
      ((buildable_iff_declaresPolicy h.items (hcoll _ h.items)).mpr h)
    obtain ⟨rfl, hbuilt⟩ := new_built hT
    have hleaves := (hread _).mpr h.items
    refine ⟨T, _, hbuilt.specifiedTree t, hbuilt.authRoot_eq,
      cmdCreateAccount_eq_ok.mpr ⟨T, _, hleaves, hT, hbuilt.authRoot_eq, rfl⟩, ?_⟩
    intro i l hl
    have hp := hbuilt.proof_eq_ok (List.getElem?_eq_some_iff.mp hl).1
    exact ⟨_, hp, cmdGenerateProof_eq_ok.mpr
      ⟨T, _, l, _, hleaves, hT, hp, hl, hbuilt.authRoot_eq, rfl⟩⟩
  refine ⟨?_, ?_, hprints⟩
  · constructor
    · rintro ⟨out, h⟩
      obtain ⟨T, authRoot, hleaves, hT, -⟩ := cmdCreateAccount_eq_ok.mp h
      exact ⟨T.leaves, hpolicy T hleaves hT⟩
    · rintro ⟨leaves, h⟩
      obtain ⟨T, authRoot, -, -, haccount, -⟩ := hprints leaves h
      exact ⟨_, haccount⟩
  · intro i
    constructor
    · rintro ⟨out, h⟩
      obtain ⟨T, p, l, authRoot, hleaves, hT, -, hl, -⟩ := cmdGenerateProof_eq_ok.mp h
      have hdeclared := hpolicy T hleaves hT
      exact ⟨⟨T.leaves, hdeclared⟩,
        hdeclared.items.length_eq ▸ (List.getElem?_eq_some_iff.mp hl).1⟩
    · rintro ⟨⟨leaves, h⟩, hi⟩
      obtain ⟨T, authRoot, -, -, -, hproof⟩ := hprints leaves h
      rw [h.items.length_eq] at hi
      obtain ⟨p, -, hgenerate⟩ := hproof i _ (List.getElem?_eq_getElem hi)
      exact ⟨_, hgenerate⟩

/-- The sample objects declare the sample leaves, whose inputs do not collide. -/
theorem declaresPolicy_cliLeafValues :
    DeclaresPolicy .usize64 cliLeafValues sampleLeaves ∧
      ∀ leaves, List.Forall₂ DeclaresLeaf cliLeafValues leaves →
        NoCollision sampleHash (leaves.map Leaf.hashInput) := by
  have hread : ∀ leaves, Cli.parseLeaves cliLib (printJson (.array cliLeafValues)) = .ok leaves ↔
      List.Forall₂ DeclaresLeaf cliLeafValues leaves :=
    fun leaves => parseLeaves_eq_ok (sampleLib_vecFromStr _ _)
  have hitems := (hread sampleLeaves).mp (parseLeaves_cliLeafValues _)
  have hcoll : NoCollision sampleHash (sampleLeaves.map Leaf.hashInput) := by
    apply noCollision_mono acceptsLastLeaf_two.1
    intro input hinput
    exact List.mem_append_left _ (List.mem_append_left _ (List.mem_append_left _ hinput))
  refine ⟨(buildable_iff_declaresPolicy hitems hcoll).mp (new_isOk_iff.mp ⟨_, new_sampleLeaves⟩),
    ?_⟩
  intro leaves h
  have hsame := (parseLeaves_cliLeafValues cliProofValue).symm.trans ((hread leaves).mpr h)
  rwa [← Except.ok.inj hsame]

/-- The sample objects are an account of three leaves, with a proof for each position and no
other. -/
theorem policy_text_exact_sample :
    (∃ out, Cli.cmdCreateAccount cliLib .usize64 sampleHash (printJson (.array cliLeafValues)) =
      .ok out) ∧
    (∀ i : Usize .usize64, (∃ out, Cli.cmdGenerateProof cliLib .usize64 sampleHash
      (printJson (.array cliLeafValues)) i = .ok out) ↔ i.toNat < 3) ∧
    ∃ T authRoot, SpecifiedTree .usize64 sampleHash sampleLeaves T ∧
      T.authRoot = .ok authRoot ∧
      Cli.cmdCreateAccount cliLib .usize64 sampleHash (printJson (.array cliLeafValues)) =
        .ok (printJson
          (Cli.accountJson sampleHash T authRoot (deriveAddress sampleHash authRoot))) ∧
      ∃ p, T.proof (2 : Usize .usize64) = .ok p ∧
        Cli.cmdGenerateProof cliLib .usize64 sampleHash (printJson (.array cliLeafValues)) 2 =
          .ok (printJson (Cli.proofJson .usize64 p (lastLeaf.hash sampleHash) authRoot)) := by
  obtain ⟨hpolicy, hcoll⟩ := declaresPolicy_cliLeafValues
  obtain ⟨haccount, hproof, hprints⟩ :=
    policy_text_exact (sampleLib_vecFromStr cliLeafValues cliProofValue) hcoll
  obtain ⟨T, authRoot, hspec, hroot, hcreate, hgenerate⟩ := hprints _ hpolicy
  exact ⟨haccount.mpr ⟨_, hpolicy⟩, fun i => (hproof i).trans (and_iff_right ⟨_, hpolicy⟩),
    T, authRoot, hspec, hroot, hcreate, hgenerate 2 _ rfl⟩

end Hca.Analysis
