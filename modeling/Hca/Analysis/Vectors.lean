import Hca.Analysis.ProofCommands
import Hca.Interface.Vectors

set_option autoImplicit false

/-!
# Checking and generating test vectors

The checker reads a file section by section and counts what it finds. Each of its checks
decides what an entry states, so the file is accepted exactly when everything it states is
true, and the counts are those of the true and of the false statements. The vectors that the
tool generates are accepted by its own checker.
-/

namespace Hca.Analysis

open Hca.Library Hca.Model Hca.Program Hca.Interface
open Cli (Tally)
open HashTree (path)

variable {lib : JsonLib} {t : Target} {sha256 keccak256 : List U8 → Digest}

/-! ## Single entries -/

/-- The check passes on exactly the entries of which `Holds` is true. -/
def Decides (check : Value → ℕ → Outcome String (Bool × String)) (Holds : Value → Prop) : Prop :=
  ∀ v i, (∃ line, check v i = .ok (true, line)) ↔ Holds v

/-- The check of a tagged hash decides whether it is that of the data. -/
theorem checkTaggedHash_decides :
    Decides (Cli.checkTaggedHash lib sha256 keccak256) (TaggedHashHolds sha256 keccak256) := by
  intro v i
  unfold Cli.checkTaggedHash TaggedHashHolds
  simp only [bind_eq_ok, okOr_eq_ok, Value.asStr_eq_some, decodeHex_eq_ok, decode32_eq_ok,
    pure_eq_ok, Prod.mk.injEq, decide_eq_true_eq]
  constructor
  · rintro ⟨line, tag, htag, dataHex, hdata, data, hbytes, hex, hexpected, expected, hdigest,
      hgot, -⟩
    rw [hdata, hexpected]
    exact ⟨tag, data, expected, htag, hbytes, hdigest, hgot⟩
  · rintro ⟨tag, data, expected, htag, hdata, hexpected, hgot⟩
    obtain ⟨dataHex, hdataHex, hbytes⟩ := declaredBytes_eq_some.mp hdata
    obtain ⟨hex, hhex, hdigest⟩ := declaredBytes_eq_some.mp hexpected
    exact ⟨_, tag, htag, dataHex, hdataHex, data, hbytes, hex, hhex, expected, hdigest, hgot, rfl⟩

/-- Addresses are compared as texts, so an address has to be printed as the tool prints it. -/
theorem checkAddress_decides :
    Decides (Cli.checkAddress lib keccak256)
      fun v => AddressHolds keccak256 v ∧ AddressPrinted v := by
  intro v i
  unfold Cli.checkAddress AddressHolds AddressPrinted
  simp only [bind_eq_ok, okOr_eq_ok, Value.asStr_eq_some, decode32_eq_ok, pure_eq_ok,
    Prod.mk.injEq, decide_eq_true_eq]
  constructor
  · rintro ⟨line, rootHex, hroot, root, hdigest, address, haddress, rfl, -⟩
    rw [hroot, haddress]
    exact ⟨⟨root, hdigest, declaredBytes_hexEncode0x _⟩, _, rfl⟩
  · rintro ⟨⟨root, hroot, htrue⟩, address, hprinted⟩
    obtain ⟨rootHex, hrootHex, hdigest⟩ := declaredBytes_eq_some.mp hroot
    rw [hprinted, declaredBytes_hexEncode0x, Option.some.injEq] at htrue
    exact ⟨_, rootHex, hrootHex, root, hdigest, _, hprinted, by rw [htrue], rfl⟩

/-- The check of a proof decides whether its verdict is the stated one. -/
theorem checkProof_decides :
    Decides (Cli.checkProof lib t keccak256) (ProofHolds lib t keccak256) := by
  intro v i
  unfold Cli.checkProof ProofHolds
  simp only [bind_eq_ok, okOr_eq_ok, mapErr_eq_ok, Value.asStr_eq_some, decode32_eq_ok, pure_eq_ok,
    parseProof_eq_ok, ← RereadDeclaresProof.eq_def, Prod.mk.injEq, decide_eq_true_eq]
  constructor
  · rintro ⟨line, leafHex, hleaf, leafHash, hleafHash, rootHex, hroot, root, hrootHash, p, hp, got,
      hgot, rfl, -⟩
    rw [hleaf, hroot]
    exact ⟨leafHash, root, p, hleafHash, hrootHash, hp, hgot⟩
  · rintro ⟨leafHash, root, p, hleaf, hroot, hp, hgot⟩
    obtain ⟨leafHex, hleafHex, hleafHash⟩ := declaredBytes_eq_some.mp hleaf
    obtain ⟨rootHex, hrootHex, hrootHash⟩ := declaredBytes_eq_some.mp hroot
    exact ⟨_, leafHex, hleafHex, leafHash, hleafHash, rootHex, hrootHex, root, hrootHash, p, hp, _,
      hgot, rfl, rfl⟩

/-- A rotation is requested iff it is not to the zero root. -/
theorem rotationNew_eq_ok {chainId nonce : U64} {«from» : Bytes 20} {newAuthRoot : Digest}
    {r : RotationRequest} :
    RotationRequest.new chainId nonce «from» newAuthRoot = .ok r ↔
      newAuthRoot ≠ List.Vector.replicate 32 0 ∧ r = ⟨chainId, nonce, «from», newAuthRoot⟩ := by
  unfold RotationRequest.new
  simp only [bind_eq_ok, rejectIf_eq_ok, pure_eq_ok, exists_const, eq_comm (a := r), ne_eq]

/-- The check of a rotation decides whether its hash is the stated one. -/
theorem checkRotation_decides :
    Decides (Cli.checkRotation lib keccak256) (RotationHolds keccak256) := by
  intro v i
  unfold Cli.checkRotation RotationHolds
  simp only [bind_eq_ok, okOr_eq_ok, mapErr_eq_ok, rejectIf_eq_ok, copyFromSlice_eq_ok,
    Value.asStr_eq_some, Value.asU64_eq_some, decodeHex_eq_ok, decode32_eq_ok, rotationNew_eq_ok,
    pure_eq_ok, Prod.mk.injEq, decide_eq_true_eq, exists_const, not_not]
  constructor
  · rintro ⟨line, chainId, hchain, nonce, hnonce, fromHex, hfrom, fromBytes, hbytes, -, sender, rfl,
      rootHex, hroot, newRoot, hnewRoot, hashHex, hhash, expected, hexpected, r, ⟨hzero, rfl⟩,
      rfl, -⟩
    rw [hfrom, hroot, hhash]
    exact ⟨⟨chainId, nonce, sender, newRoot⟩, hchain, hnonce, hbytes, hnewRoot, hzero, hexpected⟩
  · rintro ⟨⟨chainId, nonce, sender, newRoot⟩, hchain, hnonce, hfrom, hroot, hzero, hhash⟩
    obtain ⟨fromHex, hfromHex, hbytes⟩ := declaredBytes_eq_some.mp hfrom
    obtain ⟨rootHex, hrootHex, hnewRoot⟩ := declaredBytes_eq_some.mp hroot
    obtain ⟨hashHex, hhashHex, hexpected⟩ := declaredBytes_eq_some.mp hhash
    exact ⟨_, chainId, hchain, nonce, hnonce, fromHex, hfromHex, _, hbytes, sender.property,
      sender, rfl, rootHex, hrootHex, newRoot, hnewRoot, hashHex, hhashHex, _, hexpected, _,
      ⟨hzero, rfl⟩, rfl, rfl⟩

/-! ## Sections -/

/-- A result that passed is counted as passed. -/
@[simp] theorem passed_count (s : Tally) (result : Bool × String) :
    (s.count result).passed = s.passed + if result.1 then 1 else 0 := by
  unfold Tally.count
  cases result.1 <;> rfl

/-- A result that failed is counted as failed. -/
@[simp] theorem failed_count (s : Tally) (result : Bool × String) :
    (s.count result).failed = s.failed + if result.1 then 0 else 1 := by
  unfold Tally.count
  cases result.1 <;> rfl

/-- Passing results are counted, and leave nothing to report. -/
theorem foldl_count_passed {results : List (Bool × String)} (h : ∀ r ∈ results, r.1 = true)
    (s : Tally) :
    results.foldl Tally.count s = { s with passed := s.passed + results.length } := by
  induction results generalizing s with
  | nil => rfl
  | cons result results ih =>
    have hresult : s.count result = { s with passed := s.passed + 1 } :=
      if_pos (h result List.mem_cons_self)
    rw [List.foldl_cons, hresult, ih fun r hr => h r (List.mem_cons_of_mem _ hr),
      List.length_cons]
    simp only [Tally.mk.injEq, and_true]
    omega

/-- A section is the check of its entries, counted. -/
theorem checkSection_eq_ok {check : Value → ℕ → Outcome String (Bool × String)} {doc : Value}
    {key : String} {s s' : Tally} :
    Cli.checkSection check doc key s = .ok s' ↔ ∃ results,
      List.Forall₂ (fun (entry : Value × ℕ) r => check entry.1 entry.2 = .ok r)
        (sectionEntries doc key).zipIdx results ∧ results.foldl Tally.count s = s' := by
  unfold Cli.checkSection sectionEntries
  cases (doc.index key).asArray with
  | none => simp
  | some items =>
    simp only [Option.getD_some]
    rw [foldlM_update]
    simp only [bind_eq_ok, mapM_eq_ok, pure_eq_ok]

section Decided

variable {check : Value → ℕ → Outcome String (Bool × String)} {Holds : Value → Prop}
  (hdecides : Decides check Holds) {doc : Value} {key : String}

include hdecides

/-- A section of true statements is checked, and all its entries are counted. -/
theorem Decides.section_holds (hall : ∀ v ∈ sectionEntries doc key, Holds v) (s : Tally) :
    Cli.checkSection check doc key s =
      .ok { s with passed := s.passed + (sectionEntries doc key).length } := by
  have hentry : ∀ entry ∈ (sectionEntries doc key).zipIdx, ∃ line,
      check entry.1 entry.2 = .ok (true, line) := by
    intro entry hentry
    exact (hdecides _ _).mpr (hall _ (List.fst_mem_of_mem_zipIdx hentry))
  choose! line hline using hentry
  have hresults : List.Forall₂ (fun (entry : Value × ℕ) r => check entry.1 entry.2 = .ok r)
      (sectionEntries doc key).zipIdx
      ((sectionEntries doc key).zipIdx.map fun entry => (true, line entry)) := by
    rw [List.forall₂_map_right_iff, List.forall₂_same]
    exact hline
  rw [checkSection_eq_ok]
  refine ⟨_, hresults, ?_⟩
  rw [foldl_count_passed, List.length_map, List.length_zipIdx]
  intro r hr
  obtain ⟨entry, -, rfl⟩ := List.mem_map.mp hr
  rfl

end Decided

/-! ## Files -/

/-- A file that meets what is asked of it is checked, and all its statements are counted. -/
theorem checkVectors_of_holds {doc : Value}
    (h : ∀ P ∈ requirements lib t sha256 keccak256 doc, P) :
    Cli.checkVectors lib t sha256 keccak256 doc =
      .ok ⟨(statements lib t sha256 keccak256 doc).length, 0, []⟩ := by
  simp only [requirements, statementsWith, List.forall_mem_append, List.forall_mem_map] at h
  obtain ⟨⟨⟨htagged, haddress⟩, hproof⟩, hrotation⟩ := h
  rw [Cli.checkVectors, checkTaggedHash_decides.section_holds htagged, ok_bind,
    checkAddress_decides.section_holds haddress, ok_bind,
    checkProof_decides.section_holds hproof, ok_bind,
    checkRotation_decides.section_holds hrotation]
  simp only [statements, statementsWith, List.length_append, List.length_map, Nat.zero_add]

section Read

variable {readToString : String → Outcome String String} {path raw : String} {doc : Value}
  (hraw : readToString path = .ok raw) (hdoc : lib.fromStr raw = .ok doc)

include hraw hdoc

/-- The command on a file that can be read is the check of what was read. -/
theorem cmdVerifyVectors_of_read :
    Cli.cmdVerifyVectors lib t sha256 keccak256 readToString path = (do
      let s ← Cli.checkVectors lib t sha256 keccak256 doc
      rejectIf (s.failed > 0) (s!"{s.failed} of {s.passed + s.failed} vectors failed\n" ++
        lib.toStringPretty (Cli.tallyJson s))
      pure (lib.toStringPretty (Cli.tallyJson s)) : Outcome String String) := by
  rw [Cli.cmdVerifyVectors, hraw, mapErr, ok_bind, hdoc, mapErr, ok_bind]

/-- A file that meets what is asked of it is accepted. -/
theorem cmdVerifyVectors_of_holds (h : ∀ P ∈ requirements lib t sha256 keccak256 doc, P) :
    Cli.cmdVerifyVectors lib t sha256 keccak256 readToString path = .ok (lib.toStringPretty
      (Cli.tallyJson ⟨(statements lib t sha256 keccak256 doc).length, 0, []⟩)) := by
  rw [cmdVerifyVectors_of_read hraw hdoc, checkVectors_of_holds h]
  rfl

end Read

/-- An address entry. -/
def addressEntry : Value :=
  .object [("auth_root", .string (hexEncode0x TagHashes.leaf.val)),
    ("address", .string (hexEncode0x (deriveAddress sampleHash TagHashes.leaf).val))]

/-- A file with one address. -/
def addressFile : Value := .object [("address", .array [addressEntry])]

/-- A file system with this file at every path. -/
def readAddressFile (_path : String) : Outcome String String := .ok (printJson addressFile)

/-- The entry states something true, whatever the order of its fields. -/
def HoldsInAnyOrder (Holds : Value → Prop) (v : Value) : Prop := ∀ v', SameJson v' v → Holds v'

/-- The entry that is generated for a tag and data states their hash. -/
theorem taggedHashVector_holds {entry : String × String}
    (hdata : (declaredBytes (.string entry.2)).isSome = true) :
    ∃ v, Cli.taggedHashVector lib sha256 keccak256 entry = .ok v ∧
      HoldsInAnyOrder (TaggedHashHolds sha256 keccak256) v := by
  obtain ⟨data, hdata⟩ := Option.isSome_iff_exists.mp hdata
  have hrun : Cli.taggedHashVector lib sha256 keccak256 entry = .ok (.object
      [("tag", .string entry.1), ("data", .string entry.2),
        ("expected",
          .string (hexEncode0x (taggedHashStr sha256 keccak256 entry.1 data).val))]) := by
    rw [Cli.taggedHashVector, decodeHex_eq_ok.mpr hdata]
    rfl
  refine ⟨_, hrun, ?_⟩
  intro v' hsame
  refine ⟨entry.1, data, taggedHashStr sha256 keccak256 entry.1 data,
    (hsame.index "tag").of_string, ?_, ?_, rfl⟩
  · rw [(hsame.index "data").declaredBytes_eq]
    exact hdata
  · rw [(hsame.index "expected").declaredBytes_eq]
    exact declaredBytes_hexEncode0x _

/-- The entry for a root states its address, as the tool prints it. -/
theorem addressVector_holds {rootHex : String} {authRoot : Digest}
    (hroot : declaredBytes (.string rootHex) = some authRoot.val) :
    ∃ v, Cli.addressVector lib keccak256 rootHex = .ok v ∧
      HoldsInAnyOrder (fun v => AddressHolds keccak256 v ∧ AddressPrinted v) v := by
  have hrun : Cli.addressVector lib keccak256 rootHex = .ok (.object
      [("auth_root", .string rootHex),
        ("address", .string (hexEncode0x (deriveAddress keccak256 authRoot).val))]) := by
    rw [Cli.addressVector, decode32_eq_ok.mpr hroot]
    rfl
  refine ⟨_, hrun, ?_⟩
  intro v' hsame
  refine ⟨⟨authRoot, ?_, ?_⟩, _, (hsame.index "address").of_string⟩
  · rw [(hsame.index "auth_root").declaredBytes_eq]
    exact hroot
  · rw [(hsame.index "address").declaredBytes_eq]
    exact declaredBytes_hexEncode0x _

/-- The entry that is generated for a leaf. -/
def proofEntry (i : ℕ) (leafHash authRoot : Digest) (siblings : List Digest) : Value :=
  .object
    [("leaf_index", .ofNat i), ("leaf_hash", .string (hexEncode0x leafHash.val)),
      ("auth_root", .string (hexEncode0x authRoot.val)),
      ("siblings", .array (siblings.map fun s => .string (hexEncode0x s.val))),
      ("valid", .bool true)]

/-- It has the siblings of a proof that verifies. -/
theorem proofVector_eq_ok {T : MerkleTree} {authRoot : Digest} {i : ℕ} {l : Leaf}
    (hT : Built keccak256 T) (hroot : T.authRoot = .ok authRoot) (hl : T.leaves[i]? = some l)
    (hfit : i < 2 ^ t.bits) :
    ∃ p : MerkleProof t, p.leafIndex.toNat = i ∧
      MerkleTree.verify keccak256 (l.hash keccak256) p authRoot = .ok true ∧
      Cli.proofVector t keccak256 T.leaves T authRoot i =
        .ok (proofEntry i (l.hash keccak256) authRoot p.siblings) := by
  rw [hT.authRoot_eq, Except.ok.injEq] at hroot
  have hindex : (BitVec.ofNat t.bits i).toNat = i := by
    rw [BitVec.toNat_ofNat, Nat.mod_eq_of_lt hfit]
  have hi : i < T.leaves.length := (List.getElem?_eq_some_iff.mp hl).1
  have hproof := hT.proof_eq_ok (t := t) (i := BitVec.ofNat t.bits i) (by rwa [hindex])
  have hverify := hT.verify_path (t := t) (i := BitVec.ofNat t.bits i) (by rwa [hindex])
  rw [hroot] at hverify
  refine ⟨_, hindex, hverify, ?_⟩
  rw [Cli.proofVector, hproof, unwrapOk, ok_bind, index_eq_ok.mpr hl, ok_bind]
  dsimp only
  rw [hverify]
  rfl

/-- The entry for a leaf of the tree states that its proof verifies. -/
theorem proofVector_holds {leaves : List Leaf} {T : MerkleTree} {authRoot : Digest} {i : ℕ}
    (hnew : MerkleTree.new t keccak256 leaves = .ok T) (hroot : T.authRoot = .ok authRoot)
    (hi : i < leaves.length) (hfit : i < 2 ^ t.bits) :
    ∃ v, Cli.proofVector t keccak256 leaves T authRoot i = .ok v ∧
      HoldsInAnyOrder (fun v' => ReadsBackAs lib (lib.toStr v') v' →
        ProofHolds lib t keccak256 v') v := by
  obtain ⟨rfl, hT⟩ := new_built hnew
  obtain ⟨p, hindex, hverify, hrun⟩ :=
    proofVector_eq_ok (t := t) hT hroot (List.getElem?_eq_getElem hi) hfit
  refine ⟨_, hrun, ?_⟩
  intro v' hsame hread
  have hprints : PrintsProof (proofEntry i (T.leaves[i].hash keccak256) authRoot p.siblings) p :=
    ⟨by rw [hindex]; rfl, rfl⟩
  refine ⟨T.leaves[i].hash keccak256, authRoot, p, ?_, ?_,
    .of_readsBack hread (hsame.declaresProof hprints.declaresProof), ?_⟩
  · rw [(hsame.index "leaf_hash").declaredBytes_eq]
    exact declaredBytes_hexEncode0x _
  · rw [(hsame.index "auth_root").declaredBytes_eq]
    exact declaredBytes_hexEncode0x _
  · rw [hverify, (hsame.index "valid").asBool_eq]
    rfl

/-- The entry for a rotation states its hash. -/
theorem rotationVector_holds {entry : U64 × U64 × String × String} {sender : Bytes 20}
    {newRoot : Digest} (hfrom : declaredBytes (.string entry.2.2.1) = some sender.val)
    (hroot : declaredBytes (.string entry.2.2.2) = some newRoot.val)
    (hzero : newRoot ≠ List.Vector.replicate 32 0) :
    ∃ v, Cli.rotationVector lib keccak256 entry = .ok v ∧
      HoldsInAnyOrder (RotationHolds keccak256) v := by
  obtain ⟨chainId, nonce, fromHex, rootHex⟩ := entry
  have hrun : Cli.rotationVector lib keccak256 (chainId, nonce, fromHex, rootHex) = .ok (.object
      [("chain_id", .number (.posInt chainId)), ("nonce", .number (.posInt nonce)),
        ("from", .string fromHex), ("new_auth_root", .string rootHex),
        ("rotation_hash", .string (hexEncode0x (RotationRequest.signingHash keccak256
          ⟨chainId, nonce, sender, newRoot⟩).val))]) := by
    rw [Cli.rotationVector]
    simp only [bind_eq_ok, unwrapOk_eq_ok, decodeHex_eq_ok, decode32_eq_ok, copyFromSlice_eq_ok,
      rotationNew_eq_ok, pure_eq_ok]
    exact ⟨_, hfrom, sender, rfl, newRoot, hroot, _, ⟨hzero, rfl⟩, rfl⟩
  refine ⟨_, hrun, ?_⟩
  intro v' hsame
  refine ⟨⟨chainId, nonce, sender, newRoot⟩, (hsame.index "chain_id").of_number,
    (hsame.index "nonce").of_number, ?_, ?_, hzero, ?_⟩
  · rw [(hsame.index "from").declaredBytes_eq]
    exact hfrom
  · rw [(hsame.index "new_auth_root").declaredBytes_eq]
    exact hroot
  · rw [(hsame.index "rotation_hash").declaredBytes_eq]
    exact declaredBytes_hexEncode0x _

/-- What holds of the printed entries of a section holds of those that are read back. -/
theorem section_read_back {doc doc' : Value} (key : String) {items : List Value}
    {Holds : Value → Prop} (hsame : SameJson doc' doc) (hitems : doc.index key = .array items)
    (hall : ∀ v ∈ items, HoldsInAnyOrder Holds v) :
    (sectionEntries doc' key).length = items.length ∧
      ∀ v ∈ sectionEntries doc' key, Holds v := by
  have hindex := hsame.index key
  rw [hitems] at hindex
  obtain ⟨xs, hxs, hsameItems⟩ := hindex.of_array
  rw [sectionEntries, hxs, Value.asArray, Option.getD_some]
  refine ⟨hsameItems.length_eq, ?_⟩
  clear hitems hindex hxs
  induction hsameItems with
  | nil => simp
  | cons hitem _ ih =>
    rw [List.forall_mem_cons] at hall ⊢
    exact ⟨hall.1 _ hitem, ih hall.2⟩

/-- A text that declares bytes of some number declares an array of them. -/
theorem exists_bytes {n : ℕ} {v : Value} (h : (declaredBytes v).map List.length = some n) :
    ∃ a : Bytes n, declaredBytes v = some a.val := by
  obtain ⟨bytes, hbytes, hlen⟩ := Option.map_eq_some_iff.mp h
  exact ⟨⟨bytes, hlen⟩, hbytes⟩

/-! ### The cases of the generator -/

/-- The constants of the generator decode, with the lengths they are used at, and no new root is
zero. -/
theorem generatorCases_decode :
    (∀ entry ∈ Cli.taggedHashCases, (declaredBytes (.string entry.2)).isSome = true) ∧
      (∀ rootHex ∈ Cli.addressCases,
        (declaredBytes (.string rootHex)).map List.length = some 32) ∧
      ∀ entry ∈ Cli.rotationCases,
        (declaredBytes (.string entry.2.2.1)).map List.length = some 20 ∧
          (declaredBytes (.string entry.2.2.2)).map List.length = some 32 ∧
          declaredBytes (.string entry.2.2.2) ≠ some (List.replicate 32 0) := by
  decide +kernel

/-- The six tagged hashes are generated, and hold. -/
theorem exists_taggedHashVectors (lib : JsonLib) (sha256 keccak256 : List U8 → Digest) :
    ∃ vs, Cli.taggedHashCases.mapM (Cli.taggedHashVector lib sha256 keccak256) = .ok vs ∧
      vs.length = 6 ∧ ∀ v ∈ vs, HoldsInAnyOrder (TaggedHashHolds sha256 keccak256) v := by
  exact exists_mapM_eq_ok fun entry hentry =>
    taggedHashVector_holds (generatorCases_decode.1 entry hentry)

/-- So are the three addresses. -/
theorem exists_addressVectors (lib : JsonLib) (keccak256 : List U8 → Digest) :
    ∃ vs, Cli.addressCases.mapM (Cli.addressVector lib keccak256) = .ok vs ∧
      vs.length = 3 ∧
      ∀ v ∈ vs, HoldsInAnyOrder (fun v => AddressHolds keccak256 v ∧ AddressPrinted v) v := by
  apply exists_mapM_eq_ok
  intro rootHex hmem
  obtain ⟨authRoot, hauthRoot⟩ := exists_bytes (generatorCases_decode.2.1 rootHex hmem)
  exact addressVector_holds hauthRoot

/-- So are the two rotations. -/
theorem exists_rotationVectors (lib : JsonLib) (keccak256 : List U8 → Digest) :
    ∃ vs, Cli.rotationCases.mapM (Cli.rotationVector lib keccak256) = .ok vs ∧
      vs.length = 2 ∧ ∀ v ∈ vs, HoldsInAnyOrder (RotationHolds keccak256) v := by
  apply exists_mapM_eq_ok
  intro entry hmem
  obtain ⟨hfrom, hroot, hzero⟩ := generatorCases_decode.2.2 entry hmem
  obtain ⟨sender, hsender⟩ := exists_bytes hfrom
  obtain ⟨newRoot, hnewRoot⟩ := exists_bytes hroot
  refine rotationVector_holds hsender hnewRoot ?_
  rintro rfl
  exact hzero hnewRoot

/-- So are the proofs of the three leaves, which hold if they can be read once more. -/
theorem exists_proofVectors (lib : JsonLib) {T : MerkleTree} {authRoot : Digest}
    (hnew : MerkleTree.new t keccak256 vectorLeaves = .ok T) (hroot : T.authRoot = .ok authRoot) :
    ∃ vs, (List.range vectorLeaves.length).mapM
        (Cli.proofVector t keccak256 vectorLeaves T authRoot) = .ok vs ∧ vs.length = 3 ∧
      ∀ v ∈ vs, HoldsInAnyOrder (fun v' => ReadsBackAs lib (lib.toStr v') v' →
        ProofHolds lib t keccak256 v') v := by
  apply exists_mapM_eq_ok
  intro i hi
  have hlt : i < vectorLeaves.length := List.mem_range.mp hi
  have hbits := t.pow_bits_ge
  have hlen : vectorLeaves.length = 3 := rfl
  exact proofVector_holds hnew hroot hlt (by omega)

/-- The leaves of the generator pass `Leaf::new`. -/
theorem mapM_leafCases :
    (Cli.leafCases.mapM fun (version, script, description) =>
      mapErr HcaError.display (Leaf.new version script description)) = .ok vectorLeaves := by
  decide

/-- The generated vectors are accepted by the checker, all fourteen of them, when the file is
read back up to the order of the fields. Only a collision of the leaf hashes keeps them from
being generated.
SOURCE: bin/hca.rs:300-585 -/
theorem generated_vectors_verify
    (hdistinct : (vectorLeaves.map (Leaf.hash keccak256)).Nodup) :
    ∃ doc, Cli.generateVectors lib t sha256 keccak256 = .ok doc ∧
      Cli.cmdGenerateVectors lib t sha256 keccak256 = .ok (lib.toStringPretty doc) ∧
      ∀ readToString path doc', readToString path = .ok (lib.toStringPretty doc) →
        lib.fromStr (lib.toStringPretty doc) = .ok doc' → SameJson doc' doc →
        (∀ v ∈ sectionEntries doc' "merkle_proofs", ReadsBackAs lib (lib.toStr v) v) →
        Cli.cmdVerifyVectors lib t sha256 keccak256 readToString path =
          .ok (lib.toStringPretty (Cli.tallyJson ⟨14, 0, []⟩)) := by
  have hbuild : Buildable t keccak256 vectorLeaves := by
    refine ⟨by decide, by decide, ?_, hdistinct⟩
    cases t <;> decide
  obtain ⟨T, hT⟩ := new_isOk_iff.mpr hbuild
  have hroot := (new_built hT).2.authRoot_eq
  obtain ⟨tagged, htagged, htaggedLen, htaggedHolds⟩ :=
    exists_taggedHashVectors lib sha256 keccak256
  obtain ⟨addresses, haddresses, haddressesLen, haddressesHold⟩ :=
    exists_addressVectors lib keccak256
  obtain ⟨proofs, hproofs, hproofsLen, hproofsHold⟩ := exists_proofVectors lib hT hroot
  obtain ⟨rotations, hrotations, hrotationsLen, hrotationsHold⟩ :=
    exists_rotationVectors lib keccak256
  have hdoc : Cli.generateVectors lib t sha256 keccak256 =
      .ok (Cli.vectorsJson tagged addresses proofs rotations) := by
    rw [Cli.generateVectors, htagged, ok_bind, haddresses, ok_bind, mapM_leafCases, ok_bind,
      hT, mapErr, ok_bind, hroot, mapErr, ok_bind, hproofs, ok_bind, hrotations]
    rfl
  refine ⟨_, hdoc, ?_, ?_⟩
  · rw [Cli.cmdGenerateVectors, hdoc]
    rfl
  · intro readToString path doc' hraw hdoc hsame hread
    obtain ⟨hlen₁, hholds₁⟩ := section_read_back "tagged_hash" hsame rfl htaggedHolds
    obtain ⟨hlen₂, hholds₂⟩ := section_read_back "address" hsame rfl haddressesHold
    obtain ⟨hlen₃, hholds₃⟩ := section_read_back "merkle_proofs" hsame rfl hproofsHold
    obtain ⟨hlen₄, hholds₄⟩ := section_read_back "rotation" hsame rfl hrotationsHold
    have hall : ∀ P ∈ requirements lib t sha256 keccak256 doc', P := by
      simp only [requirements, statementsWith, List.forall_mem_append, List.forall_mem_map]
      exact ⟨⟨⟨hholds₁, hholds₂⟩, fun v hv => hholds₃ v hv (hread v hv)⟩, hholds₄⟩
    have hcount : (statements lib t sha256 keccak256 doc').length = 14 := by
      simp only [statements, statementsWith, List.length_append, List.length_map]
      omega
    rw [cmdVerifyVectors_of_holds hraw hdoc hall, hcount]

/-! ### A library that reads the vectors -/

/-- A generated file, taken apart: its sections, and the tree that its proofs are of. -/
theorem generateVectors_eq_ok {doc : Value} :
    Cli.generateVectors lib t sha256 keccak256 = .ok doc ↔
      ∃ tagged addresses T authRoot proofs rotations,
        Cli.taggedHashCases.mapM (Cli.taggedHashVector lib sha256 keccak256) = .ok tagged ∧
        Cli.addressCases.mapM (Cli.addressVector lib keccak256) = .ok addresses ∧
        MerkleTree.new t keccak256 vectorLeaves = .ok T ∧ T.authRoot = .ok authRoot ∧
        (List.range vectorLeaves.length).mapM
          (Cli.proofVector t keccak256 vectorLeaves T authRoot) = .ok proofs ∧
        Cli.rotationCases.mapM (Cli.rotationVector lib keccak256) = .ok rotations ∧
        doc = Cli.vectorsJson tagged addresses proofs rotations := by
  unfold Cli.generateVectors
  simp only [mapM_leafCases, ok_bind, bind_eq_ok, mapErr_eq_ok, pure_eq_ok]
  constructor
  · rintro ⟨tagged, htagged, addresses, haddresses, T, hT, authRoot, hroot, proofs, hproofs,
      rotations, hrotations, rfl⟩
    exact ⟨tagged, addresses, T, authRoot, proofs, rotations, htagged, haddresses, hT, hroot,
      hproofs, hrotations, rfl⟩
  · rintro ⟨tagged, addresses, T, authRoot, proofs, rotations, htagged, haddresses, hT, hroot,
      hproofs, hrotations, rfl⟩
    exact ⟨tagged, htagged, addresses, haddresses, T, hT, authRoot, hroot, proofs, hproofs,
      rotations, hrotations, rfl⟩

/-- The generator uses nothing of the libraries but the texts of errors. -/
theorem generateVectors_congr {lib' : JsonLib} (h : lib.hexError = lib'.hexError) :
    Cli.generateVectors lib t sha256 keccak256 = Cli.generateVectors lib' t sha256 keccak256 := by
  have hdecode : Cli.decodeHex lib = Cli.decodeHex lib' := by
    funext s
    rw [Cli.decodeHex, Cli.decodeHex, h]
  have hdecode32 : Cli.decode32 lib = Cli.decode32 lib' := by
    funext s
    rw [Cli.decode32, Cli.decode32, hdecode]
  have htagged : Cli.taggedHashVector lib sha256 keccak256 =
      Cli.taggedHashVector lib' sha256 keccak256 := by
    funext entry
    rw [Cli.taggedHashVector, Cli.taggedHashVector, hdecode]
  have haddress : Cli.addressVector lib keccak256 = Cli.addressVector lib' keccak256 := by
    funext rootHex
    rw [Cli.addressVector, Cli.addressVector, hdecode32]
  have hrotation : Cli.rotationVector lib keccak256 = Cli.rotationVector lib' keccak256 := by
    funext entry
    rw [Cli.rotationVector, Cli.rotationVector, hdecode, hdecode32]
  rw [Cli.generateVectors, Cli.generateVectors, htagged, haddress, hrotation]

/-- Two printed entries with one root differ where their leaves do. -/
theorem leafHash_eq_of_printJson_eq {i j : ℕ} {leafHash leafHash' authRoot : Digest}
    {siblings siblings' : List Digest}
    (h : printJson (proofEntry i leafHash authRoot siblings) =
      printJson (proofEntry j leafHash' authRoot siblings')) : leafHash = leafHash' := by
  have hprint : ∀ (index items valid : Value) (hash root : String), ∃ rest,
      printJson (.object [("leaf_index", index), ("leaf_hash", .string hash),
        ("auth_root", .string root), ("siblings", items), ("valid", valid)]) =
      "\x7b" ++ ("\"auth_root\":" ++ ("\"" ++ root ++ "\"") ++ "," ++
        ("\"leaf_hash\":" ++ ("\"" ++ hash ++ "\"") ++ "," ++ rest)) ++ "\x7d" := by
    intro index items valid hash root
    simp [printJson, List.mergeSort, List.MergeSort.Internal.splitInTwo,
      String.intercalate_cons_cons]
  obtain ⟨rest, hrest⟩ := hprint _ _ _ _ _
  obtain ⟨rest', hrest'⟩ := hprint _ _ _ _ _
  have htext := hrest.symm.trans (h.trans hrest')
  simp only [String.append_assoc, String.append_right_inj] at htext
  have hlist := congrArg String.toList htext
  simp only [String.toList_append] at hlist
  have hlen : (hexEncode0x leafHash.val).toList.length =
      (hexEncode0x leafHash'.val).toList.length := by
    simp [toList_hexEncode0x, toList_lowerHex, List.length_flatMap]
  exact Subtype.ext
    (hexEncode0x_injective (String.toList_injective (List.append_inj_left hlist hlen)))

/-- The text of a file is not that of an entry: the first keys, "address" and "auth_root", differ
in their second letter. -/
theorem printJson_vectorsJson_ne {tagged addresses proofs rotations : List Value}
    {i : ℕ} {leafHash authRoot : Digest} {siblings : List Digest} :
    printJson (Cli.vectorsJson tagged addresses proofs rotations) ≠
      printJson (proofEntry i leafHash authRoot siblings) := by
  intro htext
  have hchar := congrArg (fun s => s.toList[3]?) htext
  simp [Cli.vectorsJson, proofEntry, printJson, List.mergeSort,
    List.MergeSort.Internal.splitInTwo, String.intercalate_cons_cons] at hchar

/-- Each generated entry with a proof is the entry of some leaf of the tree. -/
theorem exists_leaf_of_mem_proofVectors {T : MerkleTree} {authRoot : Digest} {proofs : List Value}
    {v : Value} (hT : Built keccak256 T) (hroot : T.authRoot = .ok authRoot)
    (hlen : T.leaves.length ≤ 2 ^ t.bits)
    (hproofs : (List.range T.leaves.length).mapM
      (Cli.proofVector t keccak256 T.leaves T authRoot) = .ok proofs) (hv : v ∈ proofs) :
    ∃ (i : ℕ) (l : Leaf) (siblings : List Digest), T.leaves[i]? = some l ∧
      Cli.proofVector t keccak256 T.leaves T authRoot i = .ok v ∧
        v = proofEntry i (l.hash keccak256) authRoot siblings := by
  obtain ⟨i, hi, hrun⟩ := exists_of_mem_mapM hproofs hv
  have hlt := List.mem_range.mp hi
  have hl := List.getElem?_eq_getElem hlt
  obtain ⟨p, -, -, heq⟩ := proofVector_eq_ok (t := t) hT hroot hl (by omega)
  exact ⟨i, _, p.siblings, hl, hrun, Except.ok.inj (hrun.symm.trans heq)⟩

/-- No two of the texts of a generated file and of its entries with proofs are the same. -/
theorem printJson_injective_vectors {doc : Value}
    (hdoc : Cli.generateVectors lib t sha256 keccak256 = .ok doc)
    (hdistinct : (vectorLeaves.map (Leaf.hash keccak256)).Nodup) :
    ∀ v ∈ doc :: sectionEntries doc "merkle_proofs",
      ∀ w ∈ doc :: sectionEntries doc "merkle_proofs", printJson v = printJson w → v = w := by
  obtain ⟨tagged, addresses, T, authRoot, proofs, rotations, -, -, hT, hroot, hproofs, -, rfl⟩ :=
    generateVectors_eq_ok.mp hdoc
  obtain ⟨hleaves, hbuilt⟩ := new_built hT
  rw [← hleaves] at hproofs hdistinct
  have hlen : T.leaves.length ≤ 2 ^ t.bits := by
    have hbits := t.pow_bits_ge
    have hthree : T.leaves.length = 3 := congrArg List.length hleaves
    omega
  have hshape := fun v (hv : v ∈ proofs) =>
    exists_leaf_of_mem_proofVectors hbuilt hroot hlen hproofs hv
  have hentries : ∀ v ∈ proofs, ∀ w ∈ proofs, printJson v = printJson w → v = w := by
    intro v hv w hw htext
    obtain ⟨i, l, siblings, hl, hrun, rfl⟩ := hshape v hv
    obtain ⟨j, l', siblings', hl', hrun', rfl⟩ := hshape w hw
    have hhash := leafHash_eq_of_printJson_eq htext
    have hij : i = j := by
      apply (List.getElem?_inj (by rw [List.length_map]; exact (List.getElem?_eq_some_iff.mp hl).1)
        hdistinct).mp
      rw [List.getElem?_map, List.getElem?_map, hl, hl', Option.map_some, Option.map_some, hhash]
    subst hij
    exact Except.ok.inj (hrun.symm.trans hrun')
  have hfile : ∀ v ∈ proofs,
      printJson (Cli.vectorsJson tagged addresses proofs rotations) ≠ printJson v := by
    intro v hv
    obtain ⟨i, l, siblings, -, -, rfl⟩ := hshape v hv
    exact printJson_vectorsJson_ne
  have hsection : sectionEntries (Cli.vectorsJson tagged addresses proofs rotations)
      "merkle_proofs" = proofs := rfl
  rw [hsection]
  intro v hv w hw htext
  rcases List.mem_cons.mp hv with rfl | hv <;> rcases List.mem_cons.mp hw with rfl | hw
  · rfl
  · exact absurd htext (hfile w hw)
  · exact absurd htext.symm (hfile v hv)
  · exact hentries v hv w hw htext

/-- The vectors that are generated with the stand-in for keccak256. -/
def vectorsValue : Value :=
  (Cli.generateVectors (sampleLib [] .null) .usize64 sampleHash sampleHash).toOption.getD .null

/-- A library that reads the printed file and the printed entries with proofs. -/
def vectorsLib : JsonLib :=
  { sampleLib [] .null with
    fromStr := fun s => okOr
      ((vectorsValue :: sectionEntries vectorsValue "merkle_proofs").find? fun v => printJson v = s)
      "expected value" }

/-- What is found under the text of a value of the file is the value. -/
theorem fromStr_vectorsLib
    (hdoc : Cli.generateVectors vectorsLib .usize64 sampleHash sampleHash = .ok vectorsValue)
    (hdistinct : (vectorLeaves.map (Leaf.hash sampleHash)).Nodup) {v : Value}
    (hv : v ∈ vectorsValue :: sectionEntries vectorsValue "merkle_proofs") :
    vectorsLib.fromStr (printJson v) = .ok v := by
  have hfound : ((vectorsValue :: sectionEntries vectorsValue "merkle_proofs").find?
      fun w => printJson w = printJson v).isSome := by
    rw [List.find?_isSome]
    exact ⟨v, hv, decide_eq_true rfl⟩
  obtain ⟨w, hw⟩ := Option.isSome_iff_exists.mp hfound
  have htext : printJson w = printJson v := by simpa using List.find?_some hw
  obtain rfl := printJson_injective_vectors hdoc hdistinct _ (List.mem_of_find?_eq_some hw) _ hv
    htext
  exact okOr_eq_ok.mpr hw

/-- The sample library reads the file and its proofs back, and all fourteen vectors are counted. -/
theorem generated_vectors_verify_sample :
    ∃ doc, Cli.cmdGenerateVectors vectorsLib .usize64 sampleHash sampleHash =
        .ok (printJson doc) ∧
      Cli.cmdVerifyVectors vectorsLib .usize64 sampleHash sampleHash
        (fun _ => .ok (printJson doc)) "vectors.json" =
          .ok (printJson (Cli.tallyJson ⟨14, 0, []⟩)) := by
  have hdistinct : (vectorLeaves.map (Leaf.hash sampleHash)).Nodup := by decide +kernel
  obtain ⟨doc, hdoc, hprinted, hverify⟩ :=
    @generated_vectors_verify vectorsLib .usize64 sampleHash _ hdistinct
  have herror : (sampleLib [] .null).hexError = vectorsLib.hexError := rfl
  have hvalue : vectorsValue = doc := by
    rw [vectorsValue, generateVectors_congr herror, hdoc]
    rfl
  subst hvalue
  refine ⟨vectorsValue, hprinted, hverify _ _ _ rfl
    (fromStr_vectorsLib hdoc hdistinct List.mem_cons_self) (.refl _) ?_⟩
  intro v hv
  exact ⟨v, fromStr_vectorsLib hdoc hdistinct (List.mem_cons_of_mem _ hv), .refl _⟩

end Hca.Analysis
