import Hca.Analysis.LeafAdmission
import Hca.Analysis.JsonTransactions
import Hca.Analysis.MerkleConstruction

set_option autoImplicit false

/-!
# Leaves read from JSON

The version of a leaf object passes through a default and a narrowing cast before
`Leaf::new` sees it, and its script through a trim and a decoder with a default. What
reaches the constructor is the active version and a script that is not empty; whether these
are the declared ones depends on the object.
-/

namespace Hca.Analysis

open Hca.Library Hca.Model Hca.Program Hca.Interface

/-! ## One leaf -/

/-- A leaf that is accepted has the active version and the trimmed script, which is not
empty. -/
theorem leafOf_eq_ok {l : Value} {leaf : Leaf} (h : Wasm.leafOf l = .ok leaf) :
    ((l.index "version").asU64.getD 1).setWidth 8 = leaf.version ∧ leaf.version = 0x01 ∧
      Wasm.hexField l "script" = leaf.script ∧ leaf.script ≠ [] := by
  rw [Wasm.leafOf, mapErr_eq_ok] at h
  have hadmissible := leafNew_isOk_iff.mp ⟨leaf, h⟩
  obtain rfl := leafNew_eq h
  exact ⟨rfl, hadmissible.version_eq, rfl, List.length_pos_iff.mp hadmissible.script_ne⟩

/-- The declared version is the one of the leaf iff it is none or the active one. -/
theorem version_declared_iff {l : Value} {leaf : Leaf} (h : Wasm.leafOf l = .ok leaf) :
    (∀ d, l.get "version" = some d → ∃ n, d = .number (.posInt n) ∧
      leaf.version.toNat = n.toNat) ↔
      ∀ d, l.get "version" = some d → d = .number (.posInt 1) := by
  obtain ⟨-, hversion, -, -⟩ := leafOf_eq_ok h
  have hone : leaf.version.toNat = 1 := by
    rw [hversion]
    rfl
  apply forall₂_congr
  intro d _
  constructor
  · rintro ⟨n, rfl, hn⟩
    have heq : n = 1 := BitVec.eq_of_toNat_eq (hn.symm.trans hone)
    rw [heq]
  · rintro rfl
    exact ⟨1, rfl, hone⟩

/-- A script that is not empty is a string. -/
theorem script_of_ne_nil {l : Value} (h : Wasm.hexField l "script" ≠ []) :
    ∃ s bytes, l.index "script" = .string s ∧
      hexDecode (trimStartMatches0x s.toList) = some bytes ∧
        Wasm.hexField l "script" = bytes := by
  unfold Wasm.hexField at h ⊢
  cases hs : (l.index "script").asStr with
  | none =>
    rw [hs] at h
    exact absurd rfl h
  | some s =>
    rw [hs, Option.getD_some] at h
    rw [Option.getD_some]
    cases hbytes : hexDecode (trimStartMatches0x s.toList) with
    | none =>
      rw [hbytes] at h
      exact absurd rfl h
    | some bytes => exact ⟨s, bytes, Value.asStr_eq_some.mp hs, hbytes, rfl⟩

/-- Trimming and stripping give one script iff there is at most one prefix. -/
theorem script_declared_iff {l : Value} {leaf : Leaf} (h : Wasm.leafOf l = .ok leaf) :
    declaredBytes (l.index "script") = some leaf.script ↔
      ∀ s, l.index "script" = .string s → ¬ "0x0x".toList <+: s.toList := by
  obtain ⟨-, -, hscript, hne⟩ := leafOf_eq_ok h
  rw [← hscript] at hne
  obtain ⟨s, bytes, hs, hbytes, hfield⟩ := script_of_ne_nil hne
  have hdouble : "0x0x".toList <+: s.toList ↔
      ∃ rest, stripPrefix0x s.toList = '0' :: 'x' :: rest := exists_stripPrefix0x_eq_iff.symm
  rw [hs, ← hscript, hfield]
  simp only [Value.string.injEq, forall_eq', hdouble, not_exists]
  constructor
  · intro hdeclared
    exact ne_prefix0x_of_hex hdeclared
  · intro hplain
    rw [trim_eq_strip hplain] at hbytes
    exact hbytes

/-- An accepted leaf is the declared one iff the object is plain. -/
theorem commitsTo_iff {l : Value} {leaf : Leaf} (h : Wasm.leafOf l = .ok leaf) :
    CommitsTo l leaf ↔ PlainLeaf l := by
  constructor
  · intro hcommits
    exact ⟨(version_declared_iff h).mp hcommits.version,
      (script_declared_iff h).mp hcommits.script⟩
  · intro hplain
    exact ⟨(version_declared_iff h).mpr hplain.version,
      (script_declared_iff h).mpr hplain.script⟩

/-- The accepted leaves are the declared ones iff all objects are plain. -/
theorem forall₂_commitsTo_iff {raw : List Value} {leaves : List Leaf}
    (h : List.Forall₂ (fun l leaf => Wasm.leafOf l = .ok leaf) raw leaves) :
    List.Forall₂ CommitsTo raw leaves ↔ ∀ l ∈ raw, PlainLeaf l := by
  induction h with
  | nil => simp
  | cons hleaf _ ih => rw [List.forall₂_cons, List.forall_mem_cons, commitsTo_iff hleaf, ih]

/-! ## Leaves of the command line tool -/

/-- A version is the one byte that the field declares. -/
theorem decodeByte_eq_ok {lib : JsonLib} {s msg : String} {b : U8} :
    Cli.decodeByte lib s msg = .ok b ↔ declaredBytes (.string s) = some [b] := by
  unfold Cli.decodeByte
  simp only [bind_eq_ok, decodeHex_eq_ok, rejectIf_eq_ok, index_eq_ok, exists_const, not_not]
  constructor
  · rintro ⟨bytes, hbytes, hlen, hb⟩
    obtain ⟨b', rfl⟩ := List.length_eq_one_iff.mp hlen
    cases hb
    exact hbytes
  · intro hbytes
    exact ⟨[b], hbytes, rfl, rfl⟩

/-- A leaf that the command line tool accepts has the declared version and script, whatever
the object. -/
theorem parseLeaf_eq_ok {lib : JsonLib} {l : Value} {i : ℕ} {leaf : Leaf}
    (h : Cli.parseLeaf lib l i = .ok leaf) :
    declaredBytes (l.index "version") = some [leaf.version] ∧
      declaredBytes (l.index "script") = some leaf.script := by
  unfold Cli.parseLeaf at h
  simp only [bind_eq_ok, okOr_eq_ok, Value.asStr_eq_some, decodeByte_eq_ok, decodeHex_eq_ok,
    mapErr_eq_ok] at h
  obtain ⟨versionStr, hversion, version, hbyte, scriptStr, hscript, script, hbytes, hnew⟩ := h
  obtain rfl := leafNew_eq hnew
  rw [hversion, hscript]
  exact ⟨hbyte, hbytes⟩

/-- The leaves that the command line tool reads from an array are the declared ones. -/
theorem parseLeaves_declared {lib : JsonLib} {leavesJson : String} {raw : List Value}
    {leaves : List Leaf} (hjson : lib.vecFromStr leavesJson = .ok raw)
    (h : Cli.parseLeaves lib leavesJson = .ok leaves) :
    List.Forall₂ (fun l leaf => declaredBytes (l.index "version") = some [leaf.version] ∧
      declaredBytes (l.index "script") = some leaf.script) raw leaves := by
  unfold Cli.parseLeaves at h
  simp only [bind_eq_ok, mapErr_eq_ok, hjson, Except.ok.injEq, exists_eq_left', mapM_eq_ok] at h
  rw [← List.zipIdx_map_fst 0 raw, List.forall₂_map_left_iff]
  exact h.imp fun _ _ => parseLeaf_eq_ok

/-! ## The account -/

/-- What `create_hca_account` prints is the account of the tree over the leaves. -/
theorem createHcaAccount_eq_ok {lib : JsonLib} {t : Target} {keccak256 : List U8 → Digest}
    {leavesJson out : String} {raw : List Value} (hjson : lib.vecFromStr leavesJson = .ok raw)
    (h : Wasm.createHcaAccount lib t keccak256 leavesJson = .ok out) :
    ∃ T authRoot, MerkleTree.new t keccak256 T.leaves = .ok T ∧ T.authRoot = .ok authRoot ∧
      List.Forall₂ (fun l leaf => Wasm.leafOf l = .ok leaf) raw T.leaves ∧
        out = lib.toStr (Wasm.accountJson keccak256 T.leaves authRoot
          (deriveAddress keccak256 authRoot)) := by
  unfold Wasm.createHcaAccount at h
  simp only [bind_eq_ok, pure_eq_ok, mapErr_eq_ok, mapM_eq_ok, hjson, Except.ok.injEq,
    exists_eq_left'] at h
  obtain ⟨leaves, hleaves, T, hT, authRoot, hroot, rfl⟩ := h
  obtain ⟨rfl, -⟩ := new_built hT
  exact ⟨T, authRoot, hT, hroot, hleaves, rfl⟩

/-- The account that is printed for an array of leaf objects is that of a tree with a leaf for
each object, and these leaves are the declared ones iff all objects are plain.
SOURCE: wasm.rs:53-88, merkle.rs:50-64, leaf_version.rs:36-43 -/
theorem account_commits_iff {lib : JsonLib} {t : Target} {keccak256 : List U8 → Digest}
    {leavesJson out : String} {raw : List Value} (hjson : lib.vecFromStr leavesJson = .ok raw)
    (h : Wasm.createHcaAccount lib t keccak256 leavesJson = .ok out) :
    ∃ T authRoot, MerkleTree.new t keccak256 T.leaves = .ok T ∧ T.authRoot = .ok authRoot ∧
      out = lib.toStr (Wasm.accountJson keccak256 T.leaves authRoot
        (deriveAddress keccak256 authRoot)) ∧
      raw.mapM Wasm.leafOf = .ok T.leaves ∧
      (List.Forall₂ CommitsTo raw T.leaves ↔ ∀ l ∈ raw, PlainLeaf l) := by
  obtain ⟨T, authRoot, hT, hroot, hleaves, hout⟩ := createHcaAccount_eq_ok hjson h
  exact ⟨T, authRoot, hT, hroot, hout, mapM_eq_ok.mpr hleaves, forall₂_commitsTo_iff hleaves⟩

/-- An account is created for a leaf object that is accepted. -/
theorem exists_createHcaAccount (keccak256 : List U8 → Digest) {l : Value}
    (h : Wasm.leafOf l = .ok ⟨1, [0x00], ""⟩) :
    ∃ out, Wasm.createHcaAccount (sampleLib [l] .null) .usize64 keccak256
      (printJson (.array [l])) = .ok out := by
  have hleaves : [l].mapM Wasm.leafOf = .ok [⟨1, [0x00], ""⟩] := mapM_eq_ok.mpr (.cons h .nil)
  rw [Wasm.createHcaAccount, sampleLib_vecFromStr, ok_bind, hleaves, ok_bind,
    new_sampleLeaf]
  exact ⟨_, rfl⟩

/-- Version 257 yields the address of version 1. -/
theorem version_257_accepted :
    ∃ out, Wasm.createHcaAccount (sampleLib [leafValue (.number (.posInt 257))] .null)
        .usize64 sampleHash (printJson (.array [leafValue (.number (.posInt 257))])) = .ok out ∧
      Wasm.leafOf (leafValue (.number (.posInt 257))) = .ok ⟨1, [0x00], ""⟩ ∧
      ¬ CommitsTo (leafValue (.number (.posInt 257))) ⟨1, [0x00], ""⟩ := by
  obtain ⟨out, hout⟩ := exists_createHcaAccount sampleHash
    (l := leafValue (.number (.posInt 257))) rfl
  refine ⟨out, hout, rfl, ?_⟩
  intro h
  obtain ⟨n, hn, hversion⟩ := h.version _ rfl
  cases hn
  exact absurd hversion (by decide)

/-- The sample leaf object is committed to as it declares. -/
theorem account_commits_iff_sample :
    ∃ out T authRoot, MerkleTree.new .usize64 sampleHash T.leaves = .ok T ∧
      T.authRoot = .ok authRoot ∧
      out = printJson (Wasm.accountJson sampleHash T.leaves authRoot
        (deriveAddress sampleHash authRoot)) ∧
      sampleLeafValues.mapM Wasm.leafOf = .ok T.leaves ∧
      (List.Forall₂ CommitsTo sampleLeafValues T.leaves ↔
        ∀ l ∈ sampleLeafValues, PlainLeaf l) := by
  obtain ⟨out, hout⟩ := exists_createHcaAccount sampleHash
    (l := leafValue (.number (.posInt 1))) rfl
  exact ⟨out, account_commits_iff (sampleLib_vecFromStr sampleLeafValues .null) hout⟩

end Hca.Analysis
