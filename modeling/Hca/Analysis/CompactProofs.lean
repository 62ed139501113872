import Hca.Analysis.CompactVerification

set_option autoImplicit false

/-!
# Compact proofs lose nothing

`compact_proofs` writes every sibling of every proof into one table, at most once. Positions
handed out earlier stay valid, since the table only grows at its end: `Grows` is what each
loop of the constructor keeps, and what two loops in sequence keep.
-/

namespace Hca.Analysis

open Hca.Library Hca.Model Hca.Program Hca.Interface
open MerkleTree (tableIndex tableIndices compactLoop)

variable {t : Target}

/-! ## The sibling table -/

/-- `table'` is `table`, extended without repetition by entries at the positions in `used`. -/
structure Grows (table table' : List Digest) (used : List ℕ) : Prop where
  isPrefix : table <+: table'
  nodup : table.Nodup → table'.Nodup
  new_used : ∀ j < table'.length, table.length ≤ j → j ∈ used

/-- A table that is left alone has grown by nothing. -/
theorem Grows.refl (table : List Digest) : Grows table table [] where
  isPrefix := List.prefix_refl table
  nodup := id
  new_used := fun _ hlt hge => absurd hge (not_le.mpr hlt)

/-- Two steps of growth are one. -/
theorem Grows.trans {table₁ table₂ table₃ : List Digest} {used₁ used₂ : List ℕ}
    (h₁ : Grows table₁ table₂ used₁) (h₂ : Grows table₂ table₃ used₂) :
    Grows table₁ table₃ (used₁ ++ used₂) where
  isPrefix := h₁.isPrefix.trans h₂.isPrefix
  nodup := h₂.nodup ∘ h₁.nodup
  new_used := by
    intro j hlt hge
    by_cases hold : j < table₂.length
    · exact List.mem_append_left _ (h₁.new_used j hold hge)
    · exact List.mem_append_right _ (h₂.new_used j hlt (not_lt.mp hold))

/-- The positions of a list of siblings in the table. -/
def LooksUp (table : List Digest) (sibIndices : List ℕ) (siblings : List Digest) : Prop :=
  List.Forall₂ (fun i s => table[i]? = some s) sibIndices siblings

/-- A position that was handed out means the same hash in every later table. -/
theorem getElem?_of_isPrefix {table table' : List Digest} (h : table <+: table') {i : ℕ}
    {s : Digest} (hi : table[i]? = some s) : table'[i]? = some s := by
  obtain ⟨after, rfl⟩ := h
  rw [List.getElem?_append_left (List.getElem?_eq_some_iff.mp hi).1, hi]

/-- What is looked up stays where it is while the table grows. -/
theorem LooksUp.mono {table table' : List Digest} {sibIndices : List ℕ}
    {siblings : List Digest} (h : LooksUp table sibIndices siblings)
    (hle : table <+: table') : LooksUp table' sibIndices siblings :=
  h.imp fun _ _ => getElem?_of_isPrefix hle

/-- A sibling is found in the table, or stands at its new end. -/
theorem exists_tableIndex (table : List Digest) (sib : Digest) :
    ∃ idx table', tableIndex table sib = .ok (idx, table') ∧ Grows table table' [idx] ∧
      table'[idx]? = some sib := by
  unfold tableIndex
  split
  case h_1 idx hfound =>
    obtain ⟨hlt, hsib, -⟩ := List.findIdx?_eq_some_iff_getElem.mp hfound
    refine ⟨idx, table, rfl, ?_, ?_⟩
    · exact { Grows.refl table with
        new_used := fun _ hlt hge => absurd hge (not_le.mpr hlt) }
    · rw [List.getElem?_eq_getElem hlt, of_decide_eq_true hsib]
  case h_2 hnone =>
    have hnew : sib ∉ table := by
      intro hmem
      have := List.findIdx?_eq_none_iff.mp hnone sib hmem
      simp at this
    have hidx : (sub (table ++ [sib]).length 1 : HcaResult ℕ) = .ok table.length := by
      simp
    refine ⟨table.length, table ++ [sib], ?_, ?_, ?_⟩
    · exact bind_eq_ok.mpr ⟨table.length, hidx, rfl⟩
    · refine ⟨List.prefix_append _ _, ?_, ?_⟩
      · intro hnodup
        rw [← List.concat_eq_append]
        exact hnodup.concat hnew
      · intro j hlt hge
        rw [List.length_append, List.length_singleton] at hlt
        rw [List.mem_singleton]
        omega
    · exact List.getElem?_concat_length

/-- The siblings of one proof are all written to the table. -/
theorem exists_tableIndices (table siblings : List Digest) :
    ∃ sibIndices table', tableIndices table siblings = .ok (sibIndices, table') ∧
      Grows table table' sibIndices ∧ LooksUp table' sibIndices siblings := by
  induction siblings generalizing table with
  | nil => exact ⟨[], table, rfl, Grows.refl table, .nil⟩
  | cons sib siblings ih =>
    obtain ⟨idx, table₁, hidx, hgrows, hsib⟩ := exists_tableIndex table sib
    obtain ⟨sibIndices, table₂, hrest, hgrows', hlook⟩ := ih table₁
    refine ⟨idx :: sibIndices, table₂, ?_, hgrows.trans hgrows', ?_⟩
    · rw [tableIndices, hidx, ok_bind]
      dsimp only
      rw [hrest, ok_bind]
      rfl
    · exact .cons (getElem?_of_isPrefix hgrows'.isPrefix hsib) hlook

/-! ## The entries -/

/-- The entry refers to the siblings of the proof, in order. -/
def Refers (table : List Digest) (entry : Usize t × List ℕ) (p : MerkleProof t) : Prop :=
  p.leafIndex = entry.1 ∧ LooksUp table entry.2 p.siblings

/-- A proof names the index it was made for. -/
theorem proof_leafIndex {T : MerkleTree} {i : Usize t} {p : MerkleProof t}
    (h : T.proof i = .ok p) : p.leafIndex = i := by
  unfold MerkleTree.proof at h
  simp only [bind_eq_ok, pure_eq_ok] at h
  obtain ⟨-, -, -, -, siblings, -, rfl⟩ := h
  rfl

/-- The loop stops with the fault of the first proof that has one. -/
theorem compactLoop_eq_error {T : MerkleTree} {indices : List (Usize t)} {e : Fault HcaError}
    (h : T.proofs indices = .error e) (table : List Digest) :
    compactLoop T table indices = .error e := by
  induction indices generalizing table with
  | nil => cases h
  | cons leafIndex indices ih =>
    rw [MerkleTree.proofs, List.mapM_cons, bind_eq_error] at h
    rcases h with hfirst | ⟨p, hp, hrest⟩
    · rw [compactLoop, hfirst, error_bind]
    · obtain ⟨sibIndices, table', htable, -⟩ := exists_tableIndices table p.siblings
      have htail : T.proofs indices = .error e := by
        rcases bind_eq_error.mp hrest with htail | ⟨ps, -, hpure⟩
        · exact htail
        · cases hpure
      rw [compactLoop, hp, ok_bind, htable, ok_bind]
      dsimp only
      rw [ih htail, error_bind]

/-- The loop writes an entry for each proof; the positions of all entries are valid in the
table it ends with. -/
theorem compactLoop_eq_ok {T : MerkleTree} {indices : List (Usize t)}
    {ps : List (MerkleProof t)} (h : T.proofs indices = .ok ps) (table : List Digest) :
    ∃ perLeaf table', compactLoop T table indices = .ok (perLeaf, table') ∧
      Grows table table' (perLeaf.flatMap Prod.snd) ∧
        List.Forall₂ (Refers table') perLeaf ps := by
  induction indices generalizing table ps with
  | nil =>
    cases h
    exact ⟨[], table, rfl, Grows.refl table, .nil⟩
  | cons leafIndex indices ih =>
    simp only [MerkleTree.proofs, List.mapM_cons, bind_eq_ok, pure_eq_ok] at h
    obtain ⟨p, hp, ps, hps, rfl⟩ := h
    obtain ⟨sibIndices, table₁, htable, hgrows, hlook⟩ :=
      exists_tableIndices table p.siblings
    obtain ⟨perLeaf, table₂, hloop, hgrows', hrefers⟩ := ih hps table₁
    refine ⟨(leafIndex, sibIndices) :: perLeaf, table₂, ?_, ?_, .cons ⟨?_, ?_⟩ hrefers⟩
    · rw [compactLoop, hp, ok_bind, htable, ok_bind]
      dsimp only
      rw [hloop, ok_bind]
      rfl
    · rw [List.flatMap_cons]
      exact hgrows.trans hgrows'
    · exact proof_leafIndex hp
    · exact hlook.mono hgrows'.isPrefix

/-- What `compact_proofs` returns for indices that all have proofs. -/
theorem compactProofs_eq_ok {T : MerkleTree} {indices : List (Usize t)}
    {ps : List (MerkleProof t)} (h : T.proofs indices = .ok ps) :
    ∃ C, T.compactProofs indices = .ok C ∧ List.Forall₂ (Refers C.siblings) C.proofs ps ∧
      C.siblings.Nodup ∧ ∀ j < C.siblings.length, ∃ entry ∈ C.proofs, j ∈ entry.2 := by
  obtain ⟨perLeaf, table, hloop, hgrows, hrefers⟩ := compactLoop_eq_ok h []
  refine ⟨⟨table, perLeaf⟩, ?_, hrefers, hgrows.nodup List.nodup_nil, ?_⟩
  · rw [MerkleTree.compactProofs, hloop]
    rfl
  · intro j hj
    exact List.mem_flatMap.mp (hgrows.new_used j hj (Nat.zero_le j))

/-! ## Nothing is lost -/

/-- The proofs and the leaves of the indices, position by position. -/
theorem forall₂_getElem? {α β : Type} {R : α → β → Prop} {xs : List α} {ys : List β}
    (h : List.Forall₂ R xs ys) {k : ℕ} {x : α} (hx : xs[k]? = some x) :
    ∃ y, ys[k]? = some y ∧ R x y := by
  obtain ⟨hk, rfl⟩ := List.getElem?_eq_some_iff.mp hx
  have hk' : k < ys.length := h.length_eq ▸ hk
  exact ⟨ys[k], List.getElem?_eq_getElem hk', h.get hk hk'⟩

/-- The entry at position `k` expands to the proof of the index at position `k`. -/
theorem expand_of_refers {C : CompactProofSet t} {ps : List (MerkleProof t)}
    (h : List.Forall₂ (Refers C.siblings) C.proofs ps) {k : ℕ} {p : MerkleProof t}
    (hp : ps[k]? = some p) : C.expand k = .ok p := by
  obtain ⟨entry, hentry, hindex, hlook⟩ := forall₂_getElem? h.flip hp
  exact expand_eq_ok.mpr ⟨entry, hentry, hindex, hlook⟩

/-- Indices that have proofs are those of leaves. -/
theorem exists_leaves {T : MerkleTree} {indices : List (Usize t)} {ps : List (MerkleProof t)}
    (h : List.Forall₂ (fun i p => T.proof i = .ok p) indices ps) :
    ∃ ls, List.Forall₂ (fun (i : Usize t) l => T.leaves[i.toNat]? = some l) indices ls := by
  induction h with
  | nil => exact ⟨[], .nil⟩
  | cons hp _ ih =>
    obtain ⟨ls, hls⟩ := ih
    unfold MerkleTree.proof at hp
    obtain ⟨_, hinside, _⟩ := bind_eq_ok.mp hp
    exact ⟨_ :: ls, .cons (List.getElem?_eq_getElem (not_le.mp (rejectIf_eq_ok.mp hinside))) hls⟩

/-- The compact set of a built tree is accepted for the leaves of its indices. -/
theorem Built.verifyAll_eq_ok_true {keccak256 : List U8 → Digest} {T : MerkleTree}
    (hT : Built keccak256 T) {indices : List (Usize t)} {ps : List (MerkleProof t)}
    {ls : List Leaf} {C : CompactProofSet t}
    (hps : List.Forall₂ (fun i p => T.proof i = .ok p) indices ps)
    (hls : List.Forall₂ (fun (i : Usize t) l => T.leaves[i.toNat]? = some l) indices ls)
    (hC : List.Forall₂ (Refers C.siblings) C.proofs ps) :
    C.verifyAll keccak256 (ls.map (Leaf.hash keccak256))
      (HashTree.root (branchHash keccak256) T.depth (paddedHash keccak256 T.leaves)) =
        .ok true := by
  have hlen : (ls.map (Leaf.hash keccak256)).length = C.proofs.length := by
    rw [List.length_map, ← hls.length_eq, hps.length_eq, hC.length_eq]
  rw [Analysis.verifyAll_eq_ok_true hlen]
  intro k leafHash hk
  rw [List.getElem?_map, Option.map_eq_some_iff] at hk
  obtain ⟨l, hl, rfl⟩ := hk
  obtain ⟨i, hi, hleaf⟩ := forall₂_getElem? hls.flip hl
  obtain ⟨p, hpk, hp⟩ := forall₂_getElem? hps hi
  refine ⟨p, expand_of_refers hC hpk, ?_⟩
  have hopening := hT.proof_eq_ok (List.getElem?_eq_some_iff.mp hleaf).1
  obtain rfl := Except.ok.inj (hp.symm.trans hopening)
  exact hT.verify_path hleaf

/-- For a tree that `new` built and any indices: `compact_proofs` succeeds and fails with
`proofs`. Its set has an entry for each index, which expands to the proof of the index; the
table has no duplicate and nothing that is not used, and the set is accepted for the leaves
of the indices.
SOURCE: merkle.rs:114-145, merkle.rs:235-329 -/
theorem compactProofs_lose_nothing {keccak256 : List U8 → Digest} {leaves : List Leaf}
    {T : MerkleTree} (h : MerkleTree.new t keccak256 leaves = .ok T)
    (indices : List (Usize t)) :
    ((∃ C, T.compactProofs indices = .ok C) ↔ ∃ ps, T.proofs indices = .ok ps) ∧
    (∀ e, T.compactProofs indices = .error e ↔ T.proofs indices = .error e) ∧
    (∀ C, T.compactProofs indices = .ok C →
      C.proofs.length = indices.length ∧
      (∀ k i, indices[k]? = some i → ∃ p, T.proof i = .ok p ∧ C.expand k = .ok p) ∧
      C.siblings.Nodup ∧
      (∀ j < C.siblings.length, ∃ entry ∈ C.proofs, j ∈ entry.2) ∧
      ∃ ls authRoot,
        List.Forall₂ (fun (i : Usize t) l => leaves[i.toNat]? = some l) indices ls ∧
          T.authRoot = .ok authRoot ∧
            C.verifyAll keccak256 (ls.map (Leaf.hash keccak256)) authRoot = .ok true) := by
  obtain ⟨rfl, hT⟩ := new_built h
  rcases hproofs : T.proofs indices with e | ps
  · have hcompact : T.compactProofs indices = .error e := by
      rw [MerkleTree.compactProofs, compactLoop_eq_error hproofs, error_bind]
    simp [hcompact]
  · obtain ⟨C, hC, hrefers, hnodup, hused⟩ := compactProofs_eq_ok hproofs
    have hps := mapM_eq_ok.mp hproofs
    refine ⟨⟨fun _ => ⟨ps, rfl⟩, fun _ => ⟨C, hC⟩⟩, ?_, ?_⟩
    · simp [hC]
    · intro C' hC'
      obtain rfl : C = C' := Except.ok.inj (hC.symm.trans hC')
      refine ⟨?_, ?_, hnodup, hused, ?_⟩
      · rw [hrefers.length_eq, hps.length_eq]
      · intro k i hi
        obtain ⟨p, hpk, hp⟩ := forall₂_getElem? hps hi
        exact ⟨p, hp, expand_of_refers hrefers hpk⟩
      · obtain ⟨ls, hls⟩ := exists_leaves hps
        exact ⟨ls, _, hls, hT.authRoot_eq, hT.verifyAll_eq_ok_true hps hls hrefers⟩

/-- The first leaf twice, and the third one between. -/
def sampleIndices : List (Usize .usize64) := [0, 2, 0]

/-- Compressing two proofs of the sample tree loses nothing. -/
theorem compactProofs_lose_nothing_sample :
    ((∃ C, sampleTree.compactProofs sampleIndices = .ok C) ↔
      ∃ ps, sampleTree.proofs sampleIndices = .ok ps) ∧
    (∀ e, sampleTree.compactProofs sampleIndices = .error e ↔
      sampleTree.proofs sampleIndices = .error e) ∧
    (∀ C, sampleTree.compactProofs sampleIndices = .ok C →
      C.proofs.length = sampleIndices.length ∧
      (∀ k i, sampleIndices[k]? = some i →
        ∃ p, sampleTree.proof i = .ok p ∧ C.expand k = .ok p) ∧
      C.siblings.Nodup ∧
      (∀ j < C.siblings.length, ∃ entry ∈ C.proofs, j ∈ entry.2) ∧
      ∃ ls authRoot,
        List.Forall₂ (fun (i : Usize .usize64) l => sampleLeaves[i.toNat]? = some l)
          sampleIndices ls ∧
          sampleTree.authRoot = .ok authRoot ∧
            C.verifyAll sampleHash (ls.map (Leaf.hash sampleHash)) authRoot = .ok true) :=
  compactProofs_lose_nothing new_sampleLeaves sampleIndices

end Hca.Analysis
