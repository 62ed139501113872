import Hca.Analysis.MerkleProofs
import Hca.Interface.CompactSets

set_option autoImplicit false

/-!
# Verification of compact sets

`verify_all` checks one entry after the other, and the first entry that is not accepted
decides. For a set whose entries all expand it checks the proofs that `verify_batch` would.
-/

namespace Hca.Analysis

open Hca.Library Hca.Model Hca.Program Hca.Interface

variable {t : Target}

/-! ## One entry -/

/-- An entry expands iff its positions are inside the table, to the siblings found there. -/
theorem expand_eq_ok {C : CompactProofSet t} {k : ℕ} {p : MerkleProof t} :
    C.expand k = .ok p ↔ ∃ entry, C.proofs[k]? = some entry ∧ p.leafIndex = entry.1 ∧
      List.Forall₂ (fun i s => C.siblings[i]? = some s) entry.2 p.siblings := by
  unfold CompactProofSet.expand
  simp only [bind_eq_ok, index_eq_ok, mapM_eq_ok, okOr_eq_ok, pure_eq_ok]
  constructor
  · rintro ⟨entry, hentry, siblings, hsiblings, rfl⟩
    exact ⟨entry, hentry, rfl, hsiblings⟩
  · rintro ⟨entry, hentry, hindex, hsiblings⟩
    exact ⟨entry, hentry, p.siblings, hsiblings, by rw [← hindex]⟩

/-- An entry that expands has its positions inside the table. -/
theorem lt_of_expand_eq_ok {C : CompactProofSet t} {k : ℕ} {p : MerkleProof t}
    {entry : Usize t × List ℕ} (hentry : C.proofs[k]? = some entry) (h : C.expand k = .ok p) :
    (∀ i ∈ entry.2, i < C.siblings.length) ∧ entry.2.length = p.siblings.length := by
  obtain ⟨entry', hentry', -, hsiblings⟩ := expand_eq_ok.mp h
  obtain rfl : entry = entry' := Option.some.inj (hentry.symm.trans hentry')
  refine ⟨?_, hsiblings.length_eq⟩
  have hboth : List.Forall₂ (fun i s => i < C.siblings.length ∧ C.siblings[i]? = some s)
      entry.2 p.siblings := by
    apply hsiblings.imp
    intro i s hs
    exact ⟨(List.getElem?_eq_some_iff.mp hs).1, hs⟩
  exact ((List.forall₂_and_left _ _).mp hboth).1

/-- An entry expands iff its positions are inside the table. -/
theorem expand_isOk_iff {C : CompactProofSet t} {k : ℕ} {entry : Usize t × List ℕ}
    (hentry : C.proofs[k]? = some entry) :
    (∃ p, C.expand k = .ok p) ↔ ∀ i ∈ entry.2, i < C.siblings.length := by
  constructor
  · rintro ⟨p, hp⟩
    exact (lt_of_expand_eq_ok hentry hp).1
  · intro hinside
    have hfound : ∀ i ∈ entry.2, C.siblings[i]? = some (C.siblings[i]?.getD default) := by
      intro i hi
      rw [List.getElem?_eq_getElem (hinside i hi), Option.getD_some]
    refine ⟨⟨entry.1, entry.2.map fun i => C.siblings[i]?.getD default⟩, ?_⟩
    refine expand_eq_ok.mpr ⟨entry, hentry, rfl, ?_⟩
    rw [List.forall₂_map_right_iff, List.forall₂_same]
    exact hfound

/-- An entry with a position outside the table is refused. -/
theorem expand_eq_error_of_outside {C : CompactProofSet t} {k : ℕ} {entry : Usize t × List ℕ}
    (hentry : C.proofs[k]? = some entry)
    (houtside : ¬ ∀ i ∈ entry.2, i < C.siblings.length) :
    C.expand k = .error (.err .proofVerificationFailed) := by
  cases hexpand : C.expand k with
  | ok p => exact absurd ((expand_isOk_iff hentry).mp ⟨p, hexpand⟩) houtside
  | error e =>
    have hindex : (index C.proofs k : HcaResult (Usize t × List ℕ)) = .ok entry :=
      index_eq_ok.mpr hentry
    unfold CompactProofSet.expand at hexpand
    rw [hindex, ok_bind, bind_eq_error] at hexpand
    rcases hexpand with hsiblings | ⟨siblings, -, hpure⟩
    · obtain ⟨_, i, _, -, -, hi⟩ := mapM_eq_error.mp hsiblings
      rw [(okOr_eq_error.mp hi).2]
    · cases hpure

/-- What one round of `verify_all` does with the entry at position `item.2`. -/
def checkEntry (keccak256 : List U8 → Digest) (C : CompactProofSet t) (authRoot : Digest)
    (item : Digest × ℕ) : HcaResult Bool := do
  let p ← C.expand item.2
  MerkleTree.verify keccak256 item.1 p authRoot

section

variable {keccak256 : List U8 → Digest} {C : CompactProofSet t} {authRoot leafHash : Digest}
  {k : ℕ}

/-- Checking an entry gives the verdict on its expanded proof. -/
theorem checkEntry_eq_ok {valid : Bool} :
    checkEntry keccak256 C authRoot (leafHash, k) = .ok valid ↔
      EntryVerifies keccak256 C authRoot k leafHash valid := bind_eq_ok

/-- It fails where the expansion does, or the verification. -/
theorem checkEntry_eq_error {e : Fault HcaError} :
    checkEntry keccak256 C authRoot (leafHash, k) = .error e ↔
      EntryFails keccak256 C authRoot k leafHash e := bind_eq_error

end

/-! ## All entries -/

/-- A sequence that stops on `false` and otherwise goes on. -/
theorem stop_on_false {x : HcaResult Bool} {rest : HcaResult Bool} :
    (do let valid ← x; if valid = false then pure false else rest) =
      (do match ← x with
        | true => rest
        | false => pure false) := by
  rcases x with e | _ | _ <;> rfl

/-- `verify_all` checks the entries in order. -/
theorem verifyLoop_eq_allM (keccak256 : List U8 → Digest) (C : CompactProofSet t)
    (authRoot : Digest) (i : ℕ) (leafHashes : List Digest) :
    C.verifyLoop keccak256 authRoot i leafHashes =
      (leafHashes.zipIdx i).allM (checkEntry keccak256 C authRoot) := by
  induction leafHashes generalizing i with
  | nil => rfl
  | cons leafHash leafHashes ih =>
    rw [CompactProofSet.verifyLoop, List.zipIdx_cons, List.allM, ← ih, checkEntry, bind_assoc]
    congr 1
    funext p
    exact stop_on_false

section

variable {keccak256 : List U8 → Digest} {C : CompactProofSet t} {authRoot : Digest}
  {leafHashes : List Digest}

/-- For lists of one length, the entries are checked in order up to the first that is not
accepted. -/
theorem verifyAll_eq_allM (hlen : leafHashes.length = C.proofs.length) :
    C.verifyAll keccak256 leafHashes authRoot =
      leafHashes.zipIdx.allM (checkEntry keccak256 C authRoot) := by
  rw [CompactProofSet.verifyAll, rejectIf_neg (not_not.mpr hlen), ok_bind, verifyLoop_eq_allM]

/-- A set is accepted iff every entry is. -/
theorem verifyAll_eq_ok_true (hlen : leafHashes.length = C.proofs.length) :
    C.verifyAll keccak256 leafHashes authRoot = .ok true ↔
      ∀ k leafHash, leafHashes[k]? = some leafHash →
        EntryVerifies keccak256 C authRoot k leafHash true := by
  rw [verifyAll_eq_allM hlen, allM_eq_ok_true]
  simp only [Prod.forall, List.mem_zipIdx_iff_getElem?, checkEntry_eq_ok]
  exact ⟨fun h k leafHash => h leafHash k, fun h leafHash k => h k leafHash⟩

/-- Any other result is that of the first entry that is not accepted. -/
theorem verifyAll_eq_iff_first (hlen : leafHashes.length = C.proofs.length)
    {r : HcaResult Bool} (hr : r ≠ .ok true) :
    C.verifyAll keccak256 leafHashes authRoot = r ↔
      ∃ (k : ℕ) (leafHash : Digest), leafHashes[k]? = some leafHash ∧
        checkEntry keccak256 C authRoot (leafHash, k) = r ∧
          EarlierVerify keccak256 C authRoot leafHashes k := by
  rw [verifyAll_eq_allM hlen, allM_eq_iff_first hr]
  simp only [Prod.exists, Prod.forall, List.getElem?_zipIdx, Option.map_eq_some_iff,
    Prod.mk.injEq, Nat.zero_add]
  constructor
  · rintro ⟨k, leafHash, _, ⟨_, hget, rfl, rfl⟩, hdecides, hearlier⟩
    refine ⟨k, _, hget, hdecides, ?_⟩
    intro j hj leafHash' hget'
    exact checkEntry_eq_ok.mp (hearlier j hj leafHash' j ⟨leafHash', hget', rfl, rfl⟩)
  · rintro ⟨k, leafHash, hget, hdecides, hearlier⟩
    refine ⟨k, leafHash, k, ⟨leafHash, hget, rfl, rfl⟩, hdecides, ?_⟩
    rintro j hj _ _ ⟨leafHash', hget', rfl, rfl⟩
    exact checkEntry_eq_ok.mpr (hearlier j hj _ hget')

/-- The entries of an accepted set are inside the table and within the depth. -/
theorem inRange_of_entries (hlen : leafHashes.length = C.proofs.length)
    (h : ∀ k leafHash, leafHashes[k]? = some leafHash →
      EntryVerifies keccak256 C authRoot k leafHash true) :
    TableInRange C ∧ WithinDepth C := by
  have hentry : ∀ entry ∈ C.proofs, (∀ i ∈ entry.2, i < C.siblings.length) ∧
      entry.2.length ≤ maxTreeDepth := by
    intro entry hmem
    obtain ⟨k, hk, hget⟩ := List.mem_iff_getElem.mp hmem
    obtain ⟨p, hp, hverify⟩ :=
      h k leafHashes[k] (List.getElem?_eq_getElem (by omega))
    obtain ⟨hinside, hcount⟩ :=
      lt_of_expand_eq_ok (List.getElem?_eq_some_iff.mpr ⟨hk, hget⟩) hp
    exact ⟨hinside, hcount ▸ (verify_eq_ok_true.mp hverify).1⟩
  exact ⟨fun entry hmem => (hentry entry hmem).1, fun entry hmem => (hentry entry hmem).2⟩

end

/-- A set whose entries all expand is checked as the list of the expanded proofs. -/
theorem verifyLoop_eq_verifyBatch (keccak256 : List U8 → Digest) {C : CompactProofSet t}
    (authRoot : Digest) {i : ℕ} {leafHashes : List Digest} {ps : List (MerkleProof t)}
    (hlen : leafHashes.length = ps.length)
    (hps : ∀ j p, ps[j]? = some p → C.expand (i + j) = .ok p) :
    C.verifyLoop keccak256 authRoot i leafHashes =
      MerkleTree.verifyBatch keccak256 authRoot (leafHashes.zip ps) := by
  induction leafHashes generalizing i ps with
  | nil => rfl
  | cons leafHash leafHashes ih =>
    cases ps with
    | nil => simp at hlen
    | cons p ps =>
      have hrest : ∀ j p', ps[j]? = some p' → C.expand (i + 1 + j) = .ok p' := by
        intro j p' hp'
        rw [Nat.add_right_comm]
        exact hps (j + 1) p' hp'
      rw [CompactProofSet.verifyLoop, List.zip_cons_cons, MerkleTree.verifyBatch,
        show C.expand i = .ok p from hps 0 p rfl, ok_bind, ih (Nat.succ.inj hlen) hrest]

/-! ## The verdict -/

/-- For any set, leaf hashes and root. An entry expands iff its positions are inside the table,
to the siblings found there, and is refused otherwise. Lists of different lengths are an error;
otherwise the set is accepted iff all positions are inside the table, no entry is too deep and
every expanded proof is accepted; it is refused or failed by the first entry that is not
accepted, and checked like the list of its proofs when all entries expand.
SOURCE: merkle.rs:114-145, merkle.rs:268-293, merkle.rs:336-346 -/
theorem verifyAll_agrees (keccak256 : List U8 → Digest) (C : CompactProofSet t)
    (leafHashes : List Digest) (authRoot : Digest) :
    (∀ k entry, C.proofs[k]? = some entry →
      (∀ p, C.expand k = .ok p ↔ p.leafIndex = entry.1 ∧
        List.Forall₂ (fun i s => C.siblings[i]? = some s) entry.2 p.siblings) ∧
      ((∃ p, C.expand k = .ok p) ↔ ∀ i ∈ entry.2, i < C.siblings.length) ∧
      ((¬ ∀ i ∈ entry.2, i < C.siblings.length) →
        C.expand k = .error (.err .proofVerificationFailed))) ∧
    (leafHashes.length ≠ C.proofs.length →
      C.verifyAll keccak256 leafHashes authRoot = .error (.err .proofVerificationFailed)) ∧
    (leafHashes.length = C.proofs.length →
      (C.verifyAll keccak256 leafHashes authRoot = .ok true ↔
        TableInRange C ∧ WithinDepth C ∧
          ∀ k leafHash p, leafHashes[k]? = some leafHash → C.expand k = .ok p →
            MerkleTree.verify keccak256 leafHash p authRoot = .ok true) ∧
      (C.verifyAll keccak256 leafHashes authRoot = .ok false ↔
        ∃ k leafHash, leafHashes[k]? = some leafHash ∧
          EntryVerifies keccak256 C authRoot k leafHash false ∧
            EarlierVerify keccak256 C authRoot leafHashes k) ∧
      (∀ e, C.verifyAll keccak256 leafHashes authRoot = .error e ↔
        ∃ k leafHash, leafHashes[k]? = some leafHash ∧
          EntryFails keccak256 C authRoot k leafHash e ∧
            EarlierVerify keccak256 C authRoot leafHashes k) ∧
      ∀ ps : List (MerkleProof t), ps.length = C.proofs.length →
        (∀ k p, ps[k]? = some p → C.expand k = .ok p) →
          C.verifyAll keccak256 leafHashes authRoot =
            MerkleTree.verifyBatch keccak256 authRoot (leafHashes.zip ps)) := by
  refine ⟨?_, ?_, ?_⟩
  · intro k entry hentry
    refine ⟨?_, expand_isOk_iff hentry, expand_eq_error_of_outside hentry⟩
    intro p
    rw [expand_eq_ok, hentry]
    simp only [Option.some.injEq, exists_eq_left']
  · intro hlen
    rw [CompactProofSet.verifyAll, rejectIf_pos hlen, error_bind]
  · intro hlen
    refine ⟨?_, ?_, ?_, ?_⟩
    · rw [verifyAll_eq_ok_true hlen]
      constructor
      · intro h
        obtain ⟨hrange, hdepth⟩ := inRange_of_entries hlen h
        refine ⟨hrange, hdepth, ?_⟩
        intro k leafHash p hget hp
        obtain ⟨p', hp', hverify⟩ := h k leafHash hget
        rw [hp, Except.ok.injEq] at hp'
        rwa [hp']
      · rintro ⟨hrange, -, hverify⟩ k leafHash hget
        have hk : k < C.proofs.length := hlen ▸ (List.getElem?_eq_some_iff.mp hget).1
        obtain ⟨p, hp⟩ := (expand_isOk_iff (List.getElem?_eq_getElem hk)).mpr
          (hrange _ (List.getElem_mem hk))
        exact ⟨p, hp, hverify k leafHash p hget hp⟩
    · rw [verifyAll_eq_iff_first hlen (by simp)]
      simp only [checkEntry_eq_ok]
    · intro e
      rw [verifyAll_eq_iff_first hlen (by simp)]
      simp only [checkEntry_eq_error]
    · intro ps hps hexpand
      rw [CompactProofSet.verifyAll, rejectIf_neg (not_not.mpr hlen), ok_bind]
      apply verifyLoop_eq_verifyBatch keccak256 authRoot (hlen.trans hps.symm)
      intro j p hp
      rw [Nat.zero_add]
      exact hexpand j p hp

end Hca.Analysis
