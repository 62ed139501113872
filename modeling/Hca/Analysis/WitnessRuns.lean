import Hca.Analysis.SpendGas
import Hca.Analysis.WireLimits
import Hca.Analysis.WitnessEncoders
import Hca.Library.CallRuns

set_option autoImplicit false

/-!
# Witnesses from their leaf to the wire

A witness is built from a leaf and its proof, and signatures are attached to it, of which some
may be refused. Whatever the run of attempts is, only the signature of the witness changes, and
the last one that was not empty is what is sent. There is room for signatures of any size that
is left by the longest script and the deepest proof.
-/

namespace Hca.Analysis

open Hca.Library Hca.Model Hca.Program Hca.Interface

variable {t : Target} {keccak256 : List U8 → Digest}

/-! ## Attaching signatures -/

/-- An attempt to attach a signature; one that is refused leaves the witness as it is. -/
def attempt (w : HCAWitness t) (signature : List U8) : HCAWitness t :=
  match w.attachSignature signature with
  | .ok w' => w'
  | .error _ => w

/-- The signature that an attempt attaches, if there is one. -/
def attached (signature : List U8) : Option (List U8) :=
  if signature = [] then none else some signature

/-- An attempt changes the signature, if it has one, and nothing else. -/
theorem attempt_eq (w : HCAWitness t) (signature : List U8) :
    attempt w signature =
      { w with witnessData := (attached signature).getD w.witnessData } := by
  unfold attempt attached HCAWitness.attachSignature
  by_cases h : signature = []
  · rw [rejectIf_pos h, if_pos h]
    rfl
  · rw [rejectIf_neg h, if_neg h]
    rfl

/-- A run of attempts attaches the last signature that was not refused. -/
theorem foldl_attempt (w : HCAWitness t) (signatures : List (List U8)) :
    signatures.foldl attempt w =
      { w with witnessData := (lastWrite attached signatures).getD w.witnessData } := by
  have hdata := foldl_lastWrite attempt HCAWitness.witnessData attached
    (fun w signature => by rw [attempt_eq]) signatures w
  have hversion := foldl_unchanged attempt HCAWitness.leafVersion
    (fun w signature => by rw [attempt_eq]) signatures w
  have hscript := foldl_unchanged attempt HCAWitness.leafScript
    (fun w signature => by rw [attempt_eq]) signatures w
  have hproof := foldl_unchanged attempt HCAWitness.merkleProof
    (fun w signature => by rw [attempt_eq]) signatures w
  rw [← hdata]
  generalize signatures.foldl attempt w = w' at *
  cases w'
  simp only at hversion hscript hproof
  rw [hversion, hscript, hproof]

/-- The witness of a leaf after a run of attempts to sign it. -/
def signedBy (l : Leaf) (p : MerkleProof t) (signatures : List (List U8)) : HCAWitness t :=
  signatures.foldl attempt (HCAWitness.build l p)

/-- A signature is attached iff it is not empty. -/
theorem attached_eq_some {given signature : List U8} :
    attached given = some signature ↔ given = signature ∧ signature ≠ [] := by
  unfold attached
  constructor
  · intro h
    split at h
    · cases h
    · obtain rfl := Option.some.inj h
      exact ⟨rfl, by assumption⟩
  · rintro ⟨rfl, hne⟩
    exact if_neg hne

/-- Only the empty one is refused. -/
theorem attached_eq_none {given : List U8} : attached given = none ↔ given = [] := by
  unfold attached
  split <;> simp [*]

/-- A run either signs the witness with the last signature that is not empty, or there is none
and the witness stays as it was built. -/
theorem signedBy_cases (l : Leaf) (p : MerkleProof t) (signatures : List (List U8)) :
    (signedBy l p signatures = HCAWitness.build l p ∧
      ∀ signature ∈ signatures, signature = []) ∨
    ∃ before signature after, signatures = before ++ signature :: after ∧ signature ≠ [] ∧
      (∀ other ∈ after, other = []) ∧
      signedBy l p signatures = ⟨l.version, l.script, p, signature⟩ := by
  rw [signedBy, foldl_attempt]
  cases h : lastWrite attached signatures with
  | none =>
    left
    refine ⟨rfl, ?_⟩
    intro signature hmem
    exact attached_eq_none.mp (lastWrite_eq_none.mp h signature hmem)
  | some signature =>
    right
    obtain ⟨before, given, after, hsplit, hgiven, hafter⟩ := exists_of_lastWrite h
    obtain ⟨rfl, hne⟩ := attached_eq_some.mp hgiven
    exact ⟨before, given, after, hsplit, hne,
      fun other hother => attached_eq_none.mp (hafter other hother), rfl⟩

/-- The run of a wallet. For an admissible leaf of a built tree with the proof that the tree makes,
and any attempts to sign it: `encode_hca_tx` encodes the witness iff one of the attempts has a
signature that is not empty; what is encoded is then a spend with the last such signature. The
estimate of its gas is what it was before signing.
SOURCE: witness.rs:96-140, merkle.rs:165-293, rlp.rs:146-191, rlp.rs:362-503 -/
theorem signing_runs {leaves : List Leaf} {T : MerkleTree} {i : Usize t} {l : Leaf}
    {p : MerkleProof t} {authRoot : Digest} (hnew : MerkleTree.new t keccak256 leaves = .ok T)
    (hget : leaves[i.toNat]? = some l)
    (hleaf : Leaf.new l.version l.script l.description = .ok l) (hp : T.proof i = .ok p)
    (hroot : T.authRoot = .ok authRoot) (tx : TxMessage) (signatures : List (List U8)) :
    (signedBy l p signatures).estimateGas = (HCAWitness.build l p).estimateGas ∧
    ((∃ raw, encodeHcaTx t tx (signedBy l p signatures) = .ok raw) ↔
      ∃ signature ∈ signatures, signature ≠ []) ∧
    (∀ raw, encodeHcaTx t tx (signedBy l p signatures) = .ok raw →
      ∃ before signature after, signatures = before ++ signature :: after ∧ signature ≠ [] ∧
        (∀ other ∈ after, other = []) ∧
        (raw.length ≤ t.isizeMax →
          Spends keccak256 authRoot raw tx ⟨l.version, l.script, p, signature⟩)) := by
  obtain ⟨rfl, hT⟩ := new_built hnew
  rcases signedBy_cases l p signatures with ⟨hunsigned, hempty⟩ |
    ⟨before, signature, after, hsplit, hne, hafter, hsigned⟩
  · have hfail : ∀ raw, encodeHcaTx t tx (HCAWitness.build l p) ≠ .ok raw := by
      intro raw hraw
      exact absurd (encodeHcaTx_eq_ok.mp hraw).1 (by simp [HCAWitness.isSigned, HCAWitness.build])
    rw [hunsigned]
    refine ⟨rfl, ?_, fun raw hraw => absurd hraw (hfail raw)⟩
    constructor
    · rintro ⟨raw, hraw⟩
      exact absurd hraw (hfail raw)
    · rintro ⟨signature, hmem, hne⟩
      exact absurd (hempty signature hmem) hne
  · rw [hsigned]
    refine ⟨rfl, ?_, ?_⟩
    · refine iff_of_true ⟨_, encodeHcaTx_eq_ok.mpr ⟨?_, rfl⟩⟩ ⟨signature, ?_, hne⟩
      · simpa [HCAWitness.isSigned] using hne
      · rw [hsplit]
        exact List.mem_append_right _ List.mem_cons_self
    · intro raw hraw
      exact ⟨before, signature, after, hsplit, hne, hafter,
        hT.spends_of_proof hget hp hroot hleaf hraw⟩

/-- The last leaf of the sample tree, signed twice, with a refused attempt at the end. -/
theorem signing_runs_sample :
    ∃ raw, encodeHcaTx .usize64 sampleTx
      (signedBy lastLeaf (lastLeafProof 2) [[0x01], [0x02], []]) = .ok raw :=
  (signing_runs new_sampleLeaves rfl (by decide) proof_lastLeaf authRoot_sampleTree sampleTx
    _).2.1.mpr
    ⟨[0x01], by simp, by simp⟩

/-! ## Room for the signature -/

/-- An integer from `256 ^ k` on takes more than `k` bytes. -/
theorem le_byteSize {n k : ℕ} (h : 256 ^ k ≤ n) : k + 1 ≤ byteSize n :=
  Nat.succ_le_succ (Nat.le_log_of_pow_le (by decide) h)

/-- The header of a length from 256 on has at least three bytes. -/
theorem le_headerSize {len : ℕ} (h : 256 ≤ len) : 3 ≤ headerSize len := by
  have hbytes := le_byteSize (k := 1) (by simpa using h)
  rw [headerSize, if_neg (by omega)]
  omega

/-- A string of two bytes or more always has a header. -/
theorem bytesSize_eq {data : List U8} (h : 2 ≤ data.length) :
    bytesSize data = headerSize data.length + data.length := by
  match data with
  | [] => simp at h
  | [b] => simp at h
  | b :: c :: data => rfl

/-- An integer from `2 ^ 24` on takes at least five bytes. -/
theorem le_uintSize {n : ℕ} (h : 256 ^ 3 ≤ n) : 5 ≤ uintSize n := by
  have hbytes := le_byteSize h
  rw [uintSize, if_neg (by omega)]
  omega

/-- The longest signature that the limits leave room for. -/
def maxSignatureSize : ℕ := 39886

/-- Within the limits of the parts, a witness with such a signature is not too large. -/
theorem witnessSize_le {w : HCAWitness t} (hversion : w.leafVersion = 0x01)
    (hscript : w.leafScript.length ≤ maxLeafScriptSize)
    (hindex : w.merkleProof.leafIndex.toNat < 2 ^ maxTreeDepth)
    (hsiblings : w.merkleProof.siblings.length ≤ maxTreeDepth)
    (hdata : w.witnessData.length ≤ maxSignatureSize) : witnessSize w ≤ maxWitnessSize := by
  unfold maxTreeDepth at hindex hsiblings
  unfold maxLeafScriptSize at hscript
  unfold maxSignatureSize at hdata
  have hversion' : uintSize w.leafVersion.toNat = 1 := by
    rw [hversion]
    rfl
  have hscript' : bytesSize w.leafScript ≤ w.leafScript.length + (2 + 1) :=
    bytesSize_le (by omega)
  have hindex' : uintSize w.merkleProof.leafIndex.toNat ≤ 4 + 1 := uintSize_le (by omega)
  have hsiblings' : headerSize (33 * w.merkleProof.siblings.length) ≤ 2 + 1 :=
    headerSize_le (by omega)
  have hdata' : bytesSize w.witnessData ≤ w.witnessData.length + (2 + 1) :=
    bytesSize_le (by omega)
  have hpayload : witnessPayloadSize w ≤ 65533 := by
    unfold witnessPayloadSize listSize
    omega
  have houter : headerSize (witnessPayloadSize w) ≤ 2 + 1 := headerSize_le (by omega)
  unfold witnessSize listSize maxWitnessSize
  omega

/-- With everything else at its limit, a longer signature makes the witness too large. -/
theorem lt_witnessSize {w : HCAWitness t} (hversion : w.leafVersion = 0x01)
    (hscript : w.leafScript.length = maxLeafScriptSize)
    (hindex : 2 ^ 24 ≤ w.merkleProof.leafIndex.toNat)
    (hsiblings : w.merkleProof.siblings.length = maxTreeDepth)
    (hdata : maxSignatureSize < w.witnessData.length) : maxWitnessSize < witnessSize w := by
  unfold maxTreeDepth at hsiblings
  unfold maxLeafScriptSize at hscript
  unfold maxSignatureSize at hdata
  have hversion' : uintSize w.leafVersion.toNat = 1 := by
    rw [hversion]
    rfl
  have hscript' := bytesSize_eq (show 2 ≤ w.leafScript.length by omega)
  have hscriptHeader := le_headerSize (show 256 ≤ w.leafScript.length by omega)
  have hindex' := le_uintSize (show 256 ^ 3 ≤ w.merkleProof.leafIndex.toNat by omega)
  have hsiblings' := le_headerSize (show 256 ≤ 33 * w.merkleProof.siblings.length by omega)
  have hdata' := bytesSize_eq (show 2 ≤ w.witnessData.length by omega)
  have hdataHeader := le_headerSize (show 256 ≤ w.witnessData.length by omega)
  have hpayload : 65534 ≤ witnessPayloadSize w := by
    unfold witnessPayloadSize listSize
    omega
  have houter := le_headerSize (show 256 ≤ witnessPayloadSize w by omega)
  unfold witnessSize listSize maxWitnessSize
  omega

/-- The limits go together. A witness of an admissible leaf of any built tree, with the proof that
the tree makes, can be encoded with every signature of up to 39886 bytes. For the longest script,
at the full depth and with an index of four bytes, no longer signature can.
SOURCE: constants.rs:10-26, witness.rs:151-182, merkle.rs:50-64, merkle.rs:165-262 -/
theorem signature_fits {leaves : List Leaf} {T : MerkleTree} {i : Usize t} {l : Leaf}
    {p : MerkleProof t} (hnew : MerkleTree.new t keccak256 leaves = .ok T)
    (hget : leaves[i.toNat]? = some l)
    (hleaf : Leaf.new l.version l.script l.description = .ok l) (hp : T.proof i = .ok p)
    {signature : List U8} (hne : signature ≠ []) :
    (signature.length ≤ maxSignatureSize →
      ∃ enc, HCAWitness.encode t ⟨l.version, l.script, p, signature⟩ = .ok enc) ∧
    (l.script.length = maxLeafScriptSize → T.depth = maxTreeDepth → 2 ^ 24 ≤ i.toNat →
      maxSignatureSize < signature.length →
        ¬ ∃ enc, HCAWitness.encode t ⟨l.version, l.script, p, signature⟩ = .ok enc) := by
  obtain ⟨rfl, hT⟩ := new_built hnew
  have hadm := leafNew_isOk_iff.mp ⟨l, hleaf⟩
  have hi := (List.getElem?_eq_some_iff.mp hget).1
  have hindex : i.toNat < 2 ^ maxTreeDepth :=
    hi.trans_le (hT.length_le.trans (Nat.pow_le_pow_right (by decide) hT.depth_le))
  have hsigned : (⟨l.version, l.script, p, signature⟩ : HCAWitness t).isSigned = true := by
    simpa [HCAWitness.isSigned] using hne
  rw [hT.proof_eq_ok hi, Except.ok.injEq] at hp
  subst hp
  have hsiblings := HashTree.length_path (branchHash keccak256) T.depth
    (paddedHash keccak256 T.leaves) i.toNat
  rw [encode_isOk_iff]
  constructor
  · intro hlen
    exact ⟨hsigned,
      witnessSize_le hadm.version_eq hadm.size_le hindex (hsiblings.trans_le hT.depth_le) hlen⟩
  · intro hfull hdeep hfar hlen
    rintro ⟨-, hsize⟩
    refine absurd hsize (not_le_of_gt ?_)
    exact lt_witnessSize hadm.version_eq hfull hfar (hsiblings.trans hdeep) hlen

/-- The longest signature that always fits is encoded for the last leaf. -/
theorem signature_fits_sample : ∃ enc, HCAWitness.encode .usize64
    ⟨0x01, [0x02], lastLeafProof 2, List.replicate 39886 0x01⟩ = .ok enc :=
  (signature_fits new_sampleLeaves (show _ = some lastLeaf from rfl) (by decide) proof_lastLeaf
    (by rw [List.replicate_succ]; exact List.cons_ne_nil _ _)).1
    (by rw [List.length_replicate]; exact le_rfl)

end Hca.Analysis
