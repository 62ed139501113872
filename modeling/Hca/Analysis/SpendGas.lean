import Hca.Analysis.Spends
import Hca.Interface.GasSchedule

set_option autoImplicit false

/-!
# The gas of a spend

The estimate of a witness is the gas of its proof, a base and one charge for each level, and
that of its script. The number of levels follows from the number of leaves of the account, and
the script of a leaf was scanned when the leaf was made: what a spend costs is known from the
policy.
-/

namespace Hca.Analysis

open Hca.Library Hca.Model Hca.Program Hca.Interface

variable {t : Target} {keccak256 : List U8 → Digest}

/-! ## Estimates -/

/-- What the estimate counts for a script: its static gas up to the cap, or the cap if an
instruction is banned. -/
def countedGas (script : List U8) : ℕ :=
  if (instructions script).any fun op => IsBanned op then maxLeafGas
  else min (staticGas (instructions script)) maxLeafGas

/-- The gas that is counted for a script is within the cap, for an invalid script too. -/
theorem countedGas_le (script : List U8) : countedGas script ≤ maxLeafGas := by
  unfold countedGas
  split
  · exact le_rfl
  · exact min_le_right _ _

/-- For a valid script it is the static gas of its instructions. -/
theorem countedGas_of_valid {script : List U8}
    (hallowed : ∀ op ∈ instructions script, ¬ IsBanned op)
    (hgas : staticGas (instructions script) ≤ maxLeafGas) :
    countedGas script = staticGas (instructions script) := by
  rw [countedGas, if_neg (by simpa using hallowed), min_eq_left hgas]

/-- A scan returns the counted gas, or an error where the cap is counted. -/
theorem validateLeafScript_cases (script : List U8) :
    validateLeafScript script = .ok (countedGas script) ∨
      (∃ e, validateLeafScript script = .error (.err e)) ∧ countedGas script = maxLeafGas := by
  rcases returns_chargeAll (GasCounter.new maxLeafGas) (instructions script) with ⟨gas, hgas⟩ | herr
  · left
    rw [← validateLeafScript_eq] at hgas
    obtain ⟨hallowed, hle, rfl⟩ := validateLeafScript_eq_ok.mp hgas
    rwa [countedGas_of_valid hallowed hle]
  · right
    rw [← validateLeafScript_eq] at herr
    refine ⟨herr, ?_⟩
    by_cases hallowed : ∀ op ∈ instructions script, ¬ IsBanned op
    · have hgt : ¬ staticGas (instructions script) ≤ maxLeafGas := by
        intro hle
        obtain ⟨e, he⟩ := herr
        rw [validateLeafScript_eq_ok.mpr ⟨hallowed, hle, rfl⟩] at he
        cases he
      rw [countedGas, if_neg (by simpa using hallowed), min_eq_right (not_le.mp hgt).le]
    · rw [countedGas, if_pos (by simpa using hallowed)]

/-- The estimate of a witness with no more siblings than levels does not overflow. -/
theorem estimateGas_eq_ok {w : HCAWitness t} (h : w.merkleProof.siblings.length ≤ maxTreeDepth) :
    w.estimateGas = .ok (merkleBaseGas + w.merkleProof.siblings.length * merkleGasPerLevel +
      countedGas w.leafScript) := by
  unfold maxTreeDepth at h
  have hlevels : w.merkleProof.siblings.length * merkleGasPerLevel < 2 ^ 64 := by
    unfold merkleGasPerLevel
    omega
  have hproof : merkleBaseGas + w.merkleProof.siblings.length * merkleGasPerLevel < 2 ^ 64 := by
    unfold merkleBaseGas merkleGasPerLevel
    omega
  have htotal : (add 64 (merkleBaseGas + w.merkleProof.siblings.length * merkleGasPerLevel)
      (countedGas w.leafScript) : HcaResult ℕ) = .ok (merkleBaseGas +
        w.merkleProof.siblings.length * merkleGasPerLevel + countedGas w.leafScript) := by
    have hscript := countedGas_le w.leafScript
    unfold maxLeafGas at hscript
    refine add_eq_ok.mpr ⟨?_, rfl⟩
    unfold merkleBaseGas merkleGasPerLevel
    omega
  unfold HCAWitness.estimateGas
  rw [mul, if_pos hlevels, ok_bind, add, if_pos hproof, ok_bind]
  rcases validateLeafScript_cases w.leafScript with hgas | ⟨⟨e, herr⟩, hcap⟩
  · rw [hgas]
    exact htotal
  · rw [hcap] at htotal ⊢
    rw [herr]
    simp only [pure_bind]
    exact htotal

/-! ## Spends -/

/-- Only the index of a leaf is proved. -/
theorem proof_index_lt {T : MerkleTree} {i : Usize t} {p : MerkleProof t}
    (h : T.proof i = .ok p) : i.toNat < T.leaves.length := by
  unfold MerkleTree.proof at h
  simp only [bind_eq_ok, rejectIf_eq_ok, exists_const] at h
  exact not_le.mp h.1

namespace Built

variable {T : MerkleTree} (hT : Built keccak256 T)

include hT

/-- A proof of a built tree has a sibling for each level. -/
theorem length_siblings_of_proof {i : Usize t} {p : MerkleProof t} (h : T.proof i = .ok p) :
    p.siblings.length = T.depth := by
  rw [hT.proof_eq_ok (proof_index_lt h), Except.ok.injEq] at h
  rw [← h, HashTree.length_path]

/-- The estimate for a leaf, made before it is signed for. -/
theorem estimateGas_build {i : Usize t} {p : MerkleProof t} (h : T.proof i = .ok p) (l : Leaf) :
    (HCAWitness.build l p).estimateGas =
      .ok (merkleBaseGas + T.depth * merkleGasPerLevel + countedGas l.script) := by
  have hlen := hT.length_siblings_of_proof h
  have hestimate := estimateGas_eq_ok (w := HCAWitness.build l p) (hlen.trans_le hT.depth_le)
  rwa [show (HCAWitness.build l p).merkleProof = p from rfl, hlen] at hestimate

end Built

/-- What a spend costs is known from the policy. With `d` the least depth that has room for
its leaves, the estimate made for an admissible leaf before signing is a base, `d` levels and
the static gas of the script, and that is also the estimate of every spend that is accepted.
SOURCE: witness.rs:131-140, evm/opcode.rs:104-130, merkle.rs:165-293, rlp.rs:362-503 -/
theorem spend_gas {leaves : List Leaf} {T : MerkleTree} {authRoot : Digest}
    (hnew : MerkleTree.new t keccak256 leaves = .ok T) (hroot : T.authRoot = .ok authRoot) :
    ∃ d ≤ maxTreeDepth, IsLeast {d | leaves.length ≤ 2 ^ d} d ∧
      (∀ (i : Usize t) (p : MerkleProof t) (l : Leaf), T.proof i = .ok p →
        Admissible l.version l.script →
          (HCAWitness.build l p).estimateGas =
            .ok (merkleBaseGas + d * merkleGasPerLevel + staticGas (instructions l.script))) ∧
      ∀ (raw : List U8) (tx : TxMessage) (w : HCAWitness t),
        NoCollision keccak256 (treeInputs T ++ spendInputs keccak256 tx w) →
        Spends keccak256 authRoot raw tx w →
          staticGas (instructions w.leafScript) ≤ maxLeafGas ∧
            w.estimateGas = .ok (merkleBaseGas + d * merkleGasPerLevel +
              staticGas (instructions w.leafScript)) := by
  obtain ⟨rfl, hT⟩ := new_built hnew
  refine ⟨T.depth, hT.depth_le, ⟨hT.length_le, fun e he => hT.depth_minimal e he⟩, ?_, ?_⟩
  · intro i p l hp hadm
    rw [hT.estimateGas_build hp, countedGas_of_valid hadm.allowed hadm.gas_le]
  · intro raw tx w hcoll h
    obtain ⟨hlen, -, -⟩ := hT.opening_of_verify hroot
      (noCollision_mono hcoll (verify_subset_spendInputs T tx w)) h.verified
    obtain ⟨core, s, -, hleaf, -⟩ := decodeHcaTx_eq_ok.mp h.decoded
    have hadm := leafNew_isOk_iff.mp hleaf
    refine ⟨hadm.gas_le, ?_⟩
    rw [estimateGas_eq_ok (hlen.trans_le hT.depth_le), hlen,
      countedGas_of_valid hadm.allowed hadm.gas_le]

/-- Three leaves make two levels, and the script of the last one costs 3. -/
theorem spend_gas_sample : (lastLeafWitness [0x01]).estimateGas = .ok (200 + 2 * 80 + 3) := by
  obtain ⟨d, -, hleast, -, hspends⟩ := spend_gas new_sampleLeaves authRoot_sampleTree
  have htwo : IsLeast {d | sampleLeaves.length ≤ 2 ^ d} 2 := by
    refine ⟨by decide, ?_⟩
    intro e he
    by_contra hlt
    have hpow : 2 ^ e ≤ 2 ^ 1 := Nat.pow_le_pow_right (by decide) (by omega)
    exact absurd (he.trans hpow) (by decide)
  rw [hleast.unique htwo] at hspends
  exact (hspends _ _ _ noCollision_lastLeafRaw (spends_lastLeafRaw (by decide))).2

end Hca.Analysis
