import Hca.Analysis.LeafAdmission
import Hca.Interface.GasSchedule

set_option autoImplicit false

/-!
# The gas cap under the Berlin schedule

The validator charges its baseline of 3 for every opcode of the three classes that cost more
under the Berlin schedule. The difference adds up over the instructions of a script: the cap
holds for an admitted script unless the gas left uncharged takes it past the cap.
-/

namespace Hca.Analysis

open Hca.Library Hca.Model Hca.Program Hca.Interface

/-! ## The difference between the schedules -/

/-- The validator charges its baseline for the dearer opcodes. -/
theorem opcodeGasCost_of_mem {op : U8} (h : op ∈ mulOps ++ addmodOps ++ stateReadOps) :
    opcodeGasCost op = 3 := by
  have hall : ∀ op ∈ mulOps ++ addmodOps ++ stateReadOps, opcodeGasCost op = 3 := by decide
  exact hall op h

/-- No opcode is in two of the classes. -/
theorem not_mem_of_mem_mulOps {op : U8} (h : op ∈ mulOps) :
    op ∉ addmodOps ∧ op ∉ stateReadOps := by
  have hall : ∀ op ∈ mulOps, op ∉ addmodOps ∧ op ∉ stateReadOps := by decide
  exact hall op h

/-- The last two classes are disjoint too. -/
theorem not_mem_of_mem_addmodOps {op : U8} (h : op ∈ addmodOps) : op ∉ stateReadOps := by
  have hall : ∀ op ∈ addmodOps, op ∉ stateReadOps := by decide
  exact hall op h

/-- The schedules differ by a constant for each class. -/
theorem berlinCost_eq (op : U8) :
    berlinCost op = opcodeGasCost op +
      (2 * (if op ∈ mulOps then 1 else 0) + 5 * (if op ∈ addmodOps then 1 else 0) +
        97 * (if op ∈ stateReadOps then 1 else 0)) := by
  unfold berlinCost
  by_cases hmul : op ∈ mulOps
  · obtain ⟨haddmod, hread⟩ := not_mem_of_mem_mulOps hmul
    simp [hmul, haddmod, hread, opcodeGasCost_of_mem]
  · by_cases haddmod : op ∈ addmodOps
    · simp [hmul, haddmod, not_mem_of_mem_addmodOps haddmod, opcodeGasCost_of_mem]
    · by_cases hread : op ∈ stateReadOps
      · simp [hmul, haddmod, hread, opcodeGasCost_of_mem]
      · simp [hmul, haddmod, hread]

/-- The schedules differ by what the validator leaves uncharged. -/
theorem berlinGas_eq (ops : List U8) : berlinGas ops = staticGas ops + uncharged ops := by
  induction ops with
  | nil => rfl
  | cons op ops ih =>
    have hcons : berlinGas (op :: ops) = berlinCost op + berlinGas ops := by
      simp [berlinGas]
    rw [hcons, berlinCost_eq, ih, staticGas_cons]
    simp only [uncharged, List.countP_cons, decide_eq_true_eq]
    omega

/-- The scripts that `Leaf::new` admits stay within the gas cap of the Berlin schedule,
except for the undercharged ones.
SOURCE: evm/opcode.rs:56-81, evm/opcode.rs:104-130, merkle.rs:50-64 -/
theorem admitted_within_berlin_cap_iff (script : List U8) (description : String) :
    ((∃ leaf, Leaf.new 0x01 script description = .ok leaf) →
      berlinGas (instructions script) ≤ maxLeafGas) ↔ ¬ Undercharged script := by
  rw [leafNew_isOk_iff, berlinGas_eq]
  constructor
  · intro hcap h
    have hle := hcap ⟨rfl, h.script_ne, h.size_le, h.allowed, h.counted_le⟩
    exact absurd h.lt_owed (not_lt.mpr hle)
  · intro h hadm
    by_contra hgt
    exact h ⟨hadm.script_ne, hadm.size_le, hadm.allowed, hadm.gas_le, not_le.mp hgt⟩

/-! ## State reads -/

/-- A script of one opcode without immediate bytes is read as that many instructions. -/
theorem instructions_replicate {op : U8} (h : immediateSize op = 0) (n : ℕ) :
    instructions (List.replicate n op) = List.replicate n op := by
  induction n with
  | zero => rfl
  | succ n ih => rw [List.replicate_succ, instructions_cons, h, List.drop_zero, ih]

/-- Enough SLOADs are admitted, and cost more than the cap. -/
theorem sloads_admitted :
    (∃ leaf, Leaf.new 0x01 (List.replicate 1001 0x54) "sloads" = .ok leaf) ∧
      maxLeafGas < berlinGas (instructions (List.replicate 1001 0x54)) := by
  have hops := instructions_replicate (by decide : immediateSize 0x54 = 0) 1001
  rw [leafNew_isOk_iff, hops]
  constructor
  · refine ⟨rfl, ?_, ?_, ?_, ?_⟩
    · rw [List.length_replicate]
      omega
    · rw [List.length_replicate]
      decide
    · rw [hops]
      intro op hop
      rw [List.eq_of_mem_replicate hop]
      decide
    · rw [hops, staticGas, List.map_replicate, List.sum_replicate]
      decide
  · rw [berlinGas, List.map_replicate, List.sum_replicate]
    decide

end Hca.Analysis
