import Hca.Analysis.LeafAdmission

set_option autoImplicit false

/-!
# Scripts in parts

The scan of a script that was put together from two parts is the scan of the first part, and
then of the second part without the bytes that the last push of the first part takes. So what
the scan rejects it rejects with anything appended, and the parts of an accepted script share
its gas.
-/

namespace Hca.Analysis

open Hca.Library Hca.Model Hca.Program Hca.Interface

/-! ## Instructions -/

/-- The instructions of the first part come first; its last push goes on in the second part. -/
theorem instructionsFrom_append (skip : ℕ) (a b : List U8) :
    instructionsFrom skip (a ++ b) =
      instructionsFrom skip a ++ instructionsFrom (missingFrom skip a) b := by
  induction a generalizing skip with
  | nil => cases skip <;> rfl
  | cons op a ih =>
    cases skip with
    | zero =>
      rw [List.cons_append, instructionsFrom, ih, instructionsFrom, missingFrom,
        List.cons_append]
    | succ skip => rw [List.cons_append, instructionsFrom, ih, instructionsFrom, missingFrom]

/-- The instructions of two parts are those of the first, and those of the second without the bytes
that the last push of the first takes. -/
theorem instructions_append (a b : List U8) :
    instructions (a ++ b) = instructions a ++ instructions (b.drop (missing a)) := by
  rw [instructions, instructionsFrom_append, ← instructionsFrom_eq]
  rfl

/-- The cost of two parts is the sum of their costs. -/
theorem staticGas_append (ops ops' : List U8) :
    staticGas (ops ++ ops') = staticGas ops + staticGas ops' := by
  rw [staticGas, List.map_append, List.sum_append]
  rfl

/-! ## Charging -/

/-- An error in the first instructions is the error of all of them. -/
theorem chargeAll_append_of_error {c : GasCounter} {ops ops' : List U8} {e : Fault HcaError}
    (h : chargeAll c ops = .error e) : chargeAll c (ops ++ ops') = .error e := by
  induction ops generalizing c with
  | nil => cases h
  | cons op ops ih =>
    rw [chargeAll] at h
    rw [List.cons_append, chargeAll]
    split at h
    · exact h
    · rcases bind_eq_error.mp h with hcharge | ⟨c', hcharge, hrest⟩
      · rw [hcharge, error_bind]
      · rw [hcharge, ok_bind, ih hrest]

/-! ## The scan -/

/-- The scan of a script in two parts, wherever it is cut. An error of the first part is the
error of the whole. The whole is accepted iff the first part is, and the second part without
the bytes that end the last push, and their gas together is within the cap; it is then the sum
of their gas. In particular a script of a leaf can be cut off after any of its bytes and is
still the script of a leaf.
SOURCE: evm/opcode.rs:104-130, evm/gas.rs:33-47, merkle.rs:50-64 -/
theorem scan_of_parts (a b : List U8) :
    (∀ e, validateLeafScript a = .error e → validateLeafScript (a ++ b) = .error e) ∧
    (∀ gas, validateLeafScript (a ++ b) = .ok gas ↔
      ∃ g h, validateLeafScript a = .ok g ∧ validateLeafScript (b.drop (missing a)) = .ok h ∧
        g + h ≤ maxLeafGas ∧ gas = g + h) ∧
    (a ≠ [] → ∀ version description,
      (∃ leaf, Leaf.new version (a ++ b) description = .ok leaf) →
        ∃ leaf, Leaf.new version a description = .ok leaf) := by
  have hparts : ∀ gas, validateLeafScript (a ++ b) = .ok gas ↔
      ∃ g h, validateLeafScript a = .ok g ∧ validateLeafScript (b.drop (missing a)) = .ok h ∧
        g + h ≤ maxLeafGas ∧ gas = g + h := by
    intro gas
    simp only [validateLeafScript_eq_ok, instructions_append, List.forall_mem_append,
      staticGas_append]
    constructor
    · rintro ⟨⟨ha, hb⟩, hgas, rfl⟩
      exact ⟨_, _, ⟨ha, by omega, rfl⟩, ⟨hb, by omega, rfl⟩, hgas, rfl⟩
    · rintro ⟨g, h, ⟨ha, -, rfl⟩, ⟨hb, -, rfl⟩, hgas, rfl⟩
      exact ⟨⟨ha, hb⟩, hgas, rfl⟩
  refine ⟨?_, hparts, ?_⟩
  · intro e he
    rw [validateLeafScript_eq] at he ⊢
    rw [instructions_append, chargeAll_append_of_error he]
  · intro hne version description hwhole
    rw [leafNew_isOk_iff] at hwhole ⊢
    have hsize := hwhole.size_le
    have hallowed := hwhole.allowed
    have hgas := hwhole.gas_le
    rw [List.length_append] at hsize
    rw [instructions_append, List.forall_mem_append] at hallowed
    rw [instructions_append, staticGas_append] at hgas
    exact ⟨hwhole.version_eq, List.length_pos_iff.mpr hne, by omega, hallowed.1, by omega⟩

end Hca.Analysis
