import Hca.Analysis.LeafAdmission
import Hca.Interface.ControlFlow

set_option autoImplicit false

/-!
# Runs of accepted scripts

The scan looks at a script once, from its start; a run may jump back and forth. Both move
along the same positions: a position of the script holds an instruction of the sweep or is
inside the immediate data of one, and no run gets into immediate data.
-/

namespace Hca.Analysis

open Hca.Library Hca.Model Hca.Program Hca.Interface

variable {script : List U8}

/-! ## Boundaries -/

/-- The sweep leaves out immediate data only. -/
theorem boundary_or_inPushData {pc : ℕ} (h : pc ≤ script.length) :
    Boundary script pc ∨ InPushData script pc := by
  induction pc with
  | zero => exact Or.inl .refl
  | succ pc ih =>
    rcases ih (by omega) with hpc | ⟨start, op, hstart, hop, hlt, hle⟩
    · have hop := List.getElem?_eq_getElem (l := script) (i := pc) (by omega)
      by_cases hsize : immediateSize script[pc] = 0
      · exact Or.inl (hpc.tail ⟨_, hop, by omega⟩)
      · exact Or.inr ⟨pc, _, hpc, hop, by omega, by omega⟩
    · -- the immediate data of the instruction at `start` ends here or goes on
      by_cases hend : pc = start + immediateSize op
      · exact Or.inl (hstart.tail ⟨op, hop, by omega⟩)
      · exact Or.inr ⟨start, op, hstart, hop, by omega, by omega⟩

/-- An instruction of the sweep is an instruction of the script, and the ones behind it are
the rest. -/
theorem instructions_suffix {pc : ℕ} (h : Boundary script pc) :
    instructions (script.drop pc) <:+ instructions script := by
  induction h with
  | refl => exact List.suffix_rfl
  | @tail pc pc' hpc hnext ih =>
    obtain ⟨op, hop, rfl⟩ := hnext
    have hdrop : script.drop pc = op :: script.drop (pc + 1) := by
      obtain ⟨hlt, rfl⟩ := List.getElem?_eq_some_iff.mp hop
      exact List.drop_eq_getElem_cons hlt
    rw [hdrop, instructions_cons, List.drop_drop] at ih
    exact (List.suffix_cons op _).trans ih

/-- What stands at an instruction boundary is one of the instructions. -/
theorem mem_instructions {pc : ℕ} {op : U8} (h : Boundary script pc)
    (hop : script[pc]? = some op) : op ∈ instructions script := by
  apply (instructions_suffix h).subset
  obtain ⟨hlt, rfl⟩ := List.getElem?_eq_some_iff.mp hop
  rw [List.drop_eq_getElem_cons hlt, instructions_cons]
  exact List.mem_cons_self

/-! ## Runs -/

/-- A step goes from an instruction of the sweep to one. -/
theorem boundary_step {pc pc' : ℕ} (h : Boundary script pc) (hstep : Step script pc pc') :
    Boundary script pc' := by
  cases hstep with
  | next hnext => exact h.tail hnext
  | jump hop hjump htarget =>
    obtain ⟨hdest, hcode⟩ := htarget
    obtain ⟨hlt, -⟩ := List.getElem?_eq_some_iff.mp hdest
    exact (boundary_or_inPushData hlt.le).resolve_right hcode

/-- A run stays on the instructions of the sweep. -/
theorem boundary_of_reachable {pc : ℕ} (h : Reachable script pc) : Boundary script pc := by
  induction h with
  | refl => exact .refl
  | tail _ hstep ih => exact boundary_step ih hstep

/-- No run of an accepted script reaches a banned opcode, whatever its jumps are.
SOURCE: evm/opcode.rs:104-130 -/
theorem reachable_not_banned {gas pc : ℕ} {op : U8}
    (hvalid : validateLeafScript script = .ok gas) (hreach : Reachable script pc)
    (hop : script[pc]? = some op) : ¬ IsBanned op := by
  obtain ⟨hallowed, -, -⟩ := validateLeafScript_eq_ok.mp hvalid
  exact hallowed op (mem_instructions (boundary_of_reachable hreach) hop)

/-- A script that jumps over data to its JUMPDEST at 4, with the byte of SSTORE in the data
that it pushes there. -/
def jumpingScript : List U8 := [0x60, 0x04, 0x56, 0x00, 0x5B, 0x60, 0x55, 0x00]

/-- The sample script jumps to a JUMPDEST behind the push. -/
theorem jumpTarget_jumpingScript : JumpTarget jumpingScript 4 := by
  refine ⟨rfl, ?_⟩
  rintro ⟨start, op, -, hop, hlt, hle⟩
  interval_cases start <;> cases hop <;> revert hle <;> decide

/-- The STOP that the sample script jumps to is reached and not banned. -/
theorem reachable_not_banned_sample : ¬ IsBanned 0x00 := by
  have hjump : Reachable jumpingScript 4 :=
    .tail (.single (.next ⟨0x60, rfl, rfl⟩)) (.jump rfl (Or.inl rfl) jumpTarget_jumpingScript)
  have hlast : Reachable jumpingScript 7 :=
    .tail (.tail hjump (.next ⟨0x5B, rfl, rfl⟩)) (.next ⟨0x60, rfl, rfl⟩)
  exact reachable_not_banned (rfl : validateLeafScript jumpingScript = .ok 15) hlast rfl

end Hca.Analysis
