import Hca.Interface.Bytecode
import Mathlib.Logic.Relation

set_option autoImplicit false

/-!
# Runs of scripts

The positions that the virtual machine may reach in a script. What an instruction computes is
left out: after a jump the machine may be at any admitted target, and after any other
instruction at the next one.
-/

namespace Hca.Interface

open Hca.Model

/-- The position behind the instruction at `pc` and its immediate data. -/
def Next (script : List U8) (pc pc' : ℕ) : Prop :=
  ∃ op, script[pc]? = some op ∧ pc' = pc + 1 + immediateSize op

/-- The positions of the instructions, and the one behind the last of them. -/
def Boundary (script : List U8) : ℕ → Prop := Relation.ReflTransGen (Next script) 0

/-- The position is inside the immediate data of an instruction. -/
def InPushData (script : List U8) (pc : ℕ) : Prop :=
  ∃ start op, Boundary script start ∧ script[start]? = some op ∧
    start < pc ∧ pc ≤ start + immediateSize op

/-- A jump may go to a JUMPDEST that is not immediate data. -/
def JumpTarget (script : List U8) (pc : ℕ) : Prop :=
  script[pc]? = some 0x5B ∧ ¬ InPushData script pc

/-- One step of a run; a JUMP or JUMPI may also take its jump, to any admitted target. -/
inductive Step (script : List U8) (pc : ℕ) : ℕ → Prop where
  | next {pc' : ℕ} (h : Next script pc pc') : Step script pc pc'
  | jump {op : U8} {pc' : ℕ} (hop : script[pc]? = some op) (hjump : op = 0x56 ∨ op = 0x57)
      (htarget : JumpTarget script pc') : Step script pc pc'

/-- The positions that a run from the start of the script may reach. -/
def Reachable (script : List U8) : ℕ → Prop := Relation.ReflTransGen (Step script) 0

end Hca.Interface
