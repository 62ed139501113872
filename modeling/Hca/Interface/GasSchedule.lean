import Hca.Interface.Bytecode

set_option autoImplicit false

/-!
# The Berlin gas schedule

The static costs of the schedule that the validator names, where they differ from what it
charges: some of the arithmetic, and the reads of the chain state with their warm access.
Every other opcode costs what the validator charges.
-/

namespace Hca.Interface

open Hca.Model Hca.Program

/-- MUL, DIV, SDIV, MOD, SMOD and SIGNEXTEND. -/
def mulOps : List U8 := [0x02, 0x04, 0x05, 0x06, 0x07, 0x0B]

/-- ADDMOD and MULMOD. -/
def addmodOps : List U8 := [0x08, 0x09]

/-- SLOAD, BALANCE, EXTCODESIZE, EXTCODECOPY, EXTCODEHASH and STATICCALL. -/
def stateReadOps : List U8 := [0x54, 0x31, 0x3B, 0x3C, 0x3F, 0xFA]

/-- The static cost of an opcode under the Berlin schedule. -/
def berlinCost (op : U8) : ℕ :=
  if op ∈ mulOps then 5
  else if op ∈ addmodOps then 8
  else if op ∈ stateReadOps then 100
  else opcodeGasCost op

/-- The static gas of a list of instructions under the Berlin schedule. -/
def berlinGas (ops : List U8) : ℕ := (ops.map berlinCost).sum

/-- What the validator leaves uncharged of a list of instructions. -/
def uncharged (ops : List U8) : ℕ :=
  2 * ops.countP (· ∈ mulOps) + 5 * ops.countP (· ∈ addmodOps) +
    97 * ops.countP (· ∈ stateReadOps)

/-- The script is admitted on the gas that is counted for it, and exceeds the cap with what
is left uncharged. -/
structure Undercharged (script : List U8) : Prop where
  script_ne : 1 ≤ script.length
  size_le : script.length ≤ maxLeafScriptSize
  allowed : ∀ op ∈ instructions script, ¬ IsBanned op
  counted_le : staticGas (instructions script) ≤ maxLeafGas
  lt_owed : maxLeafGas < staticGas (instructions script) + uncharged (instructions script)

end Hca.Interface
