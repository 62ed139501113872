import Hca.Program.Leaf

set_option autoImplicit false

/-!
# Reference semantics of scripts

The instructions of a script, read from its start: a push takes the bytes after it as
immediate data, cut short by the end of the script, and every other byte is an instruction
alone. What a leaf may contain is said of the instructions.
-/

namespace Hca.Interface

open Hca.Model Hca.Program

/-- The number of bytes of immediate data that an opcode takes. -/
def immediateSize (op : U8) : ℕ := if 0x60 ≤ op ∧ op ≤ 0x7F then (op - 0x5F).toNat else 0

/-- The opcodes of the instructions of a script of which the first `skip` bytes are
immediate data. -/
def instructionsFrom : ℕ → List U8 → List U8
  | _, [] => []
  | skip + 1, _ :: script => instructionsFrom skip script
  | 0, op :: script => op :: instructionsFrom (immediateSize op) script

/-- The opcodes of the instructions of a script. -/
def instructions (script : List U8) : List U8 := instructionsFrom 0 script

/-- The number of bytes of immediate data that a script does not have any more, where its first
`skip` bytes are immediate data. -/
def missingFrom : ℕ → List U8 → ℕ
  | skip, [] => skip
  | skip + 1, _ :: script => missingFrom skip script
  | 0, op :: script => missingFrom (immediateSize op) script

/-- The number of bytes by which the end of the script cuts its last push short. -/
def missing (script : List U8) : ℕ := missingFrom 0 script

/-- The opcode is one of the banned ones. -/
def IsBanned (op : U8) : Prop := op ∈ banned.map Prod.fst

instance (op : U8) : Decidable (IsBanned op) := inferInstanceAs (Decidable (op ∈ _))

/-- The static gas of a list of instructions. -/
def staticGas (ops : List U8) : ℕ := (ops.map opcodeGasCost).sum

/-- A leaf that may be in a tree: an active version, and a script of admissible size without
banned instructions that stays within the gas cap. -/
structure Admissible (version : U8) (script : List U8) : Prop where
  version_eq : version = 0x01
  script_ne : 1 ≤ script.length
  size_le : script.length ≤ maxLeafScriptSize
  allowed : ∀ op ∈ instructions script, ¬ IsBanned op
  gas_le : staticGas (instructions script) ≤ maxLeafGas

end Hca.Interface
