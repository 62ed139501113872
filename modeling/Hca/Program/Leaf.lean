import Hca.Program.Hash

set_option autoImplicit false

/-!
# Leaf scripts and leaves

The static validator of leaf scripts with its gas counter, the leaf version registry,
and the leaves themselves with their checked constructor and their hash.
-/

namespace Hca.Program

open Hca.Library Hca.Model

/-! ## The gas counter -/

/-- Gas accounting of a script validation; what remains never exceeds the limit.
SOURCE: evm/gas.rs:12-18 -/
structure GasCounter where
  remaining : ℕ
  limit : ℕ
  remaining_le : remaining ≤ limit

namespace GasCounter

/-- SOURCE: evm/gas.rs:22-27 -/
def new (limit : ℕ) : GasCounter := ⟨limit, limit, le_rfl⟩

/-- SOURCE: evm/gas.rs:45-47 -/
def consumed (c : GasCounter) : ℕ := c.limit - c.remaining

/-- Deducts `cost`, or fails and leaves the counter unchanged.
SOURCE: evm/gas.rs:33-42 -/
def charge (c : GasCounter) (cost : ℕ) : HcaResult GasCounter :=
  if cost > c.remaining then
    .error (.err (.gasExhausted c.limit (c.limit - c.remaining)))
  else
    .ok ⟨c.remaining - cost, c.limit, (Nat.sub_le _ _).trans c.remaining_le⟩

end GasCounter

/-! ## The script validator -/

/-- Banned opcodes with their names.
SOURCE: evm/opcode.rs:42-54 -/
def banned : List (U8 × String) :=
  [(0xF0, "CREATE"), (0xF5, "CREATE2"), (0x55, "SSTORE"), (0xFF, "SELFDESTRUCT"),
    (0xF4, "DELEGATECALL"), (0xF1, "CALL"), (0xA0, "LOG0"), (0xA1, "LOG1"), (0xA2, "LOG2"),
    (0xA3, "LOG3"), (0xA4, "LOG4")]

/-- The static gas cost of an opcode.
SOURCE: evm/opcode.rs:57-81 -/
def opcodeGasCost (op : U8) : ℕ :=
  if op = 0x00 ∨ op = 0xF3 ∨ op = 0xFD then 0
  else if (0x01 ≤ op ∧ op ≤ 0x09) ∨ op = 0x0B ∨ (0x10 ≤ op ∧ op ≤ 0x1D) then 3
  else if op = 0x0A then 10
  else if op = 0x20 then 30
  else if op = 0x50 then 2
  else if 0x51 ≤ op ∧ op ≤ 0x53 then 3
  else if op = 0x56 then 8
  else if op = 0x57 then 10
  else if 0x58 ≤ op ∧ op ≤ 0x5A then 2
  else if op = 0x5B then 1
  else if op = 0x5F then 2
  else if 0x60 ≤ op ∧ op ≤ 0x7F then 3
  else if 0x80 ≤ op ∧ op ≤ 0x8F then 3
  else if 0x90 ≤ op ∧ op ≤ 0x9F then 3
  else 3

/-- One round of the scan: the state is the counter and the cursor `i`.
SOURCE: evm/opcode.rs:108-127 -/
def validateRound (bytecode : List U8) (s : GasCounter × ℕ) :
    HcaResult ((GasCounter × ℕ) ⊕ ℕ) :=
  let (counter, i) := s
  if i < bytecode.length then do
    let op ← index bytecode i
    match banned.find? (fun entry => entry.1 = op) with
    | some (_, name) => .error (.err (.bannedOpcode op name))
    | none =>
      let counter ← counter.charge (opcodeGasCost op)
      -- PUSH1 to PUSH32 skip their immediate bytes
      let i := if 0x60 ≤ op ∧ op ≤ 0x7F then i + (op - 0x5F).toNat else i
      pure (.inl (counter, i + 1))
  else
    pure (.inr counter.consumed)

/-- Checks a script for banned opcodes and for the gas cap, and returns its static gas.
Every round moves the cursor on, so one round per byte and one to leave are enough.
SOURCE: evm/opcode.rs:104-130 -/
def validateLeafScript (bytecode : List U8) : HcaResult ℕ :=
  loop (validateRound bytecode) (bytecode.length + 1) (GasCounter.new maxLeafGas, 0)

/-! ## Leaf versions -/

/-- SOURCE: leaf_version.rs:24-31 -/
inductive LeafVersion where
  | v1
  | v2
  deriving DecidableEq, Repr

namespace LeafVersion

/-- SOURCE: leaf_version.rs:37-44 -/
def fromByte (version : U8) : HcaResult LeafVersion :=
  if version = 0x00 then .error (.err (.invalidLeafVersion version))
  else if version = 0x01 then .ok .v1
  else if version = 0x02 then .ok .v2
  else .error (.err (.invalidLeafVersion version))

/-- SOURCE: leaf_version.rs:47-49 -/
def asByte : LeafVersion → U8
  | v1 => 0x01
  | v2 => 0x02

end LeafVersion

/-- SOURCE: leaf_version.rs:68-75 -/
def validateForVersion (version : LeafVersion) (script : List U8) : HcaResult Unit :=
  match version with
  | .v1 => do
    let _ ← validateLeafScript script
    pure ()
  | .v2 => .error (.err (.invalidLeafVersion version.asByte))

/-! ## Leaves -/

/-- A spending condition. The fields are public in the source: a `Leaf` need not have
passed `Leaf.new`.
SOURCE: merkle.rs:26-38 -/
structure Leaf where
  version : U8
  script : List U8
  description : String
  deriving DecidableEq, Repr

namespace Leaf

/-- SOURCE: merkle.rs:50-64 -/
def new (version : U8) (script : List U8) (description : String) : HcaResult Leaf := do
  let lv ← LeafVersion.fromByte version
  rejectIf (script = []) .emptyLeafScript
  rejectIf (script.length > maxLeafScriptSize) (.leafScriptTooLarge script.length)
  validateForVersion lv script
  pure { version, script, description }

/-- The byte string `Leaf::hash` passes to keccak256.
SOURCE: merkle.rs:69-72 -/
def hashInput (l : Leaf) : List U8 := taggedInput TagHashes.leaf (l.version :: l.script)

/-- `leaf_hash = tagged_hash("HCALeaf", version || script)`
SOURCE: merkle.rs:68-73 -/
def hash (keccak256 : List U8 → Digest) (l : Leaf) : Digest :=
  taggedHash keccak256 TagHashes.leaf (l.version :: l.script)

end Leaf

end Hca.Program
