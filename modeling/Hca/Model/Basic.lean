import Hca.Library.Outcome
import Mathlib.Data.Vector.Basic

set_option autoImplicit false

/-!
# Integers, byte arrays, constants and errors

The types every module of the crate is written in: the fixed-width unsigned integers,
the pointer-sized integer of the compilation target, byte arrays of a fixed length, the
protocol constants and the error type with the texts it is displayed as.
-/

namespace Hca.Model

open Hca.Library

/-! ## Machine integers -/

abbrev U8 := BitVec 8
abbrev U64 := BitVec 64
abbrev U128 := BitVec 128

/-- The width of `usize` on the compilation target. -/
inductive Target where
  /-- 32-bit targets, such as WASM -/
  | usize32
  /-- 64-bit targets -/
  | usize64
  deriving DecidableEq, Repr

/-- `usize::BITS` -/
def Target.bits : Target → ℕ
  | .usize32 => 32
  | .usize64 => 64

/-- The number of bytes of a `usize`. -/
def Target.bytes : Target → ℕ
  | .usize32 => 4
  | .usize64 => 8

/-- `isize::MAX`, the largest number of bytes a slice or a `Vec` can hold. -/
def Target.isizeMax (t : Target) : ℕ := 2 ^ (t.bits - 1) - 1

abbrev Usize (t : Target) := BitVec t.bits

/-- The bytes of a word hold as many values as its bits. -/
theorem Target.pow_bytes (t : Target) : 256 ^ t.bytes = 2 ^ t.bits := by
  cases t <;> rfl

/-- No word of the two targets has more than eight bytes. -/
theorem Target.bytes_le (t : Target) : t.bytes ≤ 8 := by
  cases t <;> decide

/-- Nor more than 64 bits. -/
theorem Target.bits_le (t : Target) : t.bits ≤ 64 := by
  cases t <;> decide

/-- The bound on allocations fits a word. -/
theorem Target.isizeMax_lt (t : Target) : t.isizeMax < 2 ^ t.bits := by
  cases t <;> decide

/-- A `usize` can count at least `2 ^ 32 - 1` bytes. -/
theorem Target.pow_bits_ge (t : Target) : 2 ^ 32 ≤ 2 ^ t.bits := by
  cases t <;> decide

/-- It is half of the range of a word. -/
theorem Target.isizeMax_succ (t : Target) : 2 * (t.isizeMax + 1) = 2 ^ t.bits := by
  cases t <;> decide

/-- `T::try_from(x)` for an unsigned `T` of `n` bits: no value when `x` does not fit. -/
def tryFrom {m : ℕ} (n : ℕ) (x : BitVec m) : Option (BitVec n) :=
  if x.toNat < 2 ^ n then some (x.setWidth n) else none

/-- A conversion succeeds iff it loses nothing. -/
theorem tryFrom_eq_some {m n : ℕ} {x : BitVec m} {y : BitVec n} :
    tryFrom n x = some y ↔ x.toNat = y.toNat := by
  unfold tryFrom
  split
  case isTrue h =>
    rw [Option.some.injEq]
    constructor
    · rintro rfl
      rw [BitVec.toNat_setWidth, Nat.mod_eq_of_lt h]
    · intro hxy
      apply BitVec.eq_of_toNat_eq
      rw [BitVec.toNat_setWidth, Nat.mod_eq_of_lt h, hxy]
  case isFalse h =>
    constructor
    · intro hnone
      cases hnone
    · intro hxy
      exact absurd (hxy ▸ y.isLt) h

/-! ## Byte arrays -/

/-- `[u8; n]` -/
abbrev Bytes (n : ℕ) := List.Vector U8 n

/-- A 32-byte hash. -/
abbrev Digest := Bytes 32

/-- `let mut a = [0u8; n]; a.copy_from_slice(&bytes)`; lengths that differ panic. -/
def copyFromSlice {ε : Type} (n : ℕ) (bytes : List U8) : Outcome ε (Bytes n) :=
  if h : bytes.length = n then .ok ⟨bytes, h⟩ else .error .panic

/-- A slice is copied into an array of its own length. -/
@[simp] theorem copyFromSlice_eq_ok {ε : Type} {n : ℕ} {bytes : List U8} {a : Bytes n} :
    (copyFromSlice n bytes : Outcome ε (Bytes n)) = .ok a ↔ bytes = a.val := by
  unfold copyFromSlice
  split
  case isTrue h =>
    constructor
    · intro ha
      cases ha
      rfl
    · rintro rfl
      rfl
  case isFalse h =>
    constructor
    · intro ha
      cases ha
    · rintro rfl
      exact absurd a.property h

/-! ## Protocol constants
SOURCE: constants.rs:8-26 -/

/-- EIP-2718 transaction type for HCA transactions. -/
def hcaTxType : U8 := 0x05

/-- Maximum Merkle tree depth. -/
def maxTreeDepth : ℕ := 32

/-- Maximum gas cost for executing a leaf spending condition. -/
def maxLeafGas : ℕ := 100000

/-- Gas cost per tree level during proof verification. -/
def merkleGasPerLevel : ℕ := 80

/-- Base gas cost for proof verification. -/
def merkleBaseGas : ℕ := 200

/-- Maximum leaf script size in bytes. -/
def maxLeafScriptSize : ℕ := 24576

/-- Maximum witness size in bytes. -/
def maxWitnessSize : ℕ := 65536

/-! ## Errors -/

/-- The error type of all operations of the crate.
SOURCE: error.rs:12-93 -/
inductive HcaError where
  | emptyTree
  | treeTooDeep (depth : ℕ)
  | leafIndexOutOfBounds (index count : ℕ)
  | invalidLeafVersion (version : U8)
  | leafScriptTooLarge (size : ℕ)
  | proofVerificationFailed
  | witnessNotSigned
  | witnessTooLarge (size : ℕ)
  | invalidRotation (msg : String)
  | bannedOpcode (opcode : U8) (name : String)
  | rlpEncodingError (msg : String)
  | rlpDecodeError (msg : String)
  | invalidAddress
  | emptyLeafScript
  | duplicateLeaf (index : ℕ)
  | emptySignature
  | gasExhausted (limit consumed : ℕ)
  deriving DecidableEq, Repr

/-- `Result<T, HcaError>` -/
abbrev HcaResult (α : Type) := Outcome HcaError α

/-- `{:02x}` -/
def lowerHex (b : U8) : String :=
  String.ofList ((if b.toNat < 16 then ['0'] else []) ++ Nat.toDigits 16 b.toNat)

/-- `{:02X}` -/
def upperHex (b : U8) : String := (lowerHex b).toUpper

/-- The `Display` text of an error.
SOURCE: error.rs:95-159 -/
def HcaError.display : HcaError → String
  | .emptyTree => "Tree must have at least one leaf"
  | .treeTooDeep depth => s!"Tree depth {depth} exceeds maximum"
  | .leafIndexOutOfBounds index count =>
      s!"Leaf index {index} out of bounds (tree has {count} leaves)"
  | .invalidLeafVersion version => s!"Invalid leaf version: 0x{lowerHex version}"
  | .leafScriptTooLarge size => s!"Leaf script size {size} exceeds maximum"
  | .proofVerificationFailed => "Merkle proof verification failed"
  | .witnessNotSigned => "Witness has not been signed yet"
  | .witnessTooLarge size => s!"Witness size {size} exceeds maximum"
  | .invalidRotation msg => s!"Invalid authRoot rotation: {msg}"
  | .bannedOpcode opcode name => s!"Banned opcode in leaf script: {name} (0x{upperHex opcode})"
  | .rlpEncodingError msg => s!"RLP encoding error: {msg}"
  | .rlpDecodeError msg => s!"RLP decode error: {msg}"
  | .invalidAddress => "Invalid address format"
  | .emptyLeafScript => "Leaf script must not be empty"
  | .duplicateLeaf index => s!"Duplicate leaf detected at index {index}"
  | .emptySignature => "Witness signature must not be empty"
  | .gasExhausted limit consumed =>
      s!"Leaf script gas exhausted: consumed {consumed} of {limit} limit"

end Hca.Model
