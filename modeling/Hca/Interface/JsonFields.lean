import Hca.Program.Cli
import Hca.Program.Wasm

set_option autoImplicit false

/-!
# What the fields of a JSON object say

The integer, the bytes or the version that a field declares, and what it means that an entry
point acts on what was declared. A field that is missing declares nothing; in a transaction,
neither does a null.
-/

namespace Hca.Interface

open Hca.Library Hca.Model Hca.Program

/-! ## Declared values -/

/-- The amount that a field declares: a decimal string or an integer that is not negative. -/
def declaredInteger : Value → Option ℕ
  | .string s => decimalValue s.toList
  | .number (.posInt n) => some n.toNat
  | _ => none

/-- The bytes that a field declares: a hexadecimal string, with or without `0x`. -/
def declaredBytes : Value → Option (List U8)
  | .string s => hexDecode (stripPrefix0x s.toList)
  | _ => none

/-! ## Transactions -/

/-- The field is present and not null. -/
def Given (v : Value) (key : String) (d : Value) : Prop := v.get key = some d ∧ d ≠ .null

/-- The transaction has what the optional fields declare. -/
structure KeepsFields (v : Value) (tx : TxMessage) : Prop where
  value : ∀ d, Given v "value" d → declaredInteger d = some tx.value.toNat
  maxFeePerGas : ∀ d, Given v "max_fee_per_gas" d →
    declaredInteger d = some tx.maxFeePerGas.toNat
  maxPriorityFeePerGas : ∀ d, Given v "max_priority_fee_per_gas" d →
    declaredInteger d = some tx.maxPriorityFeePerGas.toNat
  data : ∀ d, Given v "data" d → declaredBytes d = some tx.data

/-- A string, or the number zero. -/
def StringOrZero (d : Value) : Prop := (∃ s, d = .string s) ∨ d = .number (.posInt 0)

/-- The optional integer fields that are given are strings or zero, and the calldata that is
given is a string. -/
structure FieldsAreStrings (v : Value) : Prop where
  value : ∀ d, Given v "value" d → StringOrZero d
  maxFeePerGas : ∀ d, Given v "max_fee_per_gas" d → StringOrZero d
  maxPriorityFeePerGas : ∀ d, Given v "max_priority_fee_per_gas" d → StringOrZero d
  data : ∀ d, Given v "data" d → ∃ s, d = .string s

/-- The messages agree on the fields that both entry points read under one name. -/
structure SameTransaction (a b : TxMessage) : Prop where
  chainId : a.chainId = b.chainId
  nonce : a.nonce = b.nonce
  «from» : a.«from» = b.«from»
  «to» : a.«to» = b.«to»
  value : a.value = b.value
  data : a.data = b.data
  gasLimit : a.gasLimit = b.gasLimit

/-- The messages agree on those of these fields that are no amount. -/
structure SameButForValue (a b : TxMessage) : Prop where
  chainId : a.chainId = b.chainId
  nonce : a.nonce = b.nonce
  «from» : a.«from» = b.«from»
  «to» : a.«to» = b.«to»
  data : a.data = b.data
  gasLimit : a.gasLimit = b.gasLimit

/-- Neither a string of a nonzero integer nor a nonzero integer. -/
def DeclaresNoAmount (d : Value) : Prop :=
  (∀ s, d = .string s → decimalValue s.toList = some 0) ∧
    ∀ n, d = .number (.posInt n) → n = 0

/-! ## Leaves -/

/-- The leaf has the version that the object declares, an integer, and the bytes of its
script. -/
structure CommitsTo (l : Value) (leaf : Leaf) : Prop where
  version : ∀ d, l.get "version" = some d →
    ∃ n, d = .number (.posInt n) ∧ leaf.version.toNat = n.toNat
  script : declaredBytes (l.index "script") = some leaf.script

/-- The object declares no version or the active one, and a script with at most one `0x`. -/
structure PlainLeaf (l : Value) : Prop where
  version : ∀ d, l.get "version" = some d → d = .number (.posInt 1)
  script : ∀ s, l.index "script" = .string s → ¬ "0x0x".toList <+: s.toList

/-! ## Proofs -/

/-- The object declares the proof: an integer, of which the target keeps the bits that fit its
indices, and an array of hashes. -/
structure DeclaresProof {t : Target} (v : Value) (p : MerkleProof t) : Prop where
  leafIndex : ∃ n, v.index "leaf_index" = .number (.posInt n) ∧
    p.leafIndex = n.setWidth t.bits
  siblings : ∃ items, v.index "siblings" = .array items ∧
    List.Forall₂ (fun x s => declaredBytes x = some s.val) items p.siblings

/-! ## Samples -/

/-- The text of a value without floats and without characters to escape. -/
def printJson : Value → String
  | .null => "null"
  | .bool b => toString b
  | .number (.posInt n) => toString n.toNat
  | .number (.negInt n) => toString n.toInt
  | .number (.float bits) => toString bits
  | .string s => "\"" ++ s ++ "\""
  | .array items => "[" ++ ",".intercalate (items.map printJson) ++ "]"
  | .object fields =>
    let entries := fields.map fun field => (field.1, "\"" ++ field.1 ++ "\":" ++ printJson field.2)
    let sorted := entries.mergeSort fun a b => decide (a.1 ≤ b.1)
    "\x7b" ++ ",".intercalate (sorted.map Prod.snd) ++ "\x7d"
termination_by v => sizeOf v
decreasing_by
  · rename_i item hitem
    have := List.sizeOf_lt_of_mem hitem
    simp only [Value.array.sizeOf_spec]
    omega
  · rename_i hfield
    have := List.sizeOf_lt_of_mem hfield
    obtain ⟨key, v⟩ := field
    simp only [Value.object.sizeOf_spec, Prod.mk.sizeOf_spec] at this ⊢
    omega

/-- A library that reads the texts of the given leaves and of the given transaction. Both
printers are the compact one. -/
def sampleLib (leaves : List Value) (tx : Value) : JsonLib where
  fromStr s := if s = printJson tx then .ok tx else .error (.err "expected value")
  vecFromStr s :=
    if s = printJson (.array leaves) then .ok leaves else .error (.err "expected value")
  toStr := printJson
  toStringPretty := printJson
  hexError _ := "Odd number of digits"

/-- A leaf object for the script STOP. -/
def leafValue (version : Value) : Value :=
  .object [("version", version), ("script", .string "0x00"), ("description", .string "")]

/-- A transaction object with the given amount. -/
def txValue (amount : Value) : Value :=
  .object
    [("chain_id", .number (.posInt 1)), ("nonce", .number (.posInt 0)),
      ("from", .string "0x0000000000000000000000000000000000000001"),
      ("to", .string "0x0000000000000000000000000000000000000002"),
      ("value", amount), ("gas_limit", .number (.posInt 100000))]

end Hca.Interface
