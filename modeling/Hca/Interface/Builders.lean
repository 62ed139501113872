import Hca.Interface.Bytecode
import Hca.Library.CallRuns
import Hca.Program.Builder

set_option autoImplicit false

/-!
# Runs of the builders

A builder is used through a run of calls. What the run stands for is said without the builder:
the leaves that were added, in order, and the fields with the values they were given last.
-/

namespace Hca.Interface

open Hca.Library Hca.Model Hca.Program

/-! ## Trees -/

/-- A call on a tree builder. -/
inductive TreeCall where
  | addLeaf (version : U8) (script : List U8) (description : String)
  | addLeafOwned (version : U8) (script : List U8) (description : String)
  deriving DecidableEq

namespace TreeCall

/-- The leaf that the call stands for. -/
def leaf : TreeCall → Leaf
  | addLeaf version script description => ⟨version, script, description⟩
  | addLeafOwned version script description => ⟨version, script, description⟩

/-- The builder after the call. -/
def apply (b : TreeBuilder) : TreeCall → TreeBuilder
  | addLeaf version script description => b.addLeaf version script description
  | addLeafOwned version script description => b.addLeafOwned version script description

/-- What a run of calls on a new builder builds. -/
def build (t : Target) (keccak256 : List U8 → Digest) (calls : List TreeCall) :
    HcaResult MerkleTree :=
  (calls.foldl apply TreeBuilder.new).build t keccak256

/-- The call adds a leaf that may be in a tree. -/
def Adds (call : TreeCall) : Prop := Admissible call.leaf.version call.leaf.script

end TreeCall

/-! ## Transactions -/

/-- A call on a transaction builder. -/
inductive TxCall where
  | setNonce (nonce : U64)
  | setTo («to» : Bytes 20)
  | setValue (value : U128)
  | setData (data : List U8)
  | setGasLimit (gasLimit : U64)
  | setMaxFeePerGas (maxFeePerGas : U128)
  | setMaxPriorityFeePerGas (maxPriorityFeePerGas : U128)
  deriving DecidableEq

namespace TxCall

/-- The builder after the call. -/
def apply (b : TxBuilder) : TxCall → TxBuilder
  | setNonce x => b.setNonce x
  | setTo x => b.setTo x
  | setValue x => b.setValue x
  | setData x => b.setData x
  | setGasLimit x => b.setGasLimit x
  | setMaxFeePerGas x => b.setMaxFeePerGas x
  | setMaxPriorityFeePerGas x => b.setMaxPriorityFeePerGas x

/-- What a run of calls on a new builder builds. -/
def build (chainId : U64) (calls : List TxCall) («from» : Bytes 20) : HcaResult TxMessage :=
  (calls.foldl apply (TxBuilder.new chainId)).build «from»

/-! ### The values that a call gives -/

end TxCall

end Hca.Interface
