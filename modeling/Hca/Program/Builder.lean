import Hca.Program.Witness

set_option autoImplicit false

/-!
# Builders

The builders of trees and of transactions. They collect what they are given call by call and
check it in `build`.
-/

namespace Hca.Program

open Hca.Library Hca.Model

/-! ## Trees -/

/-- A description, borrowed or owned.
SOURCE: builder.rs:42-54 -/
inductive Desc where
  | static (s : String)
  | owned (s : String)
  deriving DecidableEq

/-- SOURCE: builder.rs:48-53 -/
def Desc.asStr : Desc → String
  | static s => s
  | owned s => s

/-- The leaves that were added, in order.
SOURCE: builder.rs:94-97 -/
structure TreeBuilder where
  pending : List (U8 × List U8 × Desc)

namespace TreeBuilder

/-- SOURCE: builder.rs:101-103 -/
def new : TreeBuilder := ⟨[]⟩

/-- SOURCE: builder.rs:109-113 -/
def addLeaf (b : TreeBuilder) (version : U8) (script : List U8) (description : String) :
    TreeBuilder :=
  ⟨b.pending ++ [(version, script, .static description)]⟩

/-- SOURCE: builder.rs:116-120 -/
def addLeafOwned (b : TreeBuilder) (version : U8) (script : List U8) (description : String) :
    TreeBuilder :=
  ⟨b.pending ++ [(version, script, .owned description)]⟩

/-- SOURCE: builder.rs:129-141 -/
def build (t : Target) (keccak256 : List U8 → Digest) (b : TreeBuilder) :
    HcaResult MerkleTree := do
  rejectIf (b.pending = []) .emptyTree
  let leaves ← b.pending.mapM fun (version, script, desc) =>
    Leaf.new version script desc.asStr
  MerkleTree.new t keccak256 leaves

end TreeBuilder

/-! ## Transactions -/

/-- The fields of a transaction but for its sender.
SOURCE: builder.rs:169-179 -/
structure TxBuilder where
  chainId : U64
  nonce : U64
  «to» : Bytes 20
  value : U128
  data : List U8
  gasLimit : U64
  maxFeePerGas : U128
  maxPriorityFeePerGas : U128
  deriving DecidableEq

namespace TxBuilder

/-- SOURCE: builder.rs:183-194 -/
def new (chainId : U64) : TxBuilder where
  chainId := chainId
  nonce := 0
  «to» := List.Vector.replicate 20 0
  value := 0
  data := []
  gasLimit := 0
  maxFeePerGas := 0
  maxPriorityFeePerGas := 0

/-! ### Setters
SOURCE: builder.rs:196-236 -/

def setNonce (b : TxBuilder) (nonce : U64) : TxBuilder := { b with nonce }

def setTo (b : TxBuilder) («to» : Bytes 20) : TxBuilder := { b with «to» }

def setValue (b : TxBuilder) (value : U128) : TxBuilder := { b with value }

def setData (b : TxBuilder) (data : List U8) : TxBuilder := { b with data }

def setGasLimit (b : TxBuilder) (gasLimit : U64) : TxBuilder := { b with gasLimit }

def setMaxFeePerGas (b : TxBuilder) (maxFeePerGas : U128) : TxBuilder := { b with maxFeePerGas }

def setMaxPriorityFeePerGas (b : TxBuilder) (maxPriorityFeePerGas : U128) : TxBuilder :=
  { b with maxPriorityFeePerGas }

/-- SOURCE: builder.rs:243-258 -/
def build (b : TxBuilder) («from» : Bytes 20) : HcaResult TxMessage := do
  rejectIf (b.chainId = 0) .invalidAddress
  pure { chainId := b.chainId, nonce := b.nonce, «from», «to» := b.«to», value := b.value,
         data := b.data, gasLimit := b.gasLimit, maxFeePerGas := b.maxFeePerGas,
         maxPriorityFeePerGas := b.maxPriorityFeePerGas }

end TxBuilder

end Hca.Program
