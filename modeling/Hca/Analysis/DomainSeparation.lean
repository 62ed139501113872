import Hca.Program.Witness

set_option autoImplicit false

/-!
# Domain separation

Five operations hash through `tagged_hash`. `HashCall` is a call of one of them with its
arguments, and `preimage` the byte string it passes to keccak256. The preimage starts with
the tag twice, which tells the operations apart, and the layout of each operation gives its
arguments back: every field has a fixed width but the script, which comes last, and the
calldata, which follows its length.
-/

namespace Hca.Analysis

open Hca.Library Hca.Model Hca.Program

/-! ## Fixed-width fields -/

/-- An integer takes as many bytes as its type has. -/
theorem length_toBeBytes {n : ℕ} (x : BitVec n) : (toBeBytes x).length = n / 8 :=
  BigEndian.length_toBytes _ _

/-- Integers of one type are told apart by their bytes. -/
theorem toBeBytes_injective {n : ℕ} (hn : n % 8 = 0) {x y : BitVec n}
    (h : toBeBytes x = toBeBytes y) : x = y := by
  have hwidth : 256 ^ (n / 8) = 2 ^ n := by
    rw [show 256 = 2 ^ 8 from rfl, ← pow_mul, Nat.mul_div_cancel' (Nat.dvd_of_mod_eq_zero hn)]
  apply BitVec.eq_of_toNat_eq
  apply BigEndian.toBytes_injOn (hwidth ▸ x.isLt) (hwidth ▸ y.isLt) h

/-- A field of fixed width is read off the front of a byte string. -/
theorem field_inj {a b s s' : List U8} (hlen : a.length = b.length) (h : a ++ s = b ++ s') :
    a = b ∧ s = s' := List.append_inj h hlen

/-- An integer field in front of more bytes is read back from them. -/
theorem uintField_inj {n : ℕ} (hn : n % 8 = 0) {x y : BitVec n} {s s' : List U8}
    (h : toBeBytes x ++ s = toBeBytes y ++ s') : x = y ∧ s = s' := by
  obtain ⟨hxy, hs⟩ := field_inj (by rw [length_toBeBytes, length_toBeBytes]) h
  exact ⟨toBeBytes_injective hn hxy, hs⟩

/-- So is a field of fixed size. -/
theorem arrayField_inj {n : ℕ} {a b : Bytes n} {s s' : List U8} (h : a.val ++ s = b.val ++ s') :
    a = b ∧ s = s' := by
  obtain ⟨hab, hs⟩ := field_inj (a.property.trans b.property.symm) h
  exact ⟨Subtype.ext hab, hs⟩

/-- A tagged preimage gives back its tag and its data. -/
theorem taggedInput_inj {tag tag' : Digest} {data data' : List U8}
    (h : taggedInput tag data = taggedInput tag' data') : tag = tag' ∧ data = data' := by
  unfold taggedInput at h
  rw [List.append_assoc, List.append_assoc] at h
  obtain ⟨htag, hrest⟩ := arrayField_inj h
  exact ⟨htag, (arrayField_inj hrest).2⟩

/-! ## The layouts -/

/-- What is hashed of a leaf tells its version and its script. -/
theorem leafInput_inj {l l' : Leaf} (h : l.hashInput = l'.hashInput) :
    l.version = l'.version ∧ l.script = l'.script := by
  obtain ⟨-, hdata⟩ := taggedInput_inj h
  exact List.cons.inj hdata

/-- What is hashed of a branch tells both children. -/
theorem branchInput_inj {a b a' b' : Digest} (h : branchInput a b = branchInput a' b') :
    a = a' ∧ b = b' := by
  obtain ⟨-, hdata⟩ := taggedInput_inj h
  obtain ⟨ha, hb⟩ := arrayField_inj hdata
  exact ⟨ha, Subtype.ext hb⟩

/-- No leaf preimage is a branch preimage. -/
theorem leafInput_ne_branchInput (l : Leaf) (a b : Digest) :
    l.hashInput ≠ branchInput a b := by
  intro h
  obtain ⟨htag, -⟩ := taggedInput_inj h
  exact absurd htag (by decide)

/-- The length written before the calldata is what keeps the calldata apart from the fields
after it. -/
theorem signingData_inj {tx tx' : TxMessage} {leafHash leafHash' : Digest}
    (hlen : tx.data.length < 2 ^ 64) (hlen' : tx'.data.length < 2 ^ 64)
    (h : tx.signingData leafHash = tx'.signingData leafHash') :
    tx = tx' ∧ leafHash = leafHash' := by
  unfold TxMessage.signingData at h
  simp only [List.append_assoc] at h
  obtain ⟨hchain, h⟩ := uintField_inj (by decide) h
  obtain ⟨hnonce, h⟩ := uintField_inj (by decide) h
  obtain ⟨hfrom, h⟩ := arrayField_inj h
  obtain ⟨hto, h⟩ := arrayField_inj h
  obtain ⟨hvalue, h⟩ := uintField_inj (by decide) h
  obtain ⟨hlenfield, h⟩ := uintField_inj (by decide) h
  have hdatalen : tx.data.length = tx'.data.length := by
    have hnat := congrArg BitVec.toNat hlenfield
    rwa [BitVec.toNat_ofNat, BitVec.toNat_ofNat, Nat.mod_eq_of_lt hlen,
      Nat.mod_eq_of_lt hlen'] at hnat
  obtain ⟨hdata, h⟩ := field_inj hdatalen h
  obtain ⟨hgas, h⟩ := uintField_inj (by decide) h
  obtain ⟨hfee, h⟩ := uintField_inj (by decide) h
  obtain ⟨hpriority, h⟩ := uintField_inj (by decide) h
  refine ⟨?_, Subtype.ext h⟩
  cases tx
  cases tx'
  simp only [TxMessage.mk.injEq]
  exact ⟨hchain, hnonce, hfrom, hto, hvalue, hdata, hgas, hfee, hpriority⟩

/-- What is signed of a rotation tells the request. -/
theorem rotationData_inj {r r' : RotationRequest} (h : r.signingData = r'.signingData) :
    r = r' := by
  unfold RotationRequest.signingData at h
  simp only [List.append_assoc] at h
  obtain ⟨hchain, h⟩ := uintField_inj (by decide) h
  obtain ⟨hnonce, h⟩ := uintField_inj (by decide) h
  obtain ⟨hfrom, h⟩ := arrayField_inj h
  have hroot := Subtype.ext h
  cases r
  cases r'
  simp only [RotationRequest.mk.injEq]
  exact ⟨hchain, hnonce, hfrom, hroot⟩

/-! ## Calls -/

/-- The operations that hash through `tagged_hash`. -/
inductive Operation where
  | leaf
  | branch
  | signing
  | rotation
  | address
  deriving DecidableEq

/-- The tag hash that the operation puts in front. -/
def Operation.tag : Operation → Digest
  | leaf => TagHashes.leaf
  | branch => TagHashes.branch
  | signing => TagHashes.witness
  | rotation => TagHashes.rotate
  | address => TagHashes.addr

/-- No two operations share a tag. -/
theorem Operation.tag_injective : Function.Injective Operation.tag := by
  intro o o' h
  cases o <;> cases o' <;> first | rfl | exact absurd h (by decide)

/-- A call of one of the operations, with its arguments. -/
inductive HashCall where
  | leaf (version : U8) (script : List U8)
  | branch (left right : Digest)
  | signing (tx : TxMessage) (leafHash : Digest)
  | rotation (request : RotationRequest)
  | address (authRoot : Digest)

namespace HashCall

/-- The operation that is called. -/
def operation : HashCall → Operation
  | leaf _ _ => .leaf
  | branch _ _ => .branch
  | signing _ _ => .signing
  | rotation _ => .rotation
  | address _ => .address

/-- What the call hashes behind the tag. -/
def data : HashCall → List U8
  | leaf version script => version :: script
  | branch left right => left.val ++ right.val
  | signing tx leafHash => tx.signingData leafHash
  | rotation request => request.signingData
  | address authRoot => authRoot.val

/-- The byte string the call passes to keccak256. -/
def preimage (c : HashCall) : List U8 := taggedInput c.operation.tag c.data

/-- The calldata the call hashes, if it is one that does. -/
def calldata : HashCall → List U8
  | signing tx _ => tx.data
  | _ => []

/-- A preimage gives back the operation and its arguments. -/
theorem preimage_inj {c c' : HashCall} (hc : c.calldata.length < 2 ^ 64)
    (hc' : c'.calldata.length < 2 ^ 64) (h : c.preimage = c'.preimage) : c = c' := by
  obtain ⟨htag, hdata⟩ := taggedInput_inj h
  have hop := Operation.tag_injective htag
  cases c <;> cases c' <;> cases hop
  case leaf.leaf =>
    obtain ⟨rfl, rfl⟩ := List.cons.inj hdata
    rfl
  case branch.branch =>
    obtain ⟨rfl, hright⟩ := arrayField_inj hdata
    rw [Subtype.ext hright]
  case signing.signing =>
    obtain ⟨rfl, rfl⟩ := signingData_inj hc hc' hdata
    rfl
  case rotation.rotation =>
    rw [rotationData_inj hdata]
  case address.address =>
    rw [Subtype.ext hdata]

/-- Every preimage is longer than a digest. -/
theorem length_preimage_ge (c : HashCall) : 64 ≤ c.preimage.length := by
  have htag := c.operation.tag.property
  rw [preimage, taggedInput, List.length_append, List.length_append, htag]
  omega

end HashCall

/-! ## Separation -/

/-- Each operation hashes the preimage of its call, whatever the hash function. Equal
preimages come from the same operation with equal arguments, and none of them is the
32-byte string that the outer hash of `derive_address` reads.
SOURCE: hash.rs:64-142, merkle.rs:68-73, witness.rs:54-73 -/
theorem preimages_separated {c c' : HashCall} (hc : c.calldata.length < 2 ^ 64)
    (hc' : c'.calldata.length < 2 ^ 64) :
    (∀ keccak256,
      (∀ l : Leaf, l.hash keccak256 = keccak256 (HashCall.leaf l.version l.script).preimage) ∧
      (∀ a b, branchHash keccak256 a b = keccak256 (HashCall.branch a b).preimage) ∧
      (∀ (tx : TxMessage) leafHash,
        tx.signingHash keccak256 leafHash = keccak256 (HashCall.signing tx leafHash).preimage) ∧
      (∀ r : RotationRequest,
        r.signingHash keccak256 = keccak256 (HashCall.rotation r).preimage) ∧
      (∀ authRoot, deriveAddressInner keccak256 authRoot =
        keccak256 (HashCall.address authRoot).preimage) ∧
      (∀ authRoot, (deriveAddress keccak256 authRoot).val =
        (keccak256 (deriveAddressInner keccak256 authRoot).val).val.drop 12) ∧
      (∀ authRoot, c.preimage ≠ (deriveAddressInner keccak256 authRoot).val)) ∧
    (c.preimage = c'.preimage → c = c') := by
  constructor
  · intro keccak256
    refine ⟨fun _ => rfl, fun _ _ => rfl, fun _ _ => rfl, fun _ => rfl, fun _ => rfl,
      fun _ => rfl, ?_⟩
    intro authRoot h
    have hlen := congrArg List.length h
    have hge := c.length_preimage_ge
    rw [(deriveAddressInner keccak256 authRoot).property] at hlen
    omega
  · exact HashCall.preimage_inj hc hc'

/-- A transfer with four bytes of calldata. -/
def sampleTx : TxMessage where
  chainId := 1
  nonce := 7
  «from» := List.Vector.replicate 20 0x11
  «to» := List.Vector.replicate 20 0x22
  value := 1000000000000000
  data := [0x60, 0x60, 0x60, 0x40]
  gasLimit := 100000
  maxFeePerGas := 2000000000
  maxPriorityFeePerGas := 1000000000

/-- What a transaction signs is never what a leaf hashes. -/
theorem preimages_separated_sample :
    (HashCall.signing sampleTx TagHashes.leaf).preimage ≠ (HashCall.leaf 0x01 [0x00]).preimage := by
  intro h
  cases (preimages_separated (by decide) (by decide)).2 h

end Hca.Analysis
