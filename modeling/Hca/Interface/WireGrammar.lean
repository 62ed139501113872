import Hca.Program.Rlp

set_option autoImplicit false

/-!
# The grammar of the wire format

The languages that the decoders accept, one for each value. A byte string has one word, its
encoding. An integer has one for each number of leading zero bytes that still fits sixteen
bytes, and a list one for each header that states its length.
-/

namespace Hca.Interface

open Hca.Library Hca.Model Hca.Program

variable (t : Target)

/-- The encoding of a byte string, if a `usize` can count it. -/
def bytesWord (data : List U8) : Language U8 :=
  {w | w = encodeBytes t data ∧ w.length < 2 ^ t.bits}

/-- The byte strings of at most sixteen bytes whose value is the integer, encoded. -/
def uintWord (n : ℕ) : Language U8 :=
  {w | ∃ bytes : List U8, bytes.length ≤ 16 ∧ BigEndian.ofBytes bytes = n ∧
    w = encodeBytes t bytes}

/-- A header of a list with `len` bytes of payload: the short form, or the long form with any
length field of up to eight bytes that denotes `len`. -/
def ListHeader (header : List U8) (len : ℕ) : Prop :=
  (len ≤ 55 ∧ header = [0xc0 + BitVec.ofNat 8 len]) ∨
    ∃ lenBytes : List U8, 1 ≤ lenBytes.length ∧ lenBytes.length ≤ 8 ∧
      BigEndian.ofBytes lenBytes = len ∧
      header = (0xf7 + BitVec.ofNat 8 lenBytes.length) :: lenBytes

/-- The payload of a list behind one of its headers. -/
def listWord (payload : List U8) : Language U8 :=
  {w | ∃ header, ListHeader header payload.length ∧ w = header ++ payload ∧
    w.length < 2 ^ t.bits}

/-- Any list: what the decoder takes for an access list. -/
def anyListWord : Language U8 := {w | ∃ payload, w ∈ listWord t payload}

/-- The items of a list of siblings. -/
def siblingsPayload (siblings : List Digest) : Language U8 :=
  (siblings.map fun s => bytesWord t s.val).prod

/-- The blocks of a list of siblings: each is 0xa0 and the 32 bytes. -/
def siblingBlocks (siblings : List Digest) : List U8 :=
  (siblings.map fun s => 0xa0 :: s.val).flatten

/-- A list of siblings. -/
def siblingsWord (siblings : List Digest) : Language U8 :=
  {w | ∃ payload ∈ siblingsPayload t siblings, w ∈ listWord t payload}

/-- The transaction fields. -/
def transactionWord (tx : TxMessage) : Language U8 :=
  uintWord t tx.chainId.toNat * (uintWord t tx.nonce.toNat * (bytesWord t tx.«from».val *
    (bytesWord t tx.«to».val * (uintWord t tx.value.toNat * (uintWord t tx.gasLimit.toNat *
    (uintWord t tx.maxFeePerGas.toNat * (uintWord t tx.maxPriorityFeePerGas.toNat *
    (anyListWord t * bytesWord t tx.data))))))))

/-- The witness fields. -/
def witnessWord (w : HCAWitness t) : Language U8 :=
  uintWord t w.leafVersion.toNat * (bytesWord t w.leafScript *
    (uintWord t w.merkleProof.leafIndex.toNat *
    (siblingsWord t w.merkleProof.siblings * bytesWord t w.witnessData)))

/-- A transaction: the type byte and one list of the fifteen fields, with a leaf that
`Leaf::new` accepts. -/
def hcaTxWord (tx : TxMessage) (w : HCAWitness t) : Language U8 :=
  {raw | (∃ leaf, Leaf.new w.leafVersion w.leafScript "" = .ok leaf) ∧
    ∃ payload ∈ transactionWord t tx * witnessWord t w, ∃ list ∈ listWord t payload,
      raw = hcaTxType :: list}

/-- The byte string starts with the fields of a transaction, whatever is in its leaf. -/
def FramesTx (raw : List U8) (tx : TxMessage) (w : HCAWitness t) : Prop :=
  ∃ payload ∈ transactionWord t tx * witnessWord t w, ∃ list ∈ listWord t payload, ∃ s,
    raw = hcaTxType :: list ++ s

/-! ## Forms that are not canonical -/

/-- The input starts with a list in the long form, with a length field that the encoder never
writes: one with a leading zero byte, or one for a length that fits the short form. -/
def NonCanonicalList (input : List U8) : Prop :=
  ∃ lenBytes payload s : List U8,
    input = (0xf7 + BitVec.ofNat 8 lenBytes.length) :: lenBytes ++ payload ++ s ∧
    1 ≤ lenBytes.length ∧ lenBytes.length ≤ 8 ∧
    BigEndian.ofBytes lenBytes = payload.length ∧
    1 + lenBytes.length + payload.length < 2 ^ t.bits ∧
    (lenBytes.head? = some 0x00 ∨ payload.length ≤ 55)

/-- The input starts with an integer that has a leading zero byte: a zero that is not the
empty string, or a string of two to sixteen bytes that starts with a zero. -/
inductive PaddedUint : List U8 → Prop where
  | zero (s : List U8) : PaddedUint (0x00 :: s)
  | leading (bytes s : List U8) (hpos : 1 ≤ bytes.length) (hle : bytes.length ≤ 15) :
      PaddedUint ((0x80 + BitVec.ofNat 8 (bytes.length + 1)) :: 0x00 :: bytes ++ s)

/-! ## Framed inputs -/

/-- What a canonically framed input is made of: the fifteen fields, each of the kind the
format has in its place, and any further items. -/
structure Frame where
  chainId : U128
  nonce : U128
  «from» : List U8
  «to» : List U8
  value : U128
  gasLimit : U128
  maxFeePerGas : U128
  maxPriorityFeePerGas : U128
  accessList : List (List U8)
  data : List U8
  leafVersion : U128
  leafScript : List U8
  leafIndex : U128
  siblings : List (List U8)
  witnessData : List U8
  further : List (List U8)

namespace Frame

/-- The encoded fields, followed by the further items. -/
def items (f : Frame) : List (List U8) :=
  [encodeUint t f.chainId, encodeUint t f.nonce, encodeBytes t f.«from», encodeBytes t f.«to»,
    encodeUint t f.value, encodeUint t f.gasLimit, encodeUint t f.maxFeePerGas,
    encodeUint t f.maxPriorityFeePerGas, encodeList t f.accessList, encodeBytes t f.data,
    encodeUint t f.leafVersion, encodeBytes t f.leafScript, encodeUint t f.leafIndex,
    encodeList t f.siblings, encodeBytes t f.witnessData] ++ f.further

/-- The framed input: the type byte and the list of the items. -/
def raw (f : Frame) : List U8 := hcaTxType :: encodeList t (f.items t)

end Frame

end Hca.Interface
