import Hca.Library.Reader
import Hca.Program.Witness

set_option autoImplicit false

/-!
# RLP and the transaction format

The encoders return byte strings; `usize` enters through the length fields of long items
only. The decoders return the value of the item at the front of their input and the number
of bytes it takes, or an error with the text of the source. `decode_hca_tx` moves a cursor
over the payload of the outer list: its macros are readers.
-/

namespace Hca.Program

open Hca.Library Hca.Model

variable (t : Target)

/-! ## Encoding -/

/-- `bytes[start..]` for the position `start` of the first nonzero byte, or for `otherwise`
when all bytes are zero.
SOURCE: rlp.rs:41-42, rlp.rs:525-530 -/
def trimZeros (bytes : List U8) (otherwise : ℕ) : List U8 :=
  bytes.drop ((bytes.findIdx? (· ≠ 0)).getD otherwise)

/-- SOURCE: rlp.rs:524-531 -/
def encodeLength (len : ℕ) : List U8 :=
  let bytes := BigEndian.toBytes t.bytes len
  trimZeros bytes (bytes.length - 1)

/-- A header for `len` bytes of payload: `short` is the prefix of the short form, `long` that
of the long form.
SOURCE: rlp.rs:80-94, rlp.rs:112-130 -/
def encodeHeader (short long : U8) (len : ℕ) : List U8 :=
  if len ≤ 55 then
    [short + BitVec.ofNat 8 len]
  else
    let lenBytes := encodeLength t len
    (long + BitVec.ofNat 8 lenBytes.length) :: lenBytes

/-- SOURCE: rlp.rs:68-95 -/
def encodeBytes (data : List U8) : List U8 :=
  match data with
  | [] => [0x80]
  | [b] => if b < 0x80 then [b] else encodeHeader t 0x80 0xb7 1 ++ [b]
  | data => encodeHeader t 0x80 0xb7 data.length ++ data

/-- SOURCE: rlp.rs:34-50 -/
def encodeUint (value : U128) : List U8 :=
  if value = 0 then
    [0x80]
  else
    let bytes := toBeBytes value
    match trimZeros bytes bytes.length with
    | [b] => if b < 0x80 then [b] else encodeBytes t [b]
    | trimmed => encodeBytes t trimmed

/-- SOURCE: rlp.rs:108-131 -/
def encodeList (items : List (List U8)) : List U8 :=
  let totalLen := (items.map List.length).sum
  encodeHeader t 0xc0 0xf7 totalLen ++ items.flatten

/-- SOURCE: rlp.rs:134-139 -/
def encodeAddress (address : Bytes 20) : List U8 := (0x80 + 20) :: address.val

/-! ## Decoding items -/

/-- `Err(HcaError::RlpDecodeError(msg))` -/
def decodeError {α : Type} (msg : String) : HcaResult α := .error (.err (.rlpDecodeError msg))

/-- `let mut buf = [0u8; n]; buf[n - bytes.len()..].copy_from_slice(bytes)` -/
def copyToEnd (n : ℕ) (bytes : List U8) : HcaResult (List U8) := do
  let start ← sub n bytes.length
  let target ← sliceFrom (List.replicate n (0 : U8)) start
  let copied ← copyFromSlice target.length bytes
  pure (List.replicate start 0 ++ copied.val)

/-- SOURCE: rlp.rs:508-521 -/
def decodeUsizeBe (bytes : List U8) : HcaResult ℕ := do
  rejectIf (bytes.length > 8) (.rlpDecodeError s!"length field too wide: {bytes.length} bytes")
  let buf ← copyToEnd 8 bytes
  let val := BigEndian.ofBytes buf
  let len ← okOr (tryFrom t.bits (BitVec.ofNat 64 val))
    (.rlpDecodeError s!"length {val} overflows usize on this platform")
  pure len.toNat

/-- `if input.len() < 1 + len` with the error of the short form of an item.
SOURCE: rlp.rs:217-223, rlp.rs:320-326 -/
def checkShort (item : String) (input : List U8) (len : ℕ) : HcaResult Unit := do
  let total ← add t.bits 1 len
  if input.length < total then do
    let available ← sub input.length 1
    decodeError s!"short {item} truncated: need {len} bytes, have {available}"
  else
    pure ()

/-- SOURCE: rlp.rs:225-230 -/
def checkSingleByte (input : List U8) (len : ℕ) : HcaResult Unit :=
  if len = 1 then do
    let b ← index input 1
    rejectIf (b < 0x80) (.rlpDecodeError
      s!"non-canonical encoding: single byte 0x{lowerHex b} must not use length prefix")
  else
    pure ()

/-- The length field of the long form of an item: `input[1..1 + len_of_len]`, read if the
input is long enough.
SOURCE: rlp.rs:237-248, rlp.rs:332-337 -/
def lengthBytes (item : String) (input : List U8) (lenOfLen : ℕ) : HcaResult (List U8) := do
  let start ← add t.bits 1 lenOfLen
  rejectIf (input.length < start) (.rlpDecodeError s!"long {item} length bytes truncated")
  slice input 1 start

/-- The payload of the long form of an item, with the number of bytes the item takes.
SOURCE: rlp.rs:256-266, rlp.rs:338-348 -/
def longPayload (item : String) (input : List U8) (lenOfLen len : ℕ) :
    HcaResult (List U8 × ℕ) := do
  let total ← okOr ((checkedAdd t.bits 1 lenOfLen).bind fun n => checkedAdd t.bits n len)
    (.rlpDecodeError "length overflow")
  rejectIf (input.length < total)
    (.rlpDecodeError s!"long {item} payload truncated: need {len} bytes")
  let start ← add t.bits 1 lenOfLen
  let payload ← slice input start total
  pure (payload, total)

/-- The payload of the short form of an item, with the number of bytes the item takes.
SOURCE: rlp.rs:231, rlp.rs:327 -/
def shortPayload (input : List U8) (len : ℕ) : HcaResult (List U8 × ℕ) := do
  let total ← add t.bits 1 len
  let payload ← slice input 1 total
  pure (payload, total)

/-- The long form of a byte string, whose first byte is `first`.
SOURCE: rlp.rs:235-267 -/
def decodeLongBytes (input : List U8) (first : U8) : HcaResult (List U8 × ℕ) := do
  let lenOfLen ← sub first.toNat 0xb7
  let lenBytes ← lengthBytes t "string" input lenOfLen
  let b ← index input 1
  rejectIf (b = 0x00)
    (.rlpDecodeError "non-canonical encoding: length field has leading zero")
  let len ← decodeUsizeBe t lenBytes
  rejectIf (len ≤ 55) (.rlpDecodeError
    s!"non-canonical encoding: length {len} should use short string encoding")
  longPayload t "string" input lenOfLen len

/-- The short form of a byte string, whose first byte is `first`.
SOURCE: rlp.rs:214-232 -/
def decodeShortBytes (input : List U8) (first : U8) : HcaResult (List U8 × ℕ) := do
  let len ← sub first.toNat 0x80
  checkShort t "string" input len
  checkSingleByte input len
  shortPayload t input len

/-- SOURCE: rlp.rs:202-272 -/
def decodeBytes (input : List U8) : HcaResult (List U8 × ℕ) := do
  rejectIf (input = []) (.rlpDecodeError "empty input")
  let first ← index input 0
  if first < 0x80 then pure ([first], 1)
  else if first ≤ 0xb7 then decodeShortBytes t input first
  else if first ≤ 0xbf then decodeLongBytes t input first
  else decodeError s!"expected byte string, got list prefix 0x{lowerHex first}"

/-- SOURCE: rlp.rs:282-293 -/
def decodeUint (input : List U8) : HcaResult (U128 × ℕ) := do
  let (bytes, consumed) ← decodeBytes t input
  rejectIf (bytes.length > 16)
    (.rlpDecodeError s!"integer too wide: {bytes.length} bytes (max 16)")
  let buf ← copyToEnd 16 bytes
  pure (BitVec.ofNat 128 (BigEndian.ofBytes buf), consumed)

/-- The short form of a list, whose first byte is `first`.
SOURCE: rlp.rs:317-328 -/
def decodeShortList (input : List U8) (first : U8) : HcaResult (List U8 × ℕ) := do
  let len ← sub first.toNat 0xc0
  checkShort t "list" input len
  shortPayload t input len

/-- The long form of a list, whose first byte is `first`. Unlike a byte string, a list may
have leading zeros in its length field and a length that fits the short form.
SOURCE: rlp.rs:330-348 -/
def decodeLongList (input : List U8) (first : U8) : HcaResult (List U8 × ℕ) := do
  let lenOfLen ← sub first.toNat 0xf7
  let lenBytes ← lengthBytes t "list" input lenOfLen
  let len ← decodeUsizeBe t lenBytes
  longPayload t "list" input lenOfLen len

/-- SOURCE: rlp.rs:303-349 -/
def decodeList (input : List U8) : HcaResult (List U8 × ℕ) := do
  rejectIf (input = []) (.rlpDecodeError "empty input")
  let first ← index input 0
  if first < 0xc0 then
    decodeError s!"expected list prefix >= 0xc0, got 0x{lowerHex first}"
  else if first ≤ 0xf7 then decodeShortList t input first
  else decodeLongList t input first

/-! ## Transactions -/

/-- The `fields` of `encode`.
SOURCE: witness.rs:159-173 -/
def HCAWitness.fields (w : HCAWitness t) : List (List U8) :=
  let siblings := w.merkleProof.siblings.map fun s => encodeBytes t s.val
  [encodeUint t (w.leafVersion.setWidth 128), encodeBytes t w.leafScript,
    encodeUint t (w.merkleProof.leafIndex.setWidth 128), encodeList t siblings,
    encodeBytes t w.witnessData]

/-- SOURCE: witness.rs:151-182 -/
def HCAWitness.encode (w : HCAWitness t) : HcaResult (List U8) := do
  rejectIf (w.isSigned = false) .witnessNotSigned
  let encoded := encodeList t (HCAWitness.fields t w)
  rejectIf (encoded.length > maxWitnessSize) (.witnessTooLarge encoded.length)
  pure encoded

/-- The `fields` of `encode_hca_tx`.
SOURCE: rlp.rs:152-180 -/
def hcaTxFields (tx : TxMessage) (w : HCAWitness t) : List (List U8) :=
  let siblings := w.merkleProof.siblings.map fun s => encodeBytes t s.val
  [ -- transaction fields
    encodeUint t (tx.chainId.setWidth 128),
    encodeUint t (tx.nonce.setWidth 128),
    encodeAddress tx.«from»,
    encodeAddress tx.«to»,
    encodeUint t tx.value,
    encodeUint t (tx.gasLimit.setWidth 128),
    encodeUint t tx.maxFeePerGas,
    encodeUint t tx.maxPriorityFeePerGas,
    -- the access list
    encodeList t [],
    encodeBytes t tx.data,
    -- witness fields
    encodeUint t (w.leafVersion.setWidth 128),
    encodeBytes t w.leafScript,
    encodeUint t (w.merkleProof.leafIndex.setWidth 128),
    encodeList t siblings,
    encodeBytes t w.witnessData]

/-- SOURCE: rlp.rs:146-191 -/
def encodeHcaTx (tx : TxMessage) (w : HCAWitness t) : HcaResult (List U8) := do
  rejectIf (w.isSigned = false) .witnessNotSigned
  pure (hcaTxType :: encodeList t (hcaTxFields t tx w))

/-- `next_uint!()` -/
def nextUint : Reader HcaError U8 U128 := next t.bits (decodeUint t)

/-- `next_bytes!()` -/
def nextBytes : Reader HcaError U8 (List U8) := next t.bits (decodeBytes t)

/-- `next_list_payload!()` -/
def nextListPayload : Reader HcaError U8 (List U8) := next t.bits (decodeList t)

/-- `T::try_from(next_uint!())` for an unsigned `T` of `n` bits. -/
def nextUintAs (n : ℕ) (msg : String) : Reader HcaError U8 (BitVec n) := do
  let value ← nextUint t
  liftM (okOr (tryFrom n value) (HcaError.rlpDecodeError msg))

/-- `[u8; n]` from a byte string, which must have `n` bytes.
SOURCE: rlp.rs:410-428, rlp.rs:456-463 -/
def toArray (n : ℕ) (what : String) (bytes : List U8) : HcaResult (Bytes n) := do
  rejectIf (bytes.length ≠ n)
    (.rlpDecodeError s!"{what} must be {n} bytes, got {bytes.length}")
  copyFromSlice n bytes

/-- `next_bytes!()` into a `[u8; n]`. -/
def nextArray (n : ℕ) (what : String) : Reader HcaError U8 (Bytes n) := do
  let bytes ← nextBytes t
  liftM (toArray n what bytes)

/-- SOURCE: rlp.rs:449-464 -/
def decodeSiblings (siblingsPayload : List U8) : HcaResult (List Digest) :=
  readAll (nextArray t 32 "sibling") siblingsPayload

/-- SOURCE: rlp.rs:404-439 -/
def readTransaction : Reader HcaError U8 TxMessage := do
  let chainId ← nextUintAs t 64 "chain_id overflows u64"
  let nonce ← nextUintAs t 64 "nonce overflows u64"
  let «from» ← nextArray t 20 "from address"
  let «to» ← nextArray t 20 "to address"
  let value ← nextUint t
  let gasLimit ← nextUintAs t 64 "gas_limit overflows u64"
  let maxFeePerGas ← nextUint t
  let maxPriorityFeePerGas ← nextUint t
  -- the access list: its payload is read and dropped
  let _ ← nextListPayload t
  let data ← nextBytes t
  pure { chainId, nonce, «from», «to», value, data, gasLimit, maxFeePerGas,
         maxPriorityFeePerGas }

/-- The witness fields, as they are read.
SOURCE: rlp.rs:441-467 -/
def readWitness : Reader HcaError U8 (HCAWitness t) := do
  let leafVersion ← nextUintAs t 8 "leaf_version overflows u8"
  let leafScript ← nextBytes t
  let leafIndex ← nextUintAs t t.bits "leaf_index overflows usize"
  let siblings ← nextSiblings
  let witnessData ← nextBytes t
  pure { leafVersion, leafScript, merkleProof := { leafIndex, siblings }, witnessData }
where
  nextSiblings : Reader HcaError U8 (List Digest) := do
    let siblingsPayload ← nextListPayload t
    liftM (decodeSiblings t siblingsPayload)

/-- The fields of the transaction and of the witness, one after the other. -/
def readFields : Reader HcaError U8 (TxMessage × HCAWitness t) := do
  let tx ← readTransaction t
  let fields ← readWitness t
  pure (tx, fields)

/-- SOURCE: rlp.rs:469-475 -/
def rejectTrailing (payload : List U8) (cursor : ℕ) : HcaResult Unit :=
  if cursor ≠ payload.length then do
    let unexpected ← sub payload.length cursor
    decodeError s!"trailing bytes after payload: {unexpected} unexpected bytes"
  else
    pure ()

/-- The witness made of the fields that were read: the leaf goes through `Leaf::new`, and a
signature is attached if there is one.
SOURCE: rlp.rs:490-500 -/
def rebuildWitness (fields : HCAWitness t) : HcaResult (HCAWitness t) := do
  let leaf ← mapErr (fun e => .rlpDecodeError s!"invalid leaf in decoded tx: {e.display}")
    (Leaf.new fields.leafVersion fields.leafScript "")
  let witness := HCAWitness.build leaf fields.merkleProof
  if fields.witnessData ≠ [] then witness.attachSignature fields.witnessData
  else pure witness

/-- SOURCE: rlp.rs:362-503 -/
def decodeHcaTx (raw : List U8) : HcaResult (TxMessage × HCAWitness t) := do
  rejectIf (raw = []) (.rlpDecodeError "empty input")
  let txType ← index raw 0
  rejectIf (txType ≠ hcaTxType) (.rlpDecodeError
    s!"wrong tx type: expected 0x{lowerHex hcaTxType}, got 0x{lowerHex txType}")
  let list ← sliceFrom raw 1
  -- the number of bytes that the list takes is not looked at
  let (payload, _) ← decodeList t list
  let ((tx, fields), cursor) ← readFields t payload 0
  rejectTrailing payload cursor
  let witness ← rebuildWitness t fields
  pure (tx, witness)

end Hca.Program
