import Hca.Program.Rlp

set_option autoImplicit false

/-!
# Sizes on the wire

What an item takes on the wire, computed from the sizes of what it is made of, without
encoding it.
-/

namespace Hca.Interface

open Hca.Model Hca.Program

/-- The number of bytes of a positive number. -/
def byteSize (n : ℕ) : ℕ := Nat.log 256 n + 1

/-- The size of the header of an item with `len` bytes of payload. -/
def headerSize (len : ℕ) : ℕ := if len ≤ 55 then 1 else 1 + byteSize len

/-- The size of a byte string. -/
def bytesSize (data : List U8) : ℕ :=
  match data with
  | [b] => if b < 0x80 then 1 else 2
  | data => headerSize data.length + data.length

/-- The size of an integer. -/
def uintSize (n : ℕ) : ℕ := if n < 0x80 then 1 else 1 + byteSize n

/-- The size of a list with `len` bytes of payload. -/
def listSize (len : ℕ) : ℕ := headerSize len + len

/-- The size of the fields of a witness; a sibling takes 33 bytes. -/
def witnessPayloadSize {t : Target} (w : HCAWitness t) : ℕ :=
  uintSize w.leafVersion.toNat + bytesSize w.leafScript +
    uintSize w.merkleProof.leafIndex.toNat + listSize (33 * w.merkleProof.siblings.length) +
    bytesSize w.witnessData

/-- The size of a witness. -/
def witnessSize {t : Target} (w : HCAWitness t) : ℕ := listSize (witnessPayloadSize w)

end Hca.Interface
