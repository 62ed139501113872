import Hca.Model.Basic

set_option autoImplicit false

/-!
# Hash primitives and address derivation

`keccak256` is the external hash function; it is a parameter throughout. Every other
hash of the crate passes it one byte string, built by `taggedInput`.
-/

namespace Hca.Program

open Hca.Library Hca.Model

/-- The `input` buffer of `tagged_hash`.
SOURCE: hash.rs:64-71 -/
def taggedInput (tagHash : Digest) (data : List U8) : List U8 :=
  tagHash.val ++ tagHash.val ++ data

/-- `tagged_hash(tag_hash, data) = keccak256(tag_hash || tag_hash || data)`
SOURCE: hash.rs:64-71 -/
def taggedHash (keccak256 : List U8 → Digest) (tagHash : Digest) (data : List U8) : Digest :=
  keccak256 (taggedInput tagHash data)

/-! ## Precomputed tag hashes
SOURCE: hash.rs:104-142 -/

namespace TagHashes

/-- `SHA256("HCAAddr")` -/
def addr : Digest := ⟨[
    0x22, 0x66, 0x89, 0x2b, 0x25, 0x12, 0x6b, 0x72, 0x79, 0x4d, 0xda, 0xb0, 0x79, 0x42, 0x31,
    0xcc, 0x5e, 0x18, 0xd5, 0x28, 0x7d, 0x8c, 0x4c, 0xab, 0xfc, 0x71, 0x26, 0x22, 0x41, 0x00,
    0x87, 0x76], rfl⟩

/-- `SHA256("HCALeaf")` -/
def leaf : Digest := ⟨[
    0x63, 0xb4, 0xbf, 0x0b, 0x15, 0x72, 0x10, 0x93, 0x4a, 0x6f, 0x82, 0x6b, 0x9a, 0x65, 0xc3,
    0xeb, 0xa8, 0x8f, 0x09, 0x28, 0x12, 0x99, 0xf2, 0xec, 0xb4, 0x3f, 0x5e, 0x59, 0x74, 0x63,
    0xc6, 0xd8], rfl⟩

/-- `SHA256("HCABranch")` -/
def branch : Digest := ⟨[
    0xe1, 0x22, 0x9b, 0x7e, 0xf9, 0xc1, 0xb2, 0xac, 0x96, 0x47, 0xc8, 0xa2, 0x1d, 0x13, 0xa8,
    0x74, 0xa3, 0xa3, 0x8c, 0x35, 0x7f, 0xf7, 0xf5, 0xba, 0x25, 0x51, 0xda, 0x28, 0x5b, 0xba,
    0x14, 0x6c], rfl⟩

/-- `SHA256("HCAWitness")` -/
def witness : Digest := ⟨[
    0x1a, 0x50, 0x46, 0xf2, 0xff, 0x0a, 0x6a, 0x86, 0x32, 0x14, 0x64, 0x7a, 0xd5, 0xf8, 0x12,
    0xd1, 0xcd, 0x73, 0xd7, 0x5c, 0x4e, 0xad, 0x1d, 0x7e, 0x3e, 0x98, 0x25, 0x96, 0x36, 0x2c,
    0xae, 0x8e], rfl⟩

/-- `SHA256("HCARotate")` -/
def rotate : Digest := ⟨[
    0xb6, 0x3f, 0x54, 0xdd, 0xab, 0xfd, 0xf3, 0x2b, 0x2d, 0x40, 0x36, 0x94, 0xd0, 0xa7, 0xbb,
    0x23, 0x53, 0xc2, 0x51, 0x2f, 0x93, 0x22, 0x77, 0xa3, 0xb4, 0x7c, 0x7e, 0x9f, 0x62, 0xac,
    0x8e, 0x09], rfl⟩

end TagHashes

/-- `tag.as_bytes()` -/
def asBytes (s : String) : List U8 := s.toUTF8.toList.map UInt8.toBitVec

/-- The tagged hash of a tag string; `sha256` is the external hash function.
SOURCE: hash.rs:77-80 -/
def taggedHashStr (sha256 keccak256 : List U8 → Digest) (tag : String) (data : List U8) :
    Digest :=
  taggedHash keccak256 (sha256 (asBytes tag)) data

/-! ## Address derivation -/

/-- The inner hash of `derive_address`.
SOURCE: address.rs:26 -/
def deriveAddressInner (keccak256 : List U8 → Digest) (authRoot : Digest) : Digest :=
  taggedHash keccak256 TagHashes.addr authRoot.val

/-- `address = keccak256(tagged_hash("HCAAddr", auth_root))[12..]`
SOURCE: address.rs:25-31 -/
def deriveAddress (keccak256 : List U8 → Digest) (authRoot : Digest) : Bytes 20 :=
  let inner := deriveAddressInner keccak256 authRoot
  let hash := keccak256 inner.val
  ⟨hash.val.drop 12, by rw [List.length_drop, hash.property]⟩

end Hca.Program
