import Hca.Analysis.JsonTransactions
import Hca.Program.Commands

set_option autoImplicit false

/-!
# Hexadecimal texts

What the entry points print of bytes is read back by each of their parsers: a byte is printed
as two digits, and `decode_hex` inverts the printer whatever follows.
-/

namespace Hca.Analysis

open Hca.Library Hca.Model Hca.Program Hca.Interface

/-! ## Digits -/

/-- A byte is printed as its two hexadecimal digits. -/
theorem toList_lowerHex (b : U8) : (lowerHex b).toList =
    [Nat.digitChar (b.toNat / 16), Nat.digitChar (b.toNat % 16)] := by
  revert b
  decide +kernel

/-- A printed digit is read back. -/
theorem hexDigit_digitChar {d : ℕ} (h : d < 16) : hexDigit (Nat.digitChar d) = some d := by
  revert d
  decide

/-- The digits of a byte are read back. -/
theorem hexDecode_lowerHex (b : U8) (rest : List Char) :
    hexDecode ((lowerHex b).toList ++ rest) = (hexDecode rest).map (b :: ·) := by
  have hhigh : hexDigit (Nat.digitChar (b.toNat / 16)) = some (b.toNat / 16) :=
    hexDigit_digitChar (by omega)
  have hlow : hexDigit (Nat.digitChar (b.toNat % 16)) = some (b.toNat % 16) :=
    hexDigit_digitChar (Nat.mod_lt _ (by decide))
  have hbyte : BitVec.ofNat 8 (16 * (b.toNat / 16) + b.toNat % 16) = b := by
    rw [Nat.div_add_mod, BitVec.ofNat_toNat, BitVec.setWidth_eq]
  rw [toList_lowerHex, List.cons_append, List.cons_append, List.nil_append, hexDecode, hhigh,
    hlow]
  cases hexDecode rest <;> simp [hbyte]

/-! ## Bytes -/

/-- Bytes are printed as the prefix and two digits for each of them. -/
theorem toList_hexEncode0x (bytes : List U8) :
    (hexEncode0x bytes).toList = '0' :: 'x' :: bytes.flatMap fun b => (lowerHex b).toList := by
  rw [hexEncode0x, String.toList_append]
  simp [List.flatMap, Function.comp_def]

/-- The digits of bytes are read back. -/
theorem hexDecode_digits (bytes : List U8) :
    hexDecode (bytes.flatMap fun b => (lowerHex b).toList) = some bytes := by
  induction bytes with
  | nil => rfl
  | cons b bytes ih =>
    rw [List.flatMap_cons, hexDecode_lowerHex, ih]
    rfl

/-- Printed bytes declare the bytes. -/
@[simp] theorem declaredBytes_hexEncode0x (bytes : List U8) :
    declaredBytes (.string (hexEncode0x bytes)) = some bytes := by
  rw [declaredBytes, toList_hexEncode0x, stripPrefix0x, hexDecode_digits]

/-- They do so without the prefix too. -/
theorem declaredBytes_digits (bytes : List U8) :
    declaredBytes (.string (String.ofList (bytes.flatMap fun b => (lowerHex b).toList))) =
      some bytes := by
  rw [declaredBytes, String.toList_ofList,
    stripPrefix0x_of_ne (ne_prefix0x_of_hex (hexDecode_digits bytes)), hexDecode_digits]

/-- Texts of different bytes differ. -/
theorem hexEncode0x_injective : Function.Injective hexEncode0x := by
  intro a b h
  have ha := declaredBytes_hexEncode0x a
  rw [h, declaredBytes_hexEncode0x] at ha
  exact (Option.some.inj ha).symm

/-! ## Hashes -/

variable {lib : JsonLib}

/-- A hash is read iff 32 bytes are declared. -/
theorem decode32_eq_ok {s : String} {digest : Digest} :
    Cli.decode32 lib s = .ok digest ↔ declaredBytes (.string s) = some digest.val := by
  unfold Cli.decode32
  simp only [bind_eq_ok, decodeHex_eq_ok, rejectIf_eq_ok, copyFromSlice_eq_ok, exists_const,
    not_not]
  constructor
  · rintro ⟨bytes, hbytes, -, rfl⟩
    exact hbytes
  · intro hbytes
    exact ⟨_, hbytes, digest.property, rfl⟩

/-- A printed hash is read back. -/
@[simp] theorem decode32_hexEncode0x (digest : Digest) :
    Cli.decode32 lib (hexEncode0x digest.val) = .ok digest :=
  decode32_eq_ok.mpr (declaredBytes_hexEncode0x _)

/-- Printed hashes are read back in order. -/
theorem forall₂_declaredBytes_map {xs : List Digest} :
    List.Forall₂ (fun (v : Value) (s : Digest) => declaredBytes v = some s.val)
      (xs.map fun s => .string (hexEncode0x s.val)) xs := by
  rw [List.forall₂_map_left_iff, List.forall₂_same]
  exact fun s _ => declaredBytes_hexEncode0x s.val

/-! ## Proofs -/

/-- A proof is read iff the index is an integer and the siblings are an array of hashes. -/
theorem parseProof_eq_ok {t : Target} {text : String} {p : MerkleProof t} :
    Cli.parseProof lib t text = .ok p ↔
      ∃ v, lib.fromStr text = .ok v ∧ DeclaresProof v p := by
  have hitem : ∀ (x : Value) (i : ℕ) (s : Digest),
      (do
        let s ← okOr x.asStr s!"siblings[{i}] must be a string"
        Cli.decode32 lib s) = .ok s ↔ declaredBytes x = some s.val := by
    intro x i s
    simp only [bind_eq_ok, okOr_eq_ok, Value.asStr_eq_some, decode32_eq_ok]
    exact declaredBytes_eq_some.symm
  have hitems : ∀ (items : List Value) (siblings : List Digest),
      (items.zipIdx.mapM fun entry => do
        let s ← okOr entry.1.asStr s!"siblings[{entry.2}] must be a string"
        Cli.decode32 lib s) = .ok siblings ↔
        List.Forall₂ (fun x s => declaredBytes x = some s.val) items siblings := by
    intro items siblings
    rw [mapM_eq_ok]
    simp only [hitem]
    conv_rhs => rw [← List.zipIdx_map_fst 0 items, List.forall₂_map_left_iff]
  unfold Cli.parseProof
  simp only [bind_eq_ok, mapErr_eq_ok, okOr_eq_ok, Value.asU64_eq_some, hitems, pure_eq_ok]
  constructor
  · rintro ⟨v, hv, n, hn, items, hget, siblings, hsiblings, rfl⟩
    exact ⟨v, hv, ⟨n, hn, rfl⟩, items, Value.asArray_eq_some.mp hget, hsiblings⟩
  · rintro ⟨v, hv, ⟨n, hn, hindex⟩, items, hget, hsiblings⟩
    refine ⟨v, hv, n, hn, items, Value.asArray_eq_some.mpr hget, p.siblings, hsiblings, ?_⟩
    rw [Cli.asUsize, ← hindex]

end Hca.Analysis
