import Hca.Model.Basic

set_option autoImplicit false

/-!
# Texts of bytes and integers

The operations on strings that the entry points use: the `0x` prefix and `parse` of an unsigned
integer, from the standard library, and `hex::decode` and `hex::encode`. The crate `hex` is not in
the repository: its two functions are modelled by their documented behaviour, and the texts of its
errors are a parameter.
-/

namespace Hca.Program

open Hca.Model

/-! ## The prefix -/

/-- `s.strip_prefix("0x").unwrap_or(s)` -/
def stripPrefix0x : List Char → List Char
  | '0' :: 'x' :: rest => rest
  | s => s

/-- `s.trim_start_matches("0x")` -/
def trimStartMatches0x : List Char → List Char
  | '0' :: 'x' :: rest => trimStartMatches0x rest
  | s => s

/-! ## Hexadecimal digits -/

/-- The value of a hexadecimal digit of either case. -/
def hexDigit (c : Char) : Option ℕ :=
  if 'A' ≤ c ∧ c ≤ 'F' then some (c.toNat - 'A'.toNat + 10)
  else if 'a' ≤ c ∧ c ≤ 'f' then some (c.toNat - 'a'.toNat + 10)
  else if '0' ≤ c ∧ c ≤ '9' then some (c.toNat - '0'.toNat)
  else none

/-- `hex::decode(s).ok()` -/
def hexDecode : List Char → Option (List U8)
  | [] => some []
  | [_] => none
  | hi :: lo :: rest => do
      let high ← hexDigit hi
      let low ← hexDigit lo
      let bytes ← hexDecode rest
      pure (BitVec.ofNat 8 (16 * high + low) :: bytes)

/-- `format!("0x{}", hex::encode(bytes))` -/
def hexEncode0x (bytes : List U8) : String := "0x" ++ String.join (bytes.map lowerHex)

/-! ## Decimal integers -/

/-- The integer that a nonempty string of decimal digits denotes, with an optional plus
sign before it. -/
def decimalValue (s : List Char) : Option ℕ :=
  let digits := if s.head? = some '+' then s.tail else s
  if digits ≠ [] ∧ digits.all Char.isDigit then
    some (digits.foldl (fun n c => 10 * n + (c.toNat - '0'.toNat)) 0)
  else
    none

/-- `s.parse()` into an unsigned integer of `n` bits. -/
def parseUint (n : ℕ) (s : List Char) : Option (BitVec n) :=
  (decimalValue s).bind fun value =>
    if value < 2 ^ n then some (BitVec.ofNat n value) else none

/-! ## What the operations accept -/

/-- A text is parsed iff it denotes an integer that fits the type. -/
theorem parseUint_eq_some {n : ℕ} {s : List Char} {x : BitVec n} :
    parseUint n s = some x ↔ decimalValue s = some x.toNat := by
  unfold parseUint
  rw [Option.bind_eq_some_iff]
  constructor
  · rintro ⟨value, hvalue, hfit⟩
    split at hfit
    case isTrue hlt =>
      cases hfit
      rw [hvalue, BitVec.toNat_ofNat, Nat.mod_eq_of_lt hlt]
    case isFalse => cases hfit
  · intro hvalue
    refine ⟨x.toNat, hvalue, ?_⟩
    rw [if_pos x.isLt, BitVec.ofNat_toNat, BitVec.setWidth_eq]

/-- Without the prefix there is nothing to strip. -/
theorem stripPrefix0x_of_ne {s : List Char} (h : ∀ rest, s ≠ '0' :: 'x' :: rest) :
    stripPrefix0x s = s := stripPrefix0x.eq_2 s h

/-- Nor to trim. -/
theorem trimStartMatches0x_of_ne {s : List Char} (h : ∀ rest, s ≠ '0' :: 'x' :: rest) :
    trimStartMatches0x s = s := trimStartMatches0x.eq_2 s h

/-- A string of hexadecimal digits does not start with the prefix. -/
theorem ne_prefix0x_of_hex {s : List Char} {bytes : List U8} (h : hexDecode s = some bytes) :
    ∀ rest, s ≠ '0' :: 'x' :: rest := by
  rintro rest rfl
  have hx : hexDigit 'x' = none := by decide
  have hzero : hexDigit '0' = some 0 := by decide
  rw [hexDecode, hx, hzero] at h
  cases h

/-- Trimming removes no more than one prefix where there is only one. -/
theorem trim_eq_strip {s : List Char} (h : ∀ rest, stripPrefix0x s ≠ '0' :: 'x' :: rest) :
    trimStartMatches0x s = stripPrefix0x s := by
  by_cases hs : ∃ rest, s = '0' :: 'x' :: rest
  · obtain ⟨rest, rfl⟩ := hs
    rw [stripPrefix0x] at h ⊢
    rw [trimStartMatches0x, trimStartMatches0x_of_ne h]
  · rw [not_exists] at hs
    rw [trimStartMatches0x_of_ne hs, stripPrefix0x_of_ne hs]

/-- A prefix is left after stripping one iff there were two. -/
theorem exists_stripPrefix0x_eq_iff {s : List Char} :
    (∃ rest, stripPrefix0x s = '0' :: 'x' :: rest) ↔ ['0', 'x', '0', 'x'] <+: s := by
  constructor
  · rintro ⟨rest, hrest⟩
    by_cases hs : ∃ tail, s = '0' :: 'x' :: tail
    · obtain ⟨tail, rfl⟩ := hs
      rw [stripPrefix0x] at hrest
      exact ⟨rest, by rw [hrest]; rfl⟩
    · rw [not_exists] at hs
      rw [stripPrefix0x_of_ne hs] at hrest
      exact absurd hrest (hs rest)
  · rintro ⟨rest, rfl⟩
    exact ⟨rest, rfl⟩

end Hca.Program
