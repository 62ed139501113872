import Mathlib.Tactic

set_option autoImplicit false

/-!
# Big-endian bytes

Unsigned integers as byte strings, most significant byte first: the value of a byte
string, the fixed-width encoding of a number, and what is left of it once leading zero
bytes are dropped. A fixed-width encoding and its value are inverse to each other, and a
byte string without leading zeros is determined by its value.
-/

namespace Hca.Library.BigEndian

/-- A byte. -/
abbrev Byte := BitVec 8

/-- The value of a big-endian byte string. -/
def ofBytes (bs : List Byte) : ℕ := bs.foldl (fun n b => 256 * n + b.toNat) 0

/-- The low `width` bytes of `n`, most significant first. -/
def toBytes : ℕ → ℕ → List Byte
  | 0, _ => []
  | width + 1, n => toBytes width (n / 256) ++ [BitVec.ofNat 8 n]

/-- No bytes denote zero. -/
@[simp] theorem ofBytes_nil : ofBytes [] = 0 := rfl

/-- One more byte at the end is one more digit in base 256. -/
@[simp] theorem ofBytes_concat (bs : List Byte) (b : Byte) :
    ofBytes (bs ++ [b]) = 256 * ofBytes bs + b.toNat := by
  simp [ofBytes]

/-- The first byte of a string carries the weight of the bytes after it. -/
theorem ofBytes_cons (b : Byte) (bs : List Byte) :
    ofBytes (b :: bs) = b.toNat * 256 ^ bs.length + ofBytes bs := by
  induction bs using List.reverseRecOn with
  | nil => simp [ofBytes]
  | append_singleton bs c ih =>
    rw [← List.cons_append, ofBytes_concat, ofBytes_concat, ih, List.length_append,
      List.length_singleton, pow_succ]
    ring

/-- A zero byte in front changes no value. -/
@[simp] theorem ofBytes_zero_cons (bs : List Byte) : ofBytes (0 :: bs) = ofBytes bs := by
  rw [ofBytes_cons]
  simp

/-- Zero bytes in front change no value, however many they are. -/
theorem ofBytes_replicate_zero_append (k : ℕ) (bs : List Byte) :
    ofBytes (List.replicate k 0 ++ bs) = ofBytes bs := by
  induction k with
  | zero => rfl
  | succ k ih => rw [List.replicate_succ, List.cons_append, ofBytes_zero_cons, ih]

/-- A byte string is worth less than one more byte of room. -/
theorem ofBytes_lt (bs : List Byte) : ofBytes bs < 256 ^ bs.length := by
  induction bs using List.reverseRecOn with
  | nil => decide
  | append_singleton bs b ih =>
    have hb := b.isLt
    rw [ofBytes_concat, List.length_append, List.length_singleton, pow_succ]
    omega

/-- An integer is written with as many bytes as it is given. -/
@[simp] theorem length_toBytes (width n : ℕ) : (toBytes width n).length = width := by
  induction width generalizing n with
  | zero => rfl
  | succ width ih => simp [toBytes, ih]

/-- Reading back a fixed-width encoding gives the number, if it fits. -/
theorem ofBytes_toBytes {width n : ℕ} (h : n < 256 ^ width) : ofBytes (toBytes width n) = n := by
  induction width generalizing n with
  | zero =>
    rw [pow_zero] at h
    simp only [toBytes, ofBytes_nil]
    omega
  | succ width ih =>
    have hdiv : n / 256 < 256 ^ width := by
      rw [pow_succ] at h
      omega
    rw [toBytes, ofBytes_concat, ih hdiv, BitVec.toNat_ofNat]
    omega

/-- Encoding the value of a byte string at its own width gives the string back. -/
theorem toBytes_ofBytes (bs : List Byte) : toBytes bs.length (ofBytes bs) = bs := by
  induction bs using List.reverseRecOn with
  | nil => rfl
  | append_singleton bs b ih =>
    have hb := b.isLt
    have hdiv : (256 * ofBytes bs + b.toNat) / 256 = ofBytes bs := by omega
    have hlast : BitVec.ofNat 8 (256 * ofBytes bs + b.toNat) = b := by
      apply BitVec.eq_of_toNat_eq
      rw [BitVec.toNat_ofNat]
      omega
    rw [List.length_append, List.length_singleton, ofBytes_concat, toBytes, hdiv, ih, hlast]

/-- Byte strings of one length with one value are equal. -/
theorem ofBytes_injOn_length {bs cs : List Byte} (hlen : bs.length = cs.length)
    (h : ofBytes bs = ofBytes cs) : bs = cs := by
  rw [← toBytes_ofBytes bs, ← toBytes_ofBytes cs, hlen, h]

/-- Integers that fit a width are told apart by their bytes of that width. -/
theorem toBytes_injOn {width m n : ℕ} (hm : m < 256 ^ width) (hn : n < 256 ^ width)
    (h : toBytes width m = toBytes width n) : m = n := by
  rw [← ofBytes_toBytes hm, ← ofBytes_toBytes hn, h]

/-! ## Leading zeros -/

/-- The byte string without its leading zero bytes. -/
def stripZeros (bs : List Byte) : List Byte := bs.dropWhile (· == 0)

/-- No leading zero byte. -/
def Minimal (bs : List Byte) : Prop := bs.head? ≠ some 0

/-- A leading zero byte is stripped. -/
@[simp] theorem stripZeros_zero_cons (bs : List Byte) : stripZeros (0 :: bs) = stripZeros bs :=
  List.dropWhile_cons_of_pos rfl

/-- Bytes that start with a nonzero one are left alone. -/
theorem stripZeros_cons_of_ne {b : Byte} (hb : b ≠ 0) (bs : List Byte) :
    stripZeros (b :: bs) = b :: bs :=
  List.dropWhile_cons_of_neg (by simpa using hb)

/-- What is left starts with no zero byte. -/
theorem minimal_stripZeros (bs : List Byte) : Minimal (stripZeros bs) := by
  induction bs with
  | nil => simp [Minimal, stripZeros]
  | cons b bs ih =>
    by_cases hb : b = 0
    · rwa [hb, stripZeros_zero_cons]
    · rw [stripZeros_cons_of_ne hb]
      simpa [Minimal] using hb

/-- A string is its stripped form after a run of zero bytes. -/
theorem exists_replicate_append_stripZeros (bs : List Byte) :
    ∃ k, bs = List.replicate k 0 ++ stripZeros bs := by
  induction bs with
  | nil => exact ⟨0, rfl⟩
  | cons b bs ih =>
    by_cases hb : b = 0
    · obtain ⟨k, hk⟩ := ih
      refine ⟨k + 1, ?_⟩
      rw [List.replicate_succ, List.cons_append, hb, stripZeros_zero_cons, ← hk]
    · exact ⟨0, (stripZeros_cons_of_ne hb bs).symm⟩

/-- Stripping changes no value. -/
@[simp] theorem ofBytes_stripZeros (bs : List Byte) : ofBytes (stripZeros bs) = ofBytes bs := by
  obtain ⟨k, hk⟩ := exists_replicate_append_stripZeros bs
  conv_rhs => rw [hk, ofBytes_replicate_zero_append]

/-- Stripping makes no bytes longer. -/
theorem length_stripZeros_le (bs : List Byte) : (stripZeros bs).length ≤ bs.length :=
  (List.dropWhile_sublist _).length_le

/-- Bytes without a leading zero are left alone. -/
theorem stripZeros_of_minimal {bs : List Byte} (h : Minimal bs) : stripZeros bs = bs := by
  cases bs with
  | nil => rfl
  | cons b bs =>
    have hb : b ≠ 0 := by simpa [Minimal] using h
    exact stripZeros_cons_of_ne hb bs

/-- Stripping does not see zeros put in front. -/
theorem stripZeros_replicate_append (k : ℕ) (bs : List Byte) :
    stripZeros (List.replicate k 0 ++ bs) = stripZeros bs := by
  induction k with
  | zero => rfl
  | succ k ih => rw [List.replicate_succ, List.cons_append, stripZeros_zero_cons, ih]

/-- The stripped fixed-width encoding of the value of a minimal string that fits is that
string. -/
theorem stripZeros_toBytes_ofBytes {width : ℕ} {bs : List Byte} (hmin : Minimal bs)
    (hlen : bs.length ≤ width) : stripZeros (toBytes width (ofBytes bs)) = bs := by
  have hpad : toBytes width (ofBytes bs) = List.replicate (width - bs.length) 0 ++ bs := by
    apply ofBytes_injOn_length
    · rw [length_toBytes, List.length_append, List.length_replicate]
      omega
    · have hlt : ofBytes bs < 256 ^ width :=
        (ofBytes_lt bs).trans_le (Nat.pow_le_pow_right (by decide) hlen)
      rw [ofBytes_toBytes hlt, ofBytes_replicate_zero_append]
  rw [hpad, stripZeros_replicate_append, stripZeros_of_minimal hmin]

/-- The first byte of a nonempty minimal string is worth its place. -/
theorem pow_le_ofBytes {bs : List Byte} (hmin : Minimal bs) (hne : bs ≠ []) :
    256 ^ (bs.length - 1) ≤ ofBytes bs := by
  cases bs with
  | nil => exact absurd rfl hne
  | cons b bs =>
    have hb : b ≠ 0 := by simpa [Minimal] using hmin
    have hpos : 0 < b.toNat := by
      rcases Nat.eq_zero_or_pos b.toNat with h0 | hpos
      · exact absurd (BitVec.eq_of_toNat_eq (by simpa using h0)) hb
      · exact hpos
    rw [ofBytes_cons, List.length_cons, Nat.add_sub_cancel]
    exact (Nat.le_mul_of_pos_left _ hpos).trans (Nat.le_add_right _ _)

/-- A nonempty minimal string has as many bytes as its value has digits to the base 256. -/
theorem length_of_minimal {bs : List Byte} (hmin : Minimal bs) (hne : bs ≠ []) :
    bs.length = Nat.log 256 (ofBytes bs) + 1 := by
  have hpos : 0 < bs.length := List.length_pos_iff.mpr hne
  have hlt := ofBytes_lt bs
  rw [Nat.log_eq_of_pow_le_of_lt_pow (pow_le_ofBytes hmin hne)]
  · omega
  · rwa [Nat.sub_add_cancel hpos]

/-- The encoding of a positive number keeps a byte when stripped. -/
theorem stripZeros_toBytes_ne_nil {width n : ℕ} (h : n < 256 ^ width) (hpos : 0 < n) :
    stripZeros (toBytes width n) ≠ [] := by
  intro hnil
  have hval := ofBytes_stripZeros (toBytes width n)
  rw [hnil, ofBytes_toBytes h, ofBytes_nil] at hval
  omega

end Hca.Library.BigEndian
