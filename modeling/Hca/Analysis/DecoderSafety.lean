import Hca.Analysis.TransactionCodec
import Hca.Analysis.LeafAdmission

set_option autoImplicit false

/-!
# The decoders return

Every operation of the decoders that can panic is guarded: the length of an item is checked
before it is sliced, a sum that may overflow is checked, and a buffer is at least as long as
what is copied into it. The cursor of the transaction decoder stays inside the payload, and
every sibling moves the one of the sibling loop.
-/

namespace Hca.Analysis

open Hca.Library Hca.Model Hca.Program

variable {t : Target}

/-! ## Steps of the decoders -/

/-- A decoding error is a return. -/
theorem returns_decodeError {α : Type} (msg : String) :
    Returns (decodeError msg : HcaResult α) := returns_err _

/-- Bytes are copied into an array that is long enough. -/
theorem returns_copyToEnd {n : ℕ} {bytes : List U8} (hle : bytes.length ≤ n) :
    Returns (copyToEnd n bytes) := by
  obtain ⟨buf, hbuf⟩ : ∃ buf, copyToEnd n bytes = .ok buf := ⟨_, copyToEnd_eq_ok.mpr ⟨hle, rfl⟩⟩
  rw [hbuf]
  exact returns_ok buf

/-- A length that does not fit a word is refused before it is copied. -/
theorem returns_decodeUsizeBe (bytes : List U8) : Returns (decodeUsizeBe t bytes) := by
  unfold decodeUsizeBe
  apply (returns_rejectIf _ _).bind
  intro u hu
  apply (returns_copyToEnd (not_lt.mp (rejectIf_eq_ok.mp hu))).bind
  intro buf _
  exact (returns_okOr _ _).bind fun len _ => returns_pure _

/-- The bound of a short item is computed without overflow. -/
theorem returns_checkShort (item : String) {input : List U8} {len : ℕ} (hne : input ≠ [])
    (hlen : 1 + len < 2 ^ t.bits) : Returns (checkShort t item input len) := by
  unfold checkShort
  apply (returns_add.mpr hlen).bind
  intro total _
  split
  · have hpos := List.length_pos_iff.mpr hne
    exact (returns_sub.mpr hpos).bind fun available _ => returns_decodeError _
  · exact returns_pure ()

/-- A single byte is looked up only where there is one. -/
theorem returns_checkSingleByte {input : List U8} {len : ℕ} (hle : 1 + len ≤ input.length) :
    Returns (checkSingleByte input len) := by
  unfold checkSingleByte
  split
  case isTrue hlen =>
    exact (returns_index.mpr (by omega)).bind fun b _ => returns_rejectIf _ _
  case isFalse => exact returns_pure ()

/-- The payload of a short item is inside the input once its bound was checked. -/
theorem returns_shortPayload {input : List U8} {len : ℕ} (hlen : 1 + len < 2 ^ t.bits)
    (hle : 1 + len ≤ input.length) : Returns (shortPayload t input len) := by
  unfold shortPayload
  apply (returns_add.mpr hlen).bind
  intro total htotal
  obtain ⟨-, rfl⟩ := add_eq_ok.mp htotal
  exact (returns_slice.mpr ⟨by omega, hle⟩).bind fun payload _ => returns_pure _

/-- The bytes of a length are sliced only where there are enough of them. -/
theorem returns_lengthBytes (item : String) {input : List U8} {k : ℕ}
    (hk : 1 + k < 2 ^ t.bits) : Returns (lengthBytes t item input k) := by
  unfold lengthBytes
  apply (returns_add.mpr hk).bind
  intro start hstart
  obtain ⟨-, rfl⟩ := add_eq_ok.mp hstart
  apply (returns_rejectIf _ _).bind
  intro u hu
  exact returns_slice.mpr ⟨by omega, not_lt.mp (rejectIf_eq_ok.mp hu)⟩

/-- The sum of the lengths is checked, and is what is sliced. -/
theorem returns_longPayload (item : String) (input : List U8) (k len : ℕ) :
    Returns (longPayload t item input k len) := by
  unfold longPayload
  apply (returns_okOr _ _).bind
  intro total htotal
  simp only [okOr_eq_ok, Option.bind_eq_some_iff, checkedAdd_eq_some] at htotal
  obtain ⟨n, ⟨hn, rfl⟩, hfit, rfl⟩ := htotal
  apply (returns_rejectIf _ _).bind
  intro u hu
  apply (returns_add.mpr hn).bind
  intro start hstart
  obtain ⟨-, rfl⟩ := add_eq_ok.mp hstart
  have hle := not_lt.mp (rejectIf_eq_ok.mp hu)
  exact (returns_slice.mpr ⟨by omega, hle⟩).bind fun payload _ => returns_pure _

/-! ## Items -/

/-- A short string is decoded or refused. -/
theorem returns_decodeShortBytes {first : U8} {rest : List U8} (hlo : 0x80 ≤ first.toNat) :
    Returns (decodeShortBytes t (first :: rest) first) := by
  have hbits := t.pow_bits_ge
  have hfirst := first.isLt
  unfold decodeShortBytes
  apply (returns_sub.mpr hlo).bind
  intro len hlen
  obtain ⟨-, rfl⟩ := sub_eq_ok.mp hlen
  apply (returns_checkShort _ (List.cons_ne_nil _ _) (by omega)).bind
  intro u hu
  obtain ⟨hfit, hle⟩ := checkShort_eq_ok.mp hu
  exact (returns_checkSingleByte hle).bind fun u _ => returns_shortPayload hfit hle

/-- So is a long one, whose length is added with a check. -/
theorem returns_decodeLongBytes {first : U8} {rest : List U8} (hlo : 0xb8 ≤ first.toNat) :
    Returns (decodeLongBytes t (first :: rest) first) := by
  have hbits := t.pow_bits_ge
  have hfirst := first.isLt
  unfold decodeLongBytes
  apply (returns_sub.mpr (by omega)).bind
  intro k hk
  obtain ⟨-, rfl⟩ := sub_eq_ok.mp hk
  apply (returns_lengthBytes _ (by omega)).bind
  intro lenBytes hlenBytes
  -- the second byte is read once the length field is known to be there
  obtain ⟨-, hlen, s, rfl⟩ := lengthBytes_eq_ok.mp hlenBytes
  apply (returns_index.mpr (by simp only [List.length_cons, List.length_append]; omega)).bind
  intro b _
  apply (returns_rejectIf _ _).bind
  intro u _
  apply (returns_decodeUsizeBe lenBytes).bind
  intro len _
  exact (returns_rejectIf _ _).bind fun u _ => returns_longPayload _ _ _ _

/-- So is every string, whatever its first byte. -/
theorem returns_decodeBytes (input : List U8) : Returns (decodeBytes t input) := by
  cases input with
  | nil => exact returns_err _
  | cons first rest =>
    rw [decodeBytes_cons]
    split
    · exact returns_ok _
    split
    case isTrue hsingle _ => exact returns_decodeShortBytes (not_lt.mp hsingle)
    split
    case isTrue hshort _ =>
      have hlo : 0xb8 ≤ first.toNat := by bv_omega
      exact returns_decodeLongBytes hlo
    case isFalse => exact returns_decodeError _

/-- So is every integer: it is copied only if it is not too wide. -/
theorem returns_decodeUint (input : List U8) : Returns (decodeUint t input) := by
  unfold decodeUint
  apply (returns_decodeBytes input).bind
  rintro ⟨bytes, consumed⟩ _
  apply (returns_rejectIf _ _).bind
  intro u hu
  apply (returns_copyToEnd (not_lt.mp (rejectIf_eq_ok.mp hu))).bind
  intro buf _
  exact returns_pure _

/-- A short list is decoded or refused. -/
theorem returns_decodeShortList {first : U8} {rest : List U8} (hlo : 0xc0 ≤ first.toNat) :
    Returns (decodeShortList t (first :: rest) first) := by
  have hbits := t.pow_bits_ge
  have hfirst := first.isLt
  unfold decodeShortList
  apply (returns_sub.mpr hlo).bind
  intro len hlen
  obtain ⟨-, rfl⟩ := sub_eq_ok.mp hlen
  apply (returns_checkShort _ (List.cons_ne_nil _ _) (by omega)).bind
  intro u hu
  obtain ⟨hfit, hle⟩ := checkShort_eq_ok.mp hu
  exact returns_shortPayload hfit hle

/-- So is a long one. -/
theorem returns_decodeLongList {first : U8} {rest : List U8} (hlo : 0xf8 ≤ first.toNat) :
    Returns (decodeLongList t (first :: rest) first) := by
  have hbits := t.pow_bits_ge
  have hfirst := first.isLt
  unfold decodeLongList
  apply (returns_sub.mpr (by omega)).bind
  intro k hk
  obtain ⟨-, rfl⟩ := sub_eq_ok.mp hk
  apply (returns_lengthBytes _ (by omega)).bind
  intro lenBytes _
  exact (returns_decodeUsizeBe lenBytes).bind fun len _ => returns_longPayload _ _ _ _

/-- So is every list, whatever its first byte. -/
theorem returns_decodeList (input : List U8) : Returns (decodeList t input) := by
  cases input with
  | nil => exact returns_err _
  | cons first rest =>
    rw [decodeList_cons]
    split
    · exact returns_decodeError _
    split
    case isTrue hlist _ => exact returns_decodeShortList (not_lt.mp hlist)
    case isFalse _ hshort =>
      have hlo : 0xf8 ≤ first.toNat := by bv_omega
      exact returns_decodeLongList hlo

/-! ## Progress -/

/-- A decoded string was inside the input and not empty there. -/
theorem decodeBytes_bounded : Bounded (decodeBytes t) where
  returns := returns_decodeBytes
  bounds := by
    intro input v n h
    obtain ⟨s, rfl, rfl, -⟩ := decodeBytes_sound h
    have hbounds := length_encodeBytes_bounds (t := t) v
    rw [List.length_append]
    omega

/-- So was a decoded integer. -/
theorem decodeUint_bounded : Bounded (decodeUint t) where
  returns := returns_decodeUint
  bounds := by
    intro input v n h
    obtain ⟨w, s, rfl, ⟨bytes, -, -, rfl⟩, rfl⟩ := (decodeUint_decodes _ _ _).mp h
    have hbounds := length_encodeBytes_bounds (t := t) bytes
    rw [List.length_append]
    omega

/-- So was a decoded list. -/
theorem decodeList_bounded : Bounded (decodeList t) where
  returns := returns_decodeList
  bounds := by
    intro input v n h
    obtain ⟨header, s, hheader, rfl, rfl, -⟩ := decodeList_sound h
    have hpos : 1 ≤ header.length := by
      rcases hheader with ⟨-, rfl⟩ | ⟨lenBytes, -, -, -, rfl⟩
      · simp
      · simp
    simp only [List.length_append]
    omega

/-! ## Readers -/

/-- Reading an integer field keeps the cursor inside the payload. -/
theorem safe_nextUintAs (n : ℕ) (msg : String) : Safe t.bits (nextUintAs t n msg) := by
  apply decodeUint_bounded.safe_next.bind
  intro value
  exact safe_liftM (returns_okOr _ _)

/-- A field of fixed size is converted or refused. -/
theorem returns_toArray (n : ℕ) (what : String) (bytes : List U8) :
    Returns (toArray n what bytes) := by
  unfold toArray
  apply (returns_rejectIf _ _).bind
  intro u hu
  have hlen : bytes.length = n := not_not.mp (rejectIf_eq_ok.mp hu)
  have hcopy : copyFromSlice n bytes = (.ok ⟨bytes, hlen⟩ : HcaResult (Bytes n)) :=
    copyFromSlice_eq_ok.mpr rfl
  rw [hcopy]
  exact returns_ok _

/-- Reading a field of fixed size keeps the cursor inside the payload. -/
theorem safe_nextArray (n : ℕ) (what : String) : Safe t.bits (nextArray t n what) := by
  apply decodeBytes_bounded.safe_next.bind
  intro bytes
  exact safe_liftM (returns_toArray n what bytes)

/-- It moves the cursor on, so a loop over such fields ends. -/
theorem nextArray_moves {n : ℕ} {what : String} {payload : List U8} {cursor cursor' : ℕ}
    {a : Bytes n} (h : nextArray t n what payload cursor = .ok (a, cursor')) :
    cursor < cursor' := by
  unfold nextArray at h
  obtain ⟨⟨bytes, c⟩, hnext, hrest⟩ := bind_eq_ok.mp h
  obtain ⟨a', -, hpure⟩ := bind_eq_ok.mp hrest
  cases hpure
  exact (decodeBytes_bounded.next_bounds hnext).1

/-- The sibling loop ends after no more rounds than there are bytes, and one to leave. -/
theorem returns_siblingLoop {payload : List U8} (hlen : payload.length < 2 ^ t.bits) {fuel : ℕ}
    (hfuel : payload.length < fuel) :
    Returns (loop (readAllRound (nextArray t 32 "sibling") payload) fuel ([], 0)) :=
  (safe_nextArray 32 "sibling").returns_loop_readAllRound (fun _ _ _ _ h => nextArray_moves h)
    hlen hfuel

/-- The payload of a decoded list fits memory. -/
theorem decodeList_payload_lt {input payload : List U8} {n : ℕ}
    (h : decodeList t input = .ok (payload, n)) : payload.length < 2 ^ t.bits := by
  obtain ⟨header, s, -, -, rfl, hfit⟩ := decodeList_sound h
  rw [List.length_append] at hfit
  omega

/-- Reading the siblings keeps the cursor inside the payload. -/
theorem safe_nextSiblings : Safe t.bits (readWitness.nextSiblings t) := by
  apply decodeList_bounded.safe_next.bind_of fun payload => payload.length < 2 ^ t.bits
  · intro _ cursor payload cursor' h
    obtain ⟨-, n, hlist, -, -⟩ := next_eq_ok.mp h
    exact decodeList_payload_lt hlist
  · intro payload hlen
    exact safe_liftM (returns_siblingLoop hlen (Nat.lt_succ_self _))

/-- Reading the transaction fields keeps the cursor inside the payload. -/
theorem safe_readTransaction : Safe t.bits (readTransaction t) := by
  apply (safe_nextUintAs _ _).bind
  intro chainId
  apply (safe_nextUintAs _ _).bind
  intro nonce
  apply (safe_nextArray _ _).bind
  intro «from»
  apply (safe_nextArray _ _).bind
  intro «to»
  apply decodeUint_bounded.safe_next.bind
  intro value
  apply (safe_nextUintAs _ _).bind
  intro gasLimit
  apply decodeUint_bounded.safe_next.bind
  intro maxFeePerGas
  apply decodeUint_bounded.safe_next.bind
  intro maxPriorityFeePerGas
  apply decodeList_bounded.safe_next.bind
  intro accessList
  apply decodeBytes_bounded.safe_next.bind
  intro data
  exact safe_pure _

/-- So does reading the witness fields. -/
theorem safe_readWitness : Safe t.bits (readWitness t) := by
  apply (safe_nextUintAs _ _).bind
  intro leafVersion
  apply decodeBytes_bounded.safe_next.bind
  intro leafScript
  apply (safe_nextUintAs _ _).bind
  intro leafIndex
  apply safe_nextSiblings.bind
  intro siblings
  apply decodeBytes_bounded.safe_next.bind
  intro witnessData
  exact safe_pure _

/-- So does reading all fields. -/
theorem safe_readFields : Safe t.bits (readFields t) := by
  apply safe_readTransaction.bind
  intro tx
  apply safe_readWitness.bind
  intro fields
  exact safe_pure _

/-! ## The transaction decoder -/

/-- The check for trailing bytes subtracts nothing too large. -/
theorem returns_rejectTrailing {payload : List U8} {cursor : ℕ} (hle : cursor ≤ payload.length) :
    Returns (rejectTrailing payload cursor) := by
  unfold rejectTrailing
  split
  · exact (returns_sub.mpr hle).bind fun n _ => returns_decodeError _
  · exact returns_pure ()

/-- The witness is rebuilt, or its leaf refused. -/
theorem returns_rebuildWitness (fields : HCAWitness t) : Returns (rebuildWitness t fields) := by
  unfold rebuildWitness
  apply ((returns_mapErr _).mpr (returns_leafNew _ _ _)).bind
  intro leaf _
  split
  · exact (returns_rejectIf _ _).bind fun u _ => returns_pure _
  · exact returns_pure _

/-- The transaction decoder returns on every input. -/
theorem returns_decodeHcaTx (raw : List U8) : Returns (decodeHcaTx t raw) := by
  unfold decodeHcaTx
  apply (returns_rejectIf _ _).bind
  intro u hu
  have hpos : 0 < raw.length := List.length_pos_iff.mpr (rejectIf_eq_ok.mp hu)
  apply (returns_index.mpr hpos).bind
  intro txType _
  apply (returns_rejectIf _ _).bind
  intro _ _
  apply (returns_sliceFrom.mpr hpos).bind
  intro list _
  apply (returns_decodeList list).bind
  rintro ⟨payload, n⟩ hlist
  obtain ⟨hfields, hcursor⟩ :=
    safe_readFields (t := t) payload 0 (decodeList_payload_lt hlist) (Nat.zero_le _)
  apply hfields.bind
  rintro ⟨⟨tx, fields⟩, cursor⟩ hread
  apply (returns_rejectTrailing (hcursor _ _ hread)).bind
  intro _ _
  exact (returns_rebuildWitness fields).bind fun w _ => returns_pure _

/-- The decoders return on every input, and an item takes at least one byte and no more than
the input has. Every item of a transaction leaves the cursor inside the payload, where the
check for trailing bytes finds it; the sibling loop has no more rounds than its payload has
bytes, and one to leave; and the scan of an admissible script stays within a `usize`.
SOURCE: rlp.rs:202-349, rlp.rs:362-521 -/
theorem decoders_return (t : Target) (input : List U8) :
    (Returns (decodeBytes t input) ∧ Returns (decodeUint t input) ∧
      Returns (decodeList t input) ∧ Returns (decodeHcaTx t input)) ∧
    (∀ v n, decodeBytes t input = .ok (v, n) → 1 ≤ n ∧ n ≤ input.length ∧ v.length ≤ n) ∧
    (∀ v n, decodeUint t input = .ok (v, n) → 1 ≤ n ∧ n ≤ input.length ∧ v.toNat < 256 ^ n) ∧
    (∀ v n, decodeList t input = .ok (v, n) → 1 ≤ n ∧ n ≤ input.length ∧ v.length ≤ n) ∧
    (Safe t.bits (nextUint t) ∧ Safe t.bits (nextBytes t) ∧ Safe t.bits (nextListPayload t)) ∧
    (∀ payload n, decodeList t input = .ok (payload, n) →
      (Returns (readFields t payload 0) ∧
        ∀ v cursor, readFields t payload 0 = .ok (v, cursor) →
          cursor ≤ payload.length ∧ Returns (rejectTrailing payload cursor)) ∧
      ∀ fuel, payload.length < fuel →
        Returns (loop (readAllRound (nextArray t 32 "sibling") payload) fuel ([], 0))) ∧
    ∀ script s s', script.length ≤ maxLeafScriptSize →
      validateRound script s = .ok (.inl s') → s'.2 < 2 ^ t.bits := by
  refine ⟨⟨returns_decodeBytes input, returns_decodeUint input, returns_decodeList input,
    returns_decodeHcaTx input⟩, ?_, ?_, ?_, ⟨decodeUint_bounded.safe_next,
    decodeBytes_bounded.safe_next, decodeList_bounded.safe_next⟩, ?_, ?_⟩
  · intro v n h
    obtain ⟨hpos, hle⟩ := decodeBytes_bounded.bounds _ _ _ h
    obtain ⟨s, -, rfl, -⟩ := decodeBytes_sound h
    exact ⟨hpos, hle, (length_encodeBytes_bounds v).2⟩
  · intro v n h
    obtain ⟨hpos, hle⟩ := decodeUint_bounded.bounds _ _ _ h
    obtain ⟨w, s, -, ⟨bytes, -, hv, rfl⟩, rfl⟩ := (decodeUint_decodes _ _ _).mp h
    refine ⟨hpos, hle, ?_⟩
    calc v.toNat = BigEndian.ofBytes bytes := hv.symm
      _ < 256 ^ bytes.length := BigEndian.ofBytes_lt bytes
      _ ≤ 256 ^ (encodeBytes t bytes).length :=
        Nat.pow_le_pow_right (by decide) (length_encodeBytes_bounds bytes).2
  · intro v n h
    obtain ⟨hpos, hle⟩ := decodeList_bounded.bounds _ _ _ h
    obtain ⟨header, s, -, -, rfl, -⟩ := decodeList_sound h
    refine ⟨hpos, hle, ?_⟩
    rw [List.length_append]
    omega
  · intro payload n h
    have hlen := decodeList_payload_lt h
    obtain ⟨hfields, hcursor⟩ := safe_readFields (t := t) payload 0 hlen (Nat.zero_le _)
    refine ⟨⟨hfields, ?_⟩, fun fuel hfuel => returns_siblingLoop hlen hfuel⟩
    intro v cursor hread
    exact ⟨hcursor v cursor hread, returns_rejectTrailing (hcursor v cursor hread)⟩
  · intro script s s' hsize hround
    have hbits := t.pow_bits_ge
    have hcursor := validateRound_cursor_le hround
    unfold maxLeafScriptSize at hsize
    omega

end Hca.Analysis
