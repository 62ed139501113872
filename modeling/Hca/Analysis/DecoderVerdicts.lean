import Hca.Analysis.DecoderSafety
import Hca.Library.ErrorKinds

set_option autoImplicit false

/-!
# The verdicts of the transaction decoder

Reading the fields and looking at the leaf are two steps. Bytes that do not start with the
fields of a transaction are refused with a decoding error; bytes that do are accepted iff
`Leaf::new` accepts the leaf, and are refused with its error otherwise.
-/

namespace Hca.Analysis

open Hca.Library Hca.Model Hca.Program Hca.Interface

variable {t : Target}

/-! ## Decoding errors -/

/-- The errors that the decoders make. -/
def IsDecodeError (e : HcaError) : Prop := ∃ msg, e = .rlpDecodeError msg

/-- A decoding error is one whatever its text. -/
theorem isDecodeError (msg : String) : IsDecodeError (.rlpDecodeError msg) := ⟨msg, rfl⟩

/-- The errors of the call are decoding errors. -/
abbrev FailsToDecode {α : Type} (x : HcaResult α) : Prop := ErrorsIn IsDecodeError x

/-- Raising a decoding error fails with one. -/
theorem decodeError_fails {α : Type} (msg : String) :
    FailsToDecode (decodeError msg : HcaResult α) := .err (isDecodeError msg)

/-- Copying a slice fails with no other error: where the lengths differ, it panics. -/
theorem copyFromSlice_fails (n : ℕ) (bytes : List U8) :
    FailsToDecode (copyFromSlice n bytes : HcaResult (Bytes n)) := by
  unfold copyFromSlice
  split
  · exact .ok _
  · exact .panic

/-- Neither does copying to the end of an array. -/
theorem copyToEnd_fails (n : ℕ) (bytes : List U8) : FailsToDecode (copyToEnd n bytes) := by
  apply (ErrorsIn.sub _ _).bind
  intro start
  apply (ErrorsIn.sliceFrom _ _).bind
  intro target
  exact (copyFromSlice_fails _ _).bind fun copied => .pure _

/-- A length that is too wide or too large is a decoding error. -/
theorem decodeUsizeBe_fails (bytes : List U8) : FailsToDecode (decodeUsizeBe t bytes) := by
  apply (ErrorsIn.rejectIf _ (isDecodeError _)).bind
  intro _
  apply (copyToEnd_fails _ _).bind
  intro buf
  exact (ErrorsIn.okOr _ (isDecodeError _)).bind fun len => .pure _

/-- A short item that the input ends inside of is a decoding error. -/
theorem checkShort_fails (item : String) (input : List U8) (len : ℕ) :
    FailsToDecode (checkShort t item input len) := by
  apply (ErrorsIn.add _ _ _).bind
  intro total
  split
  · exact (ErrorsIn.sub _ _).bind fun available => decodeError_fails _
  · exact .pure _

/-- A single byte with a prefix that it does not need is a decoding error. -/
theorem checkSingleByte_fails (input : List U8) (len : ℕ) :
    FailsToDecode (checkSingleByte input len) := by
  unfold checkSingleByte
  split
  · exact (ErrorsIn.index _ _).bind fun b => .rejectIf _ (isDecodeError _)
  · exact .pure _

/-- A length that the input ends inside of is a decoding error. -/
theorem lengthBytes_fails (item : String) (input : List U8) (lenOfLen : ℕ) :
    FailsToDecode (lengthBytes t item input lenOfLen) := by
  apply (ErrorsIn.add _ _ _).bind
  intro start
  exact (ErrorsIn.rejectIf _ (isDecodeError _)).bind fun _ => .slice _ _ _

/-- A long item that the input ends inside of is a decoding error. -/
theorem longPayload_fails (item : String) (input : List U8) (lenOfLen len : ℕ) :
    FailsToDecode (longPayload t item input lenOfLen len) := by
  apply (ErrorsIn.okOr _ (isDecodeError _)).bind
  intro total
  apply (ErrorsIn.rejectIf _ (isDecodeError _)).bind
  intro _
  apply (ErrorsIn.add _ _ _).bind
  intro start
  exact (ErrorsIn.slice _ _ _).bind fun payload => .pure _

/-- Taking the payload of a short item raises no error of its own. -/
theorem shortPayload_fails (input : List U8) (len : ℕ) :
    FailsToDecode (shortPayload t input len) := by
  apply (ErrorsIn.add _ _ _).bind
  intro total
  exact (ErrorsIn.slice _ _ _).bind fun payload => .pure _

/-! ## Items -/

/-- A short string is refused with a decoding error. -/
theorem decodeShortBytes_fails (input : List U8) (first : U8) :
    FailsToDecode (decodeShortBytes t input first) := by
  apply (ErrorsIn.sub _ _).bind
  intro len
  apply (checkShort_fails _ _ _).bind
  intro _
  exact (checkSingleByte_fails _ _).bind fun _ => shortPayload_fails _ _

/-- So is a long one, for a length that is not minimal too. -/
theorem decodeLongBytes_fails (input : List U8) (first : U8) :
    FailsToDecode (decodeLongBytes t input first) := by
  apply (ErrorsIn.sub _ _).bind
  intro lenOfLen
  apply (lengthBytes_fails _ _ _).bind
  intro lenBytes
  apply (ErrorsIn.index _ _).bind
  intro b
  apply (ErrorsIn.rejectIf _ (isDecodeError _)).bind
  intro _
  apply (decodeUsizeBe_fails _).bind
  intro len
  exact (ErrorsIn.rejectIf _ (isDecodeError _)).bind fun _ => longPayload_fails _ _ _ _

/-- So is every string, the empty input and the prefix of a list included. -/
theorem decodeBytes_fails (input : List U8) : FailsToDecode (decodeBytes t input) := by
  apply (ErrorsIn.rejectIf _ (isDecodeError _)).bind
  intro _
  apply (ErrorsIn.index _ _).bind
  intro first
  split
  · exact .pure _
  split
  · exact decodeShortBytes_fails _ _
  split
  · exact decodeLongBytes_fails _ _
  · exact decodeError_fails _

/-- So is an integer that is too wide. -/
theorem decodeUint_fails (input : List U8) : FailsToDecode (decodeUint t input) := by
  apply (decodeBytes_fails input).bind
  rintro ⟨bytes, consumed⟩
  apply (ErrorsIn.rejectIf _ (isDecodeError _)).bind
  intro _
  exact (copyToEnd_fails _ _).bind fun buf => .pure _

/-- A short list is refused with a decoding error. -/
theorem decodeShortList_fails (input : List U8) (first : U8) :
    FailsToDecode (decodeShortList t input first) := by
  apply (ErrorsIn.sub _ _).bind
  intro len
  exact (checkShort_fails _ _ _).bind fun _ => shortPayload_fails _ _

/-- So is a long one. -/
theorem decodeLongList_fails (input : List U8) (first : U8) :
    FailsToDecode (decodeLongList t input first) := by
  apply (ErrorsIn.sub _ _).bind
  intro lenOfLen
  apply (lengthBytes_fails _ _ _).bind
  intro lenBytes
  exact (decodeUsizeBe_fails _).bind fun len => longPayload_fails _ _ _ _

/-- So is every list, the empty input and the prefix of a string included. -/
theorem decodeList_fails (input : List U8) : FailsToDecode (decodeList t input) := by
  apply (ErrorsIn.rejectIf _ (isDecodeError _)).bind
  intro _
  apply (ErrorsIn.index _ _).bind
  intro first
  split
  · exact decodeError_fails _
  split
  · exact decodeShortList_fails _ _
  · exact decodeLongList_fails _ _

/-! ## Fields -/

/-- The errors of the reader are decoding errors. -/
abbrev FailsToRead {α : Type} (r : Reader HcaError U8 α) : Prop := ReaderErrorsIn IsDecodeError r

/-- The reader of an integer fails as its decoder does. -/
theorem nextUint_fails : FailsToRead (nextUint t) := .next decodeUint_fails _

/-- So does the reader of a string. -/
theorem nextBytes_fails : FailsToRead (nextBytes t) := .next decodeBytes_fails _

/-- And that of a list. -/
theorem nextListPayload_fails : FailsToRead (nextListPayload t) := .next decodeList_fails _

/-- An integer that does not fit its field is a decoding error. -/
theorem nextUintAs_fails (n : ℕ) (msg : String) : FailsToRead (nextUintAs t n msg) := by
  apply nextUint_fails.bind
  intro value
  exact .lift (.okOr _ (isDecodeError _))

/-- So is a string that has not the length of its field. -/
theorem nextArray_fails (n : ℕ) (what : String) : FailsToRead (nextArray t n what) := by
  apply nextBytes_fails.bind
  intro bytes
  apply ReaderErrorsIn.lift
  exact (ErrorsIn.rejectIf _ (isDecodeError _)).bind fun _ => copyFromSlice_fails _ _

/-- Reading the transaction fields fails with decoding errors only. -/
theorem readTransaction_fails : FailsToRead (readTransaction t) := by
  apply (nextUintAs_fails _ _).bind
  intro chainId
  apply (nextUintAs_fails _ _).bind
  intro nonce
  apply (nextArray_fails _ _).bind
  intro «from»
  apply (nextArray_fails _ _).bind
  intro «to»
  apply nextUint_fails.bind
  intro value
  apply (nextUintAs_fails _ _).bind
  intro gasLimit
  apply nextUint_fails.bind
  intro maxFeePerGas
  apply nextUint_fails.bind
  intro maxPriorityFeePerGas
  apply nextListPayload_fails.bind
  intro accessList
  exact nextBytes_fails.bind fun data => .pure _

/-- So does reading the witness fields, the siblings among them. -/
theorem readWitness_fails : FailsToRead (readWitness t) := by
  apply (nextUintAs_fails _ _).bind
  intro leafVersion
  apply nextBytes_fails.bind
  intro leafScript
  apply (nextUintAs_fails _ _).bind
  intro leafIndex
  have hsiblings : FailsToRead (readWitness.nextSiblings t) :=
    nextListPayload_fails.bind fun payload => .lift ((nextArray_fails _ _).readAll payload)
  apply hsiblings.bind
  intro siblings
  exact nextBytes_fails.bind fun witnessData => .pure _

/-- So does reading all fields. -/
theorem readFields_fails : FailsToRead (readFields t) := by
  apply readTransaction_fails.bind
  intro tx
  exact readWitness_fails.bind fun fields => .pure _

/-! ## Reading the fields -/

/-- The decoder up to the point where it looks at the leaf. -/
def decodeFields (t : Target) (raw : List U8) : HcaResult (TxMessage × HCAWitness t) := do
  rejectIf (raw = []) (.rlpDecodeError "empty input")
  let txType ← index raw 0
  rejectIf (txType ≠ hcaTxType) (.rlpDecodeError
    s!"wrong tx type: expected 0x{lowerHex hcaTxType}, got 0x{lowerHex txType}")
  let list ← sliceFrom raw 1
  let (payload, _) ← decodeList t list
  let (fields, cursor) ← readFields t payload 0
  rejectTrailing payload cursor
  pure fields

/-- The decoder reads the fields first and looks at the leaf last. -/
theorem decodeHcaTx_eq (raw : List U8) :
    decodeHcaTx t raw = (do
      let fields ← decodeFields t raw
      let witness ← rebuildWitness t fields.2
      pure (fields.1, witness)) := by
  simp only [decodeHcaTx, decodeFields, bind_assoc, pure_bind]

/-- Trailing bytes are a decoding error. -/
theorem rejectTrailing_fails (payload : List U8) (cursor : ℕ) :
    FailsToDecode (rejectTrailing payload cursor) := by
  unfold rejectTrailing
  split
  · exact (ErrorsIn.sub _ _).bind fun unexpected => decodeError_fails _
  · exact .pure _

/-- Everything before the leaf is looked at fails with decoding errors only. -/
theorem decodeFields_fails (raw : List U8) : FailsToDecode (decodeFields t raw) := by
  apply (ErrorsIn.rejectIf _ (isDecodeError _)).bind
  intro _
  apply (ErrorsIn.index _ _).bind
  intro txType
  apply (ErrorsIn.rejectIf _ (isDecodeError _)).bind
  intro _
  apply (ErrorsIn.sliceFrom _ _).bind
  intro list
  apply (decodeList_fails _).bind
  rintro ⟨payload, n⟩
  apply (readFields_fails _ _).bind
  rintro ⟨fields, cursor⟩
  exact (rejectTrailing_fails _ _).bind fun _ => .pure _

/-- The fields that are read are those that the bytes start with. -/
theorem decodeFields_eq_ok {raw : List U8} {tx : TxMessage} {w : HCAWitness t} :
    decodeFields t raw = .ok (tx, w) ↔ FramesTx t raw tx w := by
  unfold decodeFields
  rw [bind_eq_ok]
  constructor
  · rintro ⟨_, hne, h⟩
    obtain ⟨txType, list, rfl⟩ := List.exists_cons_of_ne_nil (rejectIf_eq_ok.mp hne)
    simp only [bind_eq_ok, index_eq_ok, rejectIf_eq_ok, sliceFrom_eq_ok, exists_const,
      List.getElem?_cons_zero, Option.some.injEq, not_not, List.drop_one, List.tail_cons] at h
    obtain ⟨_, rfl, rfl, _, ⟨-, rfl⟩, ⟨payload, n⟩, hlist, ⟨fields, cursor⟩, hfields, _, hend,
      hpure⟩ := h
    cases hpure
    obtain ⟨item, s, rfl, hitem, rfl⟩ := (decodeList_decodes _ _ _).mp hlist
    obtain ⟨word, rest, hsplit, hword, hcursor⟩ :=
      (readFields_reads _ _ _ _ (listWord_length hitem) (Nat.zero_le _)).mp hfields
    have hend' : cursor = payload.length := rejectTrailing_eq_ok.mp hend
    have hrest : rest = [] := by
      have hlen := congrArg List.length hsplit
      rw [List.drop_zero, List.length_append] at hlen
      apply List.eq_nil_of_length_eq_zero
      omega
    rw [hrest, List.append_nil, List.drop_zero] at hsplit
    exact ⟨payload, hsplit ▸ hword, item, hitem, s, rfl⟩
  · rintro ⟨payload, hpayload, item, hitem, s, rfl⟩
    have hlist := decodeList_decodes.eq_ok hitem s
    have hfields := (readFields_reads (t := t) payload 0 (tx, w) payload.length
      (listWord_length hitem) (Nat.zero_le _)).mpr
      ⟨payload, [], by simp, hpayload, by simp⟩
    have hend : rejectTrailing payload payload.length = .ok () := rejectTrailing_eq_ok.mpr rfl
    refine ⟨(), rejectIf_eq_ok.mpr (by simp), ?_⟩
    simp only [List.cons_append, index, List.getElem?_cons_zero, unwrap, ok_bind, sliceFrom,
      rejectIf_neg, List.length_cons, Nat.le_add_left, if_true, List.drop_one, List.tail_cons,
      hlist, hfields, hend, not_true_eq_false, ne_eq, not_false_eq_true]
    rfl

/-! ## Looking at the leaf -/

/-- A leaf that is refused takes its error with it. -/
theorem rebuildWitness_eq_error {fields : HCAWitness t} {e : HcaError}
    (h : Leaf.new fields.leafVersion fields.leafScript "" = .error (.err e)) :
    rebuildWitness t fields =
      .error (.err (.rlpDecodeError s!"invalid leaf in decoded tx: {e.display}")) := by
  rw [rebuildWitness, h]
  rfl

/-- The verdict of the decoder on any bytes. They start with the fields of at most one
transaction. If they do, it is accepted when `Leaf::new` accepts the leaf, and else refused with
the error of `Leaf::new` in the text. If they do not, they are refused with a decoding error.
SOURCE: rlp.rs:202-349, rlp.rs:362-521, merkle.rs:50-64 -/
theorem decode_verdict (t : Target) (raw : List U8) :
    (∀ (tx tx' : TxMessage) (w w' : HCAWitness t),
      FramesTx t raw tx w → FramesTx t raw tx' w' → tx = tx' ∧ w = w') ∧
    (∀ (tx : TxMessage) (w : HCAWitness t), FramesTx t raw tx w →
      (∀ leaf, Leaf.new w.leafVersion w.leafScript "" = .ok leaf →
        decodeHcaTx t raw = .ok (tx, w)) ∧
      (∀ e, Leaf.new w.leafVersion w.leafScript "" = .error (.err e) →
        decodeHcaTx t raw =
          .error (.err (.rlpDecodeError s!"invalid leaf in decoded tx: {e.display}")))) ∧
    ((∀ (tx : TxMessage) (w : HCAWitness t), ¬ FramesTx t raw tx w) →
      ∃ msg, decodeHcaTx t raw = .error (.err (.rlpDecodeError msg))) := by
  refine ⟨?_, ?_, ?_⟩
  · intro tx tx' w w' h h'
    have hread := decodeFields_eq_ok.mpr h
    rw [decodeFields_eq_ok.mpr h', Except.ok.injEq, Prod.mk.injEq] at hread
    exact ⟨hread.1.symm, hread.2.symm⟩
  · intro tx w h
    rw [decodeHcaTx_eq, decodeFields_eq_ok.mpr h, ok_bind]
    constructor
    · intro leaf hleaf
      rw [rebuildWitness_eq_ok.mpr ⟨rfl, leaf, hleaf⟩, ok_bind]
      rfl
    · intro e he
      rw [rebuildWitness_eq_error he, error_bind]
  · intro h
    have hreturns := returns_decodeHcaTx (t := t) raw
    rw [decodeHcaTx_eq] at hreturns ⊢
    obtain ⟨e, he⟩ := hreturns.of_bind.exists_err fun fields hfields =>
      h fields.1 fields.2 (decodeFields_eq_ok.mp hfields)
    obtain ⟨msg, rfl⟩ := (decodeFields_fails raw).kind e he
    exact ⟨msg, by rw [he, error_bind]⟩

end Hca.Analysis
