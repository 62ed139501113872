import Hca.Analysis.LeafAdmission
import Hca.Analysis.RlpPrimitives

set_option autoImplicit false

/-!
# The transaction decoder and its grammar

Each reader of the decoder accepts the words of one part of the grammar, and the fifteen
fields are composed from them. The decoder accepts a byte string exactly when it starts
with a word of the grammar of transactions: it reads the outer list, and does not look at
what comes behind it.
-/

namespace Hca.Analysis

open Hca.Library Hca.Model Hca.Program Hca.Interface
open BigEndian (ofBytes)

variable {t : Target}

/-! ## Fields -/

/-- The reader of an integer reads its words. -/
theorem nextUint_reads : Reads t.bits (nextUint t) fun v => uintWord t v.toNat :=
  reads_next decodeUint_decodes

/-- So does the reader of a string. -/
theorem nextBytes_reads : Reads t.bits (nextBytes t) (bytesWord t) :=
  reads_next decodeBytes_decodes

/-- And that of a list. -/
theorem nextListPayload_reads : Reads t.bits (nextListPayload t) (listWord t) :=
  reads_next decodeList_decodes

/-- An integer is accepted at a narrower width iff it fits. -/
theorem nextUintAs_reads (n : ℕ) (msg : String) :
    Reads t.bits (nextUintAs t n msg) fun v => uintWord t v.toNat := by
  apply (reads_checked nextUint_reads).congr
  intro v w
  constructor
  · rintro ⟨a, hw, ha⟩
    rw [okOr_eq_ok, tryFrom_eq_some] at ha
    rwa [← ha]
  · intro hw
    have hv : (BitVec.ofNat 128 v.toNat).toNat = v.toNat := by
      rw [BitVec.toNat_ofNat, Nat.mod_eq_of_lt (uintWord_lt hw)]
    refine ⟨BitVec.ofNat 128 v.toNat, ?_, ?_⟩
    · rwa [hv]
    · rw [okOr_eq_ok, tryFrom_eq_some, hv]

/-- A field of fixed size is converted iff it has that size. -/
theorem toArray_eq_ok {n : ℕ} {what : String} {bytes : List U8} {a : Bytes n} :
    toArray n what bytes = .ok a ↔ bytes = a.val := by
  unfold toArray
  simp only [bind_eq_ok, rejectIf_eq_ok, copyFromSlice_eq_ok, exists_const, not_not]
  constructor
  · intro h
    exact h.2
  · rintro rfl
    exact ⟨a.property, rfl⟩

/-- The reader of such a field reads the words of its bytes. -/
theorem nextArray_reads (n : ℕ) (what : String) :
    Reads t.bits (nextArray t n what) fun a => bytesWord t a.val := by
  apply (reads_checked nextBytes_reads).congr
  intro a w
  simp only [toArray_eq_ok]
  constructor
  · rintro ⟨bytes, hw, rfl⟩
    exact hw
  · intro hw
    exact ⟨a.val, hw, rfl⟩

/-- The sibling loop accepts the concatenations of encoded siblings. -/
theorem decodeSiblings_eq_ok {payload : List U8} {siblings : List Digest}
    (hlen : payload.length < 2 ^ t.bits) :
    decodeSiblings t payload = .ok siblings ↔ payload ∈ siblingsPayload t siblings := by
  apply readAll_eq_ok (nextArray_reads 32 "sibling") _ hlen
  intro s
  exact bytesWord_ne_nil s.val

/-- A payload that was read fits memory. -/
theorem listWord_length {payload w : List U8} (hw : w ∈ listWord t payload) :
    payload.length < 2 ^ t.bits := by
  obtain ⟨header, -, rfl, hfit⟩ := hw
  rw [List.length_append] at hfit
  omega

/-- The siblings are read from the words for them. -/
theorem nextSiblings_reads : Reads t.bits (readWitness.nextSiblings t) (siblingsWord t) := by
  apply (reads_checked nextListPayload_reads).congr
  intro siblings w
  constructor
  · rintro ⟨payload, hw, hsiblings⟩
    exact ⟨payload, (decodeSiblings_eq_ok (listWord_length hw)).mp hsiblings, hw⟩
  · rintro ⟨payload, hsiblings, hw⟩
    exact ⟨payload, hw, (decodeSiblings_eq_ok (listWord_length hw)).mpr hsiblings⟩

/-! ## Records -/

/-- Reading the transaction fields reads the words of a transaction. -/
theorem readTransaction_reads : Reads t.bits (readTransaction t) (transactionWord t) := by
  have hrecord : Reads t.bits (readTransaction t) fun tx => {w | True ∧ w ∈
      uintWord t tx.chainId.toNat * (uintWord t tx.nonce.toNat * (bytesWord t tx.«from».val *
      (bytesWord t tx.«to».val * (uintWord t tx.value.toNat * (uintWord t tx.gasLimit.toNat *
      (uintWord t tx.maxFeePerGas.toNat * (uintWord t tx.maxPriorityFeePerGas.toNat *
      (anyListWord t * (bytesWord t tx.data * 1)))))))))} := by
    apply reads_field TxMessage.chainId (nextUintAs_reads _ _)
    intro chainId
    apply reads_field TxMessage.nonce (nextUintAs_reads _ _)
    intro nonce
    apply reads_field TxMessage.from (nextArray_reads _ _)
    intro «from»
    apply reads_field TxMessage.to (nextArray_reads _ _)
    intro «to»
    apply reads_field TxMessage.value nextUint_reads
    intro value
    apply reads_field TxMessage.gasLimit (nextUintAs_reads _ _)
    intro gasLimit
    apply reads_field TxMessage.maxFeePerGas nextUint_reads
    intro maxFeePerGas
    apply reads_field TxMessage.maxPriorityFeePerGas nextUint_reads
    intro maxPriorityFeePerGas
    apply reads_skip nextListPayload_reads (fun w => Iff.rfl)
    intro accessList
    apply reads_field TxMessage.data nextBytes_reads
    intro data
    apply reads_record
    intro tx
    cases tx
    simp only [TxMessage.mk.injEq]
    tauto
  apply (reads_of_record hrecord).congr
  intro tx w
  rw [transactionWord, mul_one]

/-- Reading the witness fields reads the words of a witness. -/
theorem readWitness_reads : Reads t.bits (readWitness t) (witnessWord t) := by
  have hrecord : Reads t.bits (readWitness t) fun fields => {w | True ∧ w ∈
      uintWord t fields.leafVersion.toNat * (bytesWord t fields.leafScript *
      (uintWord t fields.merkleProof.leafIndex.toNat *
      (siblingsWord t fields.merkleProof.siblings * (bytesWord t fields.witnessData * 1))))} := by
    apply reads_field HCAWitness.leafVersion (nextUintAs_reads _ _)
    intro leafVersion
    apply reads_field HCAWitness.leafScript nextBytes_reads
    intro leafScript
    apply reads_field (fun fields : HCAWitness t => fields.merkleProof.leafIndex)
      (nextUintAs_reads _ _)
    intro leafIndex
    apply reads_field (fun fields : HCAWitness t => fields.merkleProof.siblings)
      nextSiblings_reads
    intro siblings
    apply reads_field HCAWitness.witnessData nextBytes_reads
    intro witnessData
    apply reads_record
    rintro ⟨version, script, ⟨leafIndex', siblings'⟩, data⟩
    simp only [HCAWitness.mk.injEq, MerkleProof.mk.injEq]
    tauto
  apply (reads_of_record hrecord).congr
  intro fields w
  rw [witnessWord, mul_one]

/-- Reading all fields reads the one after the other. -/
theorem readFields_reads :
    Reads t.bits (readFields t) fun v => transactionWord t v.1 * witnessWord t v.2 := by
  have hrecord : Reads t.bits (readFields t) fun v => {w | True ∧ w ∈
      transactionWord t v.1 * (witnessWord t v.2 * 1)} := by
    apply reads_field Prod.fst readTransaction_reads
    intro tx
    apply reads_field Prod.snd readWitness_reads
    intro fields
    apply reads_record
    intro v
    simp only [Prod.ext_iff]
    tauto
  apply (reads_of_record hrecord).congr
  intro v w
  rw [mul_one]

/-! ## The decoder -/

/-- The check passes iff the cursor is at the end of the payload. -/
theorem rejectTrailing_eq_ok {payload : List U8} {cursor : ℕ} {u : Unit} :
    rejectTrailing payload cursor = .ok u ↔ cursor = payload.length := by
  unfold rejectTrailing
  by_cases h : cursor = payload.length
  · simp [h]
  · rw [if_pos h, bind_eq_ok]
    constructor
    · rintro ⟨n, -, herr⟩
      cases herr
    · intro heq
      exact absurd heq h

/-- The rebuilt witness has the fields that were read. -/
theorem rebuildWitness_eq_ok {fields w : HCAWitness t} :
    rebuildWitness t fields = .ok w ↔
      w = fields ∧ ∃ leaf, Leaf.new fields.leafVersion fields.leafScript "" = .ok leaf := by
  unfold rebuildWitness
  rw [bind_eq_ok]
  simp only [mapErr_eq_ok]
  have hbuild : ∀ leaf, Leaf.new fields.leafVersion fields.leafScript "" = .ok leaf →
      ((if fields.witnessData ≠ [] then
          (HCAWitness.build leaf fields.merkleProof).attachSignature fields.witnessData
        else pure (HCAWitness.build leaf fields.merkleProof)) = .ok w ↔ w = fields) := by
    intro leaf hleaf
    rw [leafNew_eq hleaf]
    obtain ⟨version, script, proof, data⟩ := fields
    by_cases hdata : data = []
    · subst hdata
      rw [if_neg (by simp), pure_eq_ok]
      exact eq_comm
    · rw [if_pos (by simpa using hdata), HCAWitness.attachSignature, rejectIf_neg hdata, ok_bind,
        pure_eq_ok]
      exact eq_comm
  constructor
  · rintro ⟨leaf, hleaf, hrest⟩
    exact ⟨(hbuild leaf hleaf).mp hrest, leaf, hleaf⟩
  · rintro ⟨hw, leaf, hleaf⟩
    exact ⟨leaf, hleaf, (hbuild leaf hleaf).mpr hw⟩

/-- The decoder accepts exactly the byte strings that start with a transaction. -/
theorem decodeHcaTx_eq_ok {raw : List U8} {tx : TxMessage} {w : HCAWitness t} :
    decodeHcaTx t raw = .ok (tx, w) ↔ ∃ core s, raw = core ++ s ∧ core ∈ hcaTxWord t tx w := by
  unfold decodeHcaTx
  rw [bind_eq_ok]
  constructor
  · rintro ⟨_, hne, h⟩
    obtain ⟨txType, list, rfl⟩ := List.exists_cons_of_ne_nil (rejectIf_eq_ok.mp hne)
    simp only [bind_eq_ok, index_eq_ok, rejectIf_eq_ok, sliceFrom_eq_ok, exists_const,
      List.getElem?_cons_zero, Option.some.injEq, not_not, List.drop_one, List.tail_cons] at h
    obtain ⟨_, rfl, rfl, _, ⟨-, rfl⟩, ⟨payload, n⟩, hlist, ⟨⟨tx', fields⟩, cursor⟩, hfields,
      _, hend, fields', hwitness, hpure⟩ := h
    obtain ⟨item, s, rfl, hitem, rfl⟩ := (decodeList_decodes _ _ _).mp hlist
    obtain ⟨word, rest, hsplit, hword, hcursor⟩ :=
      (readFields_reads _ _ _ _ (listWord_length hitem) (Nat.zero_le _)).mp hfields
    have hend' : cursor = payload.length := rejectTrailing_eq_ok.mp hend
    rw [rebuildWitness_eq_ok] at hwitness
    obtain ⟨rfl, hleaf⟩ := hwitness
    cases hpure
    have hrest : rest = [] := by
      have hlen := congrArg List.length hsplit
      rw [List.drop_zero, List.length_append] at hlen
      apply List.eq_nil_of_length_eq_zero
      omega
    rw [hrest, List.append_nil, List.drop_zero] at hsplit
    refine ⟨hcaTxType :: item, s, rfl, hleaf, payload, ?_, item, hitem, rfl⟩
    rw [hsplit]
    exact hword
  · rintro ⟨core, s, rfl, hleaf, payload, hpayload, item, hitem, rfl⟩
    have hlist := decodeList_decodes.eq_ok hitem s
    have hfields := (readFields_reads (t := t) payload 0 (tx, w) payload.length
      (listWord_length hitem) (Nat.zero_le _)).mpr
      ⟨payload, [], by simp, hpayload, by simp⟩
    have hend : rejectTrailing payload payload.length = .ok () := rejectTrailing_eq_ok.mpr rfl
    have hwitness := rebuildWitness_eq_ok.mpr ⟨rfl, hleaf⟩
    refine ⟨(), rejectIf_eq_ok.mpr (by simp), ?_⟩
    simp only [List.cons_append, index, List.getElem?_cons_zero, unwrap, ok_bind, sliceFrom,
      rejectIf_neg, List.length_cons, Nat.le_add_left, if_true, List.drop_one, List.tail_cons,
      hlist, hfields, hend, hwitness, not_true_eq_false, ne_eq, not_false_eq_true]
    rfl

end Hca.Analysis
