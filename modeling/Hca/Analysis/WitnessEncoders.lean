import Hca.Analysis.WireLimits

set_option autoImplicit false

/-!
# The two encoders of a witness

`HCAWitness::encode` writes the witness fields as a list, `encode_hca_tx` as the end of the
list of a transaction. The bytes are the same. Both refuse a witness without a signature,
but only the first one looks at the size.
-/

namespace Hca.Analysis

open Hca.Library Hca.Model Hca.Program Hca.Interface

variable {t : Target}

/-- A witness is encoded alone iff it is signed and its size is within the limit. -/
theorem encode_isOk_iff {w : HCAWitness t} :
    (∃ enc, HCAWitness.encode t w = .ok enc) ↔
      w.isSigned = true ∧ witnessSize w ≤ maxWitnessSize := by
  rw [← length_encodeList_fields_le_iff]
  constructor
  · rintro ⟨enc, henc⟩
    obtain ⟨hsigned, hsize, rfl⟩ := encode_eq_ok.mp henc
    exact ⟨hsigned, hsize⟩
  · rintro ⟨hsigned, hsize⟩
    exact ⟨_, encode_eq_ok.mpr ⟨hsigned, hsize, rfl⟩⟩

/-- The fields of a transaction end with those of its witness. -/
theorem fields_suffix_hcaTxFields (tx : TxMessage) (w : HCAWitness t) :
    (HCAWitness.fields t w).flatten <:+ (hcaTxFields t tx w).flatten := by
  have hfields : hcaTxFields t tx w =
      (hcaTxFields t tx w).take 10 ++ HCAWitness.fields t w := rfl
  rw [hfields, List.flatten_append]
  exact List.suffix_append _ _

/-- The list of a transaction ends with the payload of the list of its witness. -/
theorem payload_suffix_of_encoded {tx : TxMessage} {w : HCAWitness t} {raw enc : List U8}
    (hraw : encodeHcaTx t tx w = .ok raw) (henc : HCAWitness.encode t w = .ok enc)
    (hlen : raw.length ≤ t.isizeMax) :
    ∃ txPayload payload, decodeList t (raw.drop 1) = .ok (txPayload, raw.length - 1) ∧
      decodeList t enc = .ok (payload, enc.length) ∧ payload <:+ txPayload := by
  obtain ⟨-, rfl⟩ := encodeHcaTx_eq_ok.mp hraw
  obtain ⟨-, hsize, rfl⟩ := encode_eq_ok.mp henc
  have hmax := t.isizeMax_lt
  have hbits := t.pow_bits_ge
  have hwitness : maxWitnessSize < 2 ^ 32 := by decide
  rw [List.length_cons] at hlen
  refine ⟨(hcaTxFields t tx w).flatten, (HCAWitness.fields t w).flatten, ?_, ?_,
    fields_suffix_hcaTxFields tx w⟩
  · rw [List.drop_one, List.tail_cons, List.length_cons, Nat.add_sub_cancel]
    exact decodeList_encodeList (by omega)
  · exact decodeList_encodeList (by omega)

/-- The two encoders agree iff the witness is not signed or within the size limit: where the
witness is too large, only the one for transactions accepts it. What both write is the same.
SOURCE: rlp.rs:146-191, witness.rs:151-182 -/
theorem witness_encoders_agree_iff (tx : TxMessage) (w : HCAWitness t) :
    (((∃ raw, encodeHcaTx t tx w = .ok raw) ↔ ∃ enc, HCAWitness.encode t w = .ok enc) ∧
      ∀ raw enc, encodeHcaTx t tx w = .ok raw → HCAWitness.encode t w = .ok enc →
        raw.length ≤ t.isizeMax →
          ∃ txPayload payload, decodeList t (raw.drop 1) = .ok (txPayload, raw.length - 1) ∧
            decodeList t enc = .ok (payload, enc.length) ∧ payload <:+ txPayload) ↔
      w.isSigned = false ∨ witnessSize w ≤ maxWitnessSize := by
  have htx : (∃ raw, encodeHcaTx t tx w = .ok raw) ↔ w.isSigned = true := by
    simp only [encodeHcaTx_eq_ok, exists_and_left, exists_eq, and_true]
  rw [and_iff_left fun raw enc => payload_suffix_of_encoded, htx, encode_isOk_iff]
  cases w.isSigned <;> simp

/-- A witness with a signature of 65536 bytes is encoded in a transaction, and not alone. -/
theorem large_witness_encoded :
    (∃ raw, encodeHcaTx .usize64 sampleTx (witnessWith [] (List.replicate 65536 0x01)) = .ok raw) ∧
      ¬ ∃ enc, HCAWitness.encode .usize64 (witnessWith [] (List.replicate 65536 0x01)) =
        .ok enc := by
  constructor
  · exact ⟨_, encodeHcaTx_eq_ok.mpr ⟨rfl, rfl⟩⟩
  · apply encode_witnessWith_large
    rw [List.length_replicate]

end Hca.Analysis
