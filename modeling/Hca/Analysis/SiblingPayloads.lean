import Hca.Analysis.CanonicalForms
import Hca.Analysis.TransactionRoundTrip

set_option autoImplicit false

/-!
# The payload of the sibling list

The sibling loop of the decoder reads byte strings until the payload is used up and asks
each of them to have 32 bytes. A byte string of 32 bytes has one encoding, so the loop
accepts the sequences of blocks of 33 bytes and nothing else.
-/

namespace Hca.Analysis

open Hca.Library Hca.Model Hca.Program Hca.Interface

variable {t : Target}

/-- The payload of siblings is a block for each of them, and nothing else. -/
theorem mem_siblingsPayload_iff {siblings : List Digest} {payload : List U8} :
    payload ∈ siblingsPayload t siblings ↔ payload = siblingBlocks siblings := by
  rw [← encodeSiblings_flatten (t := t)]
  constructor
  · exact eq_of_mem_siblingsPayload
  · rintro rfl
    exact encodeSiblings_flatten_mem siblings

/-- The list of the encoded siblings has their blocks as its payload. -/
theorem decodeList_encodeSiblings {siblings : List Digest}
    (hlen : (siblingBlocks siblings).length ≤ t.isizeMax) :
    decodeList t (encodeList t (encodeSiblings t siblings)) =
      .ok (siblingBlocks siblings, (encodeList t (encodeSiblings t siblings)).length) := by
  rw [← encodeSiblings_flatten (t := t)] at hlen ⊢
  have hrun := decodeList_decodes.eq_ok (encodeList_mem_listWord_of_le hlen) []
  rwa [List.append_nil] at hrun

/-- The sibling loop ends on every payload. It accepts the sequences of blocks, returning
their 32-byte strings in order, whose encoded list has the payload back; on every other
payload it returns an error.
SOURCE: rlp.rs:151-157, rlp.rs:202-273, rlp.rs:449-465 -/
theorem decodeSiblings_grammar {p : List U8} (hp : p.length ≤ t.isizeMax) :
    (∀ fuel, p.length < fuel →
      Returns (loop (readAllRound (nextArray t 32 "sibling") p) fuel ([], 0))) ∧
    (∀ siblings, decodeSiblings t p = .ok siblings ↔ p = siblingBlocks siblings) ∧
    (∀ siblings, p = siblingBlocks siblings →
      p = (siblings.map fun s => encodeBytes t s.val).flatten ∧
      decodeList t (encodeList t (siblings.map fun s => encodeBytes t s.val)) =
        .ok (p, (encodeList t (siblings.map fun s => encodeBytes t s.val)).length)) ∧
    ((∀ siblings, p ≠ siblingBlocks siblings) → ∃ e, decodeSiblings t p = .error (.err e)) := by
  have hlen : p.length < 2 ^ t.bits := hp.trans_lt t.isizeMax_lt
  have hgrammar : ∀ siblings, decodeSiblings t p = .ok siblings ↔ p = siblingBlocks siblings := by
    intro siblings
    rw [decodeSiblings_eq_ok hlen, mem_siblingsPayload_iff]
  refine ⟨fun fuel hfuel => returns_siblingLoop hlen hfuel, hgrammar, ?_, ?_⟩
  · rintro siblings rfl
    exact ⟨(encodeSiblings_flatten siblings).symm, decodeList_encodeSiblings hp⟩
  · intro hother
    have hreturns : Returns (decodeSiblings t p) :=
      returns_siblingLoop hlen (Nat.lt_succ_self _)
    exact hreturns.exists_err fun siblings h => hother siblings ((hgrammar siblings).mp h)

/-- Two blocks are decoded to two siblings. -/
theorem decodeSiblings_grammar_sample :
    decodeSiblings .usize64 (siblingBlocks [default, default]) = .ok [default, default] :=
  ((decodeSiblings_grammar (by decide)).2.1 _).mpr rfl

end Hca.Analysis
