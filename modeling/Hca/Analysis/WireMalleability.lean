import Hca.Analysis.TransactionRoundTrip

set_option autoImplicit false

/-!
# What the decoder does not pin down

Two parts of an accepted byte string can be changed without a change of what is decoded:
the bytes behind the outer list, whose consumed count is thrown away, and the payload of
the access list, which is read and thrown away. Both are the only such parts: an accepted
input without bytes behind the list ends where the list does, and a framed input with an
empty access list is the encoding of what it decodes to.
-/

namespace Hca.Analysis

open Hca.Library Hca.Model Hca.Program Hca.Interface

variable {t : Target}

/-! ## Bytes behind the outer list -/

/-- A transaction with at least one more byte behind it. -/
def ExtraBytes (t : Target) (raw : List U8) : Prop :=
  ∃ core s, raw = core ++ s ∧ s ≠ [] ∧ ∃ tx w, core ∈ hcaTxWord t tx w

/-- An accepted input stays accepted, with the same result, whatever is appended. -/
theorem decodeHcaTx_append {raw : List U8} {tx : TxMessage} {w : HCAWitness t}
    (h : decodeHcaTx t raw = .ok (tx, w)) (s : List U8) :
    decodeHcaTx t (raw ++ s) = .ok (tx, w) := by
  rw [decodeHcaTx_eq_ok] at h ⊢
  obtain ⟨core, s', rfl, hcore⟩ := h
  exact ⟨core, s' ++ s, List.append_assoc _ _ _, hcore⟩

/-- The list of an accepted input ends at its last byte iff the input is not a transaction
with bytes behind it; and no accepted input is rejected when bytes are appended.
SOURCE: rlp.rs:377, rlp.rs:469-475 -/
theorem outer_list_ends_iff (raw : List U8) :
    ((∀ tx w, decodeHcaTx t raw = .ok (tx, w) →
        ∃ payload, decodeList t (raw.drop 1) = .ok (payload, raw.length - 1)) ↔
      ¬ ExtraBytes t raw) ∧
    ∀ tx w, decodeHcaTx t raw = .ok (tx, w) →
      ∀ s, decodeHcaTx t (raw ++ s) = .ok (tx, w) := by
  refine ⟨⟨?_, ?_⟩, ?_⟩
  · rintro hends ⟨core, s, rfl, hs, tx, w, hcore⟩
    obtain ⟨payload, hlist⟩ := hends tx w (decodeHcaTx_eq_ok.mpr ⟨core, s, rfl, hcore⟩)
    obtain ⟨-, payload', -, item, hitem, rfl⟩ := hcore
    have hitself := decodeList_decodes.eq_ok hitem s
    rw [List.cons_append, List.drop_one, List.tail_cons, hitself, Except.ok.injEq,
      Prod.mk.injEq] at hlist
    have hlen := hlist.2
    rw [List.length_cons, List.length_append] at hlen
    apply hs
    apply List.eq_nil_of_length_eq_zero
    omega
  · intro hextra tx w hdec
    obtain ⟨core, s, rfl, hcore⟩ := decodeHcaTx_eq_ok.mp hdec
    have hs : s = [] := by
      by_contra hs
      exact hextra ⟨core, s, rfl, hs, tx, w, hcore⟩
    obtain ⟨-, payload, -, item, hitem, rfl⟩ := hcore
    refine ⟨payload, ?_⟩
    have hitself := decodeList_decodes.eq_ok hitem []
    rw [hs, List.append_nil, List.drop_one, List.tail_cons, List.length_cons,
      Nat.add_sub_cancel]
    rwa [List.append_nil] at hitself
  · intro tx w hdec
    exact decodeHcaTx_append hdec

/-- The encoding of the sample transaction. -/
def sampleRaw : List U8 :=
  hcaTxType :: encodeList .usize64 (hcaTxFields .usize64 sampleTx sampleWitness)

/-- One zero byte behind an encoded transaction is accepted. -/
theorem trailing_byte_accepted :
    encodeHcaTx .usize64 sampleTx sampleWitness = .ok sampleRaw ∧
      decodeHcaTx .usize64 (sampleRaw ++ [0x00]) = .ok (sampleTx, sampleWitness) ∧
      decodeList .usize64 ((sampleRaw ++ [0x00]).drop 1) =
        .ok ((hcaTxFields .usize64 sampleTx sampleWitness).flatten,
          (sampleRaw ++ [0x00]).length - 2) := by
  decide +kernel

/-! ## The access list -/

/-- The words for integers can be told apart at the front of an input. -/
theorem uintWord_inj {m n : ℕ} {x y s s' : List U8} (hx : x ∈ uintWord t m)
    (hy : y ∈ uintWord t n) (h : x ++ s = y ++ s') : m = n ∧ x = y ∧ s = s' := by
  have hm := toNat_ofNat_of_uintWord hx
  have hn := toNat_ofNat_of_uintWord hy
  obtain ⟨hv, hxy, hs⟩ := (decodeUint_decodes (t := t)).selfDelimiting (BitVec.ofNat 128 m)
    (BitVec.ofNat 128 n) x y s s' (by rwa [hm]) (by rwa [hn]) h
  refine ⟨?_, hxy, hs⟩
  rw [← hm, ← hn, hv]

/-- A framed integer is the encoding of the integer that was read. -/
theorem uint_of_framed {n : ℕ} (hn : n ≤ 128) {v : BitVec n} {u : U128} {x s s' : List U8}
    (hx : x ∈ uintWord t v.toNat) (h : encodeUint t u ++ s' = x ++ s) :
    encodeUint t u = encodeUint t (v.setWidth 128) ∧ s' = s := by
  obtain ⟨hv, -, hs⟩ := uintWord_inj (encodeUint_mem_uintWord u) hx h
  refine ⟨?_, hs⟩
  have hu : u = v.setWidth 128 := by
    apply BitVec.eq_of_toNat_eq
    rw [hv, BitVec.toNat_setWidth_of_le hn]
  rw [hu]

/-- A string that is framed canonically is read as it was framed. -/
theorem bytes_of_framed {a v x s s' : List U8} (hfit : (encodeBytes t a).length < 2 ^ t.bits)
    (hx : x ∈ bytesWord t v) (h : encodeBytes t a ++ s' = x ++ s) : a = v ∧ s' = s := by
  obtain ⟨hv, -, hs⟩ := decodeBytes_decodes.selfDelimiting _ _ _ _ _ _
    (encodeBytes_mem_bytesWord hfit) hx h
  exact ⟨hv, hs⟩

/-- So is a list. -/
theorem list_of_framed {items : List (List U8)} {payload x s s' : List U8}
    (hfit : (encodeList t items).length < 2 ^ t.bits) (hx : x ∈ listWord t payload)
    (h : encodeList t items ++ s' = x ++ s) : items.flatten = payload ∧ s' = s := by
  obtain ⟨hpayload, -, hs⟩ := decodeList_decodes.selfDelimiting _ _ _ _ _ _
    (encodeList_mem_listWord hfit) hx h
  exact ⟨hpayload, hs⟩

/-- A list is encoded as what its items make together, and only that. -/
theorem encodeList_eq_iff {items items' : List (List U8)}
    (hfit : (encodeList t items).length < 2 ^ t.bits) :
    encodeList t items = encodeList t items' ↔ items.flatten = items'.flatten := by
  constructor
  · intro h
    have hx : encodeList t items' ∈ listWord t items'.flatten := by
      apply encodeList_mem_listWord
      rwa [← h]
    have hwhole : encodeList t items ++ [] = encodeList t items' ++ [] := by rw [h]
    exact (list_of_framed hfit hx hwhole).1
  · intro h
    rw [encodeList_eq, encodeList_eq, h]

/-- What a framed input decodes to gives back its payload, up to the access list. -/
theorem Frame.payload_eq {f : Frame} {tx : TxMessage} {w : HCAWitness t}
    (hfit : (f.raw t).length < 2 ^ t.bits) (hdec : decodeHcaTx t (f.raw t) = .ok (tx, w)) :
    (f.items t).flatten = txPayload t (encodeList t f.accessList) tx w := by
  have hbits : t.bits ≤ 128 := t.bits_le.trans (by decide)
  obtain ⟨core, s, hsplit, -, payload, hpayload, list, hlist, rfl⟩ := decodeHcaTx_eq_ok.mp hdec
  rw [Frame.raw, List.length_cons] at hfit
  rw [Frame.raw, List.cons_append, List.cons.injEq] at hsplit
  have hwhole : encodeList t (f.items t) ++ [] = list ++ s :=
    (List.append_nil _).trans hsplit.2
  obtain ⟨hitems, -⟩ := list_of_framed (by omega) hlist hwhole
  have hitem : ∀ x ∈ f.items t, x.length < 2 ^ t.bits := by
    intro x hx
    have hle := (List.sublist_flatten_of_mem hx).length_le
    rw [encodeList_eq, List.length_append] at hfit
    omega
  simp only [Frame.items, List.cons_append, List.forall_mem_cons] at hitem
  obtain ⟨-, -, hf₃, hf₄, -, -, -, -, hf₉, hf₁₀, -, hf₁₂, -, hf₁₄, hf₁₅, -⟩ := hitem
  rw [← hitems] at hpayload
  simp only [Frame.items, List.flatten_append, List.flatten_cons, List.flatten_nil,
    List.append_nil, List.append_assoc] at hpayload ⊢
  -- the fields of the words, in order
  obtain ⟨first, hfirst, second, hsecond, h⟩ := Language.mem_mul.mp hpayload
  obtain ⟨x₁, hx₁, _, ⟨x₂, hx₂, _, ⟨x₃, hx₃, _, ⟨x₄, hx₄, _, ⟨x₅, hx₅, _, ⟨x₆, hx₆, _,
    ⟨x₇, hx₇, _, ⟨x₈, hx₈, _, ⟨x₉, ⟨access, hx₉⟩, x₁₀, hx₁₀, rfl⟩, rfl⟩, rfl⟩, rfl⟩, rfl⟩,
    rfl⟩, rfl⟩, rfl⟩, rfl⟩ := hfirst
  obtain ⟨y₁, hy₁, _, ⟨y₂, hy₂, _, ⟨y₃, hy₃, _, ⟨y₄, ⟨sibs, hsibs, hy₄⟩, y₅, hy₅, rfl⟩, rfl⟩,
    rfl⟩, rfl⟩ := hsecond
  simp only [List.append_assoc] at h
  -- each framed field is the encoding of what was read in its place
  obtain ⟨h₁, h⟩ := uint_of_framed (by decide) hx₁ h.symm
  obtain ⟨h₂, h⟩ := uint_of_framed (by decide) hx₂ h
  obtain ⟨h₃, h⟩ := bytes_of_framed hf₃ hx₃ h
  obtain ⟨h₄, h⟩ := bytes_of_framed hf₄ hx₄ h
  obtain ⟨h₅, h⟩ := uint_of_framed (by decide) hx₅ h
  obtain ⟨h₆, h⟩ := uint_of_framed (by decide) hx₆ h
  obtain ⟨h₇, h⟩ := uint_of_framed (by decide) hx₇ h
  obtain ⟨h₈, h⟩ := uint_of_framed (by decide) hx₈ h
  obtain ⟨-, h⟩ := list_of_framed hf₉ hx₉ h
  obtain ⟨h₁₀, h⟩ := bytes_of_framed hf₁₀ hx₁₀ h
  obtain ⟨h₁₁, h⟩ := uint_of_framed (by decide) hy₁ h
  obtain ⟨h₁₂, h⟩ := bytes_of_framed hf₁₂ hy₂ h
  obtain ⟨h₁₃, h⟩ := uint_of_framed hbits hy₃ h
  obtain ⟨h₁₄, h⟩ := list_of_framed hf₁₄ hy₄ h
  obtain ⟨h₁₅, h⟩ := bytes_of_framed hf₁₅ hy₅ (h.trans (List.append_nil y₅).symm)
  have hsiblings : encodeList t f.siblings =
      encodeList t (encodeSiblings t w.merkleProof.siblings) := by
    rw [encodeList_eq, encodeList_eq, h₁₄, eq_of_mem_siblingsPayload hsibs]
  rw [BitVec.setWidth_eq] at h₅ h₇ h₈
  rw [h₁, h₂, h₃, h₄, h₅, h₆, h₇, h₈, h₁₀, h₁₁, h₁₂, h₁₃, hsiblings, h₁₅, h, txPayload]
  simp only [List.append_assoc, List.append_nil]

/-- Payloads that differ in nothing but the access list are equal iff those are. -/
theorem txPayload_inj {a b : List U8} {tx : TxMessage} {w : HCAWitness t} :
    txPayload t a tx w = txPayload t b tx w ↔ a = b := by
  simp [txPayload]

/-- An accepted and signed framed input is the encoding of what it decodes to iff the items
of its access list are empty. Two framed inputs that decode to one transaction and witness
differ iff their access lists do.
SOURCE: rlp.rs:436-437 -/
theorem framed_decode_encode_iff {f : Frame} {tx : TxMessage} {w : HCAWitness t}
    (hsize : (f.raw t).length ≤ t.isizeMax) (hdec : decodeHcaTx t (f.raw t) = .ok (tx, w))
    (hsigned : w.isSigned = true) :
    (encodeHcaTx t tx w = .ok (f.raw t) ↔ f.accessList.flatten = []) ∧
    ∀ g : Frame, (g.raw t).length ≤ t.isizeMax → decodeHcaTx t (g.raw t) = .ok (tx, w) →
      (f.raw t = g.raw t ↔ f.accessList.flatten = g.accessList.flatten) := by
  have hlt := t.isizeMax_lt
  have hpayload := Frame.payload_eq (by omega) hdec
  have hlist : (encodeList t (f.items t)).length < 2 ^ t.bits := by
    rw [Frame.raw, List.length_cons] at hsize
    omega
  have haccess : (encodeList t f.accessList).length < 2 ^ t.bits := by
    rw [encodeList_eq, List.length_append, hpayload] at hlist
    simp only [txPayload, List.length_append] at hlist
    omega
  constructor
  · have hencode : encodeHcaTx t tx w = .ok (hcaTxType :: encodeList t (hcaTxFields t tx w)) :=
      encodeHcaTx_eq_ok.mpr ⟨hsigned, rfl⟩
    rw [hencode, Except.ok.injEq, Frame.raw, List.cons_inj_right, eq_comm,
      encodeList_eq_iff hlist, hpayload, hcaTxFields_flatten, txPayload_inj,
      encodeList_eq_iff haccess, List.flatten_nil]
  · intro g hgsize hgdec
    rw [Frame.raw, Frame.raw, List.cons_inj_right, encodeList_eq_iff hlist, hpayload,
      Frame.payload_eq (by omega) hgdec, txPayload_inj, encodeList_eq_iff haccess]

/-- The sample transaction with one item in its access list. -/
def sampleFrame (accessList : List (List U8)) : Frame where
  chainId := 1
  nonce := 7
  «from» := sampleTx.«from».val
  «to» := sampleTx.«to».val
  value := sampleTx.value
  gasLimit := 100000
  maxFeePerGas := sampleTx.maxFeePerGas
  maxPriorityFeePerGas := sampleTx.maxPriorityFeePerGas
  accessList := accessList
  data := sampleTx.data
  leafVersion := 0x01
  leafScript := [0x00]
  leafIndex := 0
  siblings := []
  witnessData := [0x01]
  further := []

/-- With an item in its access list or without, the frame decodes to one transaction, and it
is the empty access list that the encoder writes. -/
theorem sampleFrame_decodes :
    (∀ accessList ∈ [[], [[0x01]]],
      decodeHcaTx .usize64 ((sampleFrame accessList).raw .usize64) =
        .ok (sampleTx, sampleWitness)) ∧
      encodeHcaTx .usize64 sampleTx sampleWitness = .ok ((sampleFrame []).raw .usize64) ∧
      (sampleFrame []).raw .usize64 ≠ (sampleFrame [[0x01]]).raw .usize64 ∧
      ((sampleFrame []).raw .usize64).length ≤ 1000 := by
  decide +kernel

/-- The frame with the empty access list is what the encoder writes. -/
theorem framed_decode_encode_iff_sample :
    encodeHcaTx .usize64 sampleTx sampleWitness = .ok ((sampleFrame []).raw .usize64) ↔
      (sampleFrame []).accessList.flatten = [] :=
  have hsize := sampleFrame_decodes.2.2.2.trans (by decide : 1000 ≤ Target.usize64.isizeMax)
  (framed_decode_encode_iff hsize (sampleFrame_decodes.1 [] (by simp)) (by decide)).1

/-- A transaction with an item in its access list is accepted, and is not what its decoded
form is encoded to. -/
theorem access_list_dropped :
    decodeHcaTx .usize64 ((sampleFrame [[0x01]]).raw .usize64) = .ok (sampleTx, sampleWitness) ∧
      sampleWitness.isSigned = true ∧
      encodeHcaTx .usize64 sampleTx sampleWitness ≠ .ok ((sampleFrame [[0x01]]).raw .usize64) ∧
      decodeHcaTx .usize64 ((sampleFrame []).raw .usize64) = .ok (sampleTx, sampleWitness) ∧
      (sampleFrame []).raw .usize64 ≠ (sampleFrame [[0x01]]).raw .usize64 := by
  obtain ⟨hdecodes, hencodes, hne, -⟩ := sampleFrame_decodes
  refine ⟨hdecodes _ (by simp), rfl, ?_, hdecodes _ (by simp), hne⟩
  rw [hencodes]
  exact fun h => hne (Except.ok.inj h)

end Hca.Analysis
