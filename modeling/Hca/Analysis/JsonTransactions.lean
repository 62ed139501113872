import Hca.Interface.HashInputs
import Hca.Interface.JsonFields

set_option autoImplicit false

/-!
# Transactions read from JSON

What the command line tool reads from a JSON object, field by field, and what the WASM entry
point reads from the same object. Each field falls back on a default of its own for values
of another kind than the one it looks for, so the amounts that are kept, and those on which
both entry points agree, depend on the kind of the value.
-/

namespace Hca.Analysis

open Hca.Library Hca.Model Hca.Program Hca.Interface

variable {lib : JsonLib} {v : Value} {tx : TxMessage}

/-! ## The fields of the command line tool -/

/-- `decode_hex` gives the bytes that the text declares. -/
theorem decodeHex_eq_ok {s : String} {bytes : List U8} :
    Cli.decodeHex lib s = .ok bytes ↔ declaredBytes (.string s) = some bytes := by
  simp only [Cli.decodeHex, declaredBytes]
  split <;> simp [*]

/-- Only strings declare bytes. -/
theorem declaredBytes_eq_some {d : Value} {bytes : List U8} :
    declaredBytes d = some bytes ↔ ∃ s, d = .string s ∧ declaredBytes (.string s) = some bytes := by
  cases d <;> simp [declaredBytes]

/-- An address is read iff the field declares 20 bytes. -/
theorem parseAddress_eq_ok {key : String} {address : Bytes 20} :
    Cli.parseAddress lib v key = .ok address ↔
      declaredBytes (v.index key) = some address.val := by
  rw [declaredBytes_eq_some]
  unfold Cli.parseAddress
  simp only [bind_eq_ok, okOr_eq_ok, Value.asStr_eq_some, decodeHex_eq_ok, rejectIf_eq_ok,
    copyFromSlice_eq_ok, exists_const, not_not]
  constructor
  · rintro ⟨s, hs, bytes, hbytes, -, rfl⟩
    exact ⟨s, hs, hbytes⟩
  · rintro ⟨s, hs, hbytes⟩
    exact ⟨s, hs, _, hbytes, address.property, rfl⟩

/-- A `u64` field is read iff it holds an integer in range. -/
theorem parseU64_eq_ok {key : String} {n : U64} :
    Cli.parseU64 v key = .ok n ↔ v.index key = .number (.posInt n) := by
  rw [Cli.parseU64, okOr_eq_ok, Value.asU64_eq_some]

/-- An amount is read from a string, and is zero for any other value. -/
theorem parseU128_eq_ok {key : String} {n : U128} :
    Cli.parseU128 v key = .ok n ↔
      decimalValue ((v.index key).asStr.getD "0").toList = some n.toNat := by
  rw [Cli.parseU128, okOr_eq_ok, parseUint_eq_some]

/-- The calldata is that of a string, and empty for any other value. -/
theorem parseData_eq_ok {data : List U8} :
    Cli.parseData lib v = .ok data ↔
      declaredBytes (v.index "data") = some data ∨
        (v.index "data").asStr = none ∧ data = [] := by
  unfold Cli.parseData
  cases hd : v.index "data" with
  | string s => simp [Value.asStr, decodeHex_eq_ok]
  | _ => simp [Value.asStr, declaredBytes, eq_comm]

/-- The transaction has the fields that the object declares, or their defaults. -/
structure ReadFrom (v : Value) (tx : TxMessage) : Prop where
  «from» : declaredBytes (v.index "from") = some tx.«from».val
  «to» : declaredBytes (v.index "to") = some tx.«to».val
  value : decimalValue ((v.index "value").asStr.getD "0").toList = some tx.value.toNat
  data : declaredBytes (v.index "data") = some tx.data ∨
    (v.index "data").asStr = none ∧ tx.data = []
  chainId : v.index "chain_id" = .number (.posInt tx.chainId)
  nonce : v.index "nonce" = .number (.posInt tx.nonce)
  gasLimit : v.index "gas_limit" = .number (.posInt tx.gasLimit)
  maxFeePerGas : decimalValue ((v.index "max_fee_per_gas").asStr.getD "0").toList =
    some tx.maxFeePerGas.toNat
  maxPriorityFeePerGas :
    decimalValue ((v.index "max_priority_fee_per_gas").asStr.getD "0").toList =
      some tx.maxPriorityFeePerGas.toNat

/-- The parser accepts an object iff all its fields can be read. -/
theorem parseTxMessage_eq_ok : Cli.parseTxMessage lib v = .ok tx ↔ ReadFrom v tx := by
  unfold Cli.parseTxMessage
  simp only [bind_eq_ok, parseAddress_eq_ok, parseU64_eq_ok, parseU128_eq_ok, parseData_eq_ok,
    pure_eq_ok]
  constructor
  · rintro ⟨«from», hfrom, «to», hto, value, hvalue, data, hdata, chainId, hchain, nonce, hnonce,
      gasLimit, hgas, maxFee, hmax, maxPriority, hpriority, rfl⟩
    exact ⟨hfrom, hto, hvalue, hdata, hchain, hnonce, hgas, hmax, hpriority⟩
  · intro h
    exact ⟨_, h.from, _, h.to, _, h.value, _, h.data, _, h.chainId, _, h.nonce, _, h.gasLimit, _,
      h.maxFeePerGas, _, h.maxPriorityFeePerGas, rfl⟩

/-! ## Fields that are kept -/

/-- Looking up a field that is given gives its value. -/
theorem index_of_given {key : String} {d : Value} (h : Given v key d) : v.index key = d := by
  rw [Value.index, h.1, Option.getD_some]

/-- An integer field is kept iff it is a string or zero. -/
theorem declaredInteger_kept_iff {d : Value} {n : U128} (hd : d ≠ .null)
    (h : decimalValue (d.asStr.getD "0").toList = some n.toNat) :
    declaredInteger d = some n.toNat ↔ StringOrZero d := by
  -- anything but a string is read as the string "0"
  have hzero : d.asStr = none → n.toNat = 0 := by
    intro hnone
    rw [hnone] at h
    exact (Option.some.inj h).symm
  cases d with
  | null => exact absurd rfl hd
  | string s => simpa [declaredInteger, StringOrZero, Value.asStr] using h
  | number m =>
    cases m with
    | posInt m =>
      rw [hzero rfl]
      simp [declaredInteger, StringOrZero, BitVec.toNat_eq]
    | _ => simp [declaredInteger, StringOrZero]
  | _ => simp [declaredInteger, StringOrZero]

/-- The calldata is kept iff it is a string. -/
theorem declaredBytes_kept_iff {d : Value} {data : List U8}
    (h : declaredBytes d = some data ∨ d.asStr = none ∧ data = []) :
    declaredBytes d = some data ↔ ∃ s, d = .string s := by
  cases d with
  | string s => simpa [Value.asStr] using h
  | _ => simp [declaredBytes]

/-- The transaction keeps what is given iff nothing given was defaulted. -/
theorem ReadFrom.keepsFields_iff (h : ReadFrom v tx) :
    KeepsFields v tx ↔ FieldsAreStrings v := by
  have hinteger : ∀ {key : String} {n : U128},
      decimalValue ((v.index key).asStr.getD "0").toList = some n.toNat →
      ((∀ d, Given v key d → declaredInteger d = some n.toNat) ↔
        ∀ d, Given v key d → StringOrZero d) := by
    intro key n hn
    apply forall₂_congr
    intro d hd
    rw [index_of_given hd] at hn
    exact declaredInteger_kept_iff hd.2 hn
  have hdata : (∀ d, Given v "data" d → declaredBytes d = some tx.data) ↔
      ∀ d, Given v "data" d → ∃ s, d = .string s := by
    apply forall₂_congr
    intro d hd
    exact declaredBytes_kept_iff (index_of_given hd ▸ h.data)
  constructor
  · intro hkeeps
    exact ⟨(hinteger h.value).mp hkeeps.value, (hinteger h.maxFeePerGas).mp hkeeps.maxFeePerGas,
      (hinteger h.maxPriorityFeePerGas).mp hkeeps.maxPriorityFeePerGas, hdata.mp hkeeps.data⟩
  · intro hstrings
    exact ⟨(hinteger h.value).mpr hstrings.value,
      (hinteger h.maxFeePerGas).mpr hstrings.maxFeePerGas,
      (hinteger h.maxPriorityFeePerGas).mpr hstrings.maxPriorityFeePerGas,
      hdata.mpr hstrings.data⟩

/-! ## The commands -/

/-- `signing-hash` prints the hash of the transaction that is read. -/
theorem cmdSigningHash_of_read {keccak256 : List U8 → Digest} {txJson leafHashHex out : String}
    (hjson : lib.fromStr txJson = .ok v) (htx : Cli.parseTxMessage lib v = .ok tx)
    (h : Cli.cmdSigningHash lib keccak256 txJson leafHashHex = .ok out) :
    ∃ leafHash, Cli.decode32 lib leafHashHex = .ok leafHash ∧ out = lib.toStringPretty
      (.object [("signing_hash",
        .string (hexEncode0x (tx.signingHash keccak256 leafHash).val))]) := by
  unfold Cli.cmdSigningHash at h
  simp only [bind_eq_ok, mapErr_eq_ok, pure_eq_ok, hjson, Except.ok.injEq,
    exists_eq_left', htx] at h
  obtain ⟨leafHash, hleaf, rfl⟩ := h
  exact ⟨leafHash, hleaf, rfl⟩

/-- `encode-tx` prints the encoding of the transaction that is read. -/
theorem cmdEncodeTx_of_read {t : Target} {txJson witnessJson out : String}
    (hjson : lib.fromStr txJson = .ok v) (htx : Cli.parseTxMessage lib v = .ok tx)
    (h : Cli.cmdEncodeTx lib t txJson witnessJson = .ok out) :
    ∃ w encoded, encodeHcaTx t tx w = .ok encoded ∧
      out = lib.toStringPretty (.object [("encoded", .string (hexEncode0x encoded))]) := by
  unfold Cli.cmdEncodeTx at h
  simp only [bind_eq_ok, mapErr_eq_ok, pure_eq_ok, hjson, Except.ok.injEq,
    exists_eq_left', htx] at h
  obtain ⟨-, -, -, -, -, -, w, -, -, -, encoded, hencoded, rfl⟩ := h
  exact ⟨w, encoded, hencoded, rfl⟩

/-- The transaction that is read keeps what the object gives for the defaulted fields iff the
integers given there are strings or zero and the calldata given is a string; and it is this
transaction whose hash and whose encoding the commands print.
SOURCE: bin/hca.rs:242-275, bin/hca.rs:671-717 -/
theorem parsed_transaction_keeps_fields_iff (h : Cli.parseTxMessage lib v = .ok tx) :
    (KeepsFields v tx ↔ FieldsAreStrings v) ∧
    (∀ keccak256 txJson leafHashHex out, lib.fromStr txJson = .ok v →
      Cli.cmdSigningHash lib keccak256 txJson leafHashHex = .ok out →
        ∃ leafHash, Cli.decode32 lib leafHashHex = .ok leafHash ∧ out = lib.toStringPretty
          (.object [("signing_hash",
            .string (hexEncode0x (tx.signingHash keccak256 leafHash).val))])) ∧
    (∀ t txJson witnessJson out, lib.fromStr txJson = .ok v →
      Cli.cmdEncodeTx lib t txJson witnessJson = .ok out →
        ∃ w encoded, encodeHcaTx t tx w = .ok encoded ∧
          out = lib.toStringPretty (.object [("encoded", .string (hexEncode0x encoded))])) := by
  refine ⟨(parseTxMessage_eq_ok.mp h).keepsFields_iff, ?_, ?_⟩
  · intro keccak256 txJson leafHashHex out hjson hout
    exact cmdSigningHash_of_read hjson h hout
  · intro t txJson witnessJson out hjson hout
    exact cmdEncodeTx_of_read hjson h hout

/-- A transfer of the given amount, without fees and calldata. -/
def sampleTransfer (value : U128) : TxMessage where
  chainId := 1
  nonce := 0
  «from» := ⟨List.replicate 19 0x00 ++ [0x01], rfl⟩
  «to» := ⟨List.replicate 19 0x00 ++ [0x02], rfl⟩
  value := value
  data := []
  gasLimit := 100000
  maxFeePerGas := 0
  maxPriorityFeePerGas := 0

/-- An amount given as a number is read as zero. -/
theorem number_amount_dropped :
    Cli.parseTxMessage (sampleLib [] (txValue (.number (.posInt 1000))))
        (txValue (.number (.posInt 1000))) = .ok (sampleTransfer 0) ∧
      ¬ KeepsFields (txValue (.number (.posInt 1000))) (sampleTransfer 0) := by
  refine ⟨rfl, ?_⟩
  intro h
  have hvalue := h.value (.number (.posInt 1000)) ⟨rfl, by simp⟩
  simp [declaredInteger, sampleTransfer] at hvalue

/-- An amount that is given as a string is kept iff all fields are so given. -/
theorem parsed_transaction_keeps_fields_iff_sample :
    KeepsFields (txValue (.string "1000")) (sampleTransfer 1000) ↔
      FieldsAreStrings (txValue (.string "1000")) :=
  (parsed_transaction_keeps_fields_iff
    (show Cli.parseTxMessage (sampleLib [] (txValue (.string "1000")))
      (txValue (.string "1000")) = .ok (sampleTransfer 1000) from rfl)).1

/-! ## The same object in the WASM entry point -/

/-- The bytes of a string with at most one prefix are read as declared. -/
theorem hexField_of_declared {key : String} {bytes : List U8}
    (h : declaredBytes (v.index key) = some bytes) : Wasm.hexField v key = bytes := by
  obtain ⟨s, hs, hbytes⟩ := declaredBytes_eq_some.mp h
  have htrim : hexDecode (trimStartMatches0x s.toList) = some bytes := by
    rw [trim_eq_strip (ne_prefix0x_of_hex hbytes)]
    exact hbytes
  rw [Wasm.hexField, hs, Value.asStr, Option.getD_some, htrim, Option.getD_some]

/-- So are the bytes of an address. -/
theorem addressField_of_declared {key : String} {address : Bytes 20}
    (h : declaredBytes (v.index key) = some address.val) :
    Wasm.addressField v key = address := by
  have hbytes := hexField_of_declared h
  have hlen : (Wasm.hexField v key).length = 20 := by rw [hbytes, address.property]
  simp only [Wasm.addressField, dif_pos hlen]
  exact Subtype.ext hbytes

/-- An integer in range is read as it stands, whatever the default. -/
theorem u64Field_of_index {key : String} {n : U64} (h : v.index key = .number (.posInt n))
    (default : U64) : Wasm.u64Field v key default = n := by
  rw [Wasm.u64Field, h]
  rfl

/-- Amounts are read alike iff both are zero. -/
theorem value_eq_iff {d : Value} {n : U128}
    (h : decimalValue (d.asStr.getD "0").toList = some n.toNat) :
    n = (d.asU64.getD 0).setWidth 128 ↔ DeclaresNoAmount d := by
  have hzero : d.asStr = none → n = 0 := by
    intro hnone
    rw [hnone] at h
    exact BitVec.eq_of_toNat_eq (Option.some.inj h).symm
  cases d with
  | string s =>
    have hs : decimalValue s.toList = some n.toNat := h
    simp [DeclaresNoAmount, Value.asU64, hs, BitVec.toNat_eq]
  | number m =>
    cases m with
    | posInt m =>
      have hwiden : (m.setWidth 128).toNat = m.toNat := BitVec.toNat_setWidth_of_le (by decide)
      have hdeclared : DeclaresNoAmount (.number (.posInt m)) ↔ m = 0 := by
        simp [DeclaresNoAmount]
      rw [hdeclared, hzero rfl, Value.asU64, Option.getD_some, BitVec.toNat_eq, hwiden,
        eq_comm, BitVec.toNat_eq (x := m)]
      rfl
    | _ => simp [DeclaresNoAmount, Value.asU64, hzero rfl]
  | _ => simp [DeclaresNoAmount, Value.asU64, hzero rfl]

/-- Whatever the amount, the message of the WASM entry point has the other fields of the
transaction. -/
theorem ReadFrom.sameButForValue (h : ReadFrom v tx) : SameButForValue tx (Wasm.txMessage v) where
  chainId := (u64Field_of_index h.chainId _).symm
  nonce := (u64Field_of_index h.nonce _).symm
  «from» := (addressField_of_declared h.from).symm
  «to» := (addressField_of_declared h.to).symm
  data := by
    rcases h.data with hdata | ⟨hnone, hempty⟩
    · obtain ⟨s, hs, hbytes⟩ := declaredBytes_eq_some.mp hdata
      have hdecoded : hexDecode (stripPrefix0x s.toList) = some tx.data := hbytes
      simp [Wasm.txMessage, hs, Value.asStr, hdecoded]
    · simp [Wasm.txMessage, hnone, hempty]
  gasLimit := (u64Field_of_index h.gasLimit _).symm

/-- The message of the WASM entry point agrees with the transaction iff no amount is
declared. -/
theorem ReadFrom.sameTransaction_iff (h : ReadFrom v tx) :
    SameTransaction tx (Wasm.txMessage v) ↔ DeclaresNoAmount (v.index "value") := by
  rw [← value_eq_iff h.value]
  constructor
  · intro hsame
    exact hsame.value
  · intro hvalue
    have hrest := h.sameButForValue
    exact ⟨hrest.chainId, hrest.nonce, hrest.from, hrest.to, hvalue, hrest.data, hrest.gasLimit⟩

/-- What `build_witness` prints is the witness for the message of the transaction object. -/
theorem buildWitness_signs {t : Target} {keccak256 : List U8 → Digest}
    {leavesJson txJson out : String} {leafIndex : Usize t} (hjson : lib.fromStr txJson = .ok v)
    (h : Wasm.buildWitness lib t keccak256 leavesJson leafIndex txJson = .ok out) :
    ∃ leafHash w gas authRoot, out = lib.toStr (Wasm.witnessJson t leafHash
      ((Wasm.txMessage v).signingHash keccak256 leafHash) w gas authRoot) := by
  unfold Wasm.buildWitness at h
  simp only [bind_eq_ok, pure_eq_ok, hjson, Except.ok.injEq, exists_eq_left'] at h
  obtain ⟨-, -, -, -, -, -, -, -, leaf, -, gas, -, authRoot, -, rfl⟩ := h
  exact ⟨_, _, gas, authRoot, rfl⟩

/-- The transaction that the command line tool reads from an object and the message that
`build_witness` signs for it agree on the fields that both read under one name iff the object
declares no amount; on all of these fields but the amount they always agree.
SOURCE: wasm.rs:178-255, bin/hca.rs:671-717 -/
theorem cli_and_wasm_agree_iff {t : Target} {keccak256 : List U8 → Digest}
    {leavesJson txJson out : String} {leafIndex : Usize t} (hjson : lib.fromStr txJson = .ok v)
    (hcli : Cli.parseTxMessage lib v = .ok tx)
    (hwasm : Wasm.buildWitness lib t keccak256 leavesJson leafIndex txJson = .ok out) :
    ∃ msg leafHash w gas authRoot,
      out = lib.toStr (Wasm.witnessJson t leafHash (msg.signingHash keccak256 leafHash) w gas
        authRoot) ∧
      msg = Wasm.txMessage v ∧
      (SameTransaction tx msg ↔ DeclaresNoAmount (v.index "value")) ∧
      SameButForValue tx msg := by
  obtain ⟨leafHash, w, gas, authRoot, hout⟩ := buildWitness_signs hjson hwasm
  have hread := parseTxMessage_eq_ok.mp hcli
  exact ⟨Wasm.txMessage v, leafHash, w, gas, authRoot, hout, rfl, hread.sameTransaction_iff,
    hread.sameButForValue⟩

section Sample

/-- The sample library reads the text of its object. -/
theorem sampleLib_fromStr (leaves : List Value) (tx : Value) :
    (sampleLib leaves tx).fromStr (printJson tx) = .ok tx := if_pos rfl

/-- It reads the text of its leaves. -/
theorem sampleLib_vecFromStr (leaves : List Value) (tx : Value) :
    (sampleLib leaves tx).vecFromStr (printJson (.array leaves)) = .ok leaves := if_pos rfl

/-- One leaf, declared with the active version. -/
def sampleLeafValues : List Value := [leafValue (.number (.posInt 1))]

/-- The sample object is read as a leaf. -/
theorem leafOf_sampleLeafValues : sampleLeafValues.mapM Wasm.leafOf = .ok [⟨1, [0x00], ""⟩] := rfl

/-- The tree of the one leaf. -/
theorem new_sampleLeaf (keccak256 : List U8 → Digest) :
    MerkleTree.new .usize64 keccak256 [⟨1, [0x00], ""⟩] =
      .ok ⟨[⟨1, [0x00], ""⟩], [[Leaf.hash keccak256 ⟨1, [0x00], ""⟩]], 0⟩ := rfl

/-- A witness is built for any transaction object. -/
theorem exists_buildWitness (keccak256 : List U8 → Digest) (tx : Value) :
    ∃ out, Wasm.buildWitness (sampleLib sampleLeafValues tx) .usize64 keccak256
      (printJson (.array sampleLeafValues)) 0 (printJson tx) = .ok out := by
  rw [Wasm.buildWitness, sampleLib_vecFromStr, ok_bind, leafOf_sampleLeafValues, ok_bind,
    sampleLib_fromStr, ok_bind]
  dsimp only
  rw [new_sampleLeaf]
  exact ⟨_, rfl⟩

/-- A transaction object with an amount in the form that the WASM entry point documents. -/
def documentedTx : Value := txValue (.string "1000000000000000000")

/-- The documented amount is signed as zero by the WASM entry point. -/
theorem documented_amount_signed_as_zero :
    ∃ out, (sampleLib sampleLeafValues documentedTx).fromStr (printJson documentedTx) =
        .ok documentedTx ∧
      Cli.parseTxMessage (sampleLib sampleLeafValues documentedTx) documentedTx =
        .ok (sampleTransfer 1000000000000000000) ∧
      Wasm.buildWitness (sampleLib sampleLeafValues documentedTx) .usize64 sampleHash
        (printJson (.array sampleLeafValues)) 0 (printJson documentedTx) = .ok out ∧
      (Wasm.txMessage documentedTx).value = 0 ∧
      ¬ SameTransaction (sampleTransfer 1000000000000000000) (Wasm.txMessage documentedTx) := by
  obtain ⟨out, hout⟩ := exists_buildWitness sampleHash documentedTx
  refine ⟨out, sampleLib_fromStr _ _, rfl, hout, rfl, ?_⟩
  intro h
  have hvalue : (1000000000000000000 : U128) = 0 := h.value
  exact absurd hvalue (by decide)

/-- On the amount zero, given as a string, both entry points agree. -/
theorem cli_and_wasm_agree_iff_sample :
    ∃ out msg leafHash w gas authRoot,
      out = printJson (Wasm.witnessJson .usize64 leafHash (msg.signingHash sampleHash leafHash) w
        gas authRoot) ∧
      msg = Wasm.txMessage (txValue (.string "0")) ∧
      (SameTransaction (sampleTransfer 0) msg ↔ DeclaresNoAmount (.string "0")) ∧
      SameButForValue (sampleTransfer 0) msg := by
  obtain ⟨out, hout⟩ := exists_buildWitness sampleHash (txValue (.string "0"))
  exact ⟨out, cli_and_wasm_agree_iff (sampleLib_fromStr sampleLeafValues (txValue (.string "0")))
    rfl hout⟩

end Sample

end Hca.Analysis
