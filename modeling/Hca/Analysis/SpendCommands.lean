import Hca.Analysis.ProofCommands
import Hca.Analysis.Spends

set_option autoImplicit false

/-!
# Spending through the entry points

What `encode-tx` accepts and prints, and the way of a spend through the commands: the proof
that is generated, the hash that is signed and the transaction that is encoded belong to one
account, and what is printed at the end is a spend from it. The same is said of the witness
that the WASM entry point builds.
-/

namespace Hca.Analysis

open Hca.Library Hca.Model Hca.Program Hca.Interface

variable {lib : JsonLib} {t : Target} {keccak256 : List U8 → Digest}

/-! ## Witnesses as JSON -/

/-- The witness has what the object declares. Its proof is the one that the object declares once
it was printed and read again. -/
structure WitnessFrom (lib : JsonLib) (v : Value) (w : HCAWitness t) : Prop where
  leafVersion : declaredBytes (v.index "leaf_version") = some [w.leafVersion]
  leafScript : declaredBytes (v.index "leaf_script") = some w.leafScript
  merkleProof : RereadDeclaresProof lib v w.merkleProof
  admissible : Admissible w.leafVersion w.leafScript
  witnessData : declaredBytes (v.index "witness_data") = some w.witnessData
  signed : w.witnessData ≠ []

/-- A witness is read iff its object declares an admissible leaf and a proof; the signature is not
read here. -/
theorem parseWitness_eq_ok {v : Value} {w : HCAWitness t} :
    Cli.parseWitness lib t v = .ok w ↔
      declaredBytes (v.index "leaf_version") = some [w.leafVersion] ∧
        declaredBytes (v.index "leaf_script") = some w.leafScript ∧
        RereadDeclaresProof lib v w.merkleProof ∧
        Admissible w.leafVersion w.leafScript ∧ w.witnessData = [] := by
  unfold Cli.parseWitness
  simp only [bind_eq_ok, okOr_eq_ok, Value.asStr_eq_some, decodeByte_eq_ok, decodeHex_eq_ok,
    parseProof_eq_ok, ← RereadDeclaresProof.eq_def, mapErr_eq_ok, pure_eq_ok]
  constructor
  · rintro ⟨versionStr, hversion, version, hbyte, scriptStr, hscript, script, hbytes, p, hp, leaf,
      hnew, rfl⟩
    have hadm := leafNew_isOk_iff.mp ⟨leaf, hnew⟩
    obtain rfl := leafNew_eq hnew
    rw [hversion, hscript]
    exact ⟨hbyte, hbytes, hp, hadm, rfl⟩
  · rintro ⟨hversion, hscript, hp, hadm, hdata⟩
    obtain ⟨versionStr, hversionStr, hbyte⟩ := declaredBytes_eq_some.mp hversion
    obtain ⟨scriptStr, hscriptStr, hbytes⟩ := declaredBytes_eq_some.mp hscript
    obtain ⟨leaf, hnew⟩ : ∃ leaf, Leaf.new w.leafVersion w.leafScript "" = .ok leaf :=
      leafNew_isOk_iff.mpr hadm
    refine ⟨versionStr, hversionStr, _, hbyte, scriptStr, hscriptStr, _, hbytes, _, hp, leaf, hnew,
      ?_⟩
    rw [leafNew_eq hnew, HCAWitness.build, ← hdata]

/-- `encode-tx` attaches the declared signature, and there must be one: a field that is no
string stands for the empty one. -/
theorem attached_eq_ok {v : Value} {w signed : HCAWitness t} (hdata : w.witnessData = []) :
    (∃ sig, Cli.decodeHex lib ((v.index "witness_data").asStr.getD "0x") = .ok sig ∧
      (if sig.isEmpty then pure w
        else mapErr HcaError.display (w.attachSignature sig) : Outcome String _) = .ok signed ∧
      signed.isSigned ≠ false) ↔
    declaredBytes (v.index "witness_data") = some signed.witnessData ∧
      signed.witnessData ≠ [] ∧ w = { signed with witnessData := [] } := by
  have hunsigned : w.isSigned = false := by simp [HCAWitness.isSigned, hdata]
  constructor
  · rintro ⟨sig, hsig, hattach, hsigned⟩
    have hne : sig ≠ [] := by
      rintro rfl
      rw [List.isEmpty_nil, if_pos rfl, pure_eq_ok] at hattach
      exact hsigned (hattach ▸ hunsigned)
    rw [if_neg (by simpa using hne), mapErr_eq_ok, HCAWitness.attachSignature, rejectIf_neg hne,
      ok_bind, pure_eq_ok] at hattach
    subst hattach
    have hempty : Cli.decodeHex lib "0x" = .ok [] := decodeHex_eq_ok.mpr rfl
    refine ⟨?_, hne, ?_⟩
    · cases hfield : v.index "witness_data" with
      | string s =>
        rw [hfield] at hsig
        exact decodeHex_eq_ok.mp hsig
      | _ =>
        simp only [hfield, Value.asStr, Option.getD_none, hempty, Except.ok.injEq] at hsig
        exact absurd hsig.symm hne
    · rw [← hdata]
  · rintro ⟨hsig, hne, rfl⟩
    obtain ⟨s, hs, hbytes⟩ := declaredBytes_eq_some.mp hsig
    refine ⟨signed.witnessData, ?_, ?_, ?_⟩
    · rw [hs]
      exact decodeHex_eq_ok.mpr hbytes
    · rw [if_neg (by simpa using hne), mapErr_eq_ok, HCAWitness.attachSignature, rejectIf_neg hne,
        ok_bind, pure_eq_ok]
    · simpa [HCAWitness.isSigned] using hne

/-! ## The commands -/

/-- SOURCE: bin/hca.rs:262-264 -/
def encodedJson (encoded : List U8) : Value :=
  .object [("encoded", .string (hexEncode0x encoded))]

/-- SOURCE: bin/hca.rs:274 -/
def signingHashJson (hash : Digest) : Value :=
  .object [("signing_hash", .string (hexEncode0x hash.val))]

/-- `encode-tx` prints the encoding of the transaction and the witness that its objects declare. -/
theorem cmdEncodeTx_eq_ok {txJson witnessJson out : String} :
    Cli.cmdEncodeTx lib t txJson witnessJson = .ok out ↔
      ∃ (txVal witVal : Value) (tx : TxMessage) (w : HCAWitness t) (raw : List U8),
        lib.fromStr txJson = .ok txVal ∧ lib.fromStr witnessJson = .ok witVal ∧
          ReadFrom txVal tx ∧ WitnessFrom lib witVal w ∧ encodeHcaTx t tx w = .ok raw ∧
            out = lib.toStringPretty (encodedJson raw) := by
  unfold Cli.cmdEncodeTx
  simp only [bind_eq_ok, mapErr_eq_ok, pure_eq_ok, parseTxMessage_eq_ok, rejectIf_eq_ok,
    exists_const]
  constructor
  · rintro ⟨txVal, htxVal, witVal, hwitVal, tx, htx, w, hw, sig, hsig, signed, hattach, hsigned,
      raw, hraw, rfl⟩
    obtain ⟨hversion, hscript, hp, hadm, hdata⟩ := parseWitness_eq_ok.mp hw
    obtain ⟨hbytes, hne, rfl⟩ := (attached_eq_ok hdata).mp ⟨sig, hsig, hattach, hsigned⟩
    exact ⟨txVal, witVal, tx, signed, raw, htxVal, hwitVal, htx,
      ⟨hversion, hscript, hp, hadm, hbytes, hne⟩, hraw, rfl⟩
  · rintro ⟨txVal, witVal, tx, signed, raw, htxVal, hwitVal, htx, h, hraw, rfl⟩
    have hw : Cli.parseWitness lib t witVal = .ok { signed with witnessData := [] } :=
      parseWitness_eq_ok.mpr ⟨h.leafVersion, h.leafScript, h.merkleProof, h.admissible, rfl⟩
    obtain ⟨sig, hsig, hattach, hsigned⟩ :=
      (attached_eq_ok rfl).mpr ⟨h.witnessData, h.signed, rfl⟩
    exact ⟨txVal, htxVal, witVal, hwitVal, tx, htx, _, hw, sig, hsig, signed, hattach, hsigned,
      raw, hraw, rfl⟩

/-- `signing-hash` prints what is signed of the transaction that is read, for the leaf hash that is
read. -/
theorem cmdSigningHash_eq_ok {txJson leafHashHex out : String} :
    Cli.cmdSigningHash lib keccak256 txJson leafHashHex = .ok out ↔
      ∃ txVal tx leafHash, lib.fromStr txJson = .ok txVal ∧ ReadFrom txVal tx ∧
        Cli.decode32 lib leafHashHex = .ok leafHash ∧
          out = lib.toStringPretty (signingHashJson (tx.signingHash keccak256 leafHash)) := by
  unfold Cli.cmdSigningHash
  simp only [bind_eq_ok, mapErr_eq_ok, pure_eq_ok, parseTxMessage_eq_ok]
  constructor
  · rintro ⟨txVal, htxVal, tx, htx, leafHash, hleaf, rfl⟩
    exact ⟨txVal, tx, leafHash, htxVal, htx, hleaf, rfl⟩
  · rintro ⟨txVal, tx, leafHash, htxVal, htx, hleaf, rfl⟩
    exact ⟨txVal, htxVal, tx, htx, leafHash, hleaf, rfl⟩

/-- `encode-tx` prints an encoding iff the transaction can be read, and a signed witness of an
admissible leaf; and what it prints decodes to what the two objects declare.
SOURCE: bin/hca.rs:242-265, bin/hca.rs:671-741, rlp.rs:362-503 -/
theorem encode_tx_exact (lib : JsonLib) (t : Target) (txJson witnessJson out : String) :
    Cli.cmdEncodeTx lib t txJson witnessJson = .ok out ↔
      ∃ (txVal witVal : Value) (tx : TxMessage) (w : HCAWitness t) (raw : List U8),
        lib.fromStr txJson = .ok txVal ∧ lib.fromStr witnessJson = .ok witVal ∧
          ReadFrom txVal tx ∧ WitnessFrom lib witVal w ∧ encodeHcaTx t tx w = .ok raw ∧
          out = lib.toStringPretty (encodedJson raw) ∧
          (raw.length ≤ t.isizeMax → decodeHcaTx t raw = .ok (tx, w)) := by
  rw [cmdEncodeTx_eq_ok]
  constructor
  · rintro ⟨txVal, witVal, tx, w, raw, htxVal, hwitVal, htx, hw, hraw, rfl⟩
    refine ⟨txVal, witVal, tx, w, raw, htxVal, hwitVal, htx, hw, hraw, rfl, ?_⟩
    intro hsize
    obtain ⟨-, rfl⟩ := encodeHcaTx_eq_ok.mp hraw
    have hlt := t.isizeMax_lt
    obtain ⟨leaf, hnew⟩ : ∃ leaf, Leaf.new w.leafVersion w.leafScript "" = .ok leaf :=
      leafNew_isOk_iff.mpr hw.admissible
    rw [List.length_cons] at hsize
    exact decodeHcaTx_hcaTxFields hnew (by omega)
  · rintro ⟨txVal, witVal, tx, w, raw, htxVal, hwitVal, htx, hw, hraw, hout, -⟩
    exact ⟨txVal, witVal, tx, w, raw, htxVal, hwitVal, htx, hw, hraw, hout⟩

/-! ## A spend from the command line -/

/-- The object prints a witness: the parts of a leaf and the signature as texts, and a proof. -/
structure PrintsWitness (v : Value) (l : Leaf) (p : MerkleProof t) (signature : List U8) :
    Prop where
  leafVersion : v.index "leaf_version" = .string (hexEncode0x [l.version])
  leafScript : v.index "leaf_script" = .string (hexEncode0x l.script)
  merkleProof : PrintsProof v p
  witnessData : v.index "witness_data" = .string (hexEncode0x signature)

/-- An object that reads as a printed witness declares it, if it is printed and read back as
itself. -/
theorem witnessFrom_of_prints {v v' : Value} {l : Leaf} {p : MerkleProof t}
    {signature : List U8} (h : PrintsWitness v l p signature) (hsame : SameJson v' v)
    (hreread : ReadsBackAs lib (lib.toStr v') v') (hadm : Admissible l.version l.script)
    (hsignature : signature ≠ []) :
    WitnessFrom lib v' ⟨l.version, l.script, p, signature⟩ where
  leafVersion := by
    rw [(hsame.index _).declaredBytes_eq, h.leafVersion, declaredBytes_hexEncode0x]
  leafScript := by
    rw [(hsame.index _).declaredBytes_eq, h.leafScript, declaredBytes_hexEncode0x]
  merkleProof := .of_readsBack hreread (hsame.declaresProof h.merkleProof.declaresProof)
  admissible := hadm
  witnessData := by
    rw [(hsame.index _).declaredBytes_eq, h.witnessData, declaredBytes_hexEncode0x]
  signed := hsignature

/-- Every leaf that is read has passed `Leaf::new`. -/
theorem leafNew_of_parseLeaves {leavesJson : String} {leaves : List Leaf}
    (h : Cli.parseLeaves lib leavesJson = .ok leaves) :
    ∀ l ∈ leaves, Leaf.new l.version l.script l.description = .ok l := by
  unfold Cli.parseLeaves at h
  simp only [bind_eq_ok, mapErr_eq_ok] at h
  obtain ⟨raw, -, hleaves⟩ := h
  intro l hl
  obtain ⟨entry, -, hentry⟩ := exists_of_mem_mapM hleaves hl
  unfold Cli.parseLeaf at hentry
  simp only [bind_eq_ok, mapErr_eq_ok] at hentry
  obtain ⟨_, -, version, -, _, -, script, -, hnew⟩ := hentry
  obtain rfl := leafNew_eq hnew
  exact hnew

/-- The commands spend from the account they create. For an account read from a text and a
leaf of it, `create-account` prints the root and `generate-proof` the proof; for a transaction
that can be read, `signing-hash` with the printed leaf hash prints what is to be signed, and
`encode-tx`, given the leaf, the proof and a signature as an object that survives being printed
and read, prints a spend from that account that is signed over it.
SOURCE: bin/hca.rs:188-275, bin/hca.rs:616-741 -/
theorem cli_spend_flow {leavesJson txJson : String} {T : MerkleTree}
    {i : Usize t} {l : Leaf} {p : MerkleProof t} {authRoot : Digest} {txVal : Value}
    {tx : TxMessage} (hleaves : Cli.parseLeaves lib leavesJson = .ok T.leaves)
    (hnew : MerkleTree.new t keccak256 T.leaves = .ok T) (hl : T.leaves[i.toNat]? = some l)
    (hp : T.proof i = .ok p) (hroot : T.authRoot = .ok authRoot)
    (htxVal : lib.fromStr txJson = .ok txVal) (htx : ReadFrom txVal tx) :
    Cli.cmdCreateAccount lib t keccak256 leavesJson = .ok (lib.toStringPretty
        (Cli.accountJson keccak256 T authRoot (deriveAddress keccak256 authRoot))) ∧
      Cli.cmdGenerateProof lib t keccak256 leavesJson i =
        .ok (lib.toStringPretty (Cli.proofJson t p (l.hash keccak256) authRoot)) ∧
      Cli.cmdSigningHash lib keccak256 txJson (hexEncode0x (l.hash keccak256).val) =
        .ok (lib.toStringPretty (signingHashJson (tx.signingHash keccak256 (l.hash keccak256)))) ∧
      ∀ (witnessJson : String) (witVal v : Value) (signature : List U8), signature ≠ [] →
        PrintsWitness witVal l p signature → lib.fromStr witnessJson = .ok v →
        SameJson v witVal → ReadsBackAs lib (lib.toStr v) v →
          ∃ (w : HCAWitness t) (raw : List U8),
            Cli.cmdEncodeTx lib t txJson witnessJson =
              .ok (lib.toStringPretty (encodedJson raw)) ∧
            w.witnessData = signature ∧
            spendHash keccak256 tx w = tx.signingHash keccak256 (l.hash keccak256) ∧
            (raw.length ≤ t.isizeMax → Spends keccak256 authRoot raw tx w) := by
  obtain ⟨-, hT⟩ := new_built hnew
  have hleaf := leafNew_of_parseLeaves hleaves l (List.mem_of_getElem? hl)
  refine ⟨cmdCreateAccount_eq_ok.mpr ⟨T, authRoot, hleaves, hnew, hroot, rfl⟩,
    cmdGenerateProof_eq_ok.mpr ⟨T, p, l, authRoot, hleaves, hnew, hp, hl, hroot, rfl⟩,
    cmdSigningHash_eq_ok.mpr ⟨txVal, tx, _, htxVal, htx, decode32_hexEncode0x _, rfl⟩, ?_⟩
  intro witnessJson witVal v signature hsignature hprints hv hsame hreread
  have hw := witnessFrom_of_prints hprints hsame hreread (leafNew_isOk_iff.mp ⟨l, hleaf⟩)
    hsignature
  obtain ⟨raw, hraw⟩ : ∃ raw, encodeHcaTx t tx ⟨l.version, l.script, p, signature⟩ = .ok raw :=
    ⟨_, encodeHcaTx_eq_ok.mpr ⟨by simpa [HCAWitness.isSigned] using hsignature, rfl⟩⟩
  exact ⟨⟨l.version, l.script, p, signature⟩, raw,
    cmdEncodeTx_eq_ok.mpr ⟨txVal, v, tx, _, raw, htxVal, hv, htx, hw, hraw, rfl⟩, rfl, rfl,
    hT.spends_of_proof hl hp hroot hleaf hraw⟩

/-- One object with the fields of a transaction and of the witness of the last leaf. -/
def spendValue : Value :=
  .object
    [("chain_id", .number (.posInt 1)), ("nonce", .number (.posInt 0)),
      ("from", .string "0x0000000000000000000000000000000000000001"),
      ("to", .string "0x0000000000000000000000000000000000000002"),
      ("gas_limit", .number (.posInt 100000)),
      ("leaf_version", .string (hexEncode0x [0x01])),
      ("leaf_script", .string (hexEncode0x [0x02])),
      ("leaf_index", .ofNat 2),
      ("siblings",
        .array ((lastLeafProof 2).siblings.map fun s => .string (hexEncode0x s.val))),
      ("witness_data", .string (hexEncode0x [0x01]))]

/-- The last leaf of three is spent by the commands, from one object with all fields. -/
theorem cli_spend_flow_sample :
    ∃ (w : HCAWitness .usize64) (raw : List U8),
      Cli.cmdEncodeTx (sampleLib cliLeafValues spendValue) .usize64 (printJson spendValue)
        (printJson spendValue) = .ok (printJson (encodedJson raw)) ∧
      w.witnessData = [0x01] ∧
      spendHash sampleHash (sampleTransfer 0) w =
        (sampleTransfer 0).signingHash sampleHash (lastLeaf.hash sampleHash) ∧
      (raw.length ≤ Target.usize64.isizeMax →
        Spends sampleHash sampleRoot raw (sampleTransfer 0) w) := by
  have hprints : PrintsWitness spendValue lastLeaf (lastLeafProof 2) [0x01] :=
    ⟨rfl, rfl, ⟨rfl, rfl⟩, rfl⟩
  have htx : ReadFrom spendValue (sampleTransfer 0) :=
    ⟨rfl, rfl, rfl, .inr ⟨rfl, rfl⟩, rfl, rfl, rfl, rfl, rfl⟩
  have hread : (sampleLib cliLeafValues spendValue).fromStr (printJson spendValue) =
      .ok spendValue := sampleLib_fromStr _ _
  exact (cli_spend_flow (T := sampleTree) (parseLeaves_cliLeafValues spendValue)
    new_sampleLeaves rfl proof_lastLeaf authRoot_sampleTree hread htx).2.2.2 _ spendValue
    spendValue [0x01] (by decide) hprints hread (.refl _) ⟨spendValue, hread, .refl _⟩

/-! ## A spend from the WASM entry points -/

/-- Every leaf that the WASM entry points read has passed `Leaf::new` too. -/
theorem leafNew_of_leafOf {raw : List Value} {leaves : List Leaf}
    (h : raw.mapM Wasm.leafOf = .ok leaves) :
    ∀ l ∈ leaves, Leaf.new l.version l.script l.description = .ok l := by
  intro l hl
  obtain ⟨v, -, hv⟩ := exists_of_mem_mapM h hl
  rw [Wasm.leafOf, mapErr_eq_ok] at hv
  obtain rfl := leafNew_eq hv
  exact hv

/-- `build_witness` prints the unsigned witness of the leaf, what is to be signed and the estimate
of the gas. -/
theorem buildWitness_eq_ok {leavesJson txJson out : String} {i : Usize t} :
    Wasm.buildWitness lib t keccak256 leavesJson i txJson = .ok out ↔
      ∃ raw T txVal p l gas authRoot, lib.vecFromStr leavesJson = .ok raw ∧
        raw.mapM Wasm.leafOf = .ok T.leaves ∧ lib.fromStr txJson = .ok txVal ∧
        MerkleTree.new t keccak256 T.leaves = .ok T ∧ T.proof i = .ok p ∧
        T.leaves[i.toNat]? = some l ∧ (HCAWitness.build l p).estimateGas = .ok gas ∧
        T.authRoot = .ok authRoot ∧
        out = lib.toStr (Wasm.witnessJson t (l.hash keccak256)
          ((Wasm.txMessage txVal).signingHash keccak256 (l.hash keccak256))
          (HCAWitness.build l p) gas authRoot) := by
  unfold Wasm.buildWitness
  simp only [bind_eq_ok, mapErr_eq_ok, pure_eq_ok, index_eq_ok]
  constructor
  · rintro ⟨raw, hraw, leaves, hleaves, txVal, htxVal, T, hT, p, hp, l, hl, gas, hgas, authRoot,
      hroot, rfl⟩
    obtain ⟨rfl, -⟩ := new_built hT
    exact ⟨raw, T, txVal, p, l, gas, authRoot, hraw, hleaves, htxVal, hT, hp, hl, hgas, hroot, rfl⟩
  · rintro ⟨raw, T, txVal, p, l, gas, authRoot, hraw, hleaves, htxVal, hT, hp, hl, hgas, hroot,
      rfl⟩
    exact ⟨raw, hraw, T.leaves, hleaves, txVal, htxVal, T, hT, p, hp, l, hl, gas, hgas, authRoot,
      hroot, rfl⟩

/-- What `build_witness` prints can be spent. It is about a leaf of the account that
`create_hca_account` prints for the same leaves; whoever signs the printed hash and encodes
the message of the transaction object with that signature has a spend from the account, and
the gas of that spend is the printed estimate.
SOURCE: wasm.rs:53-88, wasm.rs:178-255 -/
theorem wasm_witness_spends {leavesJson txJson out : String} {i : Usize t}
    (h : Wasm.buildWitness lib t keccak256 leavesJson i txJson = .ok out) :
    ∃ (txVal : Value) (T : MerkleTree) (l : Leaf) (p : MerkleProof t) (gas : ℕ)
      (authRoot : Digest),
      lib.fromStr txJson = .ok txVal ∧ T.leaves[i.toNat]? = some l ∧
      Wasm.createHcaAccount lib t keccak256 leavesJson = .ok (lib.toStr
        (Wasm.accountJson keccak256 T.leaves authRoot (deriveAddress keccak256 authRoot))) ∧
      out = lib.toStr (Wasm.witnessJson t (l.hash keccak256)
        ((Wasm.txMessage txVal).signingHash keccak256 (l.hash keccak256))
        (HCAWitness.build l p) gas authRoot) ∧
      ∀ signature : List U8, signature ≠ [] → ∃ (w : HCAWitness t) (raw : List U8),
        (HCAWitness.build l p).attachSignature signature = .ok w ∧
        encodeHcaTx t (Wasm.txMessage txVal) w = .ok raw ∧ w.estimateGas = .ok gas ∧
        spendHash keccak256 (Wasm.txMessage txVal) w =
          (Wasm.txMessage txVal).signingHash keccak256 (l.hash keccak256) ∧
        (raw.length ≤ t.isizeMax →
          Spends keccak256 authRoot raw (Wasm.txMessage txVal) w) := by
  obtain ⟨raw, T, txVal, p, l, gas, authRoot, hraw, hleaves, htxVal, hnew, hp, hl, hgas, hroot,
    rfl⟩ := buildWitness_eq_ok.mp h
  obtain ⟨-, hT⟩ := new_built hnew
  have hleaf := leafNew_of_leafOf hleaves l (List.mem_of_getElem? hl)
  refine ⟨txVal, T, l, p, gas, authRoot, htxVal, hl,
    createHcaAccount_of_tree hraw hleaves hnew hroot, rfl, ?_⟩
  intro signature hsignature
  have hattach : (HCAWitness.build l p).attachSignature signature =
      .ok ⟨l.version, l.script, p, signature⟩ := by
    rw [HCAWitness.attachSignature, rejectIf_neg hsignature, ok_bind]
    rfl
  obtain ⟨encoded, hencoded⟩ : ∃ encoded, encodeHcaTx t (Wasm.txMessage txVal)
      ⟨l.version, l.script, p, signature⟩ = .ok encoded :=
    ⟨_, encodeHcaTx_eq_ok.mpr ⟨by simpa [HCAWitness.isSigned] using hsignature, rfl⟩⟩
  -- the estimate does not look at the signature
  exact ⟨⟨l.version, l.script, p, signature⟩, encoded, hattach, hencoded, hgas, rfl,
    hT.spends_of_proof hl hp hroot hleaf hencoded⟩

/-- The witness for the documented transaction is signed and spent. -/
theorem wasm_witness_spends_sample :
    ∃ (T : MerkleTree) (l : Leaf) (authRoot : Digest) (gas : ℕ) (w : HCAWitness .usize64)
      (raw : List U8), T.leaves[0]? = some l ∧ w.estimateGas = .ok gas ∧
        encodeHcaTx .usize64 (Wasm.txMessage documentedTx) w = .ok raw ∧
        (raw.length ≤ Target.usize64.isizeMax →
          Spends sampleHash authRoot raw (Wasm.txMessage documentedTx) w) := by
  obtain ⟨out, hout⟩ := exists_buildWitness sampleHash documentedTx
  obtain ⟨txVal, T, l, p, gas, authRoot, htxVal, hl, -, -, hspend⟩ := wasm_witness_spends hout
  rw [sampleLib_fromStr, Except.ok.injEq] at htxVal
  subst htxVal
  obtain ⟨w, raw, -, hraw, hgas, -, hspends⟩ := hspend [0x01] (by decide)
  exact ⟨T, l, authRoot, gas, w, raw, hl, hgas, hraw, hspends⟩

end Hca.Analysis
