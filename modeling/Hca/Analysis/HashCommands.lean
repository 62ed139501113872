import Hca.Analysis.SpendCommands
import Hca.Analysis.Vectors

set_option autoImplicit false

/-!
# The commands that print what is signed

`signing-hash` and `rotation-hash` read their arguments as a call and print its hash. Arguments
that are read as another call, of the same kind or of the other, have another hash, so a
signature made for one call is not good for another. Where the amounts and the calldata of a
transaction are given as strings, the call is the one that the arguments declare.
-/

namespace Hca.Analysis

open Hca.Library Hca.Model Hca.Program Hca.Interface

/-- A request for a hash, with its arguments as texts. -/
inductive HashCommand where
  | signingHash (txJson leafHashHex : String)
  | rotationHash (chainId nonce : U64) (fromHex newAuthRootHex : String)

namespace HashCommand

/-- SOURCE: bin/hca.rs:267-298 -/
def run (lib : JsonLib) (keccak256 : List U8 → Digest) : HashCommand → Outcome String String
  | signingHash txJson leafHashHex => Cli.cmdSigningHash lib keccak256 txJson leafHashHex
  | rotationHash chainId nonce fromHex newAuthRootHex =>
    Cli.cmdRotationHash lib keccak256 chainId nonce fromHex newAuthRootHex

/-- The field that the hash is printed in. -/
def field : HashCommand → String
  | signingHash _ _ => "signing_hash"
  | rotationHash _ _ _ _ => "rotation_hash"

/-- The object that the command prints for a digest. -/
def printed (cmd : HashCommand) (digest : Digest) : Value :=
  .object [(cmd.field, .string (hexEncode0x digest.val))]

/-- The arguments are read as the call. -/
def ReadAs (lib : JsonLib) : HashCommand → HashCall → Prop
  | signingHash txJson leafHashHex, .signing tx leafHash =>
    (∃ v, lib.fromStr txJson = .ok v ∧ ReadFrom v tx) ∧
      declaredBytes (.string leafHashHex) = some leafHash.val
  | rotationHash chainId nonce fromHex newAuthRootHex, .rotation r =>
    r.chainId = chainId ∧ r.nonce = nonce ∧
      declaredBytes (.string fromHex) = some r.«from».val ∧
      declaredBytes (.string newAuthRootHex) = some r.newAuthRoot.val ∧
      r.newAuthRoot ≠ List.Vector.replicate 32 0
  | _, _ => False

/-- The arguments give no optional field in a form that the parser passes over. -/
def GivesStrings (lib : JsonLib) : HashCommand → Prop
  | signingHash txJson _ => ∀ v, lib.fromStr txJson = .ok v → FieldsAreStrings v
  | rotationHash _ _ _ _ => True

/-- The call has the optional fields that the arguments declare. -/
def KeptBy (lib : JsonLib) : HashCommand → HashCall → Prop
  | signingHash txJson _, .signing tx _ => ∀ v, lib.fromStr txJson = .ok v → KeepsFields v tx
  | _, _ => True

end HashCommand

variable {lib : JsonLib} {keccak256 : List U8 → Digest}

/-- `rotation-hash` prints the hash of the request that its arguments declare, unless the new root
is zero. -/
theorem cmdRotationHash_eq_ok {chainId nonce : U64} {fromHex newAuthRootHex out : String} :
    Cli.cmdRotationHash lib keccak256 chainId nonce fromHex newAuthRootHex = .ok out ↔
      ∃ r : RotationRequest, r.chainId = chainId ∧ r.nonce = nonce ∧
        declaredBytes (.string fromHex) = some r.«from».val ∧
        declaredBytes (.string newAuthRootHex) = some r.newAuthRoot.val ∧
        r.newAuthRoot ≠ List.Vector.replicate 32 0 ∧
        out = lib.toStringPretty
          (.object [("rotation_hash", .string (hexEncode0x (r.signingHash keccak256).val))]) := by
  unfold Cli.cmdRotationHash
  simp only [bind_eq_ok, mapErr_eq_ok, rejectIf_eq_ok, copyFromSlice_eq_ok, decodeHex_eq_ok,
    decode32_eq_ok, rotationNew_eq_ok, pure_eq_ok, exists_const, not_not]
  constructor
  · rintro ⟨fromBytes, hfrom, -, sender, rfl, newRoot, hroot, r, ⟨hzero, rfl⟩, rfl⟩
    exact ⟨_, rfl, rfl, hfrom, hroot, hzero, rfl⟩
  · rintro ⟨⟨chainId, nonce, sender, newRoot⟩, rfl, rfl, hfrom, hroot, hzero, rfl⟩
    exact ⟨_, hfrom, sender.property, sender, rfl, newRoot, hroot, _, ⟨hzero, rfl⟩, rfl⟩

/-- A request is answered iff its arguments are read as a call, with the hash of that call. -/
theorem HashCommand.run_eq_ok {cmd : HashCommand} {out : String} :
    cmd.run lib keccak256 = .ok out ↔ ∃ call, cmd.ReadAs lib call ∧
      out = lib.toStringPretty (cmd.printed (keccak256 call.preimage)) := by
  cases cmd with
  | signingHash txJson leafHashHex =>
    rw [run, cmdSigningHash_eq_ok]
    simp only [decode32_eq_ok]
    constructor
    · rintro ⟨v, tx, leafHash, hv, htx, hleaf, rfl⟩
      exact ⟨.signing tx leafHash, ⟨⟨v, hv, htx⟩, hleaf⟩, rfl⟩
    · rintro ⟨call, hread, rfl⟩
      cases call with
      | signing tx leafHash =>
        obtain ⟨⟨v, hv, htx⟩, hleaf⟩ := hread
        exact ⟨v, tx, leafHash, hv, htx, hleaf, rfl⟩
      | _ => exact hread.elim
  | rotationHash chainId nonce fromHex newAuthRootHex =>
    rw [run, cmdRotationHash_eq_ok]
    constructor
    · rintro ⟨r, hchain, hnonce, hfrom, hroot, hzero, rfl⟩
      exact ⟨.rotation r, ⟨hchain, hnonce, hfrom, hroot, hzero⟩, rfl⟩
    · rintro ⟨call, hread, rfl⟩
      cases call with
      | rotation r =>
        obtain ⟨hchain, hnonce, hfrom, hroot, hzero⟩ := hread
        exact ⟨r, hchain, hnonce, hfrom, hroot, hzero, rfl⟩
      | _ => exact hread.elim

/-- A request that is read as a call is answered. -/
theorem HashCommand.ReadAs.exists_run {cmd : HashCommand} {call : HashCall}
    (h : cmd.ReadAs lib call) (keccak256 : List U8 → Digest) :
    ∃ out, cmd.run lib keccak256 = .ok out :=
  ⟨_, HashCommand.run_eq_ok.mpr ⟨call, h, rfl⟩⟩

/-- What is printed is the hash. -/
theorem HashCommand.printed_index (cmd : HashCommand) (digest : Digest) :
    (cmd.printed digest).index cmd.field = .string (hexEncode0x digest.val) := by
  cases cmd <;> rfl

/-- Arguments are read as one call at most. -/
theorem HashCommand.ReadAs.unique {cmd : HashCommand} {call call' : HashCall}
    (h : cmd.ReadAs lib call) (h' : cmd.ReadAs lib call') : call = call' := by
  cases cmd with
  | signingHash txJson leafHashHex =>
    cases call with
    | signing tx leafHash =>
      cases call' with
      | signing tx' leafHash' =>
        obtain ⟨⟨v, hv, htx⟩, hleaf⟩ := h
        obtain ⟨⟨v', hv', htx'⟩, hleaf'⟩ := h'
        obtain rfl := Except.ok.inj (hv.symm.trans hv')
        have hparse : Cli.parseTxMessage lib v = .ok tx := parseTxMessage_eq_ok.mpr htx
        rw [parseTxMessage_eq_ok.mpr htx', Except.ok.injEq] at hparse
        rw [hparse, Subtype.ext (Option.some.inj (hleaf.symm.trans hleaf'))]
      | _ => exact h'.elim
    | _ => exact h.elim
  | rotationHash chainId nonce fromHex newAuthRootHex =>
    cases call with
    | rotation r =>
      cases call' with
      | rotation r' =>
        obtain ⟨hchain, hnonce, hfrom, hroot, -⟩ := h
        obtain ⟨hchain', hnonce', hfrom', hroot', -⟩ := h'
        have hsender := Subtype.ext (Option.some.inj (hfrom.symm.trans hfrom'))
        have hnewRoot := Subtype.ext (Option.some.inj (hroot.symm.trans hroot'))
        rw [HashCall.rotation.injEq, RotationRequest.mk.injEq]
        exact ⟨hchain.trans hchain'.symm, hnonce.trans hnonce'.symm, hsender, hnewRoot⟩
      | _ => exact h'.elim
    | _ => exact h.elim

/-- What is given as strings is kept. -/
theorem HashCommand.ReadAs.keptBy {cmd : HashCommand} {call : HashCall} (h : cmd.ReadAs lib call)
    (hstrings : cmd.GivesStrings lib) : cmd.KeptBy lib call := by
  cases cmd with
  | signingHash txJson leafHashHex =>
    cases call with
    | signing tx leafHash =>
      intro v hv
      obtain ⟨⟨v', hv', htx⟩, -⟩ := h
      obtain rfl := Except.ok.inj (hv.symm.trans hv')
      exact htx.keepsFields_iff.mpr (hstrings v hv)
    | _ => exact trivial
  | rotationHash chainId nonce fromHex newAuthRootHex => exact trivial

/-- Requests that are answered are read as a call, and are answered with the hash of that call in
their own field; where amounts and calldata are given as strings, the call has them. If the two
printed hashes are the same text, the requests are read as the same call: the same transaction
and leaf hash, or the same rotation, and never one of each.
SOURCE: bin/hca.rs:267-298, bin/hca.rs:671-717, witness.rs:54-73, witness.rs:210-246 -/
theorem printed_hash_binds {cmd cmd' : HashCommand} {out out' : String}
    (h : cmd.run lib keccak256 = .ok out) (h' : cmd'.run lib keccak256 = .ok out') :
    ∃ call call' : HashCall, cmd.ReadAs lib call ∧ cmd'.ReadAs lib call' ∧
      (cmd.GivesStrings lib → cmd.KeptBy lib call) ∧
      (cmd'.GivesStrings lib → cmd'.KeptBy lib call') ∧
      out = lib.toStringPretty (cmd.printed (keccak256 call.preimage)) ∧
      out' = lib.toStringPretty (cmd'.printed (keccak256 call'.preimage)) ∧
      (call.calldata.length < 2 ^ 64 → call'.calldata.length < 2 ^ 64 →
        NoCollision keccak256 [call.preimage, call'.preimage] →
        (cmd.printed (keccak256 call.preimage)).index cmd.field =
          (cmd'.printed (keccak256 call'.preimage)).index cmd'.field →
        call = call') := by
  obtain ⟨call, hread, rfl⟩ := HashCommand.run_eq_ok.mp h
  obtain ⟨call', hread', rfl⟩ := HashCommand.run_eq_ok.mp h'
  refine ⟨call, call', hread, hread', hread.keptBy, hread'.keptBy, rfl, rfl, ?_⟩
  intro hdata hdata' hcoll hprinted
  rw [HashCommand.printed_index, HashCommand.printed_index, Value.string.injEq] at hprinted
  have hdigest := Subtype.ext (hexEncode0x_injective hprinted)
  have hpreimage := hcoll _ (by simp) _ (by simp) hdigest
  exact HashCall.preimage_inj hdata hdata' hpreimage

/-- The digits of the hash of the last leaf, without the prefix. -/
def bareLeafHash : String :=
  String.ofList ((lastLeaf.hash sampleHash).val.flatMap fun b => (lowerHex b).toList)

/-- The request for what a transfer of the sample account signs, with a leaf hash as a text. -/
def transferCommand (leafHashHex : String) : HashCommand :=
  .signingHash (printJson spendValue) leafHashHex

/-- The transfer that both requests are read as. -/
def transferCall : HashCall := .signing (sampleTransfer 0) (lastLeaf.hash sampleHash)

/-- A prefix makes no difference to what is read. -/
theorem transferCommand_readAs {leafHashHex : String}
    (h : declaredBytes (.string leafHashHex) = some (lastLeaf.hash sampleHash).val) :
    (transferCommand leafHashHex).ReadAs (sampleLib [] spendValue) transferCall :=
  ⟨⟨spendValue, sampleLib_fromStr _ _,
    ⟨rfl, rfl, rfl, .inr ⟨rfl, rfl⟩, rfl, rfl, rfl, rfl, rfl⟩⟩, h⟩

/-- Two texts of one leaf hash, with and without the prefix, are read as one call. -/
theorem printed_hash_binds_sample :
    ∃ call call' : HashCall,
      (transferCommand (hexEncode0x (lastLeaf.hash sampleHash).val)).ReadAs
        (sampleLib [] spendValue) call ∧
      (transferCommand bareLeafHash).ReadAs (sampleLib [] spendValue) call' ∧ call = call' := by
  have hread := transferCommand_readAs (declaredBytes_hexEncode0x (lastLeaf.hash sampleHash).val)
  have hread' : (transferCommand bareLeafHash).ReadAs (sampleLib [] spendValue) transferCall :=
    transferCommand_readAs (declaredBytes_digits _)
  obtain ⟨out, hrun⟩ := hread.exists_run sampleHash
  obtain ⟨out', hrun'⟩ := hread'.exists_run sampleHash
  obtain ⟨call, call', h, h', -, -, -, -, hbinds⟩ := printed_hash_binds hrun hrun'
  refine ⟨call, call', h, h', ?_⟩
  obtain rfl := hread.unique h
  obtain rfl := hread'.unique h'
  apply hbinds (by decide) (by decide)
  · intro a ha b hb _
    rw [List.mem_pair, or_self] at ha hb
    rw [ha, hb]
  · rw [HashCommand.printed_index, HashCommand.printed_index]

end Hca.Analysis
