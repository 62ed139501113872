import Hca.Interface.Bytecode

set_option autoImplicit false

/-!
# Leaf admission

The scan of `validate_leaf_script` meets the instructions of the script one after the other:
it is the charge of the list of instructions, with the same value and the same error. From
there `Leaf::new` accepts exactly the admissible leaves.
-/

namespace Hca.Analysis

open Hca.Library Hca.Model Hca.Program Hca.Interface

/-! ## Charging instructions -/

/-- Checks and charges instructions one after the other. -/
def chargeAll (counter : GasCounter) : List U8 → HcaResult ℕ
  | [] => .ok counter.consumed
  | op :: ops =>
    match banned.find? (fun entry => entry.1 = op) with
    | some (_, name) => .error (.err (.bannedOpcode op name))
    | none => do
      let counter ← counter.charge (opcodeGasCost op)
      chargeAll counter ops

/-- The table of banned opcodes has an entry for exactly the banned ones. -/
theorem find?_banned_eq_none {op : U8} :
    banned.find? (fun entry => entry.1 = op) = none ↔ ¬ IsBanned op := by
  rw [List.find?_eq_none, IsBanned, List.mem_map]
  simp only [decide_eq_true_eq, not_exists, not_and]

/-- A charge is paid iff there is enough gas left. -/
theorem charge_eq_ok {c c' : GasCounter} {cost : ℕ} :
    c.charge cost = .ok c' ↔
      cost ≤ c.remaining ∧ c'.remaining = c.remaining - cost ∧ c'.limit = c.limit := by
  unfold GasCounter.charge
  by_cases h : cost > c.remaining
  · rw [if_pos h]
    constructor
    · intro herr
      cases herr
    · rintro ⟨hle, -⟩
      omega
  · rw [if_neg h, Except.ok.injEq]
    obtain ⟨remaining, limit, hle⟩ := c'
    rw [GasCounter.mk.injEq]
    simp only at h ⊢
    constructor
    · rintro ⟨rfl, rfl⟩
      exact ⟨by omega, rfl, rfl⟩
    · rintro ⟨-, rfl, rfl⟩
      exact ⟨rfl, rfl⟩

/-- A charge fails iff the gas is not there, with the gas that was consumed before it. -/
theorem charge_eq_error {c : GasCounter} {cost : ℕ} {e : Fault HcaError} :
    c.charge cost = .error e ↔
      c.remaining < cost ∧ e = .err (.gasExhausted c.limit c.consumed) := by
  unfold GasCounter.charge GasCounter.consumed
  by_cases h : cost > c.remaining
  · rw [if_pos h, Except.error.injEq, eq_comm]
    exact (and_iff_right h).symm
  · rw [if_neg h]
    simp only [reduceCtorEq, false_iff, not_and]
    exact fun hlt => absurd hlt h

/-- What is charged is consumed. -/
theorem consumed_of_charge {c c' : GasCounter} {cost : ℕ} (h : c.charge cost = .ok c') :
    c'.consumed = c.consumed + cost := by
  obtain ⟨hcost, hrem, hlimit⟩ := charge_eq_ok.mp h
  have hc := c.remaining_le
  unfold GasCounter.consumed
  omega

/-- No instructions cost nothing. -/
@[simp] theorem staticGas_nil : staticGas [] = 0 := rfl

/-- The cost of instructions is the sum of their costs. -/
@[simp] theorem staticGas_cons (op : U8) (ops : List U8) :
    staticGas (op :: ops) = opcodeGasCost op + staticGas ops := by
  simp [staticGas]

/-- A banned opcode ends the scan with its name. -/
theorem chargeAll_cons_banned (c : GasCounter) {op : U8} (ops : List U8) (h : IsBanned op) :
    ∃ name, (op, name) ∈ banned ∧
      chargeAll c (op :: ops) = .error (.err (.bannedOpcode op name)) := by
  cases hfind : banned.find? (fun entry => entry.1 = op) with
  | none => exact absurd h (find?_banned_eq_none.mp hfind)
  | some entry =>
    obtain ⟨op', name⟩ := entry
    have hop : op' = op := by simpa using List.find?_some hfind
    subst hop
    refine ⟨name, List.mem_of_find?_eq_some hfind, ?_⟩
    rw [chargeAll, hfind]

/-- Any other opcode is charged, and the scan goes on. -/
theorem chargeAll_cons_allowed {c : GasCounter} {op : U8} {ops : List U8} (h : ¬ IsBanned op) :
    chargeAll c (op :: ops) = c.charge (opcodeGasCost op) >>= fun c' => chargeAll c' ops := by
  rw [chargeAll, find?_banned_eq_none.mpr h]

/-- Charging succeeds iff no instruction is banned and the gas is there. -/
theorem chargeAll_eq_ok {c : GasCounter} {ops : List U8} {gas : ℕ} :
    chargeAll c ops = .ok gas ↔
      (∀ op ∈ ops, ¬ IsBanned op) ∧ staticGas ops ≤ c.remaining ∧
        gas = c.consumed + staticGas ops := by
  induction ops generalizing c with
  | nil =>
    rw [chargeAll, Except.ok.injEq]
    simp [eq_comm]
  | cons op ops ih =>
    rw [List.forall_mem_cons, staticGas_cons]
    by_cases hop : IsBanned op
    · obtain ⟨name, -, herr⟩ := chargeAll_cons_banned c ops hop
      simp [herr, hop]
    · rw [chargeAll_cons_allowed hop]
      simp only [bind_eq_ok, charge_eq_ok, ih, hop, not_false_eq_true, true_and]
      have hc := c.remaining_le
      unfold GasCounter.consumed
      constructor
      · rintro ⟨c', ⟨hle, hrem, hlimit⟩, hallowed, hgas', rfl⟩
        refine ⟨hallowed, by omega, ?_⟩
        rw [hrem, hlimit]
        omega
      · rintro ⟨hallowed, hle, rfl⟩
        refine ⟨⟨c.remaining - opcodeGasCost op, c.limit, by omega⟩, ⟨by omega, rfl, rfl⟩,
          hallowed, ?_, ?_⟩
        · simp only
          omega
        · simp only
          omega

/-- When a charge fails, it fails at the first instruction that is banned or not paid for,
with the gas of the instructions before it. -/
theorem chargeAll_first_offence {c : GasCounter} {ops : List U8}
    (h : ¬ ((∀ op ∈ ops, ¬ IsBanned op) ∧ staticGas ops ≤ c.remaining)) :
    ∃ pre op post, ops = pre ++ op :: post ∧ (∀ o ∈ pre, ¬ IsBanned o) ∧
      staticGas pre ≤ c.remaining ∧
      ((IsBanned op ∧ ∃ name, (op, name) ∈ banned ∧
          chargeAll c ops = .error (.err (.bannedOpcode op name))) ∨
        (¬ IsBanned op ∧ c.remaining < staticGas pre + opcodeGasCost op ∧
          chargeAll c ops =
            .error (.err (.gasExhausted c.limit (c.consumed + staticGas pre))))) := by
  induction ops generalizing c with
  | nil => simp at h
  | cons op ops ih =>
    by_cases hop : IsBanned op
    · obtain ⟨name, hname, herr⟩ := chargeAll_cons_banned c ops hop
      exact ⟨[], op, ops, rfl, by simp, by simp, Or.inl ⟨hop, name, hname, herr⟩⟩
    · rw [chargeAll_cons_allowed hop]
      cases hcharge : c.charge (opcodeGasCost op) with
      | error e =>
        obtain ⟨hcost, rfl⟩ := charge_eq_error.mp hcharge
        refine ⟨[], op, ops, rfl, by simp, by simp, Or.inr ⟨hop, ?_, rfl⟩⟩
        rw [staticGas_nil]
        omega
      | ok c' =>
        obtain ⟨hcost, hrem, hlimit⟩ := charge_eq_ok.mp hcharge
        have hrest : ¬ ((∀ op ∈ ops, ¬ IsBanned op) ∧ staticGas ops ≤ c'.remaining) := by
          rintro ⟨hall, hle⟩
          apply h
          rw [List.forall_mem_cons, staticGas_cons]
          exact ⟨⟨hop, hall⟩, by omega⟩
        obtain ⟨pre, bad, post, rfl, hpre, hle, hbad⟩ := ih hrest
        refine ⟨op :: pre, bad, post, rfl, ?_, ?_, ?_⟩
        · rw [List.forall_mem_cons]
          exact ⟨hop, hpre⟩
        · rw [staticGas_cons]
          omega
        · rw [staticGas_cons]
          rcases hbad with hbad | ⟨hallowed, hlt, herr⟩
          · exact Or.inl hbad
          · refine Or.inr ⟨hallowed, by omega, ?_⟩
            rw [ok_bind, herr, hlimit, consumed_of_charge hcharge, Nat.add_assoc]

/-- Charging instructions returns: the gas left is never exceeded. -/
theorem returns_chargeAll (c : GasCounter) (ops : List U8) : Returns (chargeAll c ops) := by
  induction ops generalizing c with
  | nil => exact returns_ok _
  | cons op ops ih =>
    rw [chargeAll]
    split
    · exact returns_err _
    · have hcharge : Returns (c.charge (opcodeGasCost op)) := by
        unfold GasCounter.charge
        split <;> simp
      exact hcharge.bind fun c' _ => ih c'

/-! ## The scan -/

/-- No opcode carries more than 32 immediate bytes. -/
theorem immediateSize_le (op : U8) : immediateSize op ≤ 32 := by
  unfold immediateSize
  split
  · bv_omega
  · omega

/-- Skipping bytes is reading what is left without them. -/
theorem instructionsFrom_eq (skip : ℕ) (script : List U8) :
    instructionsFrom skip script = instructions (script.drop skip) := by
  induction skip generalizing script with
  | zero => rfl
  | succ skip ih =>
    cases script with
    | nil => rfl
    | cons b script => rw [instructionsFrom, ih, List.drop_succ_cons]

/-- An instruction is followed by the one behind its immediate bytes. -/
theorem instructions_cons (op : U8) (script : List U8) :
    instructions (op :: script) = op :: instructions (script.drop (immediateSize op)) := by
  rw [instructions, instructionsFrom, instructionsFrom_eq]

/-- Where an opcode is left to read, the position is inside the script. -/
theorem lt_length_of_drop_eq_cons {script rest : List U8} {op : U8} {i : ℕ}
    (hdrop : script.drop i = op :: rest) : i < script.length := by
  by_contra hge
  rw [List.drop_eq_nil_of_le (by omega)] at hdrop
  cases hdrop

/-- One round of the scan inside the script. -/
theorem validateRound_cons {script rest : List U8} {op : U8} {i : ℕ} {c : GasCounter}
    (hdrop : script.drop i = op :: rest) :
    validateRound script (c, i) =
      (match banned.find? (fun entry => entry.1 = op) with
      | some (_, name) => .error (.err (.bannedOpcode op name))
      | none => do
        let counter ← c.charge (opcodeGasCost op)
        pure (.inl (counter, i + immediateSize op + 1))) := by
  have hi := lt_length_of_drop_eq_cons hdrop
  have hop : (index script i : HcaResult U8) = .ok op := by
    rw [index_eq_ok, ← List.head?_drop, hdrop, List.head?_cons]
  have hmove : (if 0x60 ≤ op ∧ op ≤ 0x7F then i + (op - 0x5F).toNat else i) =
      i + immediateSize op := by
    unfold immediateSize
    split <;> rfl
  rw [validateRound, if_pos hi, hop, ok_bind]
  cases banned.find? (fun entry => entry.1 = op) with
  | some entry => rfl
  | none =>
    simp only [hmove]

/-- A round moves the cursor no further than 32 bytes past the end. -/
theorem validateRound_cursor_le {script : List U8} {s s' : GasCounter × ℕ}
    (h : validateRound script s = .ok (.inl s')) : s'.2 ≤ script.length + 32 := by
  obtain ⟨c, i⟩ := s
  cases hdrop : script.drop i with
  | nil =>
    have hlen : script.length ≤ i := List.drop_eq_nil_iff.mp hdrop
    rw [validateRound, if_neg (by omega)] at h
    cases h
  | cons op rest =>
    have hi := lt_length_of_drop_eq_cons hdrop
    have hsize := immediateSize_le op
    rw [validateRound_cons hdrop] at h
    cases hfind : banned.find? (fun entry => entry.1 = op) with
    | some entry =>
      rw [hfind] at h
      cases h
    | none =>
      rw [hfind] at h
      obtain ⟨c', -, hpure⟩ := bind_eq_ok.mp h
      cases hpure
      simp only
      omega

/-- From a cursor on, the scan charges the instructions that are left. -/
theorem loop_validateRound {script : List U8} {fuel i : ℕ} {c : GasCounter}
    (hfuel : script.length - i < fuel) :
    loop (validateRound script) fuel (c, i) = chargeAll c (instructions (script.drop i)) := by
  induction fuel generalizing i c with
  | zero => omega
  | succ fuel ih =>
    cases hdrop : script.drop i with
    | nil =>
      have hlen : script.length ≤ i := List.drop_eq_nil_iff.mp hdrop
      have hround : validateRound script (c, i) = .ok (.inr c.consumed) := by
        rw [validateRound, if_neg (by omega)]
        rfl
      rw [loop_inr hround]
      rfl
    | cons op rest =>
      have hi := lt_length_of_drop_eq_cons hdrop
      have hnext : rest.drop (immediateSize op) = script.drop (i + immediateSize op + 1) := by
        rw [show i + immediateSize op + 1 = i + (immediateSize op + 1) by omega,
          ← List.drop_drop, hdrop, List.drop_succ_cons]
      have hround := validateRound_cons (c := c) hdrop
      rw [instructions_cons, chargeAll, hnext]
      cases hfind : banned.find? (fun entry => entry.1 = op) with
      | some entry =>
        rw [hfind] at hround
        exact loop_error hround
      | none =>
        rw [hfind] at hround
        cases hcharge : c.charge (opcodeGasCost op) with
        | error e =>
          rw [hcharge] at hround
          exact loop_error hround
        | ok c' =>
          rw [hcharge] at hround
          rw [loop_inl hround, ih (by omega)]
          rfl

/-- The scan is the charge of the instructions of the script. -/
theorem validateLeafScript_eq (script : List U8) :
    validateLeafScript script = chargeAll (GasCounter.new maxLeafGas) (instructions script) := by
  rw [validateLeafScript, loop_validateRound (by omega), List.drop_zero]

/-- A script is valid iff no instruction is banned and their gas is within the cap. -/
theorem validateLeafScript_eq_ok {script : List U8} {gas : ℕ} :
    validateLeafScript script = .ok gas ↔
      (∀ op ∈ instructions script, ¬ IsBanned op) ∧
        staticGas (instructions script) ≤ maxLeafGas ∧
        gas = staticGas (instructions script) := by
  rw [validateLeafScript_eq, chargeAll_eq_ok]
  simp [GasCounter.new, GasCounter.consumed]

/-! ## Leaves -/

/-- A version is active iff it is `0x01`: the second one is known, but no script passes for
it. -/
theorem fromByte_eq_v1 {version : U8} :
    LeafVersion.fromByte version = .ok .v1 ↔ version = 0x01 := by
  unfold LeafVersion.fromByte
  constructor
  · intro h
    by_contra hne
    rw [if_neg hne] at h
    split at h
    · cases h
    · split at h <;> cases h
  · rintro rfl
    rfl

/-- Only scripts of the active version are valid, and exactly the valid ones of them. -/
theorem validateForVersion_eq_ok {lv : LeafVersion} {script : List U8} {u : Unit} :
    validateForVersion lv script = .ok u ↔
      lv = .v1 ∧ (∀ op ∈ instructions script, ¬ IsBanned op) ∧
        staticGas (instructions script) ≤ maxLeafGas := by
  cases lv with
  | v1 =>
    simp only [validateForVersion, bind_eq_ok, validateLeafScript_eq_ok, pure_eq_ok, true_and]
    constructor
    · rintro ⟨gas, ⟨hallowed, hgas, -⟩, -⟩
      exact ⟨hallowed, hgas⟩
    · rintro ⟨hallowed, hgas⟩
      exact ⟨_, ⟨hallowed, hgas, rfl⟩, trivial⟩
  | v2 => simp [validateForVersion]

/-- Making a leaf returns for every version and script. -/
theorem returns_leafNew (version : U8) (script : List U8) (description : String) :
    Returns (Leaf.new version script description) := by
  have hversion : Returns (LeafVersion.fromByte version) := by
    unfold LeafVersion.fromByte
    split_ifs <;> simp
  unfold Leaf.new
  apply hversion.bind
  intro lv _
  apply (returns_rejectIf _ _).bind
  intro _ _
  apply (returns_rejectIf _ _).bind
  intro _ _
  have hscript : Returns (validateForVersion lv script) := by
    cases lv with
    | v1 =>
      have hscan : Returns (validateLeafScript script) := by
        rw [validateLeafScript_eq]
        exact returns_chargeAll _ _
      exact hscan.bind fun gas _ => returns_pure ()
    | v2 => exact returns_err _
  exact hscript.bind fun _ _ => returns_pure _

/-- A leaf has what it was made of. -/
theorem leafNew_eq {version : U8} {script : List U8} {description : String} {leaf : Leaf}
    (h : Leaf.new version script description = .ok leaf) :
    leaf = ⟨version, script, description⟩ := by
  unfold Leaf.new at h
  simp only [bind_eq_ok, rejectIf_eq_ok, pure_eq_ok, exists_const] at h
  obtain ⟨lv, -, -, -, -, -, rfl⟩ := h
  rfl

/-- `Leaf::new` accepts exactly the admissible leaves. -/
theorem leafNew_isOk_iff {version : U8} {script : List U8} {description : String} :
    (∃ leaf, Leaf.new version script description = .ok leaf) ↔ Admissible version script := by
  unfold Leaf.new
  simp only [bind_eq_ok, rejectIf_eq_ok, validateForVersion_eq_ok, pure_eq_ok, exists_const]
  constructor
  · rintro ⟨leaf, lv, hversion, hne, hsize, ⟨rfl, hallowed, hgas⟩, -⟩
    refine ⟨fromByte_eq_v1.mp hversion, ?_, by omega, hallowed, hgas⟩
    exact List.length_pos_iff.mpr hne
  · intro h
    refine ⟨_, .v1, fromByte_eq_v1.mpr h.version_eq, ?_, ?_, ⟨rfl, h.allowed, h.gas_le⟩, rfl⟩
    · exact List.length_pos_iff.mp h.script_ne
    · exact not_lt.mpr h.size_le

/-- Leaf admission is what the instructions of the script say. `Leaf::new` accepts an active
version and a script of admissible size whose instructions are allowed and within the gas
cap; `validate_leaf_script` returns the gas of exactly the scripts that meet the last two
conditions, and otherwise the error of the first instruction that is banned or exceeds the
cap, with the gas of the instructions before it.
SOURCE: evm/opcode.rs:104-130, evm/gas.rs:33-47, merkle.rs:50-64, leaf_version.rs:36-75 -/
theorem leaf_admission (version : U8) (script : List U8) (description : String) :
    ((∃ leaf, Leaf.new version script description = .ok leaf) ↔ Admissible version script) ∧
    (∀ gas, validateLeafScript script = .ok gas ↔
      (∀ op ∈ instructions script, ¬ IsBanned op) ∧
        staticGas (instructions script) ≤ maxLeafGas ∧
        gas = staticGas (instructions script)) ∧
    (¬ ((∀ op ∈ instructions script, ¬ IsBanned op) ∧
        staticGas (instructions script) ≤ maxLeafGas) →
      ∃ pre op post, instructions script = pre ++ op :: post ∧ (∀ o ∈ pre, ¬ IsBanned o) ∧
        staticGas pre ≤ maxLeafGas ∧
        ((IsBanned op ∧ ∃ name, (op, name) ∈ banned ∧
            validateLeafScript script = .error (.err (.bannedOpcode op name))) ∨
          (¬ IsBanned op ∧ maxLeafGas < staticGas pre + opcodeGasCost op ∧
            validateLeafScript script =
              .error (.err (.gasExhausted maxLeafGas (staticGas pre)))))) := by
  refine ⟨leafNew_isOk_iff, fun gas => validateLeafScript_eq_ok, ?_⟩
  intro hbad
  have hoffence := chargeAll_first_offence (c := GasCounter.new maxLeafGas) hbad
  rw [← validateLeafScript_eq] at hoffence
  simpa [GasCounter.new, GasCounter.consumed] using hoffence

end Hca.Analysis
