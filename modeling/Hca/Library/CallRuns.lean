import Mathlib.Data.List.Basic

set_option autoImplicit false

/-!
# Runs of calls

An object is updated call by call. A field that every call either sets or leaves alone has the
value of the last call that set it, and a list that every call extends by one item has the
items in the order of the calls.
-/

namespace Hca.Library

variable {σ κ α : Type}

/-- What the last of the calls that give a value gives. -/
def lastWrite (sets : κ → Option α) : List κ → Option α
  | [] => none
  | call :: calls => (lastWrite sets calls).orElse fun _ => sets call

/-- Nothing was written iff no call writes. -/
theorem lastWrite_eq_none {sets : κ → Option α} {calls : List κ} :
    lastWrite sets calls = none ↔ ∀ call ∈ calls, sets call = none := by
  induction calls with
  | nil => simp [lastWrite]
  | cons call calls ih =>
    rw [List.forall_mem_cons, ← ih, lastWrite]
    cases lastWrite sets calls with
    | some a => simp
    | none => simp

/-- What was given last was given by a call after which none gave anything. -/
theorem exists_of_lastWrite {sets : κ → Option α} {calls : List κ} {a : α}
    (h : lastWrite sets calls = some a) : ∃ before call after, calls = before ++ call :: after ∧
      sets call = some a ∧ ∀ other ∈ after, sets other = none := by
  induction calls with
  | nil => cases h
  | cons call calls ih =>
    rw [lastWrite] at h
    cases hrest : lastWrite sets calls with
    | some b =>
      rw [hrest, Option.orElse_some] at h
      obtain ⟨before, last, after, rfl, hlast, hafter⟩ := ih (hrest.trans h)
      exact ⟨call :: before, last, after, rfl, hlast, hafter⟩
    | none =>
      rw [hrest, Option.orElse_none] at h
      exact ⟨[], call, calls, rfl, h, lastWrite_eq_none.mp hrest⟩

/-- The value of a field after a run of calls. -/
theorem foldl_lastWrite (apply : σ → κ → σ) (field : σ → α) (sets : κ → Option α)
    (hstep : ∀ s call, field (apply s call) = (sets call).getD (field s)) (calls : List κ)
    (s : σ) : field (calls.foldl apply s) = (lastWrite sets calls).getD (field s) := by
  induction calls generalizing s with
  | nil => rfl
  | cons call calls ih =>
    rw [List.foldl_cons, ih, hstep, lastWrite]
    cases lastWrite sets calls with
    | none => rfl
    | some a => rfl

/-- A field that no call sets. -/
theorem foldl_unchanged (apply : σ → κ → σ) (field : σ → α)
    (hstep : ∀ s call, field (apply s call) = field s) (calls : List κ) (s : σ) :
    field (calls.foldl apply s) = field s := by
  induction calls generalizing s with
  | nil => rfl
  | cons call calls ih => rw [List.foldl_cons, ih, hstep]

/-- The items of a list that every call extends. -/
theorem foldl_collect (apply : σ → κ → σ) (items : σ → List α) (item : κ → α)
    (hstep : ∀ s call, items (apply s call) = items s ++ [item call]) (calls : List κ) (s : σ) :
    items (calls.foldl apply s) = items s ++ calls.map item := by
  induction calls generalizing s with
  | nil => rw [List.foldl_nil, List.map_nil, List.append_nil]
  | cons call calls ih =>
    rw [List.foldl_cons, ih, hstep, List.map_cons, List.append_assoc, List.singleton_append]

end Hca.Library
