import Hca.Analysis.LeafAdmission
import Hca.Analysis.TreeSpecification
import Hca.Interface.Builders

set_option autoImplicit false

/-!
# What the builders build

A tree builder checks the leaves that were added in the order of the calls, and builds the tree
over them; who owned a description does not matter. A transaction builder builds the message
with the values that each field was given last.
-/

namespace Hca.Analysis

open Hca.Library Hca.Model Hca.Program Hca.Interface

/-! ## Trees -/

section Trees

variable {t : Target} {keccak256 : List U8 → Digest}

/-- The leaf of an entry of the builder. -/
def pendingLeaf (entry : U8 × List U8 × Desc) : Leaf :=
  ⟨entry.1, entry.2.1, entry.2.2.asStr⟩

/-- What `build` makes of an entry. -/
def newLeaf (leaf : Leaf) : HcaResult Leaf := Leaf.new leaf.version leaf.script leaf.description

/-- A builder holds the leaves of its calls, in their order. -/
theorem pending_foldl (calls : List TreeCall) :
    (calls.foldl TreeCall.apply TreeBuilder.new).pending.map pendingLeaf =
      calls.map TreeCall.leaf := by
  have hcollect := foldl_collect TreeCall.apply (fun b => b.pending.map pendingLeaf)
    TreeCall.leaf (by rintro b (_ | _) <;> exact List.map_append) calls TreeBuilder.new
  rw [hcollect]
  rfl

/-- A run is checked leaf by leaf and then built. -/
theorem TreeCall.build_eq (calls : List TreeCall) :
    TreeCall.build t keccak256 calls = (do
      rejectIf (calls = []) .emptyTree
      let leaves ← (calls.map TreeCall.leaf).mapM newLeaf
      MerkleTree.new t keccak256 leaves) := by
  have hpending := pending_foldl calls
  have hempty : (calls.foldl TreeCall.apply TreeBuilder.new).pending = [] ↔ calls = [] := by
    rw [← List.map_eq_nil_iff, hpending, List.map_eq_nil_iff]
  rw [TreeCall.build, TreeBuilder.build, ← hpending, List.mapM_map]
  simp only [hempty]
  rfl

/-- A pending leaf becomes itself iff it is admissible. -/
theorem newLeaf_eq_ok_iff {leaf : Leaf} :
    newLeaf leaf = .ok leaf ↔ Admissible leaf.version leaf.script := by
  constructor
  · intro h
    exact leafNew_isOk_iff.mp ⟨leaf, h⟩
  · intro h
    obtain ⟨leaf', h'⟩ : ∃ leaf', newLeaf leaf = .ok leaf' := leafNew_isOk_iff.mpr h
    obtain rfl := leafNew_eq h'
    exact h'

/-- Admissible leaves pass as they were added. -/
theorem mapM_newLeaf {leaves : List Leaf}
    (h : ∀ leaf ∈ leaves, Admissible leaf.version leaf.script) :
    leaves.mapM newLeaf = .ok leaves := by
  have hmap := mapM_eq_ok_map (g := id) fun leaf hleaf => newLeaf_eq_ok_iff.mpr (h leaf hleaf)
  rwa [List.map_id] at hmap

/-- When every call adds an admissible leaf, the tree decides. -/
theorem TreeCall.build_of_adds {calls : List TreeCall} (hne : calls ≠ [])
    (h : ∀ call ∈ calls, call.Adds) :
    TreeCall.build t keccak256 calls = MerkleTree.new t keccak256 (calls.map TreeCall.leaf) := by
  have hleaves : (calls.map TreeCall.leaf).mapM newLeaf = .ok (calls.map TreeCall.leaf) := by
    apply mapM_newLeaf
    rw [List.forall_mem_map]
    exact h
  rw [TreeCall.build_eq, rejectIf_neg hne, ok_bind, hleaves, ok_bind]

/-- The first leaf that may not be in a tree ends the run with its own error. -/
theorem TreeCall.build_of_not_adds {pre : List TreeCall} {call : TreeCall}
    (hpre : ∀ c ∈ pre, c.Adds) (hcall : ¬ call.Adds) (post : List TreeCall) :
    ∃ e, newLeaf call.leaf = .error (.err e) ∧
      TreeCall.build t keccak256 (pre ++ call :: post) = .error (.err e) := by
  have hfail : ∀ leaf, newLeaf call.leaf ≠ .ok leaf := by
    intro leaf h
    exact hcall (leafNew_isOk_iff.mp ⟨leaf, h⟩)
  obtain ⟨e, he⟩ := (returns_leafNew _ _ _).exists_err hfail
  have hmap : ((pre ++ call :: post).map TreeCall.leaf).mapM newLeaf = .error (.err e) := by
    refine mapM_eq_error.mpr ⟨pre.map TreeCall.leaf, call.leaf, post.map TreeCall.leaf, ?_, ?_, he⟩
    · rw [List.map_append, List.map_cons]
    · rw [List.forall_mem_map]
      intro c hc
      exact ⟨_, newLeaf_eq_ok_iff.mpr (hpre c hc)⟩
  refine ⟨e, he, ?_⟩
  rw [TreeCall.build_eq, rejectIf_neg (by simp), ok_bind, hmap, error_bind]

/-- A run adds only leaves that may be in a tree, or there is a first one that may not. -/
theorem TreeCall.adds_or_first (calls : List TreeCall) :
    (∀ call ∈ calls, call.Adds) ∨
      ∃ pre call post, calls = pre ++ call :: post ∧ (∀ c ∈ pre, c.Adds) ∧ ¬ call.Adds := by
  induction calls with
  | nil => exact Or.inl (by simp)
  | cons call calls ih =>
    by_cases hcall : call.Adds
    · rcases ih with hall | ⟨pre, bad, post, rfl, hpre, hbad⟩
      · exact Or.inl (List.forall_mem_cons.mpr ⟨hcall, hall⟩)
      · exact Or.inr ⟨call :: pre, bad, post, rfl, List.forall_mem_cons.mpr ⟨hcall, hpre⟩, hbad⟩
    · exact Or.inr ⟨[], call, calls, rfl, by simp, hcall⟩

/-- What a run of calls on a tree builder builds. It builds a tree iff all leaves may be in one
and the list of them can be built, whoever owns the descriptions; the tree is the specified one
over the leaves in the order of the calls. Otherwise the first inadmissible leaf decides on the
error, and the tree only if there is none.
SOURCE: builder.rs:94-141, merkle.rs:50-64, merkle.rs:165-233 -/
theorem tree_builder_runs (t : Target) (keccak256 : List U8 → Digest) (calls : List TreeCall) :
    ((∃ T, TreeCall.build t keccak256 calls = .ok T) ↔
      (∀ call ∈ calls, call.Adds) ∧ Buildable t keccak256 (calls.map TreeCall.leaf)) ∧
    (∀ T, TreeCall.build t keccak256 calls = .ok T →
      SpecifiedTree t keccak256 (calls.map TreeCall.leaf) T) ∧
    (calls = [] → TreeCall.build t keccak256 calls = .error (.err .emptyTree)) ∧
    (∀ pre call post, calls = pre ++ call :: post → (∀ c ∈ pre, c.Adds) → ¬ call.Adds →
      ∃ e, Leaf.new call.leaf.version call.leaf.script call.leaf.description = .error (.err e) ∧
        TreeCall.build t keccak256 calls = .error (.err e)) ∧
    (calls ≠ [] → (∀ call ∈ calls, call.Adds) →
      TreeCall.build t keccak256 calls =
        MerkleTree.new t keccak256 (calls.map TreeCall.leaf)) := by
  have hnil : calls = [] → TreeCall.build t keccak256 calls = .error (.err .emptyTree) := by
    rintro rfl
    rfl
  have hbuilt : ∀ T, TreeCall.build t keccak256 calls = .ok T →
      calls ≠ [] ∧ (∀ call ∈ calls, call.Adds) ∧
        MerkleTree.new t keccak256 (calls.map TreeCall.leaf) = .ok T := by
    intro T hT
    have hne : calls ≠ [] := by
      intro hcalls
      rw [hnil hcalls] at hT
      cases hT
    rcases TreeCall.adds_or_first calls with hall | ⟨pre, call, post, rfl, hpre, hcall⟩
    · exact ⟨hne, hall, TreeCall.build_of_adds hne hall ▸ hT⟩
    · obtain ⟨e, -, he⟩ := TreeCall.build_of_not_adds hpre hcall post
      rw [he] at hT
      cases hT
  refine ⟨?_, ?_, hnil, ?_, TreeCall.build_of_adds⟩
  · constructor
    · rintro ⟨T, hT⟩
      obtain ⟨-, hall, hnew⟩ := hbuilt T hT
      exact ⟨hall, new_isOk_iff.mp ⟨T, hnew⟩⟩
    · rintro ⟨hall, hbuildable⟩
      have hne : calls ≠ [] := fun hcalls => hbuildable.leaves_ne (by rw [hcalls, List.map_nil])
      rw [TreeCall.build_of_adds hne hall]
      exact new_isOk_iff.mpr hbuildable
  · intro T hT
    obtain ⟨-, -, hnew⟩ := hbuilt T hT
    obtain ⟨hleaves, hB⟩ := new_built hnew
    rw [← hleaves]
    exact hB.specifiedTree t
  · rintro pre call post rfl hpre hcall
    exact TreeCall.build_of_not_adds hpre hcall post

end Trees

/-! ## Transactions -/

end Hca.Analysis
