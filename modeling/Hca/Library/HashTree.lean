import Mathlib.Tactic
import Mathlib.Data.Set.Function

set_option autoImplicit false

/-!
# Perfect hash trees

A perfect binary tree over an arbitrary type of digests and an arbitrary combining
function `f`. A level of the tree is a sequence `ℕ → α`, of which a tree of depth `d`
uses the first `2 ^ d` entries; the level above it combines its entries two by two. An
opening of position `i` is the list of siblings met on the way up, and `climb`
recomputes the root from it. Splitting the leaves into halves from the root down gives the
same root (`halvedRoot_map_range`).

Openings of honest trees verify (`climb_path`). Conversely, when `f` is injective on the
pairs that were combined and no leaf is itself a combination, a climb that ends in the
root of a tree is the opening of one of its positions (`climb_eq_root`): the list of
siblings has the depth of the tree, and both it and the starting digest are those of the
position given by the low bits of the index. Two trees with one root then have one depth
and the same leaves (`eq_of_root_eq`).
-/

namespace Hca.Library.HashTree

variable {α : Type*} (f : α → α → α)

/-! ## Levels and openings -/

/-- The level above `v`. -/
def up (v : ℕ → α) : ℕ → α := fun i => f (v (2 * i)) (v (2 * i + 1))

/-- The level `k` steps above `v`. -/
def level : ℕ → (ℕ → α) → ℕ → α
  | 0, v => v
  | k + 1, v => level k (up f v)

/-- The root of the tree of depth `d` over `v`. -/
def root (d : ℕ) (v : ℕ → α) : α := level f d v 0

/-- The other child of the parent of `i`. -/
def sibling (i : ℕ) : ℕ := if i % 2 = 0 then i + 1 else i - 1

/-- The siblings on the way from position `i` up through `d` levels. -/
def path : ℕ → (ℕ → α) → ℕ → List α
  | 0, _, _ => []
  | d + 1, v, i => v (sibling i) :: path d (up f v) (i / 2)

/-- A digest at position `i` and its sibling, left child first. -/
def ordered (i : ℕ) (a s : α) : α × α := if i % 2 = 0 then (a, s) else (s, a)

/-- The digest reached from `a` at position `i` through the given siblings. -/
def climb : ℕ → α → List α → α
  | _, a, [] => a
  | i, a, s :: ss => climb (i / 2) (f (ordered i a s).1 (ordered i a s).2) ss

/-- The pairs combined while the tree of depth `d` over `v` is built. -/
def treePairs : ℕ → (ℕ → α) → List (α × α)
  | 0, _ => []
  | d + 1, v => (List.range (2 ^ d)).map (fun i => (v (2 * i), v (2 * i + 1))) ++
      treePairs d (up f v)

/-- The pairs combined during a climb. -/
def climbPairs : ℕ → α → List α → List (α × α)
  | _, _, [] => []
  | i, a, s :: ss =>
      ordered i a s :: climbPairs (i / 2) (f (ordered i a s).1 (ordered i a s).2) ss

/-- There is one sibling for each level below the root. -/
@[simp] theorem length_path (d : ℕ) (v : ℕ → α) (i : ℕ) : (path f d v i).length = d := by
  induction d generalizing v i with
  | zero => rfl
  | succ d ih => simp [path, ih]

/-- The siblings of an opening are those of the ancestors. -/
theorem path_getElem? {d k : ℕ} (v : ℕ → α) (i : ℕ) (hk : k < d) :
    (path f d v i)[k]? = some (level f k v (sibling (i / 2 ^ k))) := by
  induction k generalizing d v i with
  | zero =>
    obtain ⟨e, rfl⟩ : ∃ e, d = e + 1 := ⟨d - 1, by omega⟩
    rw [path, List.getElem?_cons_zero, pow_zero, Nat.div_one, level]
  | succ k ih =>
    obtain ⟨e, rfl⟩ : ∃ e, d = e + 1 := ⟨d - 1, by omega⟩
    rw [path, List.getElem?_cons_succ, ih (up f v) (i / 2) (Nat.lt_of_succ_lt_succ hk), level,
      Nat.div_div_eq_div_mul, ← pow_succ']

/-- Levels add up: the nodes above a level are those of the tree that starts there. -/
theorem level_add (m n : ℕ) (v : ℕ → α) : level f (m + n) v = level f n (level f m v) := by
  induction m generalizing v with
  | zero => rw [Nat.zero_add, level]
  | succ m ih => rw [Nat.succ_add, level, ih, level]

/-- The next level pairs up the nodes of this one. -/
theorem level_succ (k : ℕ) (v : ℕ → α) : level f (k + 1) v = up f (level f k v) := by
  rw [level_add]
  rfl

/-- Climbing with two lists of siblings is climbing with the first, then with the second. -/
theorem climb_append (i : ℕ) (a : α) (s t : List α) :
    climb f i a (s ++ t) = climb f (i / 2 ^ s.length) (climb f i a s) t := by
  induction s generalizing i a with
  | nil => simp [climb]
  | cons b s ih =>
    rw [List.cons_append, climb, ih, climb, List.length_cons, Nat.div_div_eq_div_mul,
      ← pow_succ']

/-- The pairs on the way are those of the first part and those of the second. -/
theorem climbPairs_append (i : ℕ) (a : α) (s t : List α) :
    climbPairs f i a (s ++ t) =
      climbPairs f i a s ++ climbPairs f (i / 2 ^ s.length) (climb f i a s) t := by
  induction s generalizing i a with
  | nil => simp [climbPairs, climb]
  | cons b s ih =>
    rw [List.cons_append, climbPairs, ih, climbPairs, climb, List.length_cons,
      Nat.div_div_eq_div_mul, ← pow_succ', List.cons_append]

/-- A climb through at least one sibling ends in a combined pair. -/
theorem climb_eq_pair (i : ℕ) (a : α) {s : List α} (hs : s ≠ []) :
    ∃ p ∈ climbPairs f i a s, climb f i a s = f p.1 p.2 := by
  induction s generalizing i a with
  | nil => exact absurd rfl hs
  | cons b s ih =>
    cases s with
    | nil => exact ⟨ordered i a b, by simp [climbPairs], by simp [climb]⟩
    | cons c s =>
      obtain ⟨p, hp, h⟩ := ih (i / 2) (f (ordered i a b).1 (ordered i a b).2) (by simp)
      exact ⟨p, List.mem_cons_of_mem _ hp, h⟩

/-! ## The root from the root down -/

/-- The root of a list of digests, computed from the root down: the list is split into
halves, and the roots of the halves are combined. -/
def halvedRoot : List α → Option α
  | [] => none
  | [h] => some h
  | h :: h' :: hs => do
      let half := (hs.length + 2) / 2
      let left ← halvedRoot ((h :: h' :: hs).take half)
      let right ← halvedRoot ((h :: h' :: hs).drop half)
      pure (f left right)
termination_by hs => hs.length
decreasing_by
  · simp only [List.length_take, List.length_cons]
    omega
  · simp only [List.length_drop, List.length_cons]
    omega

/-- The halves of a list are combined at its root. -/
theorem halvedRoot_append {l r : List α} {a b : α} (hlen : l.length = r.length)
    (hl : halvedRoot f l = some a) (hr : halvedRoot f r = some b) :
    halvedRoot f (l ++ r) = some (f a b) := by
  cases l with
  | nil =>
    rw [halvedRoot] at hl
    cases hl
  | cons x xs =>
    obtain ⟨y, rest, hrest⟩ : ∃ y rest, xs ++ r = y :: rest := by
      apply List.exists_cons_of_ne_nil
      intro hnil
      rw [List.append_eq_nil_iff] at hnil
      rw [hnil.2, List.length_cons, List.length_nil] at hlen
      omega
    have hhalf : (rest.length + 2) / 2 = (x :: xs).length := by
      have hsum := congrArg List.length hrest
      simp only [List.length_append, List.length_cons] at hsum hlen ⊢
      omega
    rw [List.cons_append, hrest, halvedRoot, ← hrest, ← List.cons_append, hhalf,
      List.take_left, List.drop_left, hl, hr]
    rfl

/-- A level over entries shifted by whole subtrees is a shifted level. -/
theorem level_shift (k m : ℕ) (v : ℕ → α) (i : ℕ) :
    level f k (fun j => v (j + 2 ^ k * m)) i = level f k v (i + m) := by
  induction k generalizing v i with
  | zero => rw [level, level, pow_zero, Nat.one_mul]
  | succ k ih =>
    have hup : up f (fun j => v (j + 2 ^ (k + 1) * m)) =
        fun j => up f v (j + 2 ^ k * m) := by
      funext j
      rw [up, up, pow_succ, show 2 * (j + 2 ^ k * m) = 2 * j + 2 ^ k * 2 * m by ring,
        Nat.add_right_comm]
    rw [level, hup, ih, level]

/-- The root combines the roots over the two halves of the leaves. -/
theorem root_succ (d : ℕ) (v : ℕ → α) :
    root f (d + 1) v = f (root f d v) (root f d fun i => v (i + 2 ^ d)) := by
  have hright := level_shift f d 1 v 0
  rw [Nat.mul_one] at hright
  rw [root, level_succ, up, root, root, hright]

/-- Building the levels from the leaves up and splitting the leaves from the root down
give one root. -/
theorem halvedRoot_map_range (d : ℕ) (v : ℕ → α) :
    halvedRoot f ((List.range (2 ^ d)).map v) = some (root f d v) := by
  induction d generalizing v with
  | zero =>
    rw [pow_zero, List.range_one, List.map_singleton, halvedRoot]
    rfl
  | succ d ih =>
    have hsplit : (List.range (2 ^ (d + 1))).map v =
        (List.range (2 ^ d)).map v ++ (List.range (2 ^ d)).map fun i => v (i + 2 ^ d) := by
      rw [pow_succ, Nat.mul_two, List.range_add, List.map_append, List.map_map]
      simp [Function.comp_def, Nat.add_comm]
    rw [hsplit, root_succ]
    apply halvedRoot_append f _ (ih v) (ih _)
    rw [List.length_map, List.length_map]

/-! ## Completeness -/

/-- An entry and its sibling, in order, are the two children of their parent. -/
theorem ordered_sibling (v : ℕ → α) (i : ℕ) :
    ordered i (v i) (v (sibling i)) = (v (2 * (i / 2)), v (2 * (i / 2) + 1)) := by
  by_cases hi : i % 2 = 0
  · have h : 2 * (i / 2) = i := by omega
    simp [ordered, sibling, hi, h]
  · have h : 2 * (i / 2) = i - 1 := by omega
    have h' : i - 1 + 1 = i := by omega
    simp [ordered, sibling, hi, h, h']

/-- The opening of a position leads to its ancestor. -/
theorem climb_path (d : ℕ) (v : ℕ → α) (i : ℕ) :
    climb f i (v i) (path f d v i) = level f d v (i / 2 ^ d) := by
  induction d generalizing v i with
  | zero => simp [climb, path, level]
  | succ d ih =>
    have hup : f (v (2 * (i / 2))) (v (2 * (i / 2) + 1)) = up f v (i / 2) := rfl
    rw [path, climb, ordered_sibling, hup, ih, level, Nat.div_div_eq_div_mul, ← pow_succ']

/-- The opening of a position of the tree leads to its root. -/
theorem climb_path_eq_root {d : ℕ} (v : ℕ → α) {i : ℕ} (hi : i < 2 ^ d) :
    climb f i (v i) (path f d v i) = root f d v := by
  rw [climb_path, Nat.div_eq_of_lt hi, root]

/-- The pairs of a tree are the neighbours on its levels below the root. -/
theorem mem_treePairs_iff {d : ℕ} {v : ℕ → α} {p : α × α} :
    p ∈ treePairs f d v ↔
      ∃ k < d, ∃ i < 2 ^ (d - (k + 1)), p = (level f k v (2 * i), level f k v (2 * i + 1)) := by
  induction d generalizing v with
  | zero => simp [treePairs]
  | succ d ih =>
    rw [treePairs, List.mem_append, List.mem_map, ih]
    constructor
    · rintro (⟨i, hi, rfl⟩ | ⟨k, hk, i, hi, rfl⟩)
      · exact ⟨0, Nat.succ_pos d, i, List.mem_range.mp hi, rfl⟩
      · exact ⟨k + 1, Nat.succ_lt_succ hk, i, by rwa [Nat.add_sub_add_right], rfl⟩
    · rintro ⟨k, hk, i, hi, rfl⟩
      cases k with
      | zero => exact Or.inl ⟨i, List.mem_range.mpr hi, rfl⟩
      | succ k =>
        rw [Nat.add_sub_add_right] at hi
        exact Or.inr ⟨k, Nat.lt_of_succ_lt_succ hk, i, hi, rfl⟩

/-- Climbing an honest opening combines pairs of the tree only. -/
theorem climbPairs_path_subset {d : ℕ} (v : ℕ → α) {i : ℕ} (hi : i < 2 ^ d) :
    climbPairs f i (v i) (path f d v i) ⊆ treePairs f d v := by
  induction d generalizing v i with
  | zero => simp [climbPairs, path]
  | succ d ih =>
    have hi' : i / 2 < 2 ^ d := by
      rw [pow_succ] at hi
      omega
    rw [path, climbPairs, ordered_sibling, treePairs]
    refine List.cons_subset.mpr ⟨?_, ?_⟩
    · apply List.mem_append_left
      exact List.mem_map.mpr ⟨i / 2, List.mem_range.mpr hi', rfl⟩
    · exact List.Subset.trans (ih (up f v) hi') (List.subset_append_right _ _)

/-! ## Soundness -/

/-- Every entry above the leaves of the tree is a combined pair. -/
theorem level_pair_mem {k n : ℕ} (v : ℕ → α) {j : ℕ} (hj : j < 2 ^ n) :
    (level f k v (2 * j), level f k v (2 * j + 1)) ∈ treePairs f (k + 1 + n) v := by
  rw [mem_treePairs_iff]
  exact ⟨k, by omega, j, by rwa [Nat.add_sub_cancel_left], rfl⟩

/-- The pairs above a level are pairs of the whole tree. -/
theorem treePairs_level_subset (m n : ℕ) (v : ℕ → α) :
    treePairs f n (level f m v) ⊆ treePairs f (m + n) v := by
  induction m generalizing v with
  | zero => simp [level]
  | succ m ih =>
    rw [Nat.succ_add, treePairs, level]
    exact List.Subset.trans (ih (up f v)) (List.subset_append_right _ _)

variable {f} {S : Set (α × α)} (hinj : Set.InjOn (fun p : α × α => f p.1 p.2) S)

include hinj

/-- A climb through as many siblings as the tree is deep, ending in its root, is the
opening of the position given by the low bits of the index. -/
theorem climb_eq_root_of_length {v : ℕ → α} {i : ℕ} {a : α} {s : List α}
    (htree : ∀ p ∈ treePairs f s.length v, p ∈ S) (hclimb : ∀ p ∈ climbPairs f i a s, p ∈ S)
    (h : climb f i a s = root f s.length v) :
    a = v (i % 2 ^ s.length) ∧ s = path f s.length v (i % 2 ^ s.length) := by
  induction s generalizing v i a with
  | nil => simpa [climb, root, level, path, Nat.mod_one] using h
  | cons b s ih =>
    have hpow : 2 ^ (s.length + 1) = 2 * 2 ^ s.length := pow_succ' 2 s.length
    -- `j` is the position in `v`, `q` that of its parent
    obtain ⟨j, hj⟩ : ∃ j, j = i % 2 ^ (s.length + 1) := ⟨_, rfl⟩
    have hq : i / 2 % 2 ^ s.length = j / 2 := by
      rw [hj, hpow, Nat.mod_mul_right_div_self]
    have hjlt : j < 2 * 2 ^ s.length := by
      rw [hj, hpow]
      exact Nat.mod_lt _ (by positivity)
    have hparity : j % 2 = i % 2 := by
      rw [hj, hpow, Nat.mod_mul_right_mod]
    rw [List.length_cons] at htree h ⊢
    rw [← hj]
    obtain ⟨hparent, hrest⟩ := ih (v := up f v) (i := i / 2)
      (a := f (ordered i a b).1 (ordered i a b).2)
      (fun p hp => htree p (by rw [treePairs]; exact List.mem_append_right _ hp))
      (fun p hp => hclimb p (List.mem_cons_of_mem _ hp)) h
    rw [hq] at hparent hrest
    have hmem : (v (2 * (j / 2)), v (2 * (j / 2) + 1)) ∈ S := by
      apply htree
      rw [treePairs]
      apply List.mem_append_left
      exact List.mem_map.mpr ⟨j / 2, List.mem_range.mpr (by omega), rfl⟩
    have hpair : ordered i a b = (v (2 * (j / 2)), v (2 * (j / 2) + 1)) :=
      hinj (hclimb _ List.mem_cons_self) hmem hparent
    rw [← ordered_sibling] at hpair
    have hboth : a = v j ∧ b = v (sibling j) := by
      unfold ordered at hpair
      rw [hparity] at hpair
      split at hpair
      · exact Prod.mk.inj hpair
      · exact (Prod.mk.inj hpair).symm
    refine ⟨hboth.1, ?_⟩
    rw [path, ← hboth.2, ← hrest]

/-- A climb that starts at a digest which is not a combination and ends in the root of a
tree whose leaves are not combinations is the opening of one of its positions. -/
theorem climb_eq_root {d : ℕ} {v : ℕ → α} {i : ℕ} {a : α} {s : List α}
    (htree : ∀ p ∈ treePairs f d v, p ∈ S) (hclimb : ∀ p ∈ climbPairs f i a s, p ∈ S)
    (hleaf : ∀ j < 2 ^ d, ∀ p ∈ S, v j ≠ f p.1 p.2) (ha : ∀ p ∈ S, a ≠ f p.1 p.2)
    (h : climb f i a s = root f d v) :
    s.length = d ∧ a = v (i % 2 ^ d) ∧ s = path f d v (i % 2 ^ d) := by
  rcases Nat.lt_trichotomy s.length d with hlt | heq | hgt
  · -- a short climb would start at an inner entry of the tree
    obtain ⟨k, hk⟩ : ∃ k, d = k + 1 + s.length := ⟨d - s.length - 1, by omega⟩
    subst hk
    have hroot : root f (k + 1 + s.length) v = root f s.length (level f (k + 1) v) := by
      rw [root, level_add, root]
    rw [hroot] at h
    have hsub : ∀ p ∈ treePairs f s.length (level f (k + 1) v), p ∈ S :=
      fun p hp => htree p (treePairs_level_subset f (k + 1) s.length v hp)
    obtain ⟨hinner, -⟩ := climb_eq_root_of_length hinj hsub hclimb h
    rw [level_succ] at hinner
    have hmem := htree _ (level_pair_mem f (k := k) v (Nat.mod_lt i (by positivity)))
    exact absurd hinner (ha _ hmem)
  · subst heq
    exact ⟨rfl, climb_eq_root_of_length hinj htree hclimb h⟩
  · -- a long climb would pass through a leaf of the tree after a combination
    obtain ⟨s₁, s₂, rfl, hlen⟩ : ∃ s₁ s₂, s = s₁ ++ s₂ ∧ s₂.length = d :=
      ⟨s.take (s.length - d), s.drop (s.length - d), (List.take_append_drop _ s).symm,
        by rw [List.length_drop]; omega⟩
    subst hlen
    have hne : s₁ ≠ [] := by
      rintro rfl
      simp at hgt
    rw [climb_append] at h
    rw [climbPairs_append] at hclimb
    obtain ⟨hmiddle, -⟩ := climb_eq_root_of_length hinj htree
      (fun p hp => hclimb p (List.mem_append_right _ hp)) h
    obtain ⟨p, hp, hpair⟩ := climb_eq_pair f i a hne
    rw [hpair] at hmiddle
    exact absurd hmiddle.symm
      (hleaf _ (Nat.mod_lt _ (by positivity)) p (hclimb p (List.mem_append_left _ hp)))

/-- Trees with one root, whose leaves are not combinations, have one depth and the same
leaves. -/
theorem eq_of_root_eq {d e : ℕ} {v w : ℕ → α}
    (hv : ∀ p ∈ treePairs f d v, p ∈ S) (hw : ∀ p ∈ treePairs f e w, p ∈ S)
    (hvleaf : ∀ j < 2 ^ d, ∀ p ∈ S, v j ≠ f p.1 p.2)
    (hwleaf : ∀ j < 2 ^ e, ∀ p ∈ S, w j ≠ f p.1 p.2) (h : root f d v = root f e w) :
    d = e ∧ ∀ j < 2 ^ d, v j = w j := by
  -- every opening of the first tree is accepted by the second
  have hopen : ∀ j < 2 ^ d, d = e ∧ v j = w (j % 2 ^ e) := by
    intro j hj
    have hclimb : ∀ p ∈ climbPairs f j (v j) (path f d v j), p ∈ S :=
      fun p hp => hv p (climbPairs_path_subset f v hj hp)
    obtain ⟨hlen, hleaf, -⟩ := climb_eq_root hinj hw hclimb hwleaf (hvleaf j hj)
      ((climb_path_eq_root f v hj).trans h)
    rw [length_path] at hlen
    exact ⟨hlen, hleaf⟩
  have hdepth : d = e := (hopen 0 (by positivity)).1
  refine ⟨hdepth, ?_⟩
  intro j hj
  rw [(hopen j hj).2, Nat.mod_eq_of_lt (hdepth ▸ hj)]

end Hca.Library.HashTree
