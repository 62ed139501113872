import Hca.Program.Merkle
import Hca.Library.HashTree

set_option autoImplicit false

/-!
# What `MerkleTree::new` builds

A tree returned by `new` is the perfect hash tree over its leaf hashes, the last of them
repeated: `Built` collects what the loops of the constructor establish. The rounds of
`next_power_of_two` give the depth, the scan for duplicates gives distinct leaf hashes,
and the rounds of the level loop give all the levels.
-/

namespace Hca.Analysis

open Hca.Library Hca.Model Hca.Program
open HashTree (up level root path sibling climb)

/-! ## Lists as levels -/

/-- The first `m` entries of the level `k` steps above `v`. -/
def levelList (f : Digest → Digest → Digest) (v : ℕ → Digest) (m k : ℕ) : List Digest :=
  (List.range m).map (level f k v)

/-- The list of a level holds its nodes at their positions. -/
theorem levelList_getElem? (f : Digest → Digest → Digest) (v : ℕ → Digest) {m k i : ℕ}
    (hi : i < m) : (levelList f v m k)[i]? = some (level f k v i) := by
  simp [levelList, hi]

/-- The levels `0` to `k` of the tree of depth `d` over `v`. -/
def treeLevels (f : Digest → Digest → Digest) (v : ℕ → Digest) (d k : ℕ) :
    List (List Digest) :=
  (List.range (k + 1)).map fun j => levelList f v (2 ^ (d - j)) j

/-- The list of levels holds each of them at its height. -/
theorem treeLevels_getElem? (f : Digest → Digest → Digest) (v : ℕ → Digest) {d k j : ℕ}
    (hj : j ≤ k) : (treeLevels f v d k)[j]? = some (levelList f v (2 ^ (d - j)) j) := by
  simp [treeLevels, Nat.lt_succ_of_le hj]

/-- Its last one is the highest that was built. -/
theorem treeLevels_getLast? (f : Digest → Digest → Digest) (v : ℕ → Digest) (d k : ℕ) :
    (treeLevels f v d k).getLast? = some (levelList f v (2 ^ (d - k)) k) := by
  rw [treeLevels, List.range_succ, List.map_append, List.map_singleton, List.getLast?_concat]

/-- One more level is added at the end. -/
theorem treeLevels_succ (f : Digest → Digest → Digest) (v : ℕ → Digest) (d k : ℕ) :
    treeLevels f v d (k + 1) =
      treeLevels f v d k ++ [levelList f v (2 ^ (d - (k + 1))) (k + 1)] := by
  rw [treeLevels, List.range_succ, List.map_append, List.map_singleton, treeLevels]

/-- The first pair of a level, split off. -/
theorem map_range_two_mul_succ (v : ℕ → Digest) (m : ℕ) :
    (List.range (2 * (m + 1))).map v =
      v 0 :: v 1 :: (List.range (2 * m)).map (fun i => v (i + 2)) := by
  rw [Nat.mul_succ, List.range_succ_eq_map, List.range_succ_eq_map]
  simp [Function.comp_def]

/-- A list of even length is cut into the pairs of neighbours. -/
theorem chunks2_map_range (v : ℕ → Digest) (m : ℕ) :
    chunks2 ((List.range (2 * m)).map v) =
      (List.range m).map fun i => [v (2 * i), v (2 * i + 1)] := by
  induction m generalizing v with
  | zero => rfl
  | succ m ih =>
    rw [map_range_two_mul_succ, chunks2, ih, List.range_succ_eq_map, List.map_cons,
      List.map_map]
    rfl

/-- One round of the level loop builds the next level. -/
theorem nextLevel_levelList (keccak256 : List U8 → Digest) (v : ℕ → Digest) (m k : ℕ) :
    nextLevel keccak256 (levelList (branchHash keccak256) v (2 * m) k) =
      .ok (levelList (branchHash keccak256) v m (k + 1)) := by
  have hpair : ∀ i, (do
      let left ← index [level (branchHash keccak256) k v (2 * i),
        level (branchHash keccak256) k v (2 * i + 1)] 0
      let right ← index [level (branchHash keccak256) k v (2 * i),
        level (branchHash keccak256) k v (2 * i + 1)] 1
      pure (branchHash keccak256 left right) : HcaResult Digest) =
      .ok (level (branchHash keccak256) (k + 1) v i) := by
    intro i
    rw [HashTree.level_succ]
    rfl
  rw [nextLevel, levelList, chunks2_map_range, List.mapM_map]
  exact mapM_eq_ok_map (fun i _ => hpair i)

/-- The level loop builds the levels it has rounds for. -/
theorem buildLevels_treeLevels (keccak256 : List U8 → Digest) (v : ℕ → Digest) {d k r : ℕ}
    (h : k + r ≤ d) :
    buildLevels keccak256 r (treeLevels (branchHash keccak256) v d k) =
      .ok (treeLevels (branchHash keccak256) v d (k + r)) := by
  induction r generalizing k with
  | zero => rfl
  | succ r ih =>
    have hwidth : 2 ^ (d - k) = 2 * 2 ^ (d - (k + 1)) := by
      rw [← pow_succ', show d - (k + 1) + 1 = d - k by omega]
    rw [buildLevels, treeLevels_getLast?, unwrap, ok_bind, hwidth, nextLevel_levelList, ok_bind,
      ← treeLevels_succ, ih (by omega), Nat.add_right_comm, Nat.add_assoc]

/-! ## Leaf hashes -/

/-- The leaf hash at a padded position: positions past the end repeat the last leaf. -/
def paddedHash (keccak256 : List U8 → Digest) (leaves : List Leaf) (i : ℕ) : Digest :=
  ((leaves[min i (leaves.length - 1)]?).map (Leaf.hash keccak256)).getD default

/-- A padded position holds the hash of a leaf. -/
theorem paddedHash_eq (keccak256 : List U8 → Digest) {leaves : List Leaf} (hne : leaves ≠ [])
    (i : ℕ) : ∃ l, leaves[min i (leaves.length - 1)]? = some l ∧
      paddedHash keccak256 leaves i = l.hash keccak256 := by
  have hpos : 0 < leaves.length := List.length_pos_iff.mpr hne
  have hlt : min i (leaves.length - 1) < leaves.length := by omega
  refine ⟨leaves[min i (leaves.length - 1)], List.getElem?_eq_getElem hlt, ?_⟩
  simp [paddedHash, List.getElem?_eq_getElem hlt]

/-- The padding loop copies the last leaf hash to the end of the level. -/
theorem exists_paddedLevel (keccak256 : List U8 → Digest) {leaves : List Leaf}
    (hne : leaves ≠ []) (size : ℕ) :
    ∃ last, (leaves.map (Leaf.hash keccak256)).getLast? = some last ∧
      paddedLevel keccak256 leaves size =
        .ok (leaves.map (Leaf.hash keccak256) ++
          List.replicate (size - leaves.length) last) := by
  obtain ⟨last, hlast⟩ : ∃ last, (leaves.map (Leaf.hash keccak256)).getLast? = some last := by
    rw [← Option.isSome_iff_exists, List.getLast?_isSome]
    simpa using hne
  refine ⟨last, hlast, bind_eq_ok.mpr ⟨last, unwrap_eq_ok.mpr hlast, ?_⟩⟩
  rw [List.length_map]
  rfl

/-- The padding loop writes the padded leaf hashes. -/
theorem paddedLevel_eq_ok (keccak256 : List U8 → Digest) {leaves : List Leaf} {size : ℕ}
    {level0 : List Digest} (hsize : leaves.length ≤ size)
    (h : paddedLevel keccak256 leaves size = .ok level0) :
    level0 = (List.range size).map (paddedHash keccak256 leaves) := by
  unfold paddedLevel at h
  simp only [bind_eq_ok, unwrap_eq_ok, pure_eq_ok] at h
  obtain ⟨last, hlast, rfl⟩ := h
  rw [List.getLast?_eq_getElem?, List.length_map, List.getElem?_map] at hlast
  apply List.ext_getElem?
  intro i
  rw [List.getElem?_map]
  by_cases hi : i < leaves.length
  · have hmin : min i (leaves.length - 1) = i := by omega
    rw [List.getElem?_append_left (by simpa using hi), List.getElem?_map,
      List.getElem?_range (by omega)]
    simp [paddedHash, hmin, List.getElem?_eq_getElem hi]
  · rw [List.getElem?_append_right (by simpa using hi), List.length_map]
    by_cases hs : i < size
    · have hmin : min i (leaves.length - 1) = leaves.length - 1 := by omega
      rw [List.getElem?_range hs, List.getElem?_replicate, if_pos (by omega)]
      simp [paddedHash, hmin, hlast]
    · rw [List.getElem?_eq_none (by simp; omega), List.getElem?_eq_none (by simp; omega)]
      rfl

/-- The scan passes iff the leaf hashes are distinct and none was seen before. -/
theorem checkDuplicates_eq_ok (keccak256 : List U8 → Digest) {i : ℕ} {seen : List Digest}
    {leaves : List Leaf} {u : Unit} :
    checkDuplicates keccak256 i seen leaves = .ok u ↔
      (leaves.map (Leaf.hash keccak256)).Nodup ∧
        ∀ l ∈ leaves, l.hash keccak256 ∉ seen := by
  induction leaves generalizing i seen with
  | nil => simp [checkDuplicates]
  | cons l leaves ih =>
    simp only [checkDuplicates, bind_eq_ok, rejectIf_eq_ok, exists_const, ih, List.map_cons,
      List.nodup_cons, List.mem_cons, not_or, List.mem_map, not_exists, not_and]
    constructor
    · rintro ⟨hl, hnodup, hrest⟩
      refine ⟨⟨fun l' hl' => (hrest l' hl').1, hnodup⟩, ?_⟩
      rintro l' (rfl | hl')
      · exact hl
      · exact (hrest l' hl').2
    · rintro ⟨⟨hl, hnodup⟩, hall⟩
      exact ⟨hall l (Or.inl rfl), hnodup, fun l' hl' => ⟨hl l' hl', hall l' (Or.inr hl')⟩⟩

/-! ## The depth -/

/-- `p` is a power of two below which everything is less than `n`, or has been shifted out
of the `usize`. -/
def Doubling (t : Target) (n p : ℕ) : Prop :=
  (∃ d < t.bits, p = 2 ^ d ∧ ∀ e < d, 2 ^ e < n) ∨ p = 0

/-- The search for a power of two starts at one. -/
theorem Doubling.one (t : Target) (n : ℕ) : Doubling t n 1 := by
  refine Or.inl ⟨0, ?_, rfl, ?_⟩
  · cases t <;> decide
  · intro e he
    omega

/-- A round that goes on has doubled a power that is too small. -/
theorem Doubling.step {t : Target} {n p p' : ℕ} (hp : Doubling t n p)
    (hround : nextPowerOfTwoRound t n p = .ok (.inl p')) : Doubling t n p' := by
  unfold nextPowerOfTwoRound at hround
  split at hround
  case isFalse => cases hround
  case isTrue hlt =>
    cases hround
    rcases hp with ⟨d, hd, rfl, hsmall⟩ | rfl
    · rw [Nat.shiftLeft_eq, ← pow_add]
      by_cases hd' : d + 1 < t.bits
      · refine Or.inl ⟨d + 1, hd', Nat.mod_eq_of_lt (Nat.pow_lt_pow_right (by decide) hd'), ?_⟩
        intro e he
        rcases Nat.lt_succ_iff_lt_or_eq.mp he with he' | rfl
        · exact hsmall e he'
        · exact hlt
      · have hlast : d + 1 = t.bits := by omega
        right
        rw [hlast, Nat.mod_self]
    · right
      simp

/-- The round that ends has found the least power that is large enough. -/
theorem Doubling.exit {t : Target} {n p p' : ℕ} (hn : 1 < n) (hp : Doubling t n p)
    (hround : nextPowerOfTwoRound t n p = .ok (.inr p')) :
    ∃ d < t.bits, p' = 2 ^ d ∧ n ≤ 2 ^ d ∧ ∀ e, n ≤ 2 ^ e → d ≤ e := by
  unfold nextPowerOfTwoRound at hround
  split at hround
  case isTrue => cases hround
  case isFalse hge =>
    cases hround
    rcases hp with ⟨d, hd, rfl, hsmall⟩ | rfl
    · refine ⟨d, hd, rfl, by omega, ?_⟩
      intro e he
      by_contra hlt
      have := hsmall e (by omega)
      omega
    · omega

/-- `next_power_of_two` returns the least power of two that is large enough, which a `usize`
can hold. -/
theorem nextPowerOfTwo_eq_ok {t : Target} {n p : ℕ} (h : nextPowerOfTwo t n = .ok p) :
    ∃ d < t.bits, p = 2 ^ d ∧ n ≤ 2 ^ d ∧ ∀ e, n ≤ 2 ^ e → d ≤ e := by
  unfold nextPowerOfTwo at h
  split at h
  case isTrue hn =>
    cases h
    refine ⟨0, ?_, rfl, hn, fun e _ => Nat.zero_le e⟩
    cases t <;> decide
  case isFalse hn =>
    exact loop_invariant (Doubling t n) _ (fun _ _ => Doubling.step)
      (fun _ _ => Doubling.exit (by omega)) (Doubling.one t n) h

/-- The doubling loop reaches the least power of two that is large enough. -/
theorem loop_nextPowerOfTwoRound {t : Target} {n d e fuel : ℕ} (hd : d < t.bits) (he : e ≤ d)
    (hn : n ≤ 2 ^ d) (hleast : ∀ k < d, 2 ^ k < n) (hfuel : d - e < fuel) :
    loop (nextPowerOfTwoRound t n) fuel (2 ^ e) = .ok (2 ^ d) := by
  induction fuel generalizing e with
  | zero => omega
  | succ fuel ih =>
    rcases Nat.lt_or_ge e d with hlt | hge
    · have hshift : (2 ^ e <<< 1) % 2 ^ t.bits = 2 ^ (e + 1) := by
        rw [Nat.shiftLeft_eq, ← pow_add]
        exact Nat.mod_eq_of_lt (Nat.pow_lt_pow_right (by decide) (by omega))
      have hround : nextPowerOfTwoRound t n (2 ^ e) = .ok (.inl (2 ^ (e + 1))) := by
        rw [nextPowerOfTwoRound, if_pos (hleast e hlt), hshift]
      rw [loop_inl hround]
      exact ih hlt (by omega)
    · have heq : e = d := le_antisymm he hge
      have hround : nextPowerOfTwoRound t n (2 ^ e) = .ok (.inr (2 ^ e)) := by
        rw [nextPowerOfTwoRound, if_neg (by rw [heq]; omega)]
      rw [loop_inr hround, heq]

/-- The power of two is found for every number that half the range of a `usize` can hold. -/
theorem exists_nextPowerOfTwo_eq_ok {t : Target} {n : ℕ} (hn : n ≤ 2 ^ (t.bits - 1)) :
    ∃ p, nextPowerOfTwo t n = .ok p := by
  unfold nextPowerOfTwo
  by_cases hsmall : n ≤ 1
  · exact ⟨1, if_pos hsmall⟩
  · have hexists : ∃ d, n ≤ 2 ^ d := ⟨_, hn⟩
    have hbits : 0 < t.bits := by
      cases t <;> decide
    have hfind : Nat.find hexists ≤ t.bits - 1 := Nat.find_le hn
    refine ⟨2 ^ Nat.find hexists, ?_⟩
    rw [if_neg hsmall]
    apply loop_nextPowerOfTwoRound (e := 0) (by omega) (Nat.zero_le _) (Nat.find_spec hexists)
    · intro k hk
      exact not_le.mp (Nat.find_min hexists hk)
    · omega

/-- The trailing zeros of a power of two are its exponent. -/
theorem trailingZeros_two_pow {bits d : ℕ} (hd : d < bits) : trailingZeros bits (2 ^ d) = d := by
  have hlen : d < (List.range bits).length := by simpa using hd
  rw [trailingZeros, List.findIdx_eq hlen]
  constructor
  · simp
  · intro j hj
    rw [List.getElem_range, Nat.testBit_two_pow]
    simp only [decide_eq_false_iff_not]
    omega

/-- The depth of a tree whose lowest level has `2 ^ d` entries. -/
theorem depth_of_size {bits d : ℕ} (hd : d < bits) :
    (if 2 ^ d = 1 then 0 else trailingZeros bits (2 ^ d)) = d := by
  rw [trailingZeros_two_pow hd]
  rcases Nat.eq_zero_or_pos d with rfl | hpos
  · rfl
  · exact if_neg (Nat.one_lt_two_pow hpos.ne').ne'

/-! ## The tree -/

/-- What holds of every tree that `new` returns. -/
structure Built (keccak256 : List U8 → Digest) (T : MerkleTree) : Prop where
  leaves_ne : T.leaves ≠ []
  nodup : (T.leaves.map (Leaf.hash keccak256)).Nodup
  depth_le : T.depth ≤ maxTreeDepth
  length_le : T.leaves.length ≤ 2 ^ T.depth
  depth_minimal : ∀ e, T.leaves.length ≤ 2 ^ e → T.depth ≤ e
  nodes_eq : T.nodes =
    treeLevels (branchHash keccak256) (paddedHash keccak256 T.leaves) T.depth T.depth

/-- Every tree that `new` returns is built over the given leaves. -/
theorem new_built {t : Target} {keccak256 : List U8 → Digest} {leaves : List Leaf}
    {T : MerkleTree} (h : MerkleTree.new t keccak256 leaves = .ok T) :
    T.leaves = leaves ∧ Built keccak256 T := by
  unfold MerkleTree.new at h
  simp only [bind_eq_ok, rejectIf_eq_ok, pure_eq_ok, exists_const] at h
  obtain ⟨hne, hbound, _, hdup, size, hsize, level0, hlevel0, levels, hlevels, rfl⟩ := h
  obtain ⟨d, hd, rfl, hlen, hmin⟩ := nextPowerOfTwo_eq_ok hsize
  have hdepth := depth_of_size hd
  have hdepth32 : d ≤ maxTreeDepth := by
    cases t with
    | usize32 => exact hd.le
    | usize64 =>
      apply hmin
      have := not_and.mp hbound (by decide)
      rw [Nat.one_shiftLeft] at this
      omega
  have hfirst : [level0] =
      treeLevels (branchHash keccak256) (paddedHash keccak256 leaves) d 0 := by
    rw [paddedLevel_eq_ok keccak256 hlen hlevel0]
    rfl
  rw [hdepth] at hlevels ⊢
  rw [hfirst, buildLevels_treeLevels keccak256 _ (by omega), Nat.zero_add] at hlevels
  cases hlevels
  exact ⟨rfl, hne, ((checkDuplicates_eq_ok keccak256).mp hdup).1, hdepth32, hlen, hmin, rfl⟩

/-- The leaf lists that `new` builds a tree from. -/
structure Buildable (t : Target) (keccak256 : List U8 → Digest) (leaves : List Leaf) : Prop where
  leaves_ne : leaves ≠ []
  length_le : leaves.length ≤ 2 ^ maxTreeDepth
  length_le_usize : leaves.length ≤ 2 ^ (t.bits - 1)
  nodup : (leaves.map (Leaf.hash keccak256)).Nodup

/-- `new` succeeds iff there are leaves, not too many of them, with distinct hashes. -/
theorem new_isOk_iff {t : Target} {keccak256 : List U8 → Digest} {leaves : List Leaf} :
    (∃ T, MerkleTree.new t keccak256 leaves = .ok T) ↔ Buildable t keccak256 leaves := by
  constructor
  · rintro ⟨T, h⟩
    obtain ⟨rfl, hT⟩ := new_built h
    refine ⟨hT.leaves_ne, ?_, ?_, hT.nodup⟩
    · exact hT.length_le.trans (Nat.pow_le_pow_right (by decide) hT.depth_le)
    · unfold MerkleTree.new at h
      simp only [bind_eq_ok] at h
      obtain ⟨-, -, -, -, -, -, size, hsize, -⟩ := h
      obtain ⟨d, hd, -, hlen, -⟩ := nextPowerOfTwo_eq_ok hsize
      exact hlen.trans (Nat.pow_le_pow_right (by decide) (by omega))
  · intro h
    obtain ⟨size, hsize⟩ := exists_nextPowerOfTwo_eq_ok h.length_le_usize
    obtain ⟨d, hd, rfl, hlen, -⟩ := nextPowerOfTwo_eq_ok hsize
    obtain ⟨last, -, hlevel0⟩ := exists_paddedLevel keccak256 h.leaves_ne (2 ^ d)
    have hdup : checkDuplicates keccak256 0 [] leaves = .ok () :=
      (checkDuplicates_eq_ok keccak256).mpr ⟨h.nodup, by simp⟩
    have hbound : ¬ (maxTreeDepth < t.bits ∧ leaves.length > 1 <<< maxTreeDepth) := by
      have hle := h.length_le
      rw [Nat.one_shiftLeft]
      omega
    have hdepth := depth_of_size hd
    have hfirst : [leaves.map (Leaf.hash keccak256) ++
        List.replicate (2 ^ d - leaves.length) last] =
          treeLevels (branchHash keccak256) (paddedHash keccak256 leaves) d 0 := by
      rw [paddedLevel_eq_ok keccak256 hlen hlevel0]
      rfl
    have hlevels : buildLevels keccak256 d [leaves.map (Leaf.hash keccak256) ++
        List.replicate (2 ^ d - leaves.length) last] =
        .ok (treeLevels (branchHash keccak256) (paddedHash keccak256 leaves) d (0 + d)) := by
      rw [hfirst]
      exact buildLevels_treeLevels keccak256 _ (by omega)
    refine ⟨⟨leaves, treeLevels (branchHash keccak256) (paddedHash keccak256 leaves) d (0 + d),
      d⟩, ?_⟩
    rw [MerkleTree.new, rejectIf_neg h.leaves_ne, ok_bind, rejectIf_neg hbound, ok_bind, hdup,
      ok_bind, hsize, ok_bind, hlevel0, ok_bind]
    dsimp only
    rw [hdepth, hlevels, ok_bind]
    rfl

namespace Built

variable {keccak256 : List U8 → Digest} {T : MerkleTree} (hT : Built keccak256 T)

include hT

/-- `auth_root` is the root of the hash tree over the padded leaf hashes. -/
theorem authRoot_eq :
    T.authRoot =
      .ok (root (branchHash keccak256) T.depth (paddedHash keccak256 T.leaves)) := by
  rw [MerkleTree.authRoot, hT.nodes_eq, treeLevels_getLast?, Nat.sub_self]
  rfl

/-- The nodes of a level, read off the tree. -/
theorem nodes_getElem? {k i : ℕ} (hk : k ≤ T.depth) (hi : i < 2 ^ (T.depth - k)) :
    (T.nodes[k]?.bind fun nodes => nodes[i]?) =
      some (level (branchHash keccak256) k (paddedHash keccak256 T.leaves) i) := by
  rw [hT.nodes_eq, treeLevels_getElem? _ _ hk, Option.bind_some, levelList_getElem? _ _ hi]

end Built

end Hca.Analysis
