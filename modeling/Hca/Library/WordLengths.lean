import Mathlib.Computability.Language

set_option autoImplicit false

/-!
# The lengths of words

Two languages agree below a length if they have the same words that are shorter. The parts
of a short word are short, so agreement passes from the factors to a product. So does a lower
bound on the lengths of all words, which adds up.
-/

namespace Hca.Library

variable {α β : Type}

/-- The languages have the same words of fewer than `n` tokens. -/
def AgreeBelow (n : ℕ) (L M : Language β) : Prop :=
  ∀ w : List β, w.length < n → (w ∈ L ↔ w ∈ M)

namespace AgreeBelow

variable {n : ℕ} {L L' M M' : Language β}

/-- A language agrees with itself. -/
theorem refl (n : ℕ) (L : Language β) : AgreeBelow n L L := fun _ _ => Iff.rfl

/-- It is enough that the short words of each are words of the other. -/
theorem of_imp (h : ∀ w : List β, w.length < n → w ∈ L → w ∈ M)
    (h' : ∀ w : List β, w.length < n → w ∈ M → w ∈ L) : AgreeBelow n L M :=
  fun w hw => ⟨h w hw, h' w hw⟩

/-- Products agree where their factors do. -/
theorem mul (h : AgreeBelow n L M) (h' : AgreeBelow n L' M') :
    AgreeBelow n (L * L') (M * M') := by
  intro w hw
  simp only [Language.mem_mul]
  constructor
  · rintro ⟨u, hu, v, hv, rfl⟩
    rw [List.length_append] at hw
    exact ⟨u, (h u (by omega)).mp hu, v, (h' v (by omega)).mp hv, rfl⟩
  · rintro ⟨u, hu, v, hv, rfl⟩
    rw [List.length_append] at hw
    exact ⟨u, (h u (by omega)).mpr hu, v, (h' v (by omega)).mpr hv, rfl⟩

/-- Languages that are built from one of their words, a part of the whole. -/
theorem exists_part {P Q : Language β} {rest rest' : List β → Language β} (h : AgreeBelow n P Q)
    (hrest : ∀ u, AgreeBelow n (rest u) (rest' u))
    (hpart : ∀ u w, w ∈ rest u → u.length ≤ w.length)
    (hpart' : ∀ u w, w ∈ rest' u → u.length ≤ w.length) :
    AgreeBelow n {w | ∃ u ∈ P, w ∈ rest u} {w | ∃ u ∈ Q, w ∈ rest' u} := by
  intro w hw
  constructor
  · rintro ⟨u, hu, hwu⟩
    exact ⟨u, (h u ((hpart u w hwu).trans_lt hw)).mp hu, (hrest u w hw).mp hwu⟩
  · rintro ⟨u, hu, hwu⟩
    exact ⟨u, (h u ((hpart' u w hwu).trans_lt hw)).mpr hu, (hrest u w hw).mpr hwu⟩

/-- So do products over a list. -/
theorem prod_map {f g : α → Language β} (h : ∀ a, AgreeBelow n (f a) (g a)) (as : List α) :
    AgreeBelow n (as.map f).prod (as.map g).prod := by
  induction as with
  | nil => exact refl n 1
  | cons a as ih =>
    simp only [List.map_cons, List.prod_cons]
    exact (h a).mul ih

end AgreeBelow

/-- No word of the language has fewer than `n` tokens. -/
def NotShorter (n : ℕ) (L : Language β) : Prop := ∀ w ∈ L, n ≤ w.length

/-- The lower bounds on the words of two languages add up. -/
theorem NotShorter.mul {m n : ℕ} {L M : Language β} (h : NotShorter m L) (h' : NotShorter n M) :
    NotShorter (m + n) (L * M) := by
  intro w hw
  obtain ⟨u, hu, v, hv, rfl⟩ := Language.mem_mul.mp hw
  rw [List.length_append]
  exact Nat.add_le_add (h u hu) (h' v hv)

end Hca.Library
