import Hca.Interface.JsonFields

set_option autoImplicit false

/-!
# Printed JSON

A text that was printed from a value is read back as a value that is the same but for the
order in which objects list their fields. No accessor sees that order.
-/

namespace Hca.Interface

open Hca.Library Hca.Model Hca.Program

/-- The values are the same up to the order of the fields of objects. -/
inductive SameJson : Value → Value → Prop where
  | refl (v : Value) : SameJson v v
  | array {xs ys : List Value} (hlen : xs.length = ys.length)
      (hitems : ∀ (i : ℕ) (x y : Value), xs[i]? = some x → ys[i]? = some y → SameJson x y) :
      SameJson (.array xs) (.array ys)
  | object {fields fields' : List (String × Value)}
      (hfields : ∀ key, SameJson ((Value.object fields).index key)
        ((Value.object fields').index key)) :
      SameJson (.object fields) (.object fields')

/-- The text is read back as the value. -/
def ReadsBackAs (lib : JsonLib) (text : String) (v : Value) : Prop :=
  ∃ v', lib.fromStr text = .ok v' ∧ SameJson v' v

/-- The object, once it was printed and read again, declares the proof. -/
def RereadDeclaresProof {t : Target} (lib : JsonLib) (v : Value) (p : MerkleProof t) : Prop :=
  ∃ v', lib.fromStr (lib.toStr v) = .ok v' ∧ DeclaresProof v' p

namespace SameJson

variable {v w : Value}

/-- Booleans are read back. -/
theorem asBool_eq (h : SameJson v w) : v.asBool = w.asBool := by
  cases h <;> rfl

/-- What a field declares as bytes is read back. -/
theorem declaredBytes_eq (h : SameJson v w) : declaredBytes v = declaredBytes w := by
  cases h <;> rfl

/-- The fields of the values are the same, whatever the kinds of the values. -/
theorem index (h : SameJson v w) (key : String) : SameJson (v.index key) (w.index key) := by
  cases h with
  | refl v => exact .refl _
  | array hlen hitems => exact .refl .null
  | object hfields => exact hfields key

/-- An array is read back as an array of the same items. -/
theorem of_array {items : List Value} (h : SameJson v (.array items)) :
    ∃ xs, v = .array xs ∧ List.Forall₂ SameJson xs items := by
  cases h with
  | refl => exact ⟨items, rfl, List.forall₂_same.mpr fun x _ => .refl x⟩
  | array hlen hitems =>
    refine ⟨_, rfl, List.forall₂_iff_get.mpr ⟨hlen, ?_⟩⟩
    intro i hx hy
    exact hitems i _ _ (List.getElem?_eq_getElem hx) (List.getElem?_eq_getElem hy)

/-- Strings are read back as they were printed. -/
theorem of_string {s : String} (h : SameJson v (.string s)) : v = .string s := by
  cases h
  rfl

/-- Numbers too. -/
theorem of_number {n : Number} (h : SameJson v (.number n)) : v = .number n := by
  cases h
  rfl

/-- What an object declares as a proof does not depend on the order of its fields. -/
theorem declaresProof {t : Target} {p : MerkleProof t} (h : SameJson v w)
    (hdeclares : DeclaresProof w p) : DeclaresProof v p := by
  obtain ⟨⟨n, hn, hindex⟩, items, hitems, hsiblings⟩ := hdeclares
  have hnumber := h.index "leaf_index"
  have harray := h.index "siblings"
  rw [hn] at hnumber
  rw [hitems] at harray
  obtain ⟨xs, hxs, hsame⟩ := harray.of_array
  refine ⟨⟨n, hnumber.of_number, hindex⟩, xs, hxs, ?_⟩
  rw [List.forall₂_iff_get] at hsame hsiblings ⊢
  refine ⟨hsame.1.trans hsiblings.1, ?_⟩
  intro i hi hi'
  rw [(hsame.2 i hi (hsame.1 ▸ hi)).declaredBytes_eq]
  exact hsiblings.2 i _ hi'

end SameJson

/-- An object that is read back as itself declares what it declared. -/
theorem RereadDeclaresProof.of_readsBack {t : Target} {lib : JsonLib} {v : Value}
    {p : MerkleProof t} (hread : ReadsBackAs lib (lib.toStr v) v)
    (hdeclares : DeclaresProof v p) : RereadDeclaresProof lib v p := by
  obtain ⟨v', hv', hsame⟩ := hread
  exact ⟨v', hv', hsame.declaresProof hdeclares⟩

end Hca.Interface
