import Hca.Library.Reader

set_option autoImplicit false

/-!
# Kinds of errors

All errors of a call are of one kind if those of its steps are. Operations that panic instead
of returning an error have no errors at all.
-/

namespace Hca.Library

variable {ε α β γ σ : Type} {P : ε → Prop}

/-- Every error that the call returns is of the kind `P`. -/
structure ErrorsIn (P : ε → Prop) (x : Outcome ε α) : Prop where
  kind : ∀ e, x = .error (.err e) → P e

namespace ErrorsIn

/-- A result is no error. -/
theorem ok (a : α) : ErrorsIn P (.ok a : Outcome ε α) where
  kind := by
    intro e h
    cases h

/-- Neither is a result that is returned. -/
theorem pure (a : α) : ErrorsIn P (Pure.pure a : Outcome ε α) := ok a

/-- A fault that is no error. -/
theorem fault {e : Fault ε} (he : ∀ e', e ≠ .err e') :
    ErrorsIn P (.error e : Outcome ε α) where
  kind := by
    intro e' h
    exact absurd (Except.error.inj h) (he e')

/-- A panic carries no error. -/
theorem panic : ErrorsIn P (.error .panic : Outcome ε α) := fault (by simp)

/-- Neither does a computation that does not return. -/
theorem hang : ErrorsIn P (.error .hang : Outcome ε α) := fault (by simp)

/-- An error has the kind if its value has it. -/
theorem err {e : ε} (he : P e) : ErrorsIn P (.error (.err e) : Outcome ε α) where
  kind := by
    intro e' h
    cases h
    exact he

/-- Two steps that fail with the kind only make one that does. -/
theorem bind {x : Outcome ε α} {f : α → Outcome ε β} (hx : ErrorsIn P x)
    (hf : ∀ a, ErrorsIn P (f a)) : ErrorsIn P (x >>= f) where
  kind := by
    intro e h
    rcases bind_eq_error.mp h with hfirst | ⟨a, -, hrest⟩
    · exact hx.kind e hfirst
    · exact (hf a).kind e hrest

/-- A guard fails with its own error. -/
theorem rejectIf (c : Prop) [Decidable c] {e : ε} (he : P e) :
    ErrorsIn P (Library.rejectIf c e) := by
  unfold Library.rejectIf
  split
  · exact err he
  · exact ok ()

/-- An option without a value fails with the error that is given for it. -/
theorem okOr (o : Option α) {e : ε} (he : P e) : ErrorsIn P (Library.okOr o e) := by
  cases o with
  | none => exact err he
  | some a => exact ok a

/-- An error that is replaced is one of the replacements, whatever it was. -/
theorem mapErr {ε' : Type} {f : ε' → ε} (hf : ∀ e, P (f e)) (x : Outcome ε' α) :
    ErrorsIn P (Library.mapErr f x) := by
  match x with
  | .ok a => exact ok a
  | .error (.err e) => exact err (hf e)
  | .error .panic => exact panic
  | .error .hang => exact hang

/-- A branch between a value and a panic. -/
theorem ite_panic (c : Prop) [Decidable c] (a : α) :
    ErrorsIn P (if c then .ok a else .error .panic : Outcome ε α) := by
  split
  · exact ok a
  · exact panic

/-- An index panics or gives an element. -/
theorem index (xs : List α) (i : ℕ) : ErrorsIn P (Library.index xs i) := by
  unfold Library.index unwrap
  cases xs[i]? with
  | none => exact panic
  | some a => exact ok a

/-- A slice panics or gives the elements. -/
theorem slice (xs : List α) (i j : ℕ) : ErrorsIn P (Library.slice xs i j) := ite_panic _ _

/-- The rest behind a position panics or gives the elements. -/
theorem sliceFrom (xs : List α) (i : ℕ) : ErrorsIn P (Library.sliceFrom xs i) := ite_panic _ _

/-- A sum panics or is computed. -/
theorem add (bits a b : ℕ) : ErrorsIn P (Library.add bits a b) := ite_panic _ _

/-- A difference panics or is computed. -/
theorem sub (a b : ℕ) : ErrorsIn P (Library.sub a b) := ite_panic _ _

/-- The errors of a loop are those of its rounds. -/
theorem loop {round : σ → Outcome ε (σ ⊕ α)} (hround : ∀ s, ErrorsIn P (round s)) (fuel : ℕ)
    (s : σ) : ErrorsIn P (Library.loop round fuel s) := by
  induction fuel generalizing s with
  | zero => exact hang
  | succ fuel ih =>
    apply (hround s).bind
    rintro (s' | a)
    · exact ih s'
    · exact ok a

end ErrorsIn

/-! ## Readers -/

/-- Every error of the reader is of the kind `P`, wherever it starts to read. -/
def ReaderErrorsIn (P : ε → Prop) (r : Reader ε β α) : Prop :=
  ∀ payload cursor, ErrorsIn P (r payload cursor)

namespace ReaderErrorsIn

/-- A reader that reads nothing does not fail. -/
theorem pure (a : α) : ReaderErrorsIn P (Pure.pure a : Reader ε β α) :=
  fun _ cursor => .ok (a, cursor)

/-- Two readers that fail with the kind only make one that does. -/
theorem bind {r : Reader ε β α} {f : α → Reader ε β γ} (hr : ReaderErrorsIn P r)
    (hf : ∀ a, ReaderErrorsIn P (f a)) : ReaderErrorsIn P (r >>= f) :=
  fun payload cursor => (hr payload cursor).bind fun p => hf p.1 payload p.2

/-- A computation keeps its kind of errors when it is run inside a reader. -/
theorem lift {x : Outcome ε α} (hx : ErrorsIn P x) :
    ReaderErrorsIn P (liftM x : Reader ε β α) := by
  intro payload cursor
  have hrun : (liftM x : Reader ε β α) payload cursor = x >>= fun a => Pure.pure (a, cursor) := by
    cases x <;> rfl
  rw [hrun]
  exact hx.bind fun a => .pure (a, cursor)

/-- Reading an item has the errors of its decoder. -/
theorem next {dec : Decoder ε β α} (hdec : ∀ input, ErrorsIn P (dec input)) (bits : ℕ) :
    ReaderErrorsIn P (Library.next bits dec) := by
  intro payload cursor
  unfold Library.next
  apply (ErrorsIn.sliceFrom payload cursor).bind
  intro rest
  apply (hdec rest).bind
  rintro ⟨v, consumed⟩
  exact (ErrorsIn.add bits cursor consumed).bind fun cursor => .pure _

/-- Reading a whole payload fails as the reader of one value does. -/
theorem readAll {read : Reader ε β α} (hread : ReaderErrorsIn P read) (payload : List β) :
    ErrorsIn P (Library.readAll read payload) := by
  apply ErrorsIn.loop
  rintro ⟨vs, cursor⟩
  unfold readAllRound
  split
  · exact (hread payload cursor).bind fun p => .pure _
  · exact .pure _

end ReaderErrorsIn

end Hca.Library
