import Mathlib.Tactic

set_option autoImplicit false

/-!
# Outcomes: values, returned errors, panics and loops that do not end

The semantics of a total imperative program fragment: a call returns a value,
returns an error to its caller, panics (an index, a slice, an unwrap or a checked
arithmetic operation fails), or keeps looping. Every operation that can panic is a
function into `Outcome`, so that the absence of panics is a theorem about a model and
not an assumption of it. Each operation comes with the lemma that says exactly when it
returns a value; proofs take a call apart with `bind_eq_ok` and these lemmas.
-/

namespace Hca.Library

/-- The ways in which a call ends without a value. -/
inductive Fault (ε : Type) where
  /-- the call returned the error `e` -/
  | err (e : ε)
  /-- an index, a slice, an unwrap or an arithmetic check failed -/
  | panic
  /-- a loop used up its rounds -/
  | hang
  deriving DecidableEq, Repr

/-- A call that may fault instead of returning a value. -/
abbrev Outcome (ε α : Type) := Except (Fault ε) α

variable {ε α β σ : Type}

/-! ## Sequencing -/

/-- A sequence returns a value iff its first call does and the rest does on that value. -/
@[simp] theorem bind_eq_ok {x : Outcome ε α} {f : α → Outcome ε β} {b : β} :
    (x >>= f) = .ok b ↔ ∃ a, x = .ok a ∧ f a = .ok b := by
  cases x with
  | error e =>
    constructor
    · intro h
      cases h
    · rintro ⟨a, ha, -⟩
      cases ha
  | ok a =>
    constructor
    · intro h
      exact ⟨a, rfl, h⟩
    · rintro ⟨a', ha, h⟩
      cases ha
      exact h

/-- A returned value is the result. -/
@[simp] theorem pure_eq_ok {a b : α} : (pure a : Outcome ε α) = .ok b ↔ a = b := by
  constructor
  · intro h
    cases h
    rfl
  · rintro rfl
    rfl

/-- A sequence whose first call returns `a` is the rest, started on `a`. -/
theorem ok_bind {a : α} {f : α → Outcome ε β} : ((.ok a : Outcome ε α) >>= f) = f a := rfl

/-- A faulting first call is the whole sequence. -/
theorem error_bind {e : Fault ε} {f : α → Outcome ε β} :
    ((.error e : Outcome ε α) >>= f) = .error e := rfl

/-- A sequence faults iff its first call does, or the rest does on the value of it. -/
theorem bind_eq_error {x : Outcome ε α} {f : α → Outcome ε β} {e : Fault ε} :
    (x >>= f) = .error e ↔ x = .error e ∨ ∃ a, x = .ok a ∧ f a = .error e := by
  cases x with
  | error e' => simp [error_bind]
  | ok a => simp [ok_bind]

/-- A mapped call returns the values of the single calls, in order. -/
theorem mapM_eq_ok {f : α → Outcome ε β} {xs : List α} {ys : List β} :
    xs.mapM f = .ok ys ↔ List.Forall₂ (fun x y => f x = .ok y) xs ys := by
  induction xs generalizing ys with
  | nil =>
    rw [List.mapM_nil, pure_eq_ok, List.forall₂_nil_left_iff]
    exact eq_comm
  | cons x xs ih =>
    simp only [List.mapM_cons, bind_eq_ok, pure_eq_ok, ih, List.forall₂_cons_left_iff]
    constructor
    · rintro ⟨y, hy, rest, hrest, rfl⟩
      exact ⟨y, rest, hy, hrest, rfl⟩
    · rintro ⟨y, rest, hy, hrest, rfl⟩
      exact ⟨y, hy, rest, hrest, rfl⟩

/-- Every result comes from an item. -/
theorem exists_of_mem_mapM {f : α → Outcome ε β} {xs : List α} {ys : List β} {y : β}
    (h : xs.mapM f = .ok ys) (hy : y ∈ ys) : ∃ x ∈ xs, f x = .ok y := by
  obtain ⟨hlen, hget⟩ := List.forall₂_iff_get.mp (mapM_eq_ok.mp h)
  obtain ⟨i, hi, rfl⟩ := List.getElem_of_mem hy
  exact ⟨xs[i], List.getElem_mem _, hget i (by omega) hi⟩

/-- Mapping a call over a list on which it always returns a value. -/
theorem mapM_eq_ok_map {f : α → Outcome ε β} {g : α → β} {xs : List α}
    (h : ∀ x ∈ xs, f x = .ok (g x)) : xs.mapM f = .ok (xs.map g) := by
  induction xs with
  | nil => rfl
  | cons x xs ih =>
    rw [List.mapM_cons, h x List.mem_cons_self, ok_bind,
      ih (fun y hy => h y (List.mem_cons_of_mem x hy))]
    rfl

/-- A mapped call returns values with a property if it returns one for every item. -/
theorem exists_mapM_eq_ok {f : α → Outcome ε β} {Q : β → Prop} {xs : List α}
    (h : ∀ x ∈ xs, ∃ y, f x = .ok y ∧ Q y) :
    ∃ ys, xs.mapM f = .ok ys ∧ ys.length = xs.length ∧ ∀ y ∈ ys, Q y := by
  induction xs with
  | nil => exact ⟨[], rfl, rfl, by simp⟩
  | cons x xs ih =>
    obtain ⟨y, hy, hQ⟩ := h x List.mem_cons_self
    obtain ⟨ys, hys, hlen, hall⟩ := ih fun z hz => h z (List.mem_cons_of_mem x hz)
    refine ⟨y :: ys, ?_, by rw [List.length_cons, hlen, List.length_cons], ?_⟩
    · rw [List.mapM_cons, hy, ok_bind, hys]
      rfl
    · rw [List.forall_mem_cons]
      exact ⟨hQ, hall⟩

/-- A mapped call faults as the first single call that faults. -/
theorem mapM_eq_error {f : α → Outcome ε β} {xs : List α} {e : Fault ε} :
    xs.mapM f = .error e ↔
      ∃ pre x post, xs = pre ++ x :: post ∧ (∀ y ∈ pre, ∃ b, f y = .ok b) ∧ f x = .error e := by
  induction xs with
  | nil =>
    constructor
    · intro h
      cases h
    · rintro ⟨pre, x, post, hxs, -⟩
      simp at hxs
  | cons x xs ih =>
    rw [List.mapM_cons]
    constructor
    · intro h
      rcases bind_eq_error.mp h with hx | ⟨b, hb, hrest⟩
      · exact ⟨[], x, xs, rfl, by simp, hx⟩
      rcases bind_eq_error.mp hrest with hxs | ⟨bs, -, hpure⟩
      · obtain ⟨pre, y, post, rfl, hpre, hy⟩ := ih.mp hxs
        refine ⟨x :: pre, y, post, rfl, ?_, hy⟩
        rw [List.forall_mem_cons]
        exact ⟨⟨b, hb⟩, hpre⟩
      · cases hpure
    · rintro ⟨pre, y, post, hxs, hpre, hy⟩
      cases pre with
      | nil =>
        obtain ⟨rfl, rfl⟩ := List.cons.inj hxs
        rw [hy, error_bind]
      | cons z pre =>
        obtain ⟨rfl, rfl⟩ := List.cons.inj hxs
        rw [List.forall_mem_cons] at hpre
        obtain ⟨⟨b, hb⟩, hpre⟩ := hpre
        rw [hb, ok_bind, ih.mpr ⟨pre, y, post, rfl, hpre, hy⟩, error_bind]

/-- A loop whose state is only updated with the results of calls that do not read it makes
the calls, and then updates the state with their results. -/
theorem foldlM_update {f : α → Outcome ε β} {g : σ → β → σ} (xs : List α) (s : σ) :
    xs.foldlM (fun s x => do let b ← f x; pure (g s b)) s =
      (do let bs ← xs.mapM f; pure (bs.foldl g s) : Outcome ε σ) := by
  induction xs generalizing s with
  | nil => rfl
  | cons x xs ih =>
    rw [List.foldlM_cons, List.mapM_cons]
    cases f x with
    | error e => rfl
    | ok b =>
      rw [ok_bind, ok_bind]
      show xs.foldlM (fun s x => do let b ← f x; pure (g s b)) (g s b) = _
      rw [ih]
      cases xs.mapM f <;> rfl

/-! ## Checks over a list -/

section Checks

variable {f : α → Outcome ε Bool} {x : α} {xs : List α}

/-- A check whose first item passes is the check of the rest. -/
theorem allM_cons_of_true (h : f x = .ok true) : (x :: xs).allM f = xs.allM f := by
  rw [List.allM, h, ok_bind]

/-- The first item decides a check unless it passes. -/
theorem allM_cons_of_ne (h : f x ≠ .ok true) : (x :: xs).allM f = f x := by
  rw [List.allM]
  rcases hx : f x with e | _ | _
  · rfl
  · rfl
  · exact absurd hx h

/-- A check passes iff all items do. -/
theorem allM_eq_ok_true : xs.allM f = .ok true ↔ ∀ x ∈ xs, f x = .ok true := by
  induction xs with
  | nil => simp [List.allM]
  | cons x xs ih =>
    rw [List.forall_mem_cons, ← ih]
    by_cases hx : f x = .ok true
    · rw [allM_cons_of_true hx]
      simp [hx]
    · rw [allM_cons_of_ne hx]
      simp [hx]

/-- A check that does not pass ends with the result of the first item that does not. -/
theorem allM_eq_iff_first {r : Outcome ε Bool} (hr : r ≠ .ok true) :
    xs.allM f = r ↔ ∃ (k : ℕ) (x : α), xs[k]? = some x ∧ f x = r ∧
      ∀ j < k, ∀ y, xs[j]? = some y → f y = .ok true := by
  induction xs with
  | nil =>
    constructor
    · intro h
      exact absurd h.symm hr
    · rintro ⟨k, x, hx, -⟩
      cases hx
  | cons x xs ih =>
    by_cases hx : f x = .ok true
    · rw [allM_cons_of_true hx, ih]
      constructor
      · rintro ⟨k, y, hy, hdecides, hearlier⟩
        refine ⟨k + 1, y, hy, hdecides, ?_⟩
        intro j hj z hz
        cases j with
        | zero =>
          cases hz
          exact hx
        | succ j => exact hearlier j (Nat.lt_of_succ_lt_succ hj) z hz
      · rintro ⟨k, y, hy, hdecides, hearlier⟩
        cases k with
        | zero =>
          cases hy
          exact absurd (hdecides.symm.trans hx) hr
        | succ k =>
          exact ⟨k, y, hy, hdecides, fun j hj => hearlier (j + 1) (Nat.succ_lt_succ hj)⟩
    · rw [allM_cons_of_ne hx]
      constructor
      · intro h
        exact ⟨0, x, rfl, h, fun j hj => absurd hj (Nat.not_lt_zero j)⟩
      · rintro ⟨k, y, hy, hdecides, hearlier⟩
        cases k with
        | zero =>
          cases hy
          exact hdecides
        | succ k => exact absurd (hearlier 0 (Nat.succ_pos k) x rfl) hx

end Checks

/-! ## Operations that return an error or panic -/

/-- `if c { return Err(e) }` -/
def rejectIf (c : Prop) [Decidable c] (e : ε) : Outcome ε Unit :=
  if c then .error (.err e) else .ok ()

/-- A guard lets pass what does not meet its condition. -/
@[simp] theorem rejectIf_eq_ok {c : Prop} [Decidable c] {e : ε} {u : Unit} :
    rejectIf c e = .ok u ↔ ¬ c := by
  unfold rejectIf
  split <;> simp [*]

/-- A guard passes where its condition is false. -/
theorem rejectIf_neg {c : Prop} [Decidable c] {e : ε} (h : ¬ c) : rejectIf c e = .ok () :=
  rejectIf_eq_ok.mpr h

/-- A guard gives its error where its condition is true. -/
theorem rejectIf_pos {c : Prop} [Decidable c] {e : ε} (h : c) :
    rejectIf c e = .error (.err e) := if_pos h

/-- `option.ok_or(e)?` -/
def okOr (o : Option α) (e : ε) : Outcome ε α :=
  match o with
  | some a => .ok a
  | none => .error (.err e)

/-- An option gives a result iff it has the value. -/
@[simp] theorem okOr_eq_ok {o : Option α} {e : ε} {a : α} : okOr o e = .ok a ↔ o = some a := by
  cases o <;> simp [okOr]

/-- Only a missing value is an error. -/
theorem okOr_eq_error {o : Option α} {e : ε} {f : Fault ε} :
    okOr o e = .error f ↔ o = none ∧ f = .err e := by
  cases o <;> simp [okOr, eq_comm]

/-- `result.map_err(f)` -/
def mapErr {ε' : Type} (f : ε → ε') (x : Outcome ε α) : Outcome ε' α :=
  match x with
  | .ok a => .ok a
  | .error (.err e) => .error (.err (f e))
  | .error .panic => .error .panic
  | .error .hang => .error .hang

/-- Replacing errors changes no result. -/
@[simp] theorem mapErr_eq_ok {ε' : Type} {f : ε → ε'} {x : Outcome ε α} {a : α} :
    mapErr f x = .ok a ↔ x = .ok a := by
  rcases x with (e | _ | _) | b <;> simp [mapErr]

/-- `option.unwrap()` -/
def unwrap (o : Option α) : Outcome ε α :=
  match o with
  | some a => .ok a
  | none => .error .panic

/-- Unwrapping gives a result iff there is the value. -/
@[simp] theorem unwrap_eq_ok {o : Option α} {a : α} :
    (unwrap o : Outcome ε α) = .ok a ↔ o = some a := by
  cases o <;> simp [unwrap]

/-- `result.unwrap()` -/
def unwrapOk {ε' : Type} (x : Outcome ε' α) : Outcome ε α :=
  match x with
  | .ok a => .ok a
  | .error .hang => .error .hang
  | .error _ => .error .panic

/-- Unwrapping a result gives it. -/
@[simp] theorem unwrapOk_eq_ok {ε' : Type} {x : Outcome ε' α} {a : α} :
    (unwrapOk x : Outcome ε α) = .ok a ↔ x = .ok a := by
  rcases x with (e | _ | _) | b <;> simp [unwrapOk]

/-- `xs[i]` -/
def index (xs : List α) (i : ℕ) : Outcome ε α := unwrap xs[i]?

/-- Indexing gives the element at the position, where there is one. -/
@[simp] theorem index_eq_ok {xs : List α} {i : ℕ} {a : α} :
    (index xs i : Outcome ε α) = .ok a ↔ xs[i]? = some a := unwrap_eq_ok

/-- `xs[i..j]` -/
def slice (xs : List α) (i j : ℕ) : Outcome ε (List α) :=
  if i ≤ j ∧ j ≤ xs.length then .ok ((xs.take j).drop i) else .error .panic

/-- A slice is given iff its bounds are in order and inside the list. -/
@[simp] theorem slice_eq_ok {xs ys : List α} {i j : ℕ} :
    (slice xs i j : Outcome ε (List α)) = .ok ys ↔
      i ≤ j ∧ j ≤ xs.length ∧ (xs.take j).drop i = ys := by
  unfold slice
  split <;> simp_all

/-- A slice of `n` entries starting at `i` is what stands between the first `i` entries and
the rest. -/
theorem slice_add_eq_ok {xs ys : List α} {i n : ℕ} :
    (slice xs i (i + n) : Outcome ε (List α)) = .ok ys ↔
      ∃ before after, xs = before ++ (ys ++ after) ∧ before.length = i ∧ ys.length = n := by
  rw [slice_eq_ok]
  constructor
  · rintro ⟨-, hle, rfl⟩
    refine ⟨xs.take i, xs.drop (i + n), ?_, ?_, ?_⟩
    · have hbefore : (xs.take (i + n)).take i = xs.take i := by
        rw [List.take_take, Nat.min_eq_left (Nat.le_add_right i n)]
      rw [← List.append_assoc, ← hbefore, List.take_append_drop, List.take_append_drop]
    · rw [List.length_take]
      omega
    · rw [List.length_drop, List.length_take]
      omega
  · rintro ⟨before, after, rfl, rfl, rfl⟩
    refine ⟨Nat.le_add_right _ _, ?_, ?_⟩
    · rw [List.length_append, List.length_append]
      omega
    · rw [← List.append_assoc, ← List.length_append, List.take_left, List.drop_left]

/-- `xs[i..]` -/
def sliceFrom (xs : List α) (i : ℕ) : Outcome ε (List α) :=
  if i ≤ xs.length then .ok (xs.drop i) else .error .panic

/-- The rest behind a position is given iff the position is inside the list or at its end. -/
@[simp] theorem sliceFrom_eq_ok {xs ys : List α} {i : ℕ} :
    (sliceFrom xs i : Outcome ε (List α)) = .ok ys ↔ i ≤ xs.length ∧ xs.drop i = ys := by
  unfold sliceFrom
  split <;> simp_all

/-- `a + b` on unsigned integers of `bits` bits; overflow panics. -/
def add (bits a b : ℕ) : Outcome ε ℕ :=
  if a + b < 2 ^ bits then .ok (a + b) else .error .panic

/-- A sum is given iff it fits the width. -/
@[simp] theorem add_eq_ok {bits a b c : ℕ} :
    (add bits a b : Outcome ε ℕ) = .ok c ↔ a + b < 2 ^ bits ∧ a + b = c := by
  unfold add
  split <;> simp_all

/-- `a - b` on unsigned integers; underflow panics. -/
def sub (a b : ℕ) : Outcome ε ℕ :=
  if b ≤ a then .ok (a - b) else .error .panic

/-- A difference is given iff it is not negative. -/
@[simp] theorem sub_eq_ok {a b c : ℕ} :
    (sub a b : Outcome ε ℕ) = .ok c ↔ b ≤ a ∧ a - b = c := by
  unfold sub
  split <;> simp_all

/-- `a * b` on unsigned integers of `bits` bits; overflow panics. -/
def mul (bits a b : ℕ) : Outcome ε ℕ :=
  if a * b < 2 ^ bits then .ok (a * b) else .error .panic

/-- `a.checked_add(b)` on unsigned integers of `bits` bits. -/
def checkedAdd (bits a b : ℕ) : Option ℕ :=
  if a + b < 2 ^ bits then some (a + b) else none

/-- A checked sum has a value iff it fits the width. -/
@[simp] theorem checkedAdd_eq_some {bits a b c : ℕ} :
    checkedAdd bits a b = some c ↔ a + b < 2 ^ bits ∧ a + b = c := by
  unfold checkedAdd
  split <;> simp_all

/-! ## Loops -/

/-- A loop of at most `fuel` rounds. A round ends with the next state (`Sum.inl`), or
with the loop's value (`Sum.inr`) when its guard is false. -/
def loop (round : σ → Outcome ε (σ ⊕ α)) : ℕ → σ → Outcome ε α
  | 0, _ => .error .hang
  | fuel + 1, s => round s >>= fun
    | .inl s' => loop round fuel s'
    | .inr a => .ok a

/-- A loop that has rounds left goes on from the state its round returned. -/
theorem loop_inl {round : σ → Outcome ε (σ ⊕ α)} {fuel : ℕ} {s s' : σ}
    (h : round s = .ok (.inl s')) : loop round (fuel + 1) s = loop round fuel s' := by
  rw [loop, h, ok_bind]

/-- A loop whose round returned a value returns that value. -/
theorem loop_inr {round : σ → Outcome ε (σ ⊕ α)} {fuel : ℕ} {s : σ} {a : α}
    (h : round s = .ok (.inr a)) : loop round (fuel + 1) s = .ok a := by
  rw [loop, h, ok_bind]

/-- A loop stops with the fault of its round. -/
theorem loop_error {round : σ → Outcome ε (σ ⊕ α)} {fuel : ℕ} {s : σ} {e : Fault ε}
    (h : round s = .error e) : loop round (fuel + 1) s = .error e := by
  rw [loop, h, error_bind]

/-- Invariant rule: what every round preserves holds of the state in which the loop
returns its value. -/
theorem loop_invariant {round : σ → Outcome ε (σ ⊕ α)} (Inv : σ → Prop) (Post : α → Prop)
    (hstep : ∀ s s', Inv s → round s = .ok (.inl s') → Inv s')
    (hexit : ∀ s a, Inv s → round s = .ok (.inr a) → Post a)
    {fuel : ℕ} {s : σ} {a : α} (hs : Inv s) (hrun : loop round fuel s = .ok a) : Post a := by
  induction fuel generalizing s with
  | zero => cases hrun
  | succ fuel ih =>
    cases hr : round s with
    | error e =>
      rw [loop_error hr] at hrun
      cases hrun
    | ok next =>
      cases next with
      | inl s' =>
        rw [loop_inl hr] at hrun
        exact ih (hstep s s' hs hr) hrun
      | inr b =>
        rw [loop_inr hr] at hrun
        cases hrun
        exact hexit s a hs hr

/-! ## Calls that return -/

/-- The call comes back to its caller, with a value or with an error. -/
def Returns (x : Outcome ε α) : Prop := (∃ a, x = .ok a) ∨ ∃ e, x = .error (.err e)

/-- A result is a return. -/
@[simp] theorem returns_ok (a : α) : Returns (.ok a : Outcome ε α) := Or.inl ⟨a, rfl⟩

/-- So is a returned value. -/
@[simp] theorem returns_pure (a : α) : Returns (pure a : Outcome ε α) := Or.inl ⟨a, rfl⟩

/-- So is an error. -/
@[simp] theorem returns_err (e : ε) : Returns (.error (.err e) : Outcome ε α) :=
  Or.inr ⟨e, rfl⟩

/-- A panic is none. -/
@[simp] theorem not_returns_panic : ¬ Returns (.error .panic : Outcome ε α) := by
  simp [Returns]

/-- A computation that runs forever does not return. -/
@[simp] theorem not_returns_hang : ¬ Returns (.error .hang : Outcome ε α) := by
  simp [Returns]

/-- A call that returns, but no value, returns an error. -/
theorem Returns.exists_err {x : Outcome ε α} (hx : Returns x) (hne : ∀ a, x ≠ .ok a) :
    ∃ e, x = .error (.err e) := by
  rcases hx with ⟨a, ha⟩ | herr
  · exact absurd ha (hne a)
  · exact herr

/-- A sequence returns if its first call does, and the rest does on every value of it. -/
theorem Returns.bind {x : Outcome ε α} {f : α → Outcome ε β} (hx : Returns x)
    (hf : ∀ a, x = .ok a → Returns (f a)) : Returns (x >>= f) := by
  rcases hx with ⟨a, rfl⟩ | ⟨e, rfl⟩
  · exact hf a rfl
  · exact returns_err e

/-- A sequence that returns has a first call that returns. -/
theorem Returns.of_bind {x : Outcome ε α} {f : α → Outcome ε β} (h : Returns (x >>= f)) :
    Returns x := by
  match x with
  | .ok a => exact returns_ok a
  | .error (.err e) => exact returns_err e
  | .error .panic => exact absurd h not_returns_panic
  | .error .hang => exact absurd h not_returns_hang

/-- A computation over a list returns if it does for each element. -/
theorem Returns.mapM {f : α → Outcome ε β} {xs : List α} (h : ∀ x ∈ xs, Returns (f x)) :
    Returns (xs.mapM f) := by
  induction xs with
  | nil => exact returns_pure []
  | cons x xs ih =>
    rw [List.mapM_cons]
    apply (h x List.mem_cons_self).bind
    intro b _
    apply (ih fun y hy => h y (List.mem_cons_of_mem x hy)).bind
    intro bs _
    exact returns_pure (b :: bs)

/-- A check over a list returns if the check of every item does. -/
theorem Returns.allM {f : α → Outcome ε Bool} {xs : List α} (h : ∀ x ∈ xs, Returns (f x)) :
    Returns (xs.allM f) := by
  by_cases hpass : xs.allM f = .ok true
  · rw [hpass]
    exact returns_ok true
  · obtain ⟨k, x, hx, hdecides, -⟩ := (allM_eq_iff_first hpass).mp rfl
    rw [← hdecides]
    exact h x (List.mem_of_getElem? hx)

/-- A guard returns, whatever its condition. -/
@[simp] theorem returns_rejectIf (c : Prop) [Decidable c] (e : ε) : Returns (rejectIf c e) := by
  unfold rejectIf
  split <;> simp

/-- An option that is turned into a result returns. -/
@[simp] theorem returns_okOr (o : Option α) (e : ε) : Returns (okOr o e) := by
  cases o <;> simp [okOr]

/-- Replacing errors makes no difference to returning. -/
@[simp] theorem returns_mapErr {ε' : Type} (f : ε → ε') {x : Outcome ε α} :
    Returns (mapErr f x) ↔ Returns x := by
  rcases x with (e | _ | _) | a <;> simp [mapErr]

/-- Unwrapping returns iff there is a value. -/
@[simp] theorem returns_unwrap {o : Option α} :
    Returns (unwrap o : Outcome ε α) ↔ o.isSome = true := by
  cases o <;> simp [unwrap]

/-- Indexing returns iff the position is inside the list. -/
@[simp] theorem returns_index {xs : List α} {i : ℕ} :
    Returns (index xs i : Outcome ε α) ↔ i < xs.length := by
  simp [index]

/-- A slice returns iff its bounds are in order and inside the list. -/
@[simp] theorem returns_slice {xs : List α} {i j : ℕ} :
    Returns (slice xs i j : Outcome ε (List α)) ↔ i ≤ j ∧ j ≤ xs.length := by
  unfold slice
  split <;> simp [*]

/-- The rest behind a position returns iff the position is inside the list or at its end. -/
@[simp] theorem returns_sliceFrom {xs : List α} {i : ℕ} :
    Returns (sliceFrom xs i : Outcome ε (List α)) ↔ i ≤ xs.length := by
  unfold sliceFrom
  split <;> simp [*]

/-- A sum returns iff it fits the width. -/
@[simp] theorem returns_add {bits a b : ℕ} :
    Returns (add bits a b : Outcome ε ℕ) ↔ a + b < 2 ^ bits := by
  unfold add
  split <;> simp [*]

/-- A difference returns iff it is not negative. -/
@[simp] theorem returns_sub {a b : ℕ} : Returns (sub a b : Outcome ε ℕ) ↔ b ≤ a := by
  unfold sub
  split <;> simp [*]

/-- Termination rule: a loop returns if every round does, keeps an invariant and lowers a
measure that starts below the number of rounds. -/
theorem Returns.loop {round : σ → Outcome ε (σ ⊕ α)} (Inv : σ → Prop) (measure : σ → ℕ)
    (hround : ∀ s, Inv s → Returns (round s))
    (hstep : ∀ s s', Inv s → round s = .ok (.inl s') → Inv s' ∧ measure s' < measure s)
    {fuel : ℕ} {s : σ} (hs : Inv s) (hfuel : measure s < fuel) :
    Returns (loop round fuel s) := by
  induction fuel generalizing s with
  | zero => omega
  | succ fuel ih =>
    apply (hround s hs).bind
    intro next hnext
    cases next with
    | inl s' =>
      obtain ⟨hs', hlt⟩ := hstep s s' hs hnext
      exact ih hs' (by omega)
    | inr a => exact returns_ok a

end Hca.Library
