import Hca.Library.Outcome
import Mathlib.Computability.Language

set_option autoImplicit false

/-!
# Decoders and readers

A decoder looks at the front of its input and returns the value of the item found there
with the number of tokens the item takes. `Decodes` says which inputs it accepts: `Word v`
is the language of the encodings of `v`, and the decoder accepts exactly the inputs that
start with a word. The words of a decoder are then self-delimiting.

A reader moves a cursor over a payload. Readers are composed in the order of the fields
they read, and `Reads` composes with them: the language of a sequence is the product of
the languages of its parts.
-/

namespace Hca.Library

variable {ε α β γ : Type}

/-! ## Decoders -/

/-- A decoder of the item at the front of the input. -/
abbrev Decoder (ε β α : Type) := List β → Outcome ε (α × ℕ)

/-- `dec` accepts exactly the inputs that start with a word, and returns its value and its
length. -/
def Decodes (dec : Decoder ε β α) (Word : α → Language β) : Prop :=
  ∀ input v n, dec input = .ok (v, n) ↔
    ∃ w s, input = w ++ s ∧ w ∈ Word v ∧ n = w.length

/-- A word at the front of an input is determined by the input, and so is its value. -/
def SelfDelimiting (Word : α → Language β) : Prop :=
  ∀ v v' w w' s s', w ∈ Word v → w' ∈ Word v' → w ++ s = w' ++ s' → v = v' ∧ w = w' ∧ s = s'

/-- `dec` reads the value back from its encoding, whatever comes behind it, and returns an
error on an encoding that is cut short. -/
structure ReadsBack (dec : Decoder ε β α) (v : α) (w : List β) : Prop where
  append : ∀ s, dec (w ++ s) = .ok (v, w.length)
  truncated : ∀ input, input <+: w → input ≠ w → ∃ e, dec input = .error (.err e)

/-- What `dec` takes from the input, if it accepts it, is the encoding of what it returns. -/
def CanonicalAt (dec : Decoder ε β α) (enc : α → List β) (input : List β) : Prop :=
  ∀ v n, dec input = .ok (v, n) → input.take n = enc v

namespace Decodes

variable {dec : Decoder ε β α} {Word : α → Language β} (h : Decodes dec Word)

include h

/-- A word is decoded to its value and its length, whatever follows it. -/
theorem eq_ok {v : α} {w : List β} (hw : w ∈ Word v) (s : List β) :
    dec (w ++ s) = .ok (v, w.length) := by
  rw [h]
  exact ⟨w, s, rfl, hw, rfl⟩

/-- What can be decoded with anything behind it is no proper prefix of another word. -/
theorem selfDelimiting : SelfDelimiting Word := by
  intro v v' w w' s s' hw hw' heq
  have hrun := h.eq_ok hw s
  rw [heq, h.eq_ok hw' s', Except.ok.injEq, Prod.mk.injEq] at hrun
  obtain ⟨hv, hlen⟩ := hrun
  obtain ⟨hww, hss⟩ := List.append_inj heq hlen.symm
  exact ⟨hv.symm, hww, hss⟩

/-- A word has one value. -/
theorem value_unique {v v' : α} {w : List β} (hw : w ∈ Word v) (hw' : w ∈ Word v') : v = v' :=
  (h.selfDelimiting _ _ _ _ [] [] hw hw' rfl).1

/-- No word starts with a shorter one, so a truncated word is not accepted. -/
theorem readsBack (hret : ∀ input, Returns (dec input)) {v : α} {w : List β}
    (hw : w ∈ Word v) : ReadsBack dec v w where
  append := h.eq_ok hw
  truncated := by
    rintro input ⟨cut, rfl⟩ hne
    apply (hret input).exists_err
    rintro ⟨v', n⟩ hrun
    obtain ⟨w', s, rfl, hw', -⟩ := (h _ _ _).mp hrun
    have heq : w' ++ s ++ cut ++ [] = w' ++ (s ++ cut) := by
      rw [List.append_nil, List.append_assoc]
    obtain ⟨-, -, hnil⟩ := h.selfDelimiting _ _ _ _ _ _ hw hw' heq
    have hcut : cut = [] := (List.append_eq_nil_iff.mp hnil.symm).2
    rw [hcut, List.append_nil] at hne
    exact hne rfl

/-- A decoder is canonical at an input iff every word at its front is an encoding. -/
theorem canonicalAt_iff {enc : α → List β} {input : List β} :
    CanonicalAt dec enc input ↔ ∀ v w s, input = w ++ s → w ∈ Word v → w = enc v := by
  constructor
  · rintro hcanon v w s rfl hw
    have htake := hcanon v w.length (h.eq_ok hw s)
    rwa [List.take_left' rfl] at htake
  · intro hwords v n hrun
    obtain ⟨w, s, rfl, hw, rfl⟩ := (h _ _ _).mp hrun
    rw [List.take_left' rfl]
    exact hwords v w s rfl hw

end Decodes

/-! ## Readers -/

/-- A computation that reads items of a payload one after the other. -/
abbrev Reader (ε β : Type) := ReaderT (List β) (StateT ℕ (Outcome ε))

/-- Reads the item at the cursor and moves the cursor, an integer of `bits` bits, past it. -/
def next (bits : ℕ) (dec : Decoder ε β α) : Reader ε β α := fun payload cursor => do
  let rest ← sliceFrom payload cursor
  let (v, consumed) ← dec rest
  let cursor ← add bits cursor consumed
  pure (v, cursor)

/-- `r` accepts exactly the payloads that have a word at the cursor, and moves past it. -/
def Reads (bits : ℕ) (r : Reader ε β α) (Word : α → Language β) : Prop :=
  ∀ payload cursor v cursor', payload.length < 2 ^ bits → cursor ≤ payload.length →
    (r payload cursor = .ok (v, cursor') ↔
      ∃ w s, payload.drop cursor = w ++ s ∧ w ∈ Word v ∧ cursor' = cursor + w.length)

/-- A word at the cursor is inside the payload, and the rest lies behind it. -/
theorem drop_add_of_drop_eq_append {payload w s : List β} {cursor : ℕ}
    (hcursor : cursor ≤ payload.length) (h : payload.drop cursor = w ++ s) :
    cursor + w.length ≤ payload.length ∧ payload.drop (cursor + w.length) = s := by
  constructor
  · have hlen := congrArg List.length h
    rw [List.length_drop, List.length_append] at hlen
    omega
  · rw [← List.drop_drop, h, List.drop_left]

variable {bits : ℕ}

/-- A step of the cursor decodes what is at the cursor and moves behind it. -/
theorem next_eq_ok {dec : Decoder ε β α} {payload : List β} {cursor cursor' : ℕ} {v : α} :
    next bits dec payload cursor = .ok (v, cursor') ↔
      cursor ≤ payload.length ∧ ∃ n, dec (payload.drop cursor) = .ok (v, n) ∧
        cursor + n < 2 ^ bits ∧ cursor' = cursor + n := by
  unfold next
  simp only [bind_eq_ok, sliceFrom_eq_ok]
  constructor
  · rintro ⟨rest, ⟨hcursor, rfl⟩, ⟨v', n⟩, hdec, c, hadd, hpure⟩
    obtain ⟨hfit, rfl⟩ := add_eq_ok.mp hadd
    cases hpure
    exact ⟨hcursor, n, hdec, hfit, rfl⟩
  · rintro ⟨hcursor, n, hdec, hfit, rfl⟩
    exact ⟨_, ⟨hcursor, rfl⟩, (v, n), hdec, _, add_eq_ok.mpr ⟨hfit, rfl⟩, rfl⟩

/-- A decoder of a format, run at the cursor, reads the format. -/
theorem reads_next {dec : Decoder ε β α} {Word : α → Language β} (h : Decodes dec Word) :
    Reads bits (next bits dec) Word := by
  intro payload cursor v cursor' hlen hcursor
  rw [next_eq_ok]
  constructor
  · rintro ⟨-, n, hdec, -, rfl⟩
    obtain ⟨w, s, hws, hw, rfl⟩ := (h _ _ _).mp hdec
    exact ⟨w, s, hws, hw, rfl⟩
  · rintro ⟨w, s, hws, hw, rfl⟩
    have hend := (drop_add_of_drop_eq_append hcursor hws).1
    exact ⟨hcursor, w.length, (h _ _ _).mpr ⟨w, s, hws, hw, rfl⟩, by omega, rfl⟩

/-- Returning a value reads the empty word. -/
theorem reads_pure (a : α) :
    Reads bits (pure a : Reader ε β α) fun v => {w | v = a ∧ w = []} := by
  intro payload cursor v cursor' hlen hcursor
  have hrun : ((pure a : Reader ε β α) payload cursor = .ok (v, cursor') ↔
      (a, cursor) = (v, cursor')) := pure_eq_ok
  rw [hrun, Prod.mk.injEq]
  constructor
  · rintro ⟨rfl, rfl⟩
    exact ⟨[], payload.drop cursor, rfl, ⟨rfl, rfl⟩, rfl⟩
  · rintro ⟨w, s, -, ⟨rfl, rfl⟩, rfl⟩
    exact ⟨rfl, rfl⟩

/-- A reader followed by another one that depends on the value read. -/
theorem reads_bind {r : Reader ε β α} {f : α → Reader ε β γ} {P : α → Language β}
    {Q : α → γ → Language β} (hr : Reads bits r P) (hf : ∀ a, Reads bits (f a) (Q a)) :
    Reads bits (r >>= f) fun v => {w | ∃ a, w ∈ P a * Q a v} := by
  intro payload cursor v cursor' hlen hcursor
  have hrun : ((r >>= f) payload cursor = .ok (v, cursor') ↔
      ∃ m, r payload cursor = .ok m ∧ f m.1 payload m.2 = .ok (v, cursor')) := bind_eq_ok
  rw [hrun]
  constructor
  · rintro ⟨⟨a, middle⟩, hfirst, hrest⟩
    obtain ⟨w₁, s₁, hws₁, hw₁, rfl⟩ := (hr _ _ _ _ hlen hcursor).mp hfirst
    obtain ⟨hend, hdrop⟩ := drop_add_of_drop_eq_append hcursor hws₁
    obtain ⟨w₂, s₂, hws₂, hw₂, rfl⟩ := (hf a _ _ _ _ hlen hend).mp hrest
    rw [hdrop] at hws₂
    refine ⟨w₁ ++ w₂, s₂, ?_, ⟨a, Language.append_mem_mul hw₁ hw₂⟩, ?_⟩
    · rw [hws₁, hws₂, List.append_assoc]
    · rw [List.length_append, Nat.add_assoc]
  · rintro ⟨w, s, hws, ⟨a, hw⟩, rfl⟩
    obtain ⟨w₁, hw₁, w₂, hw₂, rfl⟩ := Language.mem_mul.mp hw
    rw [List.append_assoc] at hws
    obtain ⟨hend, hdrop⟩ := drop_add_of_drop_eq_append hcursor hws
    refine ⟨(a, cursor + w₁.length), (hr _ _ _ _ hlen hcursor).mpr ⟨w₁, _, hws, hw₁, rfl⟩, ?_⟩
    refine (hf a _ _ _ _ hlen hend).mpr ⟨w₂, s, hdrop, hw₂, ?_⟩
    rw [List.length_append, Nat.add_assoc]

/-- A check or conversion of the value just read, which moves no cursor. -/
theorem reads_checked {r : Reader ε β α} {f : α → Outcome ε γ} {P : α → Language β}
    (hr : Reads bits r P) :
    Reads bits (do let a ← r; liftM (f a)) fun v => {w | ∃ a, w ∈ P a ∧ f a = .ok v} := by
  intro payload cursor v cursor' hlen hcursor
  have hrun : ((do let a ← r; liftM (f a) : Reader ε β γ) payload cursor = .ok (v, cursor') ↔
      ∃ m, r payload cursor = .ok m ∧ ∃ c, f m.1 = .ok c ∧
        (pure (c, m.2) : Outcome ε (γ × ℕ)) = .ok (v, cursor')) := by
    rw [← exists_congr fun m => and_congr_right fun _ => bind_eq_ok]
    exact bind_eq_ok
  rw [hrun]
  constructor
  · rintro ⟨⟨a, middle⟩, hfirst, c, hc, hpure⟩
    cases hpure
    obtain ⟨w, s, hws, hw, rfl⟩ := (hr _ _ _ _ hlen hcursor).mp hfirst
    exact ⟨w, s, hws, ⟨a, hw, hc⟩, rfl⟩
  · rintro ⟨w, s, hws, ⟨a, hw, hc⟩, rfl⟩
    exact ⟨(a, cursor + w.length), (hr _ _ _ _ hlen hcursor).mpr ⟨w, s, hws, hw, rfl⟩, v, hc,
      rfl⟩

/-- One language may be written in another way. -/
theorem Reads.congr {r : Reader ε β α} {P Q : α → Language β} (hr : Reads bits r P)
    (h : ∀ v w, w ∈ P v ↔ w ∈ Q v) : Reads bits r Q := by
  intro payload cursor v cursor' hlen hcursor
  rw [hr _ _ _ _ hlen hcursor]
  simp only [h]

/-! ## Reading a record

A record is read field by field and put together at the end. `C` collects what is known of
the record from the fields that were read before. -/

/-- The next field, which the record keeps. -/
theorem reads_field (proj : γ → α) {C : γ → Prop} {r : Reader ε β α} {f : α → Reader ε β γ}
    {P : α → Language β} {R : γ → Language β} (hr : Reads bits r P)
    (hf : ∀ a, Reads bits (f a) fun v => {w | (C v ∧ proj v = a) ∧ w ∈ R v}) :
    Reads bits (r >>= f) fun v => {w | C v ∧ w ∈ P (proj v) * R v} := by
  apply (reads_bind hr hf).congr
  intro v w
  constructor
  · rintro ⟨a, hw⟩
    obtain ⟨x, hx, y, ⟨⟨hC, rfl⟩, hy⟩, rfl⟩ := Language.mem_mul.mp hw
    exact ⟨hC, Language.append_mem_mul hx hy⟩
  · rintro ⟨hC, hw⟩
    obtain ⟨x, hx, y, hy, rfl⟩ := Language.mem_mul.mp hw
    exact ⟨proj v, Language.append_mem_mul hx ⟨⟨hC, rfl⟩, hy⟩⟩

/-- The next field, which is read and dropped. -/
theorem reads_skip {C : γ → Prop} {r : Reader ε β α} {f : α → Reader ε β γ}
    {P : α → Language β} {Q : Language β} {R : γ → Language β} (hr : Reads bits r P)
    (hQ : ∀ w, w ∈ Q ↔ ∃ a, w ∈ P a)
    (hf : ∀ a, Reads bits (f a) fun v => {w | C v ∧ w ∈ R v}) :
    Reads bits (r >>= f) fun v => {w | C v ∧ w ∈ Q * R v} := by
  apply (reads_bind hr hf).congr
  intro v w
  constructor
  · rintro ⟨a, hw⟩
    obtain ⟨x, hx, y, ⟨hC, hy⟩, rfl⟩ := Language.mem_mul.mp hw
    exact ⟨hC, Language.append_mem_mul ((hQ x).mpr ⟨a, hx⟩) hy⟩
  · rintro ⟨hC, hw⟩
    obtain ⟨x, hx, y, hy, rfl⟩ := Language.mem_mul.mp hw
    obtain ⟨a, ha⟩ := (hQ x).mp hx
    exact ⟨a, Language.append_mem_mul ha ⟨hC, hy⟩⟩

/-- The record is put together from the fields. -/
theorem reads_record {C : α → Prop} (a : α) (hC : ∀ v, C v ↔ v = a) :
    Reads bits (pure a : Reader ε β α) fun v => {w | C v ∧ w ∈ (1 : Language β)} := by
  apply (reads_pure a).congr
  intro v w
  show v = a ∧ w = [] ↔ C v ∧ w ∈ (1 : Language β)
  rw [hC, Language.mem_one]

/-- Nothing is known of a record before its first field. -/
theorem reads_of_record {r : Reader ε β α} {P : α → Language β}
    (hr : Reads bits r fun v => {w | True ∧ w ∈ P v}) : Reads bits r P := by
  apply hr.congr
  intro v w
  show True ∧ w ∈ P v ↔ w ∈ P v
  rw [true_and]

/-! ## Readers that stay inside the payload -/

/-- A decoder that returns on every input, and takes at least one token and no more than
there are. -/
structure Bounded (dec : Decoder ε β α) : Prop where
  returns : ∀ input, Returns (dec input)
  bounds : ∀ input v n, dec input = .ok (v, n) → 1 ≤ n ∧ n ≤ input.length

/-- Started inside a payload, the reader returns, and leaves the cursor inside. -/
def Safe (bits : ℕ) (r : Reader ε β α) : Prop :=
  ∀ payload cursor, payload.length < 2 ^ bits → cursor ≤ payload.length →
    Returns (r payload cursor) ∧
      ∀ v cursor', r payload cursor = .ok (v, cursor') → cursor' ≤ payload.length

/-- An item read moves the cursor on, and not past the end. -/
theorem Bounded.next_bounds {dec : Decoder ε β α} (h : Bounded dec) {payload : List β}
    {cursor cursor' : ℕ} {v : α} (hrun : next bits dec payload cursor = .ok (v, cursor')) :
    cursor < cursor' ∧ cursor' ≤ payload.length := by
  obtain ⟨hcursor, n, hdec, -, rfl⟩ := next_eq_ok.mp hrun
  have hn := h.bounds _ _ _ hdec
  rw [List.length_drop] at hn
  omega

/-- A step with a decoder that stays inside its input is safe. -/
theorem Bounded.safe_next {dec : Decoder ε β α} (h : Bounded dec) :
    Safe bits (next bits dec) := by
  intro payload cursor hlen hcursor
  constructor
  · unfold next
    apply (returns_sliceFrom.mpr hcursor).bind
    intro rest hrest
    apply (h.returns rest).bind
    rintro ⟨v, n⟩ hdec
    rw [sliceFrom_eq_ok] at hrest
    obtain ⟨-, rfl⟩ := hrest
    have hn := h.bounds _ _ _ hdec
    rw [List.length_drop] at hn
    apply (returns_add.mpr (by omega)).bind
    intro cursor' _
    exact returns_pure _
  · intro v cursor' hrun
    exact (h.next_bounds hrun).2

/-- Returning a value moves no cursor. -/
theorem safe_pure (a : α) : Safe bits (pure a : Reader ε β α) := by
  intro payload cursor hlen hcursor
  refine ⟨returns_pure (a, cursor), ?_⟩
  intro v cursor' hrun
  cases hrun
  exact hcursor

/-- A check of what was read leaves the cursor where it is. -/
theorem safe_liftM {x : Outcome ε α} (hx : Returns x) : Safe bits (liftM x : Reader ε β α) := by
  intro payload cursor hlen hcursor
  have hrun : (liftM x : Reader ε β α) payload cursor = x >>= fun a => pure (a, cursor) := by
    cases x <;> rfl
  rw [hrun]
  constructor
  · exact hx.bind fun a _ => returns_pure (a, cursor)
  · intro v cursor' h
    obtain ⟨a, -, hpure⟩ := bind_eq_ok.mp h
    cases hpure
    exact hcursor

/-- A reader that may rely on what the one before it returns. -/
theorem Safe.bind_of {r : Reader ε β α} {f : α → Reader ε β γ} (P : α → Prop)
    (hr : Safe bits r)
    (hP : ∀ payload cursor a cursor', r payload cursor = .ok (a, cursor') → P a)
    (hf : ∀ a, P a → Safe bits (f a)) : Safe bits (r >>= f) := by
  intro payload cursor hlen hcursor
  have hrun : (r >>= f) payload cursor =
      r payload cursor >>= fun p => f p.1 payload p.2 := rfl
  obtain ⟨hreturns, hbound⟩ := hr payload cursor hlen hcursor
  rw [hrun]
  constructor
  · apply hreturns.bind
    rintro ⟨a, cursor'⟩ ha
    exact (hf a (hP _ _ _ _ ha) payload cursor' hlen (hbound a cursor' ha)).1
  · intro v cursor'' h
    obtain ⟨⟨a, cursor'⟩, ha, hfa⟩ := bind_eq_ok.mp h
    exact (hf a (hP _ _ _ _ ha) payload cursor' hlen (hbound a cursor' ha)).2 v cursor'' hfa

/-- Safe readers compose. -/
theorem Safe.bind {r : Reader ε β α} {f : α → Reader ε β γ} (hr : Safe bits r)
    (hf : ∀ a, Safe bits (f a)) : Safe bits (r >>= f) :=
  hr.bind_of (fun _ => True) (fun _ _ _ _ _ => trivial) fun a _ => hf a

/-! ## Reading to the end -/

/-- One round of `while cursor < payload.len()`, which collects the value read. -/
def readAllRound (read : Reader ε β α) (payload : List β) (s : List α × ℕ) :
    Outcome ε ((List α × ℕ) ⊕ List α) :=
  if s.2 < payload.length then do
    let (v, cursor) ← read payload s.2
    pure (.inl (s.1 ++ [v], cursor))
  else
    pure (.inr s.1)

/-- Reads items until the cursor has reached the end of the payload. A round that reads an
item moves the cursor, so one round for each token and one to leave are enough. -/
def readAll (read : Reader ε β α) (payload : List β) : Outcome ε (List α) :=
  loop (readAllRound read payload) (payload.length + 1) ([], 0)

/-- Before the end of the payload, a round reads one more value. -/
theorem readAllRound_of_lt {read : Reader ε β α} {payload : List β} {cursor : ℕ} {vs : List α}
    (hmore : cursor < payload.length) :
    readAllRound read payload (vs, cursor) =
      read payload cursor >>= fun p => .ok (.inl (vs ++ [p.1], p.2)) := if_pos hmore

/-- At the end of the payload, the loop returns what it has. -/
theorem readAllRound_of_le {read : Reader ε β α} {payload : List β} {cursor : ℕ} {vs : List α}
    (hend : payload.length ≤ cursor) : readAllRound read payload (vs, cursor) = .ok (.inr vs) :=
  if_neg (not_lt.mpr hend)

/-- The loop returns: every round that reads an item moves the cursor, so there are no more
of them than tokens. -/
theorem Safe.returns_loop_readAllRound {read : Reader ε β α} (hsafe : Safe bits read)
    (hmoves : ∀ payload cursor v cursor', read payload cursor = .ok (v, cursor') →
      cursor < cursor')
    {payload : List β} (hlen : payload.length < 2 ^ bits) {fuel : ℕ}
    (hfuel : payload.length < fuel) :
    Returns (loop (readAllRound read payload) fuel ([], 0)) := by
  apply Returns.loop (fun s => s.2 ≤ payload.length) (fun s => payload.length - s.2)
  · rintro ⟨vs, cursor⟩ hcursor
    rcases Nat.lt_or_ge cursor payload.length with hmore | hend
    · rw [readAllRound_of_lt hmore]
      exact (hsafe payload cursor hlen hcursor).1.bind fun p _ => returns_ok _
    · rw [readAllRound_of_le hend]
      exact returns_ok _
  · rintro ⟨vs, cursor⟩ s' hcursor hround
    rcases Nat.lt_or_ge cursor payload.length with hmore | hend
    · rw [readAllRound_of_lt hmore, bind_eq_ok] at hround
      obtain ⟨⟨v, cursor'⟩, hread, hs'⟩ := hround
      cases hs'
      have hlt := hmoves _ _ _ _ hread
      have hle := (hsafe payload cursor hlen hcursor).2 v cursor' hread
      exact ⟨hle, by simp only; omega⟩
    · rw [readAllRound_of_le hend] at hround
      cases hround
  · exact Nat.zero_le _
  · simpa using hfuel

section Words

variable {Word : α → Language β}

/-- A sequence of words starts with its first word. -/
theorem mem_prod_map_cons {v : α} {rest : List α} {input : List β} :
    input ∈ ((v :: rest).map Word).prod ↔
      ∃ w s, input = w ++ s ∧ w ∈ Word v ∧ s ∈ (rest.map Word).prod := by
  rw [List.map_cons, List.prod_cons, Language.mem_mul]
  constructor
  · rintro ⟨w, hw, s, hs, rfl⟩
    exact ⟨w, s, rfl, hw, hs⟩
  · rintro ⟨w, s, rfl, hw, hs⟩
    exact ⟨w, hw, s, hs, rfl⟩

/-- Nothing is made of no words only, if no word is empty. -/
theorem nil_mem_prod_map_iff (hne : ∀ v, [] ∉ Word v) {vs : List α} :
    [] ∈ (vs.map Word).prod ↔ vs = [] := by
  cases vs with
  | nil => simp
  | cons v rest =>
    rw [mem_prod_map_cons]
    simp only [reduceCtorEq, iff_false]
    rintro ⟨w, s, hws, hw, -⟩
    obtain ⟨rfl, -⟩ := List.append_eq_nil_iff.mp hws.symm
    exact hne v hw

variable {read : Reader ε β α} (hread : Reads bits read Word) (hne : ∀ v, [] ∉ Word v)
  {payload : List β} (hlen : payload.length < 2 ^ bits)

include hread hne hlen

/-- The loop accepts what is left of the payload iff it is a sequence of words. -/
theorem loop_readAllRound_eq_ok {fuel cursor : ℕ} {vs us : List α}
    (hcursor : cursor ≤ payload.length) (hfuel : payload.length - cursor < fuel) :
    loop (readAllRound read payload) fuel (vs, cursor) = .ok us ↔
      ∃ rest, us = vs ++ rest ∧ payload.drop cursor ∈ (rest.map Word).prod := by
  induction fuel generalizing cursor vs with
  | zero => omega
  | succ fuel ih =>
    rcases Nat.lt_or_ge cursor payload.length with hmore | hend
    · -- a round that reads a word goes on behind it, with less of the payload left
      have hstep : ∀ v w s, payload.drop cursor = w ++ s → w ∈ Word v →
          (loop (readAllRound read payload) (fuel + 1) (vs, cursor) = .ok us ↔
            ∃ rest, us = vs ++ v :: rest ∧ s ∈ (rest.map Word).prod) := by
        intro v w s hws hw
        have hpos : 0 < w.length := by
          rw [List.length_pos_iff]
          rintro rfl
          exact hne v hw
        obtain ⟨hend, hdrop⟩ := drop_add_of_drop_eq_append hcursor hws
        have hround : readAllRound read payload (vs, cursor) =
            .ok (.inl (vs ++ [v], cursor + w.length)) := by
          rw [readAllRound_of_lt hmore,
            (hread _ _ _ _ hlen hcursor).mpr ⟨w, s, hws, hw, rfl⟩, ok_bind]
        rw [loop_inl hround, ih hend (by omega), hdrop]
        simp only [List.append_assoc, List.singleton_append]
      constructor
      · intro hrun
        cases hr : read payload cursor with
        | error e =>
          have hround : readAllRound read payload (vs, cursor) = .error e := by
            rw [readAllRound_of_lt hmore, hr, error_bind]
          rw [loop_error hround] at hrun
          cases hrun
        | ok p =>
          obtain ⟨v, cursor'⟩ := p
          obtain ⟨w, s, hws, hw, -⟩ := (hread _ _ _ _ hlen hcursor).mp hr
          obtain ⟨rest, hus, hs⟩ := (hstep v w s hws hw).mp hrun
          exact ⟨v :: rest, hus, mem_prod_map_cons.mpr ⟨w, s, hws, hw, hs⟩⟩
      · rintro ⟨rest, hus, hmem⟩
        cases rest with
        | nil =>
          rw [List.map_nil, List.prod_nil, Language.mem_one, List.drop_eq_nil_iff] at hmem
          omega
        | cons v rest =>
          obtain ⟨w, s, hws, hw, hs⟩ := mem_prod_map_cons.mp hmem
          exact (hstep v w s hws hw).mpr ⟨rest, hus, hs⟩
    · rw [loop_inr (readAllRound_of_le hend), List.drop_eq_nil_of_le hend, Except.ok.injEq]
      simp only [nil_mem_prod_map_iff hne, exists_eq_right, List.append_nil]
      exact eq_comm

/-- Reading to the end accepts exactly the sequences of words. -/
theorem readAll_eq_ok {us : List α} :
    readAll read payload = .ok us ↔ payload ∈ (us.map Word).prod := by
  rw [readAll, loop_readAllRound_eq_ok hread hne hlen (Nat.zero_le _) (by omega)]
  simp only [List.nil_append, List.drop_zero, exists_eq_left']

end Words

end Hca.Library
