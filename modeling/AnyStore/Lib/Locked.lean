import Mathlib.Logic.Basic
import Mathlib.Data.Nat.Notation

/-!
# Computations under one lock

A service that keeps its state behind one lock runs every call from start to end
on its own. `Locked S ε α` is such a call: it returns a value or fails with an
error, and what it has changed by then stays changed in both cases. The answer
`none` is a call that never returns.

* `ret`, `fail`, `read`, `write`, … — the shapes calls are made of, and a monad
  to put them together.
* `Reads` — a call that changes nothing; `Succeeds` — a run that does not fail.
* `Atomic` — a run that changes nothing if it fails. Reading first does not
  matter (`atomic_bind`); behind a change that is never undone it means that the
  rest succeeds (`atomic_changed`).
* `Visits` — the states that sequences of calls lead to.
-/

/-- Where a sequence of steps ends well, its first one does. -/
theorem Except.exists_of_bind_ok {ε α β : Type} {x : Except ε α} {f : α → Except ε β} {b : β}
    (h : x.bind f = .ok b) : ∃ a, x = .ok a ∧ f a = .ok b := by
  cases x with
  | error e => cases h
  | ok a => exact ⟨a, rfl, h⟩

/-- A call on a state of type `S`. -/
def Locked (S ε α : Type) : Type := S → Option (Except ε α × S)

namespace Locked

variable {S ε α β : Type}

/-- Return a value. -/
def ret (a : α) : Locked S ε α := fun s => some (.ok a, s)

/-- Fail with an error. -/
def fail (e : ε) : Locked S ε α := fun s => some (.error e, s)

/-- How a call goes on after its first part. -/
def resume (f : α → Locked S ε β) : Except ε α × S → Option (Except ε β × S)
  | (.ok a, s) => f a s
  | (.error e, s) => some (.error e, s)

/-- One call after the other; an error ends both. -/
def bind (m : Locked S ε α) (f : α → Locked S ε β) : Locked S ε β :=
  fun s => (m s).bind (resume f)

instance : Monad (Locked S ε) where
  pure := ret
  bind := bind

/-- Look at the state. -/
def read (f : S → α) : Locked S ε α := fun s => some (.ok (f s), s)

/-- Change the state. -/
def write (f : S → S) : Locked S ε Unit := fun s => some (.ok (), f s)

/-- Changes the state and returns what was found out on the way. -/
def change (f : S → α × S) : Locked S ε α := fun s => some (.ok (f s).1, (f s).2)

/-- A result that was computed before. -/
def ofExcept : Except ε α → Locked S ε α
  | .ok a => ret a
  | .error e => fail e

/-- A value that may be missing. -/
def orFail (e : ε) : Option α → Locked S ε α
  | some a => ret a
  | none => fail e

/-- A condition that has to hold. -/
def check (p : Prop) [Decidable p] (e : ε) : Locked S ε Unit := if p then ret () else fail e

/-- The value of a loop, if the loop ends. -/
def ending : Option α → Locked S ε α
  | some a => ret a
  | none => fun _ => none

/-! ## Running -/

@[simp] theorem pure_eq (a : α) : (pure a : Locked S ε α) = ret a := rfl
@[simp] theorem bind_eq (m : Locked S ε α) (f : α → Locked S ε β) : m >>= f = m.bind f := rfl
@[simp] theorem ret_bind (a : α) (f : α → Locked S ε β) : (ret a).bind f = f a := rfl
@[simp] theorem fail_bind (e : ε) (f : α → Locked S ε β) : (fail e).bind f = fail e := rfl
@[simp] theorem read_bind (g : S → α) (f : α → Locked S ε β) (s : S) :
    (read g).bind f s = f (g s) s := rfl
@[simp] theorem write_bind (g : S → S) (f : Unit → Locked S ε β) (s : S) :
    (write g).bind f s = f () (g s) := rfl
@[simp] theorem change_bind (g : S → α × S) (f : α → Locked S ε β) (s : S) :
    (change g).bind f s = f (g s).1 (g s).2 := rfl

theorem bind_assoc {γ : Type} (m : Locked S ε α) (f : α → Locked S ε β) (g : β → Locked S ε γ) :
    (m.bind f).bind g = m.bind fun a => (f a).bind g := by
  funext s
  show ((m s).bind (resume f)).bind (resume g) = (m s).bind _
  rw [Option.bind_assoc]
  congr 1
  funext r
  rcases r with ⟨_ | a, s₁⟩
  · rfl
  · rfl

/-- A run of two calls: the second one has run, or the first one has failed. -/
theorem bind_eq_some {m : Locked S ε α} {f : α → Locked S ε β} {s s' : S} {r : Except ε β} :
    m.bind f s = some (r, s') ↔ (∃ a s₁, m s = some (.ok a, s₁) ∧ f a s₁ = some (r, s')) ∨
      ∃ e, m s = some (.error e, s') ∧ r = .error e := by
  show (m s).bind (resume f) = some (r, s') ↔ _
  rcases hm : m s with _ | ⟨_ | a, s₁⟩
  · simp
  · simp only [Option.bind_some, resume, Option.some.injEq, Prod.mk.injEq, reduceCtorEq, false_and,
      exists_false, false_or, Except.error.injEq]
    constructor
    · rintro ⟨rfl, rfl⟩
      exact ⟨_, ⟨rfl, rfl⟩, rfl⟩
    · rintro ⟨e, ⟨rfl, rfl⟩, rfl⟩
      exact ⟨rfl, rfl⟩
  · simp only [Option.bind_some, resume, Option.some.injEq, Prod.mk.injEq, Except.ok.injEq,
      reduceCtorEq, false_and, exists_false, or_false]
    constructor
    · intro h
      exact ⟨a, s₁, ⟨rfl, rfl⟩, h⟩
    · rintro ⟨_, _, ⟨rfl, rfl⟩, h⟩
      exact h

/-! ### What a successful run has passed -/

section Ok

variable {s s' : S} {a b : α} {e : ε}

/-- **Inversion.** Both calls have succeeded. -/
theorem bind_ok {m : Locked S ε α} {f : α → Locked S ε β} {b : β} :
    (m >>= f) s = some (.ok b, s') ↔ ∃ a s₁, m s = some (.ok a, s₁) ∧ f a s₁ = some (.ok b, s') := by
  rw [bind_eq, bind_eq_some]
  simp

/-- What a call that succeeds has returned, and where it has left the state. -/
theorem ret_ok : (ret a : Locked S ε α) s = some (.ok b, s') ↔ b = a ∧ s' = s := by
  simp [ret, eq_comm]

theorem read_ok {g : S → α} : (read g : Locked S ε α) s = some (.ok b, s') ↔ b = g s ∧ s' = s := by
  simp [read, eq_comm]

theorem ofExcept_ok {x : Except ε α} :
    (ofExcept x : Locked S ε α) s = some (.ok b, s') ↔ x = .ok b ∧ s' = s := by
  cases x with
  | ok a => simp [ofExcept, ret, eq_comm]
  | error e => simp [ofExcept, fail]

theorem orFail_ok {x : Option α} :
    (orFail e x : Locked S ε α) s = some (.ok b, s') ↔ x = some b ∧ s' = s := by
  cases x with
  | some a => simp [orFail, ret, eq_comm]
  | none => simp [orFail, fail]

theorem ending_ok {x : Option α} :
    (ending x : Locked S ε α) s = some (.ok b, s') ↔ x = some b ∧ s' = s := by
  cases x with
  | some a => simp [ending, ret, eq_comm]
  | none => simp [ending]

theorem check_ok {p : Prop} [Decidable p] {u : Unit} :
    (check p e : Locked S ε Unit) s = some (.ok u, s') ↔ p ∧ s' = s := by
  unfold check
  by_cases hp : p
  · simp [hp, ret, eq_comm]
  · simp [hp, fail]

end Ok

/-- The first call succeeds, -/
theorem bind_run {m : Locked S ε α} {f : α → Locked S ε β} {s s₁ : S} {a : α}
    (h : m s = some (.ok a, s₁)) : (m >>= f) s = f a s₁ := by
  show (m s).bind (resume f) = f a s₁
  rw [h]
  rfl

/-- or it fails. -/
theorem bind_run_error {m : Locked S ε α} {f : α → Locked S ε β} {s s₁ : S} {e : ε}
    (h : m s = some (.error e, s₁)) : (m >>= f) s = some (.error e, s₁) := by
  show (m s).bind (resume f) = _
  rw [h]
  rfl

/-- The call returns from every state. -/
def Returns (m : Locked S ε α) : Prop := ∀ s, (m s).isSome

theorem returns_ret (a : α) : (ret a : Locked S ε α).Returns := fun _ => rfl

theorem returns_read (f : S → α) : (read f : Locked S ε α).Returns := fun _ => rfl

theorem returns_write (f : S → S) : (write f : Locked S ε Unit).Returns := fun _ => rfl

theorem returns_change (f : S → α × S) : (change f : Locked S ε α).Returns := fun _ => rfl

theorem returns_ofExcept (x : Except ε α) : (ofExcept x : Locked S ε α).Returns := by
  intro s
  cases x with
  | ok a => rfl
  | error e => rfl

theorem returns_orFail (e : ε) (x : Option α) : (orFail e x : Locked S ε α).Returns := by
  intro s
  cases x with
  | some a => rfl
  | none => rfl

theorem returns_check (p : Prop) [Decidable p] (e : ε) : (check p e : Locked S ε Unit).Returns := by
  intro s
  unfold check
  by_cases hp : p
  · rw [if_pos hp]
    rfl
  · rw [if_neg hp]
    rfl

/-- Two calls that return. -/
theorem Returns.bind {m : Locked S ε α} {f : α → Locked S ε β} (hm : m.Returns)
    (hf : ∀ a, (f a).Returns) : (m >>= f).Returns := by
  intro s
  obtain ⟨⟨r, s₁⟩, hr⟩ := Option.isSome_iff_exists.mp (hm s)
  show ((m s).bind (resume f)).isSome
  rw [hr]
  cases r with
  | ok a => exact hf a s₁
  | error e => rfl

/-! ## Calls that change nothing -/

/-- The call leaves the state as it finds it. -/
def Reads (m : Locked S ε α) : Prop := ∀ s r s', m s = some (r, s') → s' = s

theorem reads_ret (a : α) : (ret a : Locked S ε α).Reads := by
  intro s r s' h
  exact (congrArg Prod.snd (Option.some.inj h)).symm

theorem reads_fail (e : ε) : (fail e : Locked S ε α).Reads := by
  intro s r s' h
  exact (congrArg Prod.snd (Option.some.inj h)).symm

theorem reads_read (f : S → α) : (read f : Locked S ε α).Reads := by
  intro s r s' h
  exact (congrArg Prod.snd (Option.some.inj h)).symm

theorem reads_ofExcept (x : Except ε α) : (ofExcept x : Locked S ε α).Reads := by
  cases x with
  | ok a => exact reads_ret a
  | error e => exact reads_fail e

theorem reads_orFail (e : ε) (x : Option α) : (orFail e x : Locked S ε α).Reads := by
  cases x with
  | some a => exact reads_ret a
  | none => exact reads_fail e

theorem reads_check (p : Prop) [Decidable p] (e : ε) : (check p e : Locked S ε Unit).Reads := by
  unfold check
  split
  · exact reads_ret ()
  · exact reads_fail e

theorem reads_ending (x : Option α) : (ending x : Locked S ε α).Reads := by
  cases x with
  | some a => exact reads_ret a
  | none =>
    intro s r s' h
    cases h

/-- Two calls that only read. -/
theorem Reads.bind {m : Locked S ε α} {f : α → Locked S ε β} (hm : m.Reads)
    (hf : ∀ a, (f a).Reads) : (m >>= f).Reads := by
  intro s r s' h
  rcases bind_eq_some.mp h with ⟨a, s₁, hs, h⟩ | ⟨e, hs, _⟩
  · rw [hf a s₁ r s' h, hm s (.ok a) s₁ hs]
  · exact hm s (.error e) s' hs

/-- `f` reads the same of the state before and after. -/
def Keeps {γ : Type} (f : S → γ) (m : Locked S ε α) : Prop :=
  ∀ s r s', m s = some (r, s') → f s' = f s

section Keeps

variable {γ : Type} {f : S → γ}

/-- Who only reads keeps everything. -/
theorem Reads.keeps {m : Locked S ε α} (hm : m.Reads) : m.Keeps f := by
  intro s r s' h
  rw [hm s r s' h]

/-- A write that leaves this part of the state alone. -/
theorem keeps_write {g : S → S} (h : ∀ s, f (g s) = f s) : (write g : Locked S ε Unit).Keeps f := by
  intro s r s' hs
  have he : g s = s' := congrArg Prod.snd (Option.some.inj hs)
  exact he ▸ h s

theorem keeps_change {g : S → α × S} (h : ∀ s, f (g s).2 = f s) :
    (change g : Locked S ε α).Keeps f := by
  intro s r s' hs
  have he : (g s).2 = s' := congrArg Prod.snd (Option.some.inj hs)
  exact he ▸ h s

/-- Two calls that keep it. -/
theorem Keeps.bind {m : Locked S ε α} {k : α → Locked S ε β} (hm : m.Keeps f)
    (hk : ∀ a, (k a).Keeps f) : (m >>= k).Keeps f := by
  intro s r s' h
  rcases bind_eq_some.mp h with ⟨a, s₁, hs, h⟩ | ⟨e, hs, _⟩
  · rw [hk a s₁ r s' h, hm s (.ok a) s₁ hs]
  · exact hm s (.error e) s' hs

end Keeps

/-- A call that reads first either ends there or goes on in the same state. -/
theorem Reads.bind_cases {m : Locked S ε α} {f : α → Locked S ε β} (hm : m.Reads) {s s' : S}
    {r : Except ε β} (h : (m >>= f) s = some (r, s')) :
    s' = s ∨ ∃ a, m s = some (.ok a, s) ∧ f a s = some (r, s') := by
  rcases bind_eq_some.mp h with ⟨a, s₁, hs, h⟩ | ⟨e, hs, _⟩
  · have heq : s₁ = s := hm s _ s₁ hs
    rw [heq] at hs h
    exact .inr ⟨a, hs, h⟩
  · exact .inl (hm s _ s' hs)

/-! ## Failure -/

/-- The run from `s` does not fail. -/
def Succeeds (m : Locked S ε α) (s : S) : Prop := ∀ e s', m s ≠ some (.error e, s')

/-- If the run from `s` fails, it leaves the state as it was. -/
def Atomic (m : Locked S ε α) (s : S) : Prop := ∀ e s', m s = some (.error e, s') → s' = s

/-- What is read before the first change does not matter. -/
theorem atomic_bind {m : Locked S ε α} {f : α → Locked S ε β} (hm : m.Reads) {s : S} :
    (m >>= f).Atomic s ↔ ∀ a, m s = some (.ok a, s) → (f a).Atomic s := by
  constructor
  · intro h a ha e s' hs
    exact h e s' (bind_eq_some.mpr (.inl ⟨a, s, ha, hs⟩))
  · intro h e s' hs
    rcases bind_eq_some.mp hs with ⟨a, s₁, ha, hf⟩ | ⟨e', he, _⟩
    · have heq : s₁ = s := hm s (.ok a) s₁ ha
      rw [heq] at ha hf
      exact h a ha e s' hf
    · exact hm s (.error e') s' he

/-- A run that does not fail has nothing to undo. -/
theorem Succeeds.atomic {m : Locked S ε α} {s : S} (h : m.Succeeds s) : m.Atomic s :=
  fun e s' hs => absurd hs (h e s')

theorem succeeds_ret (a : α) (s : S) : (ret a : Locked S ε α).Succeeds s := by
  intro e s' h
  cases h

theorem not_succeeds_fail (e : ε) (s : S) : ¬ (fail e : Locked S ε α).Succeeds s := by
  intro h
  exact h e s rfl

theorem succeeds_write (f : S → S) (s : S) : (write f : Locked S ε Unit).Succeeds s := by
  intro e s' h
  cases h

theorem succeeds_read_bind (g : S → α) (f : α → Locked S ε β) (s : S) :
    (read g >>= f).Succeeds s ↔ (f (g s)).Succeeds s := Iff.rfl

theorem succeeds_ofExcept_bind (x : Except ε α) (f : α → Locked S ε β) (s : S) :
    (ofExcept x >>= f).Succeeds s ↔ ∃ a, x = .ok a ∧ (f a).Succeeds s := by
  cases x with
  | ok a =>
    show (f a).Succeeds s ↔ _
    simp
  | error e =>
    show (fail e : Locked S ε β).Succeeds s ↔ _
    simp [not_succeeds_fail]

theorem succeeds_orFail_bind (e : ε) (x : Option α) (f : α → Locked S ε β) (s : S) :
    (orFail e x >>= f).Succeeds s ↔ ∃ a, x = some a ∧ (f a).Succeeds s := by
  cases x with
  | some a =>
    show (f a).Succeeds s ↔ _
    simp
  | none =>
    show (fail e : Locked S ε β).Succeeds s ↔ _
    simp [not_succeeds_fail]

theorem succeeds_check_bind (p : Prop) [Decidable p] (e : ε) (f : Unit → Locked S ε β) (s : S) :
    (check p e >>= f).Succeeds s ↔ p ∧ (f ()).Succeeds s := by
  unfold check
  by_cases hp : p
  · rw [if_pos hp]
    show (f ()).Succeeds s ↔ _
    simp [hp]
  · rw [if_neg hp]
    show (fail e : Locked S ε β).Succeeds s ↔ _
    simp [hp, not_succeeds_fail]

/-- Both calls have to succeed. -/
theorem succeeds_bind {m : Locked S ε α} {f : α → Locked S ε β} {s : S} :
    (m >>= f).Succeeds s ↔
      m.Succeeds s ∧ ∀ a s₁, m s = some (.ok a, s₁) → (f a).Succeeds s₁ := by
  constructor
  · intro h
    constructor
    · intro e s' hs
      exact h e s' (bind_eq_some.mpr (.inr ⟨e, hs, rfl⟩))
    · intro a s₁ hs e s' hf
      exact h e s' (bind_eq_some.mpr (.inl ⟨a, s₁, hs, hf⟩))
  · rintro ⟨hm, hf⟩ e s' hs
    rcases bind_eq_some.mp hs with ⟨a, s₁, ha, hs⟩ | ⟨e', he, _⟩
    · exact hf a s₁ ha e s' hs
    · exact hm e' s' he

/-- Behind an atomic call nothing may fail. -/
theorem Atomic.bind {m : Locked S ε α} {f : α → Locked S ε β} {s : S} (hm : m.Atomic s)
    (hf : ∀ a s₁, m s = some (.ok a, s₁) → (f a).Succeeds s₁) : (m >>= f).Atomic s := by
  intro e s' hs
  rcases bind_eq_some.mp hs with ⟨a, s₁, ha, hs⟩ | ⟨e', he, _⟩
  · exact absurd hs (hf a s₁ ha e s')
  · exact hm e' s' he

/-- `size` never shrinks. -/
def Grows (size : S → ℕ) (m : Locked S ε α) : Prop :=
  ∀ s r s', m s = some (r, s') → size s ≤ size s'

/-- Behind a change that nothing undoes, a run that fails has changed the state. -/
theorem atomic_changed {size : S → ℕ} {m : Locked S ε α} (hm : m.Grows size) {s s₁ : S}
    (h : size s < size s₁) :
    (∀ e s', m s₁ = some (.error e, s') → s' = s) ↔ m.Succeeds s₁ := by
  constructor
  · intro hs e s' he
    have heq : s' = s := hs e s' he
    have hle : size s₁ ≤ size s' := hm s₁ _ s' he
    rw [heq] at hle
    exact Nat.lt_irrefl _ (Nat.lt_of_lt_of_le h hle)
  · intro hs e s' he
    exact absurd he (hs e s')

/-- Who only reads makes nothing smaller. -/
theorem Reads.grows {m : Locked S ε α} (hm : m.Reads) (size : S → ℕ) : m.Grows size := by
  intro s r s' h
  exact Nat.le_of_eq (congrArg size (hm s r s' h).symm)

theorem grows_write {f : S → S} {size : S → ℕ} (h : ∀ s, size s ≤ size (f s)) :
    (write f : Locked S ε Unit).Grows size := by
  intro s r s' hs
  have he : f s = s' := congrArg Prod.snd (Option.some.inj hs)
  exact he ▸ h s

/-- Two calls that make nothing smaller. -/
theorem Grows.bind {size : S → ℕ} {m : Locked S ε α} {f : α → Locked S ε β} (hm : m.Grows size)
    (hf : ∀ a, (f a).Grows size) : (m >>= f).Grows size := by
  intro s r s' h
  rcases bind_eq_some.mp h with ⟨a, s₁, hs, h⟩ | ⟨e, hs, _⟩
  · exact Nat.le_trans (hm s _ s₁ hs) (hf a s₁ r s' h)
  · exact hm s _ s' hs

/-! ## Sequences of calls -/

/-- The states that calls lead to, one after the other, each admitted in the
state it is made in. -/
inductive Visits {Call : Type} (serve : Call → Locked S ε α) (admits : S → Call → Prop) (s₀ : S) :
    S → Prop
  | init : Visits serve admits s₀ s₀
  | call {s s' : S} {r : Except ε α} (c : Call) : Visits serve admits s₀ s → admits s c →
      serve c s = some (r, s') → Visits serve admits s₀ s'

/-- What holds at the start and is kept by every admitted call holds in every
state that is reached. -/
theorem Visits.invariant {Call : Type} {serve : Call → Locked S ε α} {admits : S → Call → Prop}
    {s₀ s : S} {P : S → Prop} (h : Visits serve admits s₀ s) (hinit : P s₀)
    (hstep : ∀ c s r s', P s → admits s c → serve c s = some (r, s') → P s') : P s := by
  induction h with
  | init => exact hinit
  | call c _ hc hs ih => exact hstep c _ _ _ ih hc hs

end Locked
