import AnyStore.Lib.Locked

/-!
# Calls that agree

Two calls under one lock that end alike: with the same answer and in the same
state. `Agree` says so of a state they start from, together with what holds when
they succeed, so that their parts can be compared one after the other.
-/

namespace Locked

variable {S ε α β : Type} {m m' : Locked S ε α} {Q : α → S → Prop} {s : S}

/-- Both calls return, with one answer and in one state; in a success `Q` holds. -/
def Agree (m m' : Locked S ε α) (Q : α → S → Prop) (s : S) : Prop :=
  ∃ r s', m s = some (r, s') ∧ m' s = some (r, s') ∧ ∀ a, r = .ok a → Q a s'

/-- A weaker end. -/
theorem Agree.mono {Q' : α → S → Prop} (h : Agree m m' Q s) (hQ : ∀ a s', Q a s' → Q' a s') :
    Agree m m' Q' s := by
  obtain ⟨r, s', hm, hm', hq⟩ := h
  exact ⟨r, s', hm, hm', fun a ha => hQ a s' (hq a ha)⟩

/-- An error of the first parts is the answer of both calls. -/
theorem Agree.bind {f f' : α → Locked S ε β} {R : β → S → Prop} (h : Agree m m' Q s)
    (hf : ∀ a s', Q a s' → Agree (f a) (f' a) R s') : Agree (m >>= f) (m' >>= f') R s := by
  obtain ⟨r, s', hm, hm', hq⟩ := h
  cases r with
  | error e =>
    refine ⟨.error e, s', bind_run_error hm, bind_run_error hm', ?_⟩
    intro b hb
    cases hb
  | ok a =>
    obtain ⟨r, s'', hfa, hfa', hr⟩ := hf a s' (hq a rfl)
    refine ⟨r, s'', ?_, ?_, hr⟩
    · rw [bind_run hm, hfa]
    · rw [bind_run hm', hfa']

/-- Both return the same value. -/
theorem agree_ret {a : α} (h : Q a s) : Agree (ret a : Locked S ε α) (ret a) Q s := by
  refine ⟨.ok a, s, rfl, rfl, ?_⟩
  rintro _ ⟨⟩
  exact h

theorem agree_fail (e : ε) : Agree (fail e : Locked S ε α) (fail e) Q s := by
  refine ⟨.error e, s, rfl, rfl, ?_⟩
  rintro _ ⟨⟩

/-- The same check on both sides. -/
theorem agree_check {p : Prop} [Decidable p] (e : ε) {Q : Unit → S → Prop} (h : p → Q () s) :
    Agree (check p e : Locked S ε Unit) (check p e) Q s := by
  unfold check
  by_cases hp : p
  · rw [if_pos hp]
    exact agree_ret (h hp)
  · rw [if_neg hp]
    exact agree_fail e

theorem agree_orFail (e : ε) {x : Option α} (h : ∀ a, x = some a → Q a s) :
    Agree (orFail e x : Locked S ε α) (orFail e x) Q s := by
  cases x with
  | none => exact agree_fail e
  | some a => exact agree_ret (h a rfl)

theorem agree_ofExcept {x : Except ε α} (h : ∀ a, x = .ok a → Q a s) :
    Agree (ofExcept x : Locked S ε α) (ofExcept x) Q s := by
  cases x with
  | error e => exact agree_fail e
  | ok a => exact agree_ret (h a rfl)

end Locked
