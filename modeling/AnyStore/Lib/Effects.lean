import AnyStore.Lib.Sequential
import Mathlib.Data.Set.Card

/-!
# Programs that surely end

Total correctness of a program that runs alone. An `Effect` says of every
operation in which states it is sure to take place and to end in a given way,
whatever the scheduler decides; `Prog.Sure` says the same of whole programs.

* `Machine.effect` — the operations of a machine under permitted choices.
* `Prog.Only` — the operations that a program can call.
* `Sure.eval` — what the program is sure of holds where it has ended with one choice.
* `Prog.batches` — a loop that takes batches out of a finite set until a batch
  is short, and `sure_batches` for it.
-/

variable {Op Op' : Type → Type 1} {C S E R ε ε' α β : Type}

/-- Which operation is sure to take place in which state and to end in which
answers and states. -/
structure Effect (Op : Type → Type 1) (S : Type) where
  run : ∀ {β : Type}, Op β → (β → S → Prop) → S → Prop
  mono : ∀ {β : Type} (op : Op β) {Q Q' : β → S → Prop} {s : S}, run op Q s →
    (∀ b s', Q b s' → Q' b s') → run op Q' s

/-- Under every permitted choice the operation of process `t` goes on. -/
def Machine.effect (M : Machine Op C S) (t : Nat) (permits : C → Prop) : Effect Op S where
  run op Q s := ∀ ch, permits ch → ∃ b s', M.exec t ch op s = some (b, s') ∧ Q b s'
  mono := by
    intro β op Q Q' s h hQ ch hch
    obtain ⟨b, s', he, hq⟩ := h ch hch
    exact ⟨b, s', he, hQ b s' hq⟩

namespace Prog

/-! ## Rules -/

/-- The program ends, and in a way that satisfies `Q`. -/
def Sure (W : Effect Op S) : Prog Op ε α → (Except ε α → S → Prop) → S → Prop
  | ret a, Q, s => Q (.ok a) s
  | fail e, Q, s => Q (.error e) s
  | call op k, Q, s => W.run op (fun b s' => (k b).Sure W Q s') s

variable {W : Effect Op S} {p : Prog Op ε α} {s : S}

/-- A weaker end. -/
theorem Sure.mono {Q Q' : Except ε α → S → Prop} (h : p.Sure W Q s)
    (hQ : ∀ r s', Q r s' → Q' r s') : p.Sure W Q' s := by
  induction p generalizing s with
  | ret a => exact hQ _ _ h
  | fail e => exact hQ _ _ h
  | call op k ih => exact W.mono op h fun b s' hk => ih b hk

/-- One after the other, where the first part does not fail. -/
theorem Sure.bind {f : α → Prog Op ε β} {Q : Except ε β → S → Prop}
    (h : p.Sure W (fun r s' => ∃ a, r = .ok a ∧ (f a).Sure W Q s') s) : (p >>= f).Sure W Q s := by
  rw [bind_eq]
  induction p generalizing s with
  | ret a =>
    obtain ⟨_, ha, hf⟩ := h
    cases ha
    exact hf
  | fail e =>
    obtain ⟨_, ha, _⟩ := h
    cases ha
  | call op k ih => exact W.mono op h fun b s' hk => ih b hk

theorem sure_ofExcept {x : Except ε α} {Q : Except ε α → S → Prop} (h : Q x s) :
    (ofExcept x : Prog Op ε α).Sure W Q s := by
  cases x with
  | ok a => exact h
  | error e => exact h

/-- An attempt ends with a result in any case. -/
theorem Sure.attempt {Q : Except ε α → S → Prop} (h : p.Sure W Q s) :
    (p.attempt : Prog Op ε' (Except ε α)).Sure W (fun r s' => ∃ r', r = .ok r' ∧ Q r' s') s := by
  induction p generalizing s with
  | ret a => exact ⟨_, rfl, h⟩
  | fail e => exact ⟨_, rfl, h⟩
  | call op k ih => exact W.mono op h fun b s' hk => ih b hk

/-- A run with one choice ends as every run does. -/
theorem Sure.eval {M : Machine Op C S} {t : Nat} {permits : C → Prop} {ch : C} {s' : S}
    {r : Except ε α} {Q : Except ε α → S → Prop} (h : p.Sure (M.effect t permits) Q s)
    (hch : permits ch) (he : p.eval M t ch s = some (r, s')) : Q r s' := by
  induction p generalizing s with
  | ret a =>
    cases he
    exact h
  | fail e =>
    cases he
    exact h
  | call op k ih =>
    obtain ⟨b, s₁, hexec, hk⟩ := h ch hch
    obtain ⟨⟨b', s₂⟩, hexec', he⟩ := Option.bind_eq_some_iff.mp he
    obtain ⟨rfl, rfl⟩ := Prod.mk.inj (Option.some.inj (hexec.symm.trans hexec'))
    exact ih b hk he

/-! ## The operations of a program -/

/-- Whatever it is answered, the program calls only operations in `P`. -/
def Only (P : ∀ {β : Type}, Op β → Prop) : Prog Op ε α → Prop
  | ret _ => True
  | fail _ => True
  | call op k => P op ∧ ∀ b, (k b).Only P

section Only

variable {P : ∀ {β : Type}, Op β → Prop}

/-- Both programs call such operations only. -/
theorem Only.bind {p : Prog Op ε α} {f : α → Prog Op ε β} (hp : p.Only P) (hf : ∀ a, (f a).Only P) :
    (p >>= f).Only P := by
  rw [bind_eq]
  induction p with
  | ret a => exact hf a
  | fail e => trivial
  | call op k ih => exact ⟨hp.1, fun b => ih b (hp.2 b)⟩

/-- More operations are allowed. -/
theorem Only.mono {P' : ∀ {β : Type}, Op β → Prop} {p : Prog Op ε α} (h : p.Only P)
    (hP : ∀ {β : Type} (op : Op β), P op → P' op) : p.Only P' := by
  induction p with
  | ret a => trivial
  | fail e => trivial
  | call op k ih => exact ⟨hP op h.1, fun b => ih b (h.2 b)⟩

theorem only_op {op : Op α} (h : P op) : (Prog.op op : Prog Op ε α).Only P := ⟨h, fun _ => trivial⟩

/-- What follows a computed result is only run if there is one. -/
theorem only_ofExcept_bind {x : Except ε α} {f : α → Prog Op ε β}
    (h : ∀ a, x = .ok a → (f a).Only P) : (ofExcept x >>= f).Only P := by
  cases x with
  | ok a => exact h a rfl
  | error e => trivial

end Only

/-! ## Batches -/

/-- Takes batches until one has fewer than `limit` members, for at most `n`
rounds; between two batches the clock may `stop` the loop. -/
def batches (limit : Nat) (take : R → Prog Op ε (R × Nat)) (late : Prog Op ε Bool) (stop : R → R) :
    Nat → R → Prog Op ε (Option R)
  | 0, _ => return none
  | n + 1, r => do
    let (r, taken) ← take r
    if taken < limit then return some r
    if ← late then return some (stop r)
    batches limit take late stop n r

section Batches

variable {W : Effect Op S} {κ : Type} {limit : Nat} {take : R → Prog Op ε (R × Nat)}
  {late : Prog Op ε Bool} {stop : R → R}

/-- While every full batch takes something out of a finite set, and nothing
comes in, a loop ends: with the set empty, unless the clock has stopped it. -/
theorem sure_batches (left : S → Set κ) (I : R → S → Prop) (reached : Prop)
    (hfinite : ∀ r s, I r s → (left s).Finite)
    (htake : ∀ r s, I r s → (take r).Sure W (fun a s' => ∃ r' taken, a = .ok (r', taken) ∧
      I r' s' ∧ left s' ⊆ left s ∧ (taken < limit → left s' = ∅) ∧
        (limit ≤ taken → left s' ≠ left s)) s)
    (hlate : ∀ r s, I r s → late.Sure W (fun a s' => ∃ b, a = .ok b ∧ (b = true → reached) ∧
      I r s' ∧ left s' = left s) s)
    {n : Nat} {r : R} {s : S} (hI : I r s) (hn : (left s).ncard < n) :
    (batches limit take late stop n r).Sure W (fun a s' => ∃ r', I r' s' ∧
      (a = .ok (some r') ∧ left s' = ∅ ∨ a = .ok (some (stop r')) ∧ reached)) s := by
  induction n generalizing r s with
  | zero => omega
  | succ n ih =>
    refine Sure.bind ((htake r s hI).mono ?_)
    rintro _ s₁ ⟨r₁, taken, rfl, hI₁, hsub, hshort, hfull⟩
    refine ⟨_, rfl, ?_⟩
    show (if taken < limit then _ else _ : Prog Op ε (Option R)).Sure W _ s₁
    by_cases htaken : taken < limit
    · rw [if_pos htaken]
      exact ⟨r₁, hI₁, .inl ⟨rfl, hshort htaken⟩⟩
    · rw [if_neg htaken]
      -- a full batch has made the set smaller
      have hless : (left s₁).ncard < (left s).ncard := by
        refine Set.ncard_lt_ncard (hsub.ssubset_of_ne ?_) (hfinite r s hI)
        exact hfull (Nat.not_lt.mp htaken)
      refine Sure.bind ((hlate r₁ s₁ hI₁).mono ?_)
      rintro _ s₂ ⟨b, rfl, hb, hI₂, hleft⟩
      refine ⟨b, rfl, ?_⟩
      cases b with
      | true => exact ⟨r₁, hI₂, .inr ⟨rfl, hb rfl⟩⟩
      | false =>
        show (batches limit take late stop n r₁).Sure W _ s₂
        refine ih hI₂ ?_
        rw [hleft]
        omega

/-- A loop that is through within `n` rounds does not need more. -/
theorem eval_batches_add {M : Machine Op C S} {t : Nat} {ch : C} {n m : Nat} {r r' : R} {s s' : S}
    (h : (batches limit take late stop n r).eval M t ch s = some (.ok (some r'), s')) :
    (batches limit take late stop (n + m) r).eval M t ch s = some (.ok (some r'), s') := by
  induction n generalizing r s with
  | zero => cases h
  | succ n ih =>
    rw [Nat.succ_add]
    unfold batches at h ⊢
    rw [eval_bind, Locked.bind_ok] at h
    obtain ⟨⟨r₁, taken⟩, s₁, htake, h⟩ := h
    rw [eval_bind, Locked.bind_run htake]
    dsimp only at h ⊢
    by_cases htaken : taken < limit
    · rw [if_pos htaken] at h ⊢
      exact h
    · rw [if_neg htaken] at h ⊢
      rw [eval_bind, Locked.bind_ok] at h
      obtain ⟨b, s₂, hlate, h⟩ := h
      rw [eval_bind, Locked.bind_run hlate]
      cases b with
      | true => exact h
      | false => exact ih h

end Batches

end Prog
