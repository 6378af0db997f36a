import AnyStore.Lib.Locked
import AnyStore.Lib.Program

/-!
# Programs that run one after the other

What a program does when no other process moves. `Prog.eval` runs it on a
machine with one choice for all its steps, as a call under one lock; it is a run
of the whole system (`eval_run`). `Prog.Ends` leaves every step its own choice,
out of those that are permitted there, so it relates a state to all the ways in
which the program can end. `Prog.Calls` are the states that whole calls lead to,
one after the other.

* `eval_bind`, `eval_op`, `eval_attempt`, … — what a program is as a call.
* `ends_bind`, `ends_op`, … — what a program has done when it ends.
* `Preserves` — what holds before a program and however it ends; what every call
  preserves holds after any number of them (`Calls.invariant`).
-/

namespace Prog

variable {Op : Type → Type 1} {C S ε ε' Req α β : Type}

/-! ## One choice for all steps -/

section Eval

variable (M : Machine Op C S) (t : Nat) (ch : C)

/-- Process `t` runs to its end; `none` when an operation would have to wait. -/
def eval : Prog Op ε α → Locked S ε α
  | ret a => Locked.ret a
  | fail e => Locked.fail e
  | call op k => fun s => (M.exec t ch op s).bind fun r => (k r.1).eval r.2

variable {M : Machine Op C S} {t : Nat} {ch : C} {s s' : S}

@[simp] theorem eval_ret (a : α) : (ret a : Prog Op ε α).eval M t ch = Locked.ret a := rfl

@[simp] theorem eval_fail (e : ε) : (fail e : Prog Op ε α).eval M t ch = Locked.fail e := rfl

@[simp] theorem eval_bind (p : Prog Op ε α) (f : α → Prog Op ε β) :
    (p >>= f).eval M t ch = p.eval M t ch >>= fun a => (f a).eval M t ch := by
  rw [bind_eq]
  induction p with
  | ret a => rfl
  | fail e => rfl
  | call op k ih =>
    funext s
    show (M.exec t ch op s).bind _ = ((M.exec t ch op s).bind _).bind _
    rw [Option.bind_assoc]
    congr 1
    funext r
    exact congrFun (ih r.1) r.2

@[simp] theorem eval_ofExcept (x : Except ε α) :
    (ofExcept x : Prog Op ε α).eval M t ch = Locked.ofExcept x := by
  cases x <;> rfl

@[simp] theorem eval_orFail (e : ε) (x : Option α) :
    (orFail e x : Prog Op ε α).eval M t ch = Locked.orFail e x := by
  cases x <;> rfl

/-- An operation that takes place and gives this answer. -/
theorem eval_op {op : Op α} {a : α} (h : M.exec t ch op s = some (a, s')) :
    (Prog.op op : Prog Op ε α).eval M t ch s = some (.ok a, s') := by
  show (M.exec t ch op s).bind _ = _
  rw [h]
  rfl

/-- An attempt ends with a result in any case. -/
theorem eval_attempt {p : Prog Op ε α} {r : Except ε α} (h : p.eval M t ch s = some (r, s')) :
    (p.attempt : Prog Op ε' (Except ε α)).eval M t ch s = some (.ok r, s') := by
  induction p generalizing s with
  | ret a =>
    cases h
    rfl
  | fail e =>
    cases h
    rfl
  | call op k ih =>
    obtain ⟨q, hq, h⟩ := Option.bind_eq_some_iff.mp h
    show (M.exec t ch op s).bind _ = _
    rw [hq]
    exact ih q.1 h

/-- What a program does alone is a run of the system. -/
theorem eval_run {serve : Req → Prog Op ε α} {p : Prog Op ε α} {r : Except ε α}
    (h : p.eval M t ch s = some (r, s')) (req : Req) (born : S) (c : Config Op S Req ε α) :
    ∃ n, run? M serve (List.replicate n (.exec t ch) ++ [.finish t])
      (c.update t (.running req born p) s) =
        some ((c.update t .ended s').answer ⟨t, req, born, r⟩) := by
  induction p generalizing s with
  | ret a =>
    cases h
    exact ⟨0, by simp [run?, step?, Config.update]⟩
  | fail e =>
    cases h
    exact ⟨0, by simp [run?, step?, Config.update]⟩
  | call op k ih =>
    obtain ⟨⟨b, s₁⟩, he, h⟩ := Option.bind_eq_some_iff.mp h
    obtain ⟨n, hn⟩ := ih b h
    refine ⟨n + 1, ?_⟩
    have hstep : step? M serve (.exec t ch) (c.update t (.running req born (.call op k)) s) =
        some (c.update t (.running req born (k b)) s₁) := by
      simp [step?, Config.update, he]
    rw [List.replicate_succ, List.cons_append, run?, hstep]
    exact hn

end Eval

/-! ## A choice for each step -/

section Ends

variable (M : Machine Op C S) (t : Nat) (permits : ∀ {β : Type}, Op β → C → Prop)

/-- The program, started in one state, can end with this result in that one. -/
inductive Ends : Prog Op ε α → S → Except ε α → S → Prop
  | ret (a : α) (s : S) : Ends (.ret a) s (.ok a) s
  | fail (e : ε) (s : S) : Ends (.fail e) s (.error e) s
  | call {β : Type} {op : Op β} {k : β → Prog Op ε α} {s s₁ s' : S} {b : β} {r : Except ε α}
      (ch : C) : permits op ch → M.exec t ch op s = some (b, s₁) → Ends (k b) s₁ r s' →
      Ends (.call op k) s r s'

variable {M : Machine Op C S} {t : Nat} {permits : ∀ {β : Type}, Op β → C → Prop} {s s' : S}

/-- Nothing is left to do. -/
theorem ends_ret {a : α} {r : Except ε α} :
    Ends M t permits (.ret a) s r s' ↔ r = .ok a ∧ s' = s := by
  constructor
  · intro h
    cases h
    exact ⟨rfl, rfl⟩
  · rintro ⟨rfl, rfl⟩
    exact .ret a s'

theorem ends_fail {e : ε} {r : Except ε α} :
    Ends M t permits (.fail e : Prog Op ε α) s r s' ↔ r = .error e ∧ s' = s := by
  constructor
  · intro h
    cases h
    exact ⟨rfl, rfl⟩
  · rintro ⟨rfl, rfl⟩
    exact .fail e s'

/-- The operation is run with a choice that is permitted, and then the rest. -/
theorem ends_call {op : Op β} {k : β → Prog Op ε α} {r : Except ε α} :
    Ends M t permits (.call op k) s r s' ↔
      ∃ ch b s₁, permits op ch ∧ M.exec t ch op s = some (b, s₁) ∧
        Ends M t permits (k b) s₁ r s' := by
  constructor
  · intro h
    cases h with
    | call ch hp he hk => exact ⟨ch, _, _, hp, he, hk⟩
  · rintro ⟨ch, b, s₁, hp, he, hk⟩
    exact .call ch hp he hk

/-- Both programs have run, or the first one has failed. -/
theorem ends_bind {p : Prog Op ε α} {f : α → Prog Op ε β} {r : Except ε β} :
    Ends M t permits (p >>= f) s r s' ↔
      (∃ a s₁, Ends M t permits p s (.ok a) s₁ ∧ Ends M t permits (f a) s₁ r s') ∨
        ∃ e, Ends M t permits p s (.error e) s' ∧ r = .error e := by
  rw [bind_eq]
  induction p generalizing s with
  | ret a =>
    simp only [ret_bind, ends_ret, Except.ok.injEq, reduceCtorEq, false_and, exists_false, or_false]
    constructor
    · exact fun h => ⟨a, s, ⟨rfl, rfl⟩, h⟩
    · rintro ⟨_, _, ⟨rfl, rfl⟩, h⟩
      exact h
  | fail e =>
    simp only [fail_bind, ends_fail, Except.error.injEq, reduceCtorEq, false_and, exists_false,
      false_or]
    constructor
    · rintro ⟨rfl, rfl⟩
      exact ⟨e, ⟨rfl, rfl⟩, rfl⟩
    · rintro ⟨_, ⟨rfl, rfl⟩, rfl⟩
      exact ⟨rfl, rfl⟩
  | call op k ih =>
    rw [call_bind, ends_call]
    constructor
    · rintro ⟨ch, b, s₁, hp, he, hk⟩
      rcases (ih b).mp hk with ⟨a, s₂, hka, hf⟩ | ⟨e, hke, hr⟩
      · exact .inl ⟨a, s₂, .call ch hp he hka, hf⟩
      · exact .inr ⟨e, .call ch hp he hke, hr⟩
    · rintro (⟨a, s₂, h, hf⟩ | ⟨e, h, hr⟩)
      · obtain ⟨ch, b, s₁, hp, he, hk⟩ := ends_call.mp h
        exact ⟨ch, b, s₁, hp, he, (ih b).mpr (.inl ⟨a, s₂, hk, hf⟩)⟩
      · obtain ⟨ch, b, s₁, hp, he, hk⟩ := ends_call.mp h
        exact ⟨ch, b, s₁, hp, he, (ih b).mpr (.inr ⟨e, hk, hr⟩)⟩

/-- A single operation. -/
theorem ends_op {op : Op α} {r : Except ε α} :
    Ends M t permits (Prog.op op) s r s' ↔
      ∃ ch b, permits op ch ∧ M.exec t ch op s = some (b, s') ∧ r = .ok b := by
  unfold Prog.op
  rw [ends_call]
  simp only [ends_ret]
  constructor
  · rintro ⟨ch, b, _, hp, he, hr, rfl⟩
    exact ⟨ch, b, hp, he, hr⟩
  · rintro ⟨ch, b, hp, he, hr⟩
    exact ⟨ch, b, s', hp, he, hr, rfl⟩

/-- A run with one choice is one way to end. -/
theorem ends_of_eval {p : Prog Op ε α} {r : Except ε α} {ch : C}
    (hpermits : ∀ {β : Type} (op : Op β), permits op ch) (h : p.eval M t ch s = some (r, s')) :
    Ends M t permits p s r s' := by
  induction p generalizing s with
  | ret a =>
    cases h
    exact .ret a _
  | fail e =>
    cases h
    exact .fail e _
  | call op k ih =>
    obtain ⟨⟨b, s₁⟩, he, h⟩ := Option.bind_eq_some_iff.mp h
    exact .call ch (hpermits op) he (ih b h)

/-- However the program ends, `I` is kept. -/
def Preserves (M : Machine Op C S) (t : Nat) (permits : ∀ {β : Type}, Op β → C → Prop)
    (I : S → Prop) (p : Prog Op ε α) : Prop :=
  ∀ s r s', I s → Ends M t permits p s r s' → I s'

variable {I : S → Prop}

theorem preserves_ret (a : α) : Preserves M t permits I (.ret a : Prog Op ε α) := by
  intro s r s' hI h
  rw [(ends_ret.mp h).2]
  exact hI

theorem preserves_fail (e : ε) : Preserves M t permits I (.fail e : Prog Op ε α) := by
  intro s r s' hI h
  rw [(ends_fail.mp h).2]
  exact hI

theorem preserves_ofExcept (x : Except ε α) :
    Preserves M t permits I (ofExcept x : Prog Op ε α) := by
  cases x with
  | ok a => exact preserves_ret a
  | error e => exact preserves_fail e

/-- An operation preserves what each of its choices does. -/
theorem preserves_op {op : Op α}
    (h : ∀ ch s a s', I s → permits op ch → M.exec t ch op s = some (a, s') → I s') :
    Preserves M t permits I (Prog.op op : Prog Op ε α) := by
  intro s r s' hI hends
  obtain ⟨ch, a, hp, he, _⟩ := ends_op.mp hends
  exact h ch s a s' hI hp he

/-- One program after the other. -/
theorem Preserves.bind {p : Prog Op ε α} {f : α → Prog Op ε β} (hp : Preserves M t permits I p)
    (hf : ∀ a, Preserves M t permits I (f a)) : Preserves M t permits I (p >>= f) := by
  intro s r s' hI h
  rcases ends_bind.mp h with ⟨a, s₁, ha, h⟩ | ⟨e, he, _⟩
  · exact hf a s₁ r s' (hp s (.ok a) s₁ hI ha) h
  · exact hp s (.error e) s' hI he

end Ends

/-! ## Sequences of calls -/

/-- The states that calls lead to, one after the other; what is permitted at a
step depends on the call. -/
inductive Calls (M : Machine Op C S) (t : Nat) (serve : Req → Prog Op ε α)
    (permits : Req → ∀ {β : Type}, Op β → C → Prop) (s₀ : S) : S → Prop
  | init : Calls M t serve permits s₀ s₀
  | call {s s' : S} {r : Except ε α} (req : Req) : Calls M t serve permits s₀ s →
      Ends M t (permits req) (serve req) s r s' → Calls M t serve permits s₀ s'

/-- **Runs.** By induction on the calls. -/
theorem Calls.invariant {M : Machine Op C S} {t : Nat} {serve : Req → Prog Op ε α}
    {permits : Req → ∀ {β : Type}, Op β → C → Prop} {s₀ s : S} {P : S → Prop}
    (h : Calls M t serve permits s₀ s) (hinit : P s₀)
    (hcall : ∀ req, Preserves M t (permits req) P (serve req)) : P s := by
  induction h with
  | init => exact hinit
  | call req _ he ih => exact hcall req _ _ _ ih he

end Prog
