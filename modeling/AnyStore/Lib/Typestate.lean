import AnyStore.Lib.Program

/-!
# Programs that follow a discipline

A `Typestate` says which operations a program may call next, given what it has
called and been answered so far. `Prog.Obeys` checks the text of a program
against it, along every path and whatever the answers; `Reachable.obeys` is
what that means for a run: every process is in some state of its discipline,
and the invariant tied to that state holds of the shared state.

The rules are `obeys_bind`, `obeys_attempt` and `Obeys.mono`.
-/

/-- What a program may call in each state, and where an answer leads. -/
structure Typestate (Op : Type → Type 1) (σ : Type) where
  allows : σ → ∀ {β : Type}, Op β → Prop
  next : σ → ∀ {β : Type}, Op β → β → σ

variable {Op : Type → Type 1} {C S Req σ ε ε' α β : Type}

namespace Prog

/-- Every path of the program keeps to the discipline and ends in `Q`. -/
def Obeys (T : Typestate Op σ) : Prog Op ε α → (Except ε α → σ → Prop) → σ → Prop
  | ret a, Q, x => Q (.ok a) x
  | fail e, Q, x => Q (.error e) x
  | call op k, Q, x => T.allows x op ∧ ∀ b, (k b).Obeys T Q (T.next x op b)

variable {T : Typestate Op σ} {x : σ}

/-- A weaker end. -/
theorem Obeys.mono {Q Q' : Except ε α → σ → Prop} {p : Prog Op ε α} (h : p.Obeys T Q x)
    (hQ : ∀ r y, Q r y → Q' r y) : p.Obeys T Q' x := by
  induction p generalizing x with
  | ret a => exact hQ _ _ h
  | fail e => exact hQ _ _ h
  | call op k ih => exact ⟨h.1, fun b => ih b (h.2 b)⟩

/-- Where the first part of a sequence ends is where the rest starts. -/
theorem obeys_bind {Q : Except ε α → σ → Prop} {p : Prog Op ε β} {f : β → Prog Op ε α} :
    (p.bind f).Obeys T Q x ↔ p.Obeys T (fun r y => match r with
      | .ok a => (f a).Obeys T Q y
      | .error e => Q (.error e) y) x := by
  induction p generalizing x with
  | ret a => exact Iff.rfl
  | fail e => exact Iff.rfl
  | call op k ih => simp only [call_bind, Obeys, ih]

/-- An attempt goes on after an error. -/
theorem obeys_attempt {Q : Except ε' (Except ε β) → σ → Prop} {p : Prog Op ε β} :
    p.attempt.Obeys T Q x ↔ p.Obeys T (fun r y => Q (.ok r) y) x := by
  induction p generalizing x with
  | ret a => exact Iff.rfl
  | fail e => exact Iff.rfl
  | call op k ih => simp only [attempt, Obeys, ih]

end Prog

/-- The invariant `I` of a process goes along with its discipline, whatever
process moves; `idle` holds of processes that have not started. -/
structure Typestate.Tracks (T : Req → Typestate Op σ) (M : Machine Op C S)
    (I : Nat → Req → σ → S → Prop) (idle : Nat → S → Prop) (start : σ) : Prop where
  begins : ∀ t req s, idle t s → I t req start s
  moves : ∀ t req x s {β : Type} (op : Op β) ch b s', I t req x s → (T req).allows x op →
    M.exec t ch op s = some (b, s') → I t req ((T req).next x op b) s'
  others : ∀ t req x u req' y s {β : Type} (op : Op β) ch b s', u ≠ t → I t req x s →
    I u req' y s → (T req').allows y op → M.exec u ch op s = some (b, s') → I t req x s'
  idles : ∀ t u req' y s {β : Type} (op : Op β) ch b s', u ≠ t → idle t s →
    I u req' y s → (T req').allows y op → M.exec u ch op s = some (b, s') → idle t s'
  crash : ∀ t req x u s, u ≠ t → I t req x s → I t req x (M.crash u s)
  crash_idle : ∀ t u s, u ≠ t → idle t s → idle t (M.crash u s)

/-- What a configuration keeps when all programs follow their disciplines. -/
structure Typestate.Kept (T : Req → Typestate Op σ) (I : Nat → Req → σ → S → Prop)
    (idle : Nat → S → Prop) (G : Regime Op S Req) (Q : Req → Except ε α → σ → Prop)
    (c : Config Op S Req ε α) : Prop where
  unborn : ∀ t, c.threads t = .unborn → idle t c.state
  running : ∀ t req born p, c.threads t = .running req born p →
    G.admits req ∧ ∃ x, I t req x c.state ∧ p.Obeys (T req) (Q req) x
  replied : ∀ r ∈ c.replies, G.admits r.req ∧ ∃ x, Q r.req r.result x

section Runs

variable {T : Req → Typestate Op σ} {M : Machine Op C S} {I : Nat → Req → σ → S → Prop}
  {idle : Nat → S → Prop} {start : σ} {serve : Req → Prog Op ε α} {G : Regime Op S Req}
  {Q : Req → Except ε α → σ → Prop} {s₀ : S} {c c' : Config Op S Req ε α}

/-- Replacing process `t` keeps what the others keep. -/
theorem Typestate.Kept.update (h : Typestate.Kept T I idle G Q c) {t : Nat}
    {th : Thread Op S Req ε α} {s : S} (hborn : th ≠ .unborn)
    (hidle : ∀ u, u ≠ t → idle u c.state → idle u s)
    (hothers : ∀ u req x, u ≠ t → I u req x c.state → I u req x s)
    (hrun : ∀ req born p, th = .running req born p →
      G.admits req ∧ ∃ x, I t req x s ∧ p.Obeys (T req) (Q req) x) :
    Typestate.Kept T I idle G Q (c.update t th s) := by
  have hother : ∀ u, u ≠ t → (c.update t th s).threads u = c.threads u := fun u hu =>
    Function.update_of_ne hu ..
  have hself : (c.update t th s).threads t = th := Function.update_self ..
  refine ⟨fun u hu => ?_, fun u req born p hu => ?_, h.replied⟩
  · have hne : u ≠ t := by
      rintro rfl
      exact hborn (hself.symm.trans hu)
    exact hidle u hne (h.unborn u (by rw [← hother u hne, hu]))
  · rcases eq_or_ne u t with rfl | hne
    · exact hrun req born p (hself.symm.trans hu)
    · obtain ⟨hadmits, x, hx, hp⟩ := h.running u req born p (by rw [← hother u hne, hu])
      exact ⟨hadmits, x, hothers u req x hne hx, hp⟩

/-- **Step.** -/
theorem Typestate.Kept.step (hT : Typestate.Tracks T M I idle start)
    (hserve : ∀ req, G.admits req → (serve req).Obeys (T req) (Q req) start)
    (h : Typestate.Kept T I idle G Q c) {m : Move Req C} (hG : G.allows m c)
    (hs : step? M serve m c = some c') : Typestate.Kept T I idle G Q c' := by
  obtain ⟨t, req, rfl, ht, rfl⟩ | ⟨t, ch, req, born, β, op, k, b, s, rfl, ht, he, rfl⟩ |
    ⟨t, req, born, r, rfl, ht, rfl⟩ | ⟨t, req, born, p, rfl, ht, rfl⟩ := step?_cases hs
  · refine h.update (by simp) (fun _ _ hi => hi) (fun _ _ _ _ hi => hi) fun req' born' p he => ?_
    cases he
    exact ⟨hG, start, hT.begins t req c.state (h.unborn t ht), hserve req hG⟩
  · obtain ⟨hadmits, x, hx, hop, hp⟩ := h.running t req born _ ht
    refine h.update (by simp) (fun u hu hi => hT.idles u t req x _ op ch b s hu.symm hi hx hop he)
      (fun u req' y hu hi => hT.others u req' y t req x _ op ch b s hu.symm hi hx hop he)
      fun req' born' p he' => ?_
    cases he'
    exact ⟨hadmits, _, hT.moves t req x _ op ch b s hx hop he, hp b⟩
  · obtain ⟨hadmits, x, hx, hp⟩ := h.running t req born _ ht
    have hend : Q req r x := by cases r <;> exact hp
    have hkept : Typestate.Kept T I idle G Q (c.update t .ended c.state) :=
      h.update (by simp) (fun _ _ hi => hi) (fun _ _ _ _ hi => hi) fun req' born' p he => (nomatch he)
    refine ⟨hkept.unborn, hkept.running, fun r' hr' => ?_⟩
    rcases List.mem_append.mp hr' with hr' | hr'
    · exact hkept.replied r' hr'
    · obtain rfl := List.mem_singleton.mp hr'
      exact ⟨hadmits, x, hend⟩
  · exact h.update (by simp) (fun u hu hi => hT.crash_idle u t _ hu.symm hi)
      (fun u req' y hu hi => hT.crash u req' y t _ hu.symm hi) fun req' born' p' he => (nomatch he)

/-- **Run.** -/
theorem Reachable.obeys (hT : Typestate.Tracks T M I idle start)
    (hserve : ∀ req, G.admits req → (serve req).Obeys (T req) (Q req) start)
    (hidle : ∀ t, idle t s₀) (h : Reachable M serve G s₀ c) : Typestate.Kept T I idle G Q c := by
  induction h with
  | init => exact ⟨fun t _ => hidle t, fun t req born p h => (nomatch h),
      fun r hr => absurd hr List.not_mem_nil⟩
  | step m _ hG hs ih => exact ih.step hT hserve hG hs

end Runs
