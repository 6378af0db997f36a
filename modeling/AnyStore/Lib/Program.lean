import Mathlib.Logic.Function.Basic
import Mathlib.Data.List.Basic

/-!
# Programs of concurrent processes

A process is a *program*: a finite tree of operations whose branches are the
answers. Operations stay uninterpreted here; a `Machine` gives them a meaning
on a shared state, one atomic step per operation, and `step?` interleaves any
number of processes.

* `Prog Op ε α` — programs over the operations `Op` that return an `α` or fail
  with an `ε`; a monad, so programs are written in `do` notation.
* `Machine` — what one operation of process `t` does to the shared state. The
  answer `none` means that the operation has to wait.
* `Config`, `Move`, `step?` — the processes, the shared state and the replies
  given so far; a process is spawned, runs one operation, returns or crashes.
* `Reachable` — the configurations reached from an initial state by moves that
  a `Regime` admits. A regime restricts the requests that are served and the
  states in which an operation runs; a theorem about all runs takes the regime
  that admits everything.
-/

/-! ## Programs -/

/-- A program over the operations `Op`: it returns, fails, or calls an
operation and goes on with the answer. -/
inductive Prog (Op : Type → Type 1) (ε α : Type) : Type 1
  | ret (a : α)
  | fail (e : ε)
  | call {β : Type} (op : Op β) (k : β → Prog Op ε α)

namespace Prog

variable {Op : Type → Type 1} {ε ε' α β : Type}

/-- Sequencing; a failure skips what follows. -/
def bind : Prog Op ε α → (α → Prog Op ε β) → Prog Op ε β
  | ret a, f => f a
  | fail e, _ => fail e
  | call op k, f => call op fun b => (k b).bind f

instance : Monad (Prog Op ε) where
  pure := ret
  bind := bind

/-- The program that runs one operation. -/
def op (o : Op α) : Prog Op ε α := call o ret

/-- Runs a program and hands its failure to the caller as a value. -/
def attempt : Prog Op ε α → Prog Op ε' (Except ε α)
  | ret a => ret (.ok a)
  | fail e => ret (.error e)
  | call op k => call op fun b => (k b).attempt

/-- A computed result as a program. -/
def ofExcept : Except ε α → Prog Op ε α
  | .ok a => ret a
  | .error e => fail e

/-- The value of an option, or a failure. -/
def orFail (e : ε) : Option α → Prog Op ε α
  | some a => ret a
  | none => fail e

@[simp] theorem pure_eq (a : α) : (pure a : Prog Op ε α) = ret a := rfl
@[simp] theorem bind_eq (p : Prog Op ε α) (f : α → Prog Op ε β) : p >>= f = p.bind f := rfl
@[simp] theorem ret_bind (a : α) (f : α → Prog Op ε β) : (ret a).bind f = f a := rfl
@[simp] theorem fail_bind (e : ε) (f : α → Prog Op ε β) : (fail e).bind f = fail e := rfl
@[simp] theorem call_bind {γ : Type} (o : Op γ) (k : γ → Prog Op ε α) (f : α → Prog Op ε β) :
    (call o k).bind f = call o fun b => (k b).bind f := rfl

/-- Every failure of the program satisfies `P`. -/
def Fails (P : ε → Prop) : Prog Op ε α → Prop
  | ret _ => True
  | fail e => P e
  | call _ k => ∀ b, (k b).Fails P

end Prog

/-! ## Machines and configurations -/

/-- The meaning of the operations on a shared state `S`. `C` is what the
scheduler decides about one step: failures, timing, the order of a scan. -/
structure Machine (Op : Type → Type 1) (C S : Type) where
  /-- One operation of process `t`; `none` while it has to wait. -/
  exec : Nat → C → ∀ {β : Type}, Op β → S → Option (β × S)
  /-- What remains when process `t` dies. -/
  crash : Nat → S → S

section System

variable {Op : Type → Type 1} {C S Req ε α : Type}

/-- A process: not started, running the rest of its program, or over. A running
process remembers the request it serves and the state it started in. -/
inductive Thread (Op : Type → Type 1) (S Req ε α : Type) : Type 1
  | unborn
  | running (req : Req) (born : S) (p : Prog Op ε α)
  | ended

/-- An answer given to a client, with the request and the state it was made in. -/
structure Reply (S Req ε α : Type) where
  thread : Nat
  req : Req
  born : S
  result : Except ε α

structure Config (Op : Type → Type 1) (S Req ε α : Type) : Type 1 where
  threads : Nat → Thread Op S Req ε α
  state : S
  replies : List (Reply S Req ε α)

/-- One move of the scheduler. -/
inductive Move (Req C : Type)
  | spawn (t : Nat) (req : Req)
  | exec (t : Nat) (c : C)
  | finish (t : Nat)
  | crash (t : Nat)

namespace Config

def initial (s : S) : Config Op S Req ε α := ⟨fun _ => .unborn, s, []⟩

/-- Replaces the process `t` and the shared state. -/
def update (c : Config Op S Req ε α) (t : Nat) (th : Thread Op S Req ε α) (s : S) :
    Config Op S Req ε α :=
  { c with threads := Function.update c.threads t th, state := s }

def answer (c : Config Op S Req ε α) (r : Reply S Req ε α) : Config Op S Req ε α :=
  { c with replies := c.replies ++ [r] }

end Config

/-- One step of the system; `none` when the move is not possible. -/
def step? (M : Machine Op C S) (serve : Req → Prog Op ε α) :
    Move Req C → Config Op S Req ε α → Option (Config Op S Req ε α)
  | .spawn t req, c =>
    match c.threads t with
    | .unborn => some (c.update t (.running req c.state (serve req)) c.state)
    | _ => none
  | .exec t ch, c =>
    match c.threads t with
    | .running req born (.call op k) =>
      (M.exec t ch op c.state).map fun (b, s) => c.update t (.running req born (k b)) s
    | _ => none
  | .finish t, c =>
    match c.threads t with
    | .running req born (.ret a) => some ((c.update t .ended c.state).answer ⟨t, req, born, .ok a⟩)
    | .running req born (.fail e) =>
      some ((c.update t .ended c.state).answer ⟨t, req, born, .error e⟩)
    | _ => none
  | .crash t, c =>
    match c.threads t with
    | .running _ _ _ => some (c.update t .ended (M.crash t c.state))
    | _ => none

/-- Runs a list of moves. -/
def run? (M : Machine Op C S) (serve : Req → Prog Op ε α) :
    List (Move Req C) → Config Op S Req ε α → Option (Config Op S Req ε α)
  | [], c => some c
  | m :: ms, c => (step? M serve m c).bind (run? M serve ms)

/-- Runs a list of moves as long as they pass a check. -/
def runIf? (M : Machine Op C S) (serve : Req → Prog Op ε α)
    (check : Move Req C → Config Op S Req ε α → Bool) :
    List (Move Req C) → Config Op S Req ε α → Option (Config Op S Req ε α)
  | [], c => some c
  | m :: ms, c => if check m c then (step? M serve m c).bind (runIf? M serve check ms) else none

/-- A restriction on runs: the requests that are served, and the states in
which an operation is run. -/
structure Regime (Op : Type → Type 1) (S Req : Type) where
  admits : Req → Prop
  permits : Nat → ∀ {β : Type}, Op β → S → Prop

/-- The regime allows the move in this configuration. -/
def Regime.allows (G : Regime Op S Req) : Move Req C → Config Op S Req ε α → Prop
  | .spawn _ req, _ => G.admits req
  | .exec t _, c =>
    match c.threads t with
    | .running _ _ (.call op _) => G.permits t op c.state
    | _ => True
  | .finish _, _ => True
  | .crash _, _ => True

/-- The configurations that runs under a regime reach. -/
inductive Reachable (M : Machine Op C S) (serve : Req → Prog Op ε α) (G : Regime Op S Req)
    (s₀ : S) : Config Op S Req ε α → Prop
  | init : Reachable M serve G s₀ (.initial s₀)
  | step {c c' : Config Op S Req ε α} (m : Move Req C) :
      Reachable M serve G s₀ c → G.allows m c → step? M serve m c = some c' →
      Reachable M serve G s₀ c'

variable {M : Machine Op C S} {serve : Req → Prog Op ε α} {G : Regime Op S Req} {s₀ : S}

/-- What one step can do. -/
theorem step?_cases {m : Move Req C} {c c' : Config Op S Req ε α}
    (h : step? M serve m c = some c') :
    (∃ t req, m = .spawn t req ∧ c.threads t = .unborn ∧
      c' = c.update t (.running req c.state (serve req)) c.state) ∨
    (∃ t ch req born, ∃ (β : Type) (op : Op β) (k : β → Prog Op ε α) (b : β) (s : S),
      m = .exec t ch ∧ c.threads t = .running req born (.call op k) ∧
      M.exec t ch op c.state = some (b, s) ∧ c' = c.update t (.running req born (k b)) s) ∨
    (∃ t req born r, m = .finish t ∧ c.threads t = .running req born (Prog.ofExcept r) ∧
      c' = (c.update t .ended c.state).answer ⟨t, req, born, r⟩) ∨
    (∃ t req born p, m = .crash t ∧ c.threads t = .running req born p ∧
      c' = c.update t .ended (M.crash t c.state)) := by
  cases m with
  | spawn t req =>
    simp only [step?] at h
    split at h
    · next ht => exact .inl ⟨t, req, rfl, ht, (Option.some.inj h).symm⟩
    · cases h
  | exec t ch =>
    simp only [step?] at h
    split at h
    · next req born β op k ht =>
      obtain ⟨⟨b, s⟩, he, rfl⟩ := Option.map_eq_some_iff.mp h
      exact .inr (.inl ⟨t, ch, req, born, β, op, k, b, s, rfl, ht, he, rfl⟩)
    · cases h
  | finish t =>
    simp only [step?] at h
    split at h
    · next req born a ht =>
      exact .inr (.inr (.inl ⟨t, req, born, .ok a, rfl, ht, (Option.some.inj h).symm⟩))
    · next req born e ht =>
      exact .inr (.inr (.inl ⟨t, req, born, .error e, rfl, ht, (Option.some.inj h).symm⟩))
    · cases h
  | crash t =>
    simp only [step?] at h
    split at h
    · next req born p ht =>
      exact .inr (.inr (.inr ⟨t, req, born, p, rfl, ht, (Option.some.inj h).symm⟩))
    · cases h

/-- A process that runs an operation goes on with its request. -/
theorem step?_exec_running {t : Nat} {ch : C} {req : Req} {born : S} {p : Prog Op ε α}
    {c c' : Config Op S Req ε α} (ht : c.threads t = .running req born p)
    (h : step? M serve (.exec t ch) c = some c') : ∃ p', c'.threads t = .running req born p' := by
  rcases step?_cases h with ⟨_, _, hm, _⟩ | ⟨u, _, _, _, _, _, k, b, _, hm, hu, _, hc'⟩ |
    ⟨_, _, _, _, hm, _⟩ | ⟨_, _, _, _, hm, _⟩
  · cases hm
  · obtain ⟨rfl, rfl⟩ := Move.exec.inj hm
    obtain ⟨rfl, rfl, _⟩ := Thread.running.inj (ht.symm.trans hu)
    refine ⟨k b, ?_⟩
    rw [hc']
    exact Function.update_self ..
  · cases hm
  · cases hm

/-- A run whose moves pass a check that stands for the regime stays within the
reachable configurations. -/
theorem Reachable.of_run {check : Move Req C → Config Op S Req ε α → Bool}
    {ms : List (Move Req C)} {c c' : Config Op S Req ε α}
    (hG : ∀ m d, check m d = true → G.allows m d)
    (hc : Reachable M serve G s₀ c) (h : runIf? M serve check ms c = some c') :
    Reachable M serve G s₀ c' := by
  induction ms generalizing c with
  | nil => rw [runIf?, Option.some.injEq] at h; exact h ▸ hc
  | cons m ms ih =>
    rw [runIf?] at h
    split at h
    · next hm =>
      obtain ⟨d, hd, h⟩ := Option.bind_eq_some_iff.mp h
      exact ih (hc.step m (hG m c hm) hd) h
    · cases h

/-- A run without a check. -/
theorem runIf?_true (M : Machine Op C S) (serve : Req → Prog Op ε α) (ms : List (Move Req C))
    (c : Config Op S Req ε α) : runIf? M serve (fun _ _ => true) ms c = run? M serve ms c := by
  induction ms generalizing c with
  | nil => rfl
  | cons m ms ih =>
    rw [runIf?, run?, if_pos rfl]
    exact congrArg _ (funext ih)

/-- The configurations reached by runs whose configurations all satisfy `P`. -/
inductive Throughout (M : Machine Op C S) (serve : Req → Prog Op ε α) (G : Regime Op S Req)
    (s₀ : S) (P : Config Op S Req ε α → Prop) : Config Op S Req ε α → Prop
  | init : P (.initial s₀) → Throughout M serve G s₀ P (.initial s₀)
  | step {c c' : Config Op S Req ε α} (m : Move Req C) :
      Throughout M serve G s₀ P c → G.allows m c → step? M serve m c = some c' → P c' →
      Throughout M serve G s₀ P c'

/-- Such a configuration is reachable. -/
theorem Throughout.reachable {P : Config Op S Req ε α → Prop} {c : Config Op S Req ε α}
    (h : Throughout M serve G s₀ P c) : Reachable M serve G s₀ c := by
  induction h with
  | init => exact .init
  | step m _ hG hs _ ih => exact ih.step m hG hs

end System
