import AnyStore.Lib.RelyGuarantee
import AnyStore.Lib.Isolation

/-!
# Reasoning about transactions

Programs against the store, and the proof rules for them. Inside a transaction
every operation is silent: it changes nothing that another session sees, so the
guarantee and the invariant of the contract are only at stake when a write set
is published. `txp` is the `wp` of a transaction body: a failing body has an
open session to roll back, a body that returns has reached `P`.

* `query`, `require`, `transaction` — the shapes programs are made of.
* `txp_bind`, `txpOr_query`, `txp_lock`, `txp_nextvals`, `txp_require` — the rules
  for a body. `txpOr` also says why a body gives up when no call of it failed.
* `wp_transaction` — a whole transaction: what is left to show is that the
  write set may be published when the body is done.
* `wp_query_auto` — a statement outside a transaction.
-/

namespace ReadCommitted

variable {R K L X C ε α β : Type} {Val : R → Type}

/-! ## Program shapes -/

section Programs

variable (mapErr : SqlError → ε)

/-- Runs a statement. -/
def query (stmt : Stmt Val L α) : Prog (Cmd Val L C X) ε α :=
  .call (.sql stmt) fun
    | .ok a => .ret a
    | .error e => .fail (mapErr e)

/-- Take the advisory lock. -/
def lock : Prog (Cmd Val L C X) ε Unit :=
  .call .advisoryLock fun
    | .ok a => .ret a
    | .error e => .fail (mapErr e)

/-- Draw numbers from the sequence. -/
def nextvals (n : Nat) : Prog (Cmd Val L C X) ε (List Nat) :=
  .call (.nextval n) fun
    | .ok a => .ret a
    | .error e => .fail (mapErr e)

/-- Runs a body between `begin` and `commit`; a failing body is rolled back. -/
def transaction (label : L) (body : Prog (Cmd Val L C X) ε α) : Prog (Cmd Val L C X) ε α :=
  .call (.begin label) fun
    | .error e => .fail (mapErr e)
    | .ok () => body.attempt.bind fun
      | .error e => .call .rollback fun () => .fail e
      | .ok a => .call .commit fun
        | .ok () => .ret a
        | .error e => .fail (mapErr e)

end Programs

/-- Goes on only when a condition holds. -/
def require {Op : Type → Type 1} (c : Prop) [Decidable c] (e : ε) : Prog Op ε Unit :=
  if c then .ret () else .fail e

/-- Runs a program only when a condition holds. -/
def whenever {Op : Type → Type 1} (c : Prop) [Decidable c] (p : Prog Op ε Unit) : Prog Op ε Unit :=
  if c then p else .ret ()

/-! ## Bodies of transactions -/

variable {K' : Contract (Cmd Val L C X) (Choice R C) (State Val L X)}

/-- The `wp` of a transaction body that may give up for the reasons `R'`; other
than that it fails only when one of its calls does. -/
def txpOr (K' : Contract (Cmd Val L C X) (Choice R C) (State Val L X)) (t : Nat)
    (R' : ε → State Val L X → Prop) (p : Prog (Cmd Val L C X) ε α)
    (P : α → State Val L X → Prop) : State Val L X → Prop :=
  wp K' t p fun
    | .ok a => P a
    | .error e => fun s => (s.session t).isSome ∧ (t ∈ s.failed ∨ R' e s)

/-- The `wp` of a transaction body that may fail for any reason. -/
abbrev txp (K' : Contract (Cmd Val L C X) (Choice R C) (State Val L X)) (t : Nat)
    (p : Prog (Cmd Val L C X) ε α) (P : α → State Val L X → Prop) : State Val L X → Prop :=
  txpOr K' t (fun _ _ => True) p P

variable {t : Nat} {s : State Val L X} {P : β → State Val L X → Prop}
  {R' : ε → State Val L X → Prop}
  {Q : Except ε β → State Val L X → Prop} {mapErr : SqlError → ε} {sess : Session Val L}

/-- The body returns. -/
theorem txp_ret {a : β} (h : P a s) : txpOr K' t R' (.ret a : Prog _ ε β) P s := h

/-- A body that gives up. -/
theorem txpOr_fail {e : ε} (hs : s.session t = some sess) (h : R' e s) :
    txpOr K' t R' (.fail e : Prog _ ε β) P s := by
  show (s.session t).isSome ∧ _
  rw [hs]
  exact ⟨rfl, .inr h⟩

/-- It gives up. -/
theorem txp_fail {e : ε} (hs : s.session t = some sess) :
    txp K' t (.fail e : Prog _ ε β) P s := txpOr_fail hs trivial

/-- A weaker end. -/
theorem txp_mono {P' : β → State Val L X → Prop} {p : Prog (Cmd Val L C X) ε β}
    (hp : txpOr K' t R' p P s) (h : ∀ a s, P a s → P' a s) : txpOr K' t R' p P' s := by
  refine wp_mono hp fun r s hr => ?_
  cases r with
  | ok a => exact h a s hr
  | error e => exact hr

/-- Sequencing: what the first part reaches is where the rest starts. -/
theorem txp_bind {P' : α → State Val L X → Prop} {p : Prog (Cmd Val L C X) ε α}
    {f : α → Prog (Cmd Val L C X) ε β} (hp : txpOr K' t R' p P' s)
    (h : ∀ a s', P' a s' → txpOr K' t R' (f a) P s') : txpOr K' t R' (p >>= f) P s := by
  refine wp_bind.mpr (wp_mono hp fun r s hr => ?_)
  cases r with
  | ok a => exact h a s hr
  | error e => exact hr

/-- A condition that holds, or a reason to give up. -/
theorem txpOr_require {c : Prop} [Decidable c] {e : ε} {P : Unit → State Val L X → Prop}
    (hs : s.session t = some sess) (h : c → P () s) (h' : ¬ c → R' e s) :
    txpOr K' t R' (require c e : Prog (Cmd Val L C X) ε Unit) P s := by
  by_cases hc : c
  · rw [require, if_pos hc]
    exact h hc
  · rw [require, if_neg hc]
    exact txpOr_fail hs (h' hc)

/-- The same without the reason. -/
theorem txp_require {c : Prop} [Decidable c] {e : ε} {P : Unit → State Val L X → Prop}
    (hs : s.session t = some sess) (h : c → P () s) :
    txp K' t (require c e : Prog (Cmd Val L C X) ε Unit) P s :=
  txpOr_require hs h fun _ => trivial

/-- A value that is there, or a reason to give up. -/
theorem txpOr_orFail {o : Option β} {e : ε} (hs : s.session t = some sess)
    (h : ∀ a, o = some a → P a s) (h' : o = none → R' e s) :
    txpOr K' t R' (Prog.orFail e o : Prog (Cmd Val L C X) ε β) P s := by
  cases o with
  | none => exact txpOr_fail hs (h' rfl)
  | some a => exact h a rfl

/-- The same without the reason. -/
theorem txp_orFail {o : Option β} {e : ε} (hs : s.session t = some sess)
    (h : ∀ a, o = some a → P a s) :
    txp K' t (Prog.orFail e o : Prog (Cmd Val L C X) ε β) P s :=
  txpOr_orFail hs h fun _ => trivial

/-- A computed value. -/
theorem txp_ofExcept {x : Except ε β} (hs : s.session t = some sess)
    (h : ∀ a, x = .ok a → P a s) :
    txp K' t (Prog.ofExcept x : Prog (Cmd Val L C X) ε β) P s := by
  cases x with
  | error e => exact txp_fail hs
  | ok a => exact h a rfl

variable [DecidableEq R] [DecidableEq K] {ix : (r : R) → Val r → Option K}

/-! ## Contracts about the store -/

/-- A contract about the store under which silent steps are always fine. -/
structure Transactional (ix : (r : R) → Val r → Option K)
    (K' : Contract (Cmd Val L C X) (Choice R C) (State Val L X)) : Prop where
  machine : K'.machine = machine ix
  lawful : K'.Lawful
  engine : ∀ s, K'.inv s → EngineInv ix s
  silent : ∀ t s s', K'.inv s → Silent ix t s s' → K'.guar t s s' ∧ K'.inv s'
  session : ∀ t s s', K'.rely t s s' → s'.session t = s.session t
  failed : ∀ t s s', K'.rely t s s' → t ∈ s.failed → t ∈ s'.failed

/-- A statement of a transaction: the session grows by the answer. -/
theorem txpOr_query (hK : Transactional ix K') {stmt : Stmt Val L β}
    (hs : s.session t = some sess)
    (h : ∀ s₁, K'.rely t s s₁ → K'.inv s₁ → s₁.session t = some sess →
      K'.permits t (.sql stmt) s₁ → ∀ scan a, stmt.run scan (replay sess.log s₁.db) = .ok a →
      s₁.Grants t a.allLocks → s₁.Quiet t a.waits → ∀ s₂, Silent ix t s₁ s₂ → K'.inv s₂ →
      s₂.session t = some (sess.extend a) → P a.result s₂)
    (hrefuse : ∀ s₁, K'.rely t s s₁ → K'.inv s₁ → s₁.session t = some sess → ∀ e,
      stmt.Refuses ix (replay sess.log s₁.db) e → R' (mapErr e) s₁) :
    txpOr K' t R' (query mapErr stmt) P s := by
  intro s₁ hr hi hpm ch r s₂ he
  rw [hK.machine, machine_exec] at he
  -- what others do in between leaves the session alone
  have hs₁ : s₁.session t = some sess := (hK.session t _ _ hr).trans hs
  obtain ⟨hsilent, ⟨e, rfl, rfl⟩ | ⟨e, rfl, rfl, hrefuses⟩ |
    ⟨scan, a, ha, rfl, hs₂, hgrants, hquiet⟩⟩ := exec_sql_tx (hK.engine _ hi) hs₁ he
  · obtain ⟨hg, hi₂⟩ := hK.silent t _ _ hi hsilent
    refine ⟨hg, hi₂, ?_, .inl (State.mem_failed_fail ..)⟩
    show (s₁.session t).isSome
    rw [hs₁]
    rfl
  · exact ⟨(hK.silent t _ _ hi hsilent).1, hi, txpOr_fail hs₁ (hrefuse _ hr hi hs₁ e hrefuses)⟩
  · obtain ⟨hg, hi₂⟩ := hK.silent t _ _ hi hsilent
    exact ⟨hg, hi₂, h s₁ hr hi hs₁ hpm scan a ha hgrants hquiet s₂ hsilent hi₂ hs₂⟩

/-- The advisory lock is held from here to the end of the transaction. -/
theorem txp_lock (hK : Transactional ix K') {P : Unit → State Val L X → Prop}
    (hs : s.session t = some sess)
    (h : ∀ s₁, K'.rely t s s₁ → K'.inv s₁ → s₁.session t = some sess → ∀ s₂, Silent ix t s₁ s₂ →
      K'.inv s₂ → s₂.session t = some { sess with advisory := true } → P () s₂) :
    txpOr K' t R' (lock mapErr) P s := by
  intro s₁ hr hi _ ch r s₂ he
  rw [hK.machine, machine_exec] at he
  have hs₁ : s₁.session t = some sess := (hK.session t _ _ hr).trans hs
  obtain ⟨hsilent, ⟨e, rfl, rfl⟩ | ⟨sess', hs', rfl, hs₂⟩⟩ :=
    exec_advisoryLock (hK.engine _ hi) he
  · obtain ⟨hg, hi₂⟩ := hK.silent t _ _ hi hsilent
    refine ⟨hg, hi₂, ?_, .inl (State.mem_failed_fail ..)⟩
    show (s₁.session t).isSome
    rw [hs₁]
    rfl
  · obtain rfl : sess = sess' := Option.some.inj (hs₁.symm.trans hs')
    obtain ⟨hg, hi₂⟩ := hK.silent t _ _ hi hsilent
    exact ⟨hg, hi₂, h s₁ hr hi hs₁ s₂ hsilent hi₂ hs₂⟩

/-- The numbers are new. -/
theorem txp_nextvals (hK : Transactional ix K') {n : Nat}
    {P : List Nat → State Val L X → Prop} (hs : s.session t = some sess)
    (h : ∀ s₁, K'.rely t s s₁ → K'.inv s₁ → s₁.session t = some sess → ∀ s₂, Silent ix t s₁ s₂ →
      K'.inv s₂ → s₂.session t = some sess → s₂.seq = s₁.seq + n →
      P (List.range' (s₁.seq + 1) n) s₂) :
    txpOr K' t R' (nextvals mapErr n) P s := by
  intro s₁ hr hi _ ch r s₂ he
  rw [hK.machine, machine_exec] at he
  have hs₁ : s₁.session t = some sess := (hK.session t _ _ hr).trans hs
  obtain ⟨hsilent, hsess, hr'⟩ := exec_nextval (hK.engine _ hi) he
  have hs₂ : s₂.session t = some sess := by
    rw [State.session, hsess]
    exact hs₁
  obtain ⟨hg, hi₂⟩ := hK.silent t _ _ hi hsilent
  refine ⟨hg, hi₂, ?_⟩
  obtain ⟨e, rfl, hfailed⟩ | ⟨rfl, hseq⟩ := hr'
  · refine ⟨?_, .inl hfailed⟩
    rw [hs₂]
    rfl
  · exact h s₁ hr hi hs₁ s₂ hsilent hi₂ hs₂ hseq

/-- **A transaction.** The body is verified from an empty session. When it
returns, its log may be published in every state the others can lead to. When it
fails, one of its calls has failed, or it gave up for a reason that stays. -/
theorem wp_transaction (hK : Transactional ix K') {label : L}
    {body : Prog (Cmd Val L C X) ε β}
    (hs : s.session t = none)
    (hfail : ∀ s' e, s'.session t = none → t ∈ s'.failed ∨ R' e s' → Q (.error e) s')
    (hrely : ∀ e s₁ s₂, K'.rely t s₁ s₂ → R' e s₁ → R' e s₂)
    (hsilent : ∀ e s₁ s₂, K'.inv s₁ → Silent ix t s₁ s₂ → R' e s₁ → R' e s₂)
    (hbody : ∀ s₁, K'.rely t s s₁ → K'.inv s₁ → ∀ s₂, Silent ix t s₁ s₂ →
      s₂.session t = some { label } → txpOr K' t R' body P s₂)
    (hcommit : ∀ a s₁, P a s₁ → ∃ sess, s₁.session t = some sess ∧
      ∀ s₂, K'.rely t s₁ s₂ → K'.inv s₂ → s₂.session t = some sess →
        (sess.log = [] → ∀ s₃, Silent ix t s₂ s₃ → s₃.session t = none → Q (.ok a) s₃) ∧
        ∀ s₃, Published ix t sess.label sess.log s₂ s₃ →
          K'.guar t s₂ s₃ ∧ K'.inv s₃ ∧ Q (.ok a) s₃) :
    wp K' t (transaction mapErr label body) Q s := by
  intro s₁ hr hi _ ch r s₂ he
  rw [hK.machine, machine_exec] at he
  have hs₁ : s₁.session t = none := (hK.session t _ _ hr).trans hs
  obtain ⟨hsilent₂, ⟨e, rfl, rfl⟩ | ⟨rfl, hs₂⟩⟩ := exec_begin (hK.engine _ hi) he
  · obtain ⟨hg, hi₂⟩ := hK.silent t _ _ hi hsilent₂
    exact ⟨hg, hi₂, hfail _ _ hs₁ (.inl (State.mem_failed_fail ..))⟩
  obtain ⟨hg, hi₂⟩ := hK.silent t _ _ hi hsilent₂
  refine ⟨hg, hi₂, wp_bind.mpr (wp_attempt.mpr (wp_mono (hbody s₁ hr hi s₂ hsilent₂ hs₂) ?_))⟩
  intro r s₃ hr₃
  cases r with
  | error e =>
    -- roll back; the reason for it stays
    obtain ⟨_, hreason⟩ := hr₃
    intro s₄ hr₄ hi₄ _ ch₄ r₄ s₅ he₄
    rw [hK.machine, machine_exec] at he₄
    obtain ⟨hsilent₅, hclosed⟩ := exec_rollback (hK.engine _ hi₄) he₄
    obtain ⟨hg₅, hi₅⟩ := hK.silent t _ _ hi₄ hsilent₅
    refine ⟨hg₅, hi₅, hfail _ _ hclosed ?_⟩
    exact hreason.imp (fun h => hsilent₅.failed (hK.failed t _ _ hr₄ h))
      fun h => hsilent e _ _ hi₄ hsilent₅ (hrely e _ _ hr₄ h)
  | ok a =>
    obtain ⟨sess, hsess, hpub⟩ := hcommit a s₃ hr₃
    intro s₄ hr₄ hi₄ _ ch₄ r₄ s₅ he₄
    rw [hK.machine, machine_exec] at he₄
    have hs₄ : s₄.session t = some sess := (hK.session t _ _ hr₄).trans hsess
    obtain ⟨hempty, hpub⟩ := hpub s₄ hr₄ hi₄ hs₄
    obtain ⟨hclosed, hfailed, ⟨⟨e, rfl⟩, hsilent₅⟩ | ⟨hlog, hsilent₅⟩ | hpub₅⟩ :=
      exec_commit (hK.engine _ hi₄) hs₄ he₄
    · obtain ⟨hg₅, hi₅⟩ := hK.silent t _ _ hi₄ hsilent₅
      exact ⟨hg₅, hi₅, hfail _ _ hclosed (.inl (hfailed e rfl))⟩
    · obtain ⟨hg₅, hi₅⟩ := hK.silent t _ _ hi₄ hsilent₅
      refine ⟨hg₅, hi₅, ?_⟩
      cases r₄ with
      | ok u => exact hempty hlog _ hsilent₅ hclosed
      | error e => exact hfail _ _ hclosed (.inl (hfailed e rfl))
    · obtain ⟨hg₅, hi₅, hq⟩ := hpub _ hpub₅
      refine ⟨hg₅, hi₅, ?_⟩
      cases r₄ with
      | ok u => exact hq
      | error e => exact hfail _ _ hclosed (.inl (hfailed e rfl))

/-- A statement outside a transaction is published at once. -/
theorem wp_query_auto (hK : Transactional ix K') {stmt : Stmt Val L β} (hs : s.session t = none)
    (hfail : ∀ s' e, s'.session t = none → t ∈ s'.failed ∨ R' e s' → Q (.error e) s')
    (hrefuse : ∀ s₁, K'.rely t s s₁ → K'.inv s₁ → s₁.session t = none → ∀ e,
      stmt.Refuses ix s₁.db e → R' (mapErr e) s₁)
    (h : ∀ s₁, K'.rely t s s₁ → K'.inv s₁ → s₁.session t = none →
      K'.permits t (.sql stmt) s₁ → ∀ scan a, stmt.run scan s₁.db = .ok a →
      (∀ s₂, Published ix t stmt.label a.writes s₁ s₂ → K'.guar t s₁ s₂ ∧ K'.inv s₂) ∧
      ∀ s₂, (a.writes = [] ∧ s₂ = s₁ ∨ Published ix t stmt.label a.writes s₁ s₂) →
        K'.inv s₂ → s₂.session t = none → Q (.ok a.result) s₂) :
    wp K' t (query mapErr stmt) Q s := by
  intro s₁ hr hi hpm ch r s₂ he
  rw [hK.machine, machine_exec] at he
  have hs₁ : s₁.session t = none := (hK.session t _ _ hr).trans hs
  have hrefl : Silent ix t s₁ s₁ := .refl (hK.engine _ hi)
  obtain ⟨e, rfl, rfl⟩ | ⟨e, rfl, rfl, hrefuses⟩ | ⟨scan, a, ha, _, hdone⟩ :=
    exec_sql_auto (hK.engine _ hi) hs₁ he
  · obtain ⟨hg, hi₂⟩ := hK.silent t _ _ hi hrefl.fail
    exact ⟨hg, hi₂, hfail _ _ hs₁ (.inl (State.mem_failed_fail ..))⟩
  · obtain ⟨hg, hi₂⟩ := hK.silent t _ _ hi hrefl
    exact ⟨hg, hi₂, hfail _ _ hs₁ (.inr (hrefuse _ hr hi hs₁ e hrefuses))⟩
  -- the statement is its own transaction: what it writes is published at once
  obtain ⟨hpub, hrest⟩ := h s₁ hr hi hs₁ hpm scan a ha
  rcases hdone with ⟨rfl, hstep⟩ | ⟨⟨e, rfl⟩, hfailed, hp⟩
  · have hnext : K'.guar t s₁ s₂ ∧ K'.inv s₂ ∧ s₂.session t = none := by
      rcases hstep with ⟨_, rfl⟩ | hp
      · obtain ⟨hg, hi₂⟩ := hK.silent t _ _ hi hrefl
        exact ⟨hg, hi₂, hs₁⟩
      · obtain ⟨hg, hi₂⟩ := hpub s₂ hp
        exact ⟨hg, hi₂, hp.closed⟩
    exact ⟨hnext.1, hnext.2.1, hrest s₂ hstep hnext.2.1 hnext.2.2⟩
  · obtain ⟨hg, hi₂⟩ := hpub s₂ hp
    -- committed, but the answer was lost
    exact ⟨hg, hi₂, hfail _ _ hp.closed (.inl hfailed)⟩

end ReadCommitted
