import AnyStore.Refinement.Contract

/-!
# Rules for the programs of the store

* Inside a transaction, `Onward t s s'` relates two states of the same
  transaction: what is locked in `s` is still as it was in `s'`. The rules
  `txp_run`, `txp_select`, `txp_lockOrder`, `txp_draw` lead from one such state
  to the next, and `Committable` is what a body has to reach.
* Between transactions, `Serves S t p P s` says that process `t`, idle in `s`,
  may run `p` and is idle again when `p` is done, with `P` if it succeeded;
  `Ends S t p P s` speaks of failures as well.

`txpOr … F` and `ends_transaction` say more about a body that fails: one of its
calls has failed from outside, or it gave up for one of the reasons `F`.
-/

namespace AnyStore

open ReadCommitted

variable {S : Setting} {t : Nat} {s s' s₁ s₂ s₃ : DbState} {α β : Type}
variable {sess : Session Row.Val Label} {F : DomainError → DbState → Prop}

/-! ## Progress of a transaction -/

/-- The same transaction, some steps later. -/
structure Onward (t : Nat) (s s' : DbState) : Prop where
  later : Later s s'
  unused : Unused t s s'
  locks : ∀ sess, s.session t = some sess → Protected sess s s' ∧ ∃ sess',
    s'.session t = some sess' ∧ (∀ l ∈ sess.locks, l ∈ sess'.locks) ∧
      (sess.advisory = true → sess'.advisory = true)

/-- No step, -/
theorem Onward.refl (t : Nat) (s : DbState) : Onward t s s :=
  ⟨.refl s, .of_same rfl, fun sess hs => ⟨.refl sess s, sess, hs, fun _ h => h, id⟩⟩

/-- or some and then some more. -/
theorem Onward.trans (h : Onward t s₁ s₂) (h' : Onward t s₂ s₃) : Onward t s₁ s₃ := by
  refine ⟨h.later.trans h'.later, h.unused.trans h'.unused h.later, fun sess hs => ?_⟩
  obtain ⟨hp, sess₂, hs₂, hl, ha⟩ := h.locks sess hs
  obtain ⟨hp', sess₃, hs₃, hl', ha'⟩ := h'.locks sess₂ hs₂
  exact ⟨hp.trans hp' hl ha, sess₃, hs₃, fun l h => hl' l (hl l h), fun h => ha' (ha h)⟩

/-- What others do in between is progress, too. -/
theorem Since.onward (h : Since t s s') : Onward t s s' :=
  ⟨h.later, h.unused, fun sess hs => ⟨h.locks sess hs, sess, h.session.trans hs, fun _ h => h, id⟩⟩

/-- A silent step that keeps the locks. -/
theorem Onward.of_silent {sess' : Session Row.Val Label} (h : Silent liveNameUq t s s')
    (hs : s.session t = some sess) (hs' : s'.session t = some sess')
    (hl : ∀ l ∈ sess.locks, l ∈ sess'.locks)
    (ha : sess.advisory = true → sess'.advisory = true) : Onward t s s' := by
  refine ⟨later_of_silent h, .of_same h.db, fun sess₁ hs₁ => ?_⟩
  obtain rfl : sess = sess₁ := Option.some.inj (hs.symm.trans hs₁)
  exact ⟨.of_same sess h.db h.wal, sess', hs', hl, ha⟩

namespace Onward

/-- A locked row is as it was. -/
theorem lookup (h : Onward t s s') (hs : s.session t = some sess) {r : Row} {m : LockMode}
    (hm : (r, m) ∈ sess.locks) (hk : m ≠ .keyShare) : s'.db.lookup r = s.db.lookup r :=
  (h.locks sess hs).1.locked r m hm hk

/-- A locked object is as it was, -/
theorem object (h : Onward t s s') (hs : s.session t = some sess) {id : ObjectId} {m : LockMode}
    (hm : (Row.object id, m) ∈ sess.locks) (hk : m ≠ .keyShare) :
    Db.object s'.db id = Db.object s.db id := h.lookup hs hm hk

/-- and so is whether it is live. -/
theorem live (h : Onward t s s') (hs : s.session t = some sess) {id : ObjectId} {m : LockMode}
    (hm : (Row.object id, m) ∈ sess.locks) (hk : m ≠ .keyShare) :
    Db.live s'.db id = Db.live s.db id := Db.live_congr (h.object hs hm hk)

/-- Locks are kept to the end, -/
theorem holds (h : Onward t s s') (hs : s.session t = some sess) {l : Row × LockMode}
    (hl : l ∈ sess.locks) : ∃ sess', s'.session t = some sess' ∧ l ∈ sess'.locks := by
  obtain ⟨_, sess', hs', hlocks, _⟩ := h.locks sess hs
  exact ⟨sess', hs', hlocks l hl⟩

/-- and so is the advisory lock. -/
theorem ordered (h : Onward t s s') (hs : s.session t = some sess) (ha : sess.advisory = true) :
    ∃ sess', s'.session t = some sess' ∧ sess'.advisory = true := by
  obtain ⟨_, sess', hs', _, ha'⟩ := h.locks sess hs
  exact ⟨sess', hs', ha' ha⟩

end Onward

/-- Process `t` got from `s` to `s₂` in its transaction and wrote `ws` on the way. -/
structure Reaches (S : Setting) (t : Nat) (sess : Session Row.Val Label) (s : DbState)
    (ws : List Write) (sess₂ : Session Row.Val Label) (s₂ : DbState) : Prop where
  onward : Onward t s s₂
  inv : StoreInv S s₂
  session : s₂.session t = some sess₂
  label : sess₂.label = sess.label
  log : sess₂.log = sess.log ++ ws

/-- Nothing was run yet. -/
theorem Reaches.refl (hs : s.session t = some sess) (hi : StoreInv S s) :
    Reaches S t sess s [] sess s := ⟨.refl t s, hi, hs, rfl, (List.append_nil _).symm⟩

/-- One statement after the other. -/
theorem Reaches.trans {sess₂ sess₃ : Session Row.Val Label} {ws ws' : List Write}
    (h : Reaches S t sess s₁ ws sess₂ s₂) (h' : Reaches S t sess₂ s₂ ws' sess₃ s₃) :
    Reaches S t sess s₁ (ws ++ ws') sess₃ s₃ :=
  ⟨h.onward.trans h'.onward, h'.inv, h'.session, h'.label.trans h.label, by
    rw [h'.log, h.log, List.append_assoc]⟩

/-! ## Rules inside a transaction -/

/-- What a statement of the transaction answers and where it leads. -/
theorem txpOr_run {stmt : Stmt α} {P : α → DbState → Prop} (hs : s.session t = some sess)
    (h : ∀ s₂ scan a, Reaches S t sess s a.writes (sess.extend a) s₂ → S.rule stmt.label s₂.db →
      stmt.run scan (replay sess.log s₂.db) = .ok a → P a.result s₂)
    (hrefuse : ∀ s₂ e, Reaches S t sess s [] sess s₂ →
      stmt.Refuses liveNameUq (replay sess.log s₂.db) e → F (mapSqlx e) s₂) :
    txpOr (contract S) t F (run stmt) P s := by
  refine txpOr_query (contract_transactional S) hs ?_ ?_
  · intro s₁ hr _ hs₁ hpm scan a ha _ _ s₂ hsilent hi₂ hs₂
    -- the statement keeps the locks and takes more
    have hon : Onward t s₁ s₂ :=
      .of_silent hsilent hs₁ hs₂ (fun l hl => List.mem_append_left _ hl) id
    refine h s₂ scan a ⟨(Since.onward hr).trans hon, hi₂, hs₂, rfl, rfl⟩ ?_ ?_
    · rw [hsilent.db]
      exact hpm
    · rw [hsilent.db]
      exact ha
  · intro s₁ hr hi hs₁ e he
    exact hrefuse s₁ e ⟨Since.onward hr, hi, hs₁, rfl, (List.append_nil _).symm⟩ he

/-- **Statement.** It sees the rows committed when it runs, and what the transaction has
written. -/
theorem txp_run {stmt : Stmt α} {P : α → DbState → Prop} (hs : s.session t = some sess)
    (h : ∀ s₂ scan a, Reaches S t sess s a.writes (sess.extend a) s₂ → S.rule stmt.label s₂.db →
      stmt.run scan (replay sess.log s₂.db) = .ok a → P a.result s₂) :
    txp (contract S) t (run stmt) P s := txpOr_run hs h fun _ _ _ _ => trivial

/-- A statement that neither locks nor writes leaves the session as it is. -/
theorem Session.extend_read {a : Answer α} (hl : a.locks = []) (hw : a.writes = []) :
    sess.extend a = sess := by
  rw [Session.extend, Answer.allLocks, hl, hw]
  simp

/-- A statement that writes no indexed row refuses by its own text only. -/
theorem refuses_run {stmt : Stmt α} {view : Db} {e : SqlError}
    (h : stmt.Refuses liveNameUq view e)
    (hindex : ∀ scan a, stmt.run scan view = .ok a → ∀ w ∈ a.writes, w.1.table ≠ .objects) :
    ∃ scan, stmt.run scan view = .error e := by
  obtain ⟨scan, h | ⟨a, ha, hnot, _⟩⟩ := h
  · exact ⟨scan, h⟩
  · refine absurd (indexOk_iff.mpr fun w hw r _ => .inl ?_) hnot
    obtain ⟨r', v⟩ := w
    have htable := hindex scan a ha _ hw
    rw [keyOf]
    cases r' with
    | object id => exact absurd rfl htable
    | _ => exact Option.bind_eq_none_iff.mpr fun _ _ => rfl

/-- A statement that only reads, and always answers. -/
theorem txp_read {stmt : Stmt α} {f : Db → α} {P : α → DbState → Prop}
    (hs : s.session t = some sess)
    (hread : ∀ scan db, stmt.run scan db = .ok { result := f db })
    (h : ∀ s₂, Reaches S t sess s [] sess s₂ → S.rule stmt.label s₂.db →
      P (f (replay sess.log s₂.db)) s₂) :
    txpOr (contract S) t F (run stmt) P s := by
  refine txpOr_run hs (fun s₂ scan a hr hrule ha => ?_) fun s₂ e _ hrefuses => ?_
  · rw [hread, Except.ok.injEq] at ha
    subst ha
    rw [Session.extend_read rfl rfl] at hr
    exact h s₂ hr hrule
  · -- a statement that writes nothing is not refused by the index
    obtain ⟨scan, herror⟩ := refuses_run hrefuses fun scan a ha w hw => by
      rw [hread, Except.ok.injEq] at ha
      rw [← ha] at hw
      exact absurd hw List.not_mem_nil
    rw [hread] at herror
    cases herror

/-- A query that only reads. -/
theorem txp_select {f : Db → α} {P : α → DbState → Prop} (hs : s.session t = some sess)
    (h : ∀ s₂, Reaches S t sess s [] sess s₂ → P (f (replay sess.log s₂.db)) s₂) :
    txpOr (contract S) t F (run (select f)) P s :=
  txp_read hs (fun _ _ => rfl) fun s₂ hr _ => h s₂ hr

/-- The Change-order lock. -/
theorem txp_lockOrder {P : Unit → DbState → Prop} (hs : s.session t = some sess)
    (h : ∀ s₂, Reaches S t sess s [] { sess with advisory := true } s₂ → P () s₂) :
    txpOr (contract S) t F (lock mapSqlx) P s := by
  refine txp_lock (contract_transactional S) hs ?_
  intro s₁ hr _ hs₁ s₂ hsilent hi₂ hs₂
  have hon : Onward t s₁ s₂ := .of_silent hsilent hs₁ hs₂ (fun _ h => h) fun _ => rfl
  exact h s₂ ⟨(Since.onward hr).trans hon, hi₂, hs₂, rfl, (List.append_nil _).symm⟩

/-- Sequence numbers, larger than all that were drawn. -/
theorem txp_draw {n : Nat} {P : List Nat → DbState → Prop} (hs : s.session t = some sess)
    (h : ∀ s₂ m, Reaches S t sess s [] sess s₂ → s.seq ≤ m → s₂.seq = m + n →
      P (List.range' (m + 1) n) s₂) :
    txpOr (contract S) t F (nextvals mapSqlx n) P s := by
  refine txp_nextvals (contract_transactional S) hs ?_
  intro s₁ hr hi hs₁ s₂ hsilent hi₂ hs₂ hseq
  have hon : Onward t s₁ s₂ := .of_silent hsilent hs₁ hs₂ (fun _ h => h) id
  exact h s₂ s₁.seq ⟨(Since.onward hr).trans hon, hi₂, hs₂, rfl, (List.append_nil _).symm⟩
    (Since.later hr).seq hseq

/-- One program after the other. -/
theorem txp_seq {p : Store α} {f : α → Store β} {P : β → DbState → Prop}
    (h : txpOr (contract S) t F p (fun a s' => txpOr (contract S) t F (f a) P s') s) :
    txpOr (contract S) t F (p >>= f) P s := txp_bind h fun _ _ h => h

/-- A branch that may be left out. -/
theorem txp_whenever {c : Prop} [Decidable c] {p : Store Unit} {P : Unit → DbState → Prop}
    (h : c → txpOr (contract S) t F p P s) (h' : ¬ c → P () s) :
    txpOr (contract S) t F (whenever c p) P s := by
  by_cases hc : c
  · rw [whenever, if_pos hc]
    exact h hc
  · rw [whenever, if_neg hc]
    exact h' hc

/-- The journal entry of a write set. -/
def entry (label : Label) (ws : List Write) : Journal := if ws = [] then [] else [(label, ws)]

/-- The body of a transaction has come to an end with a write set that may be
published whatever the other processes do before. -/
def Committable (S : Setting) (t : Nat) (label : Label) (P : α → DbState → Prop) (a : α)
    (s : DbState) : Prop :=
  ∃ sess, s.session t = some sess ∧ sess.label = label ∧ ∀ s₂, Since t s s₂ → StoreInv S s₂ →
    (sess.log ≠ [] → Commits S s₂.world s₂.wal s₂.db label sess.log ∧
      Disciplined t s₂ sess.log ∧ ∀ r ∈ feedOf sess.log, r.1 ≤ s₂.seq) ∧
    ∀ s₃, StoreInv S s₃ → Later s₂ s₃ → s₃.wal = s₂.wal ++ entry label sess.log → P a s₃

/-! ## Rules between transactions -/

/-- What a process guarantees is progress. -/
theorem Guar.later (h : Guar S t s s') : Later s s' := by
  cases h with
  | silent h => exact later_of_silent h
  | published label ws h => exact later_of_published h
  | world w hgrows h =>
    subst h
    exact .move hgrows

/-- At the end of a program it is later. -/
theorem wp_onwards {p : Store α} {Q : Except DomainError α → DbState → Prop}
    (h : wp (contract S) t p Q s) : wp (contract S) t p (fun r s' => Q r s' ∧ Later s s') s :=
  wp_later (K := contract S) Later.refl (fun _ _ _ h h' => h.trans h')
    (fun _ _ (h : Since t _ _) => h.later) (fun _ _ _ (hg : Guar S t _ _) => hg.later) h

/-- Process `t` runs `p` when it is idle, and is idle again with the result. -/
def Ends (S : Setting) (t : Nat) (p : Store α) (P : Except DomainError α → DbState → Prop)
    (s : DbState) : Prop :=
  wp (contract S) t p (fun r s' => s'.session t = none ∧ Later s s' ∧ P r s') s

/-- What holds of a result: `P` of an answer, `F` of an error. -/
def Results (P : α → DbState → Prop) (F : DomainError → DbState → Prop) :
    Except DomainError α → DbState → Prop
  | .ok a => P a
  | .error e => F e

/-- Process `t` may run `p` when it is idle. If `p` fails, one of its calls has
failed from outside, or the reason is one of `F`. -/
def ServesOr (S : Setting) (t : Nat) (F : DomainError → DbState → Prop) (p : Store α)
    (P : α → DbState → Prop) (s : DbState) : Prop :=
  Ends S t p (Results P fun e s' => t ∈ s'.failed ∨ F e s') s

/-- Process `t` may run `p` when it is idle, and is idle again afterwards. -/
def Serves (S : Setting) (t : Nat) (p : Store α) (P : α → DbState → Prop) (s : DbState) : Prop :=
  wp (contract S) t p (fun r s' => s'.session t = none ∧ Later s s' ∧ ∀ a, r = .ok a → P a s') s

variable {p : Store α} {P : α → DbState → Prop}

theorem Ends.of_wp {P : Except DomainError α → DbState → Prop}
    (h : wp (contract S) t p (fun r s' => s'.session t = none ∧ P r s') s) : Ends S t p P s :=
  wp_mono (wp_onwards h) fun _ _ h => ⟨h.1.1, h.2, h.1.2⟩

theorem ServesOr.ends (h : ServesOr S t F p P s) :
    Ends S t p (Results P fun e s' => t ∈ s'.failed ∨ F e s') s := h

/-- The reasons may be forgotten. -/
theorem ServesOr.serves (h : ServesOr S t F p P s) : Serves S t p P s := by
  refine wp_mono h fun r s' ⟨hs', hl, hr⟩ => ⟨hs', hl, fun a ha => ?_⟩
  subst ha
  exact hr

/-- A weaker end. -/
theorem Serves.mono {P' : α → DbState → Prop} (h : Serves S t p P s)
    (hP : ∀ a s', s'.session t = none → Later s s' → P a s' → P' a s') : Serves S t p P' s :=
  wp_mono h fun _ s' h => ⟨h.1, h.2.1, fun a ha => hP a s' h.1 h.2.1 (h.2.2 a ha)⟩

theorem serves_ret {a : α} (hs : s.session t = none) (h : P a s) : Serves S t (.ret a) P s :=
  ⟨hs, .refl s, fun _ ha => Except.ok.inj ha ▸ h⟩

theorem serves_fail {e : DomainError} (hs : s.session t = none) :
    Serves S t (.fail e : Store α) P s :=
  ⟨hs, .refl s, fun _ ha => nomatch ha⟩

/-- One program after the other. -/
theorem serves_seq {f : α → Store β} {P : β → DbState → Prop}
    (h : Serves S t p (fun a s' => Serves S t (f a) P s') s) : Serves S t (p >>= f) P s := by
  refine wp_bind.mpr (wp_mono h fun r s₁ ⟨hs₁, hl, hp⟩ => ?_)
  cases r with
  | ok a => exact wp_mono (hp a rfl) fun _ _ h => ⟨h.1, hl.trans h.2.1, h.2.2⟩
  | error e => exact ⟨hs₁, hl, fun _ ha => nomatch ha⟩

theorem serves_require {c : Prop} [Decidable c] {e : DomainError} {P : Unit → DbState → Prop}
    (hs : s.session t = none) (h : c → P () s) :
    Serves S t (require c e : Store Unit) P s := by
  by_cases hc : c
  · rw [require, if_pos hc]
    exact serves_ret hs (h hc)
  · rw [require, if_neg hc]
    exact serves_fail hs

theorem serves_orFail {o : Option α} {e : DomainError} (hs : s.session t = none)
    (h : ∀ a, o = some a → P a s) : Serves S t (Prog.orFail e o : Store α) P s := by
  cases o with
  | none => exact serves_fail hs
  | some a => exact serves_ret hs (h a rfl)

theorem serves_ofExcept {x : Except DomainError α} (hs : s.session t = none)
    (h : ∀ a, x = .ok a → P a s) : Serves S t (Prog.ofExcept x : Store α) P s := by
  cases x with
  | error e => exact serves_fail hs
  | ok a => exact serves_ret hs (h a rfl)

/-- A program whose failure is looked at. -/
theorem serves_attempt {Q : Except DomainError α → DbState → Prop} (h : Serves S t p P s)
    (hok : ∀ a s', s'.session t = none → Later s s' → P a s' → Q (.ok a) s')
    (herror : ∀ e s', s'.session t = none → Later s s' → Q (.error e) s') :
    Serves S t (p.attempt : Store (Except DomainError α)) Q s := by
  refine wp_attempt.mpr (wp_mono h fun r s₁ ⟨hs₁, hl, hp⟩ => ⟨hs₁, hl, fun x hx => ?_⟩)
  obtain rfl := Except.ok.inj hx
  cases r with
  | ok a => exact hok a s₁ hs₁ hl (hp a rfl)
  | error e => exact herror e s₁ hs₁ hl

/-- A transaction that fails has had a call fail, or has given up for a reason. -/
theorem servesOr_transaction {label : Label} {body : Store α} (hs : s.session t = none)
    (hF : ∀ e s₁ s₂, Later s₁ s₂ → F e s₁ → F e s₂)
    (hbody : ∀ s₂, Later s s₂ → Unused t s s₂ → StoreInv S s₂ → s₂.session t = some { label } →
      txpOr (contract S) t F body (Committable S t label P) s₂) :
    ServesOr S t F (transaction mapSqlx label body) P s := by
  have hK := contract_transactional S
  refine .of_wp (wp_transaction (P := Committable S t label P) hK hs (fun _ _ hs hr => ⟨hs, hr⟩)
    (fun e s₁ s₂ (hr : Since t s₁ s₂) => hF e s₁ s₂ hr.later)
    (fun e s₁ s₂ _ hsilent => hF e s₁ s₂ (later_of_silent hsilent)) ?_ ?_)
  · intro s₁ hr hi s₂ hsilent hs₂
    have hi₂ : StoreInv S s₂ := hi.silent hsilent
    exact hbody s₂ (hr.later.trans (later_of_silent hsilent))
      (hr.unused.trans (.of_same hsilent.db) hr.later) hi₂ hs₂
  · -- the body is done: what is left is the commit, before which others may move
    rintro a s₁ ⟨sess, hs₁, rfl, h⟩
    refine ⟨sess, hs₁, fun s₂ hr hi _ => ⟨fun hlog s₃ hsilent hs₃ => ⟨hs₃, ?_⟩, fun s₃ hp => ?_⟩⟩
    · have hi₃ : StoreInv S s₃ := hi.silent hsilent
      refine (h s₂ hr hi).2 s₃ hi₃ (later_of_silent hsilent) ?_
      rw [hsilent.wal, entry, if_pos hlog, List.append_nil]
    · obtain ⟨hcommit, hd, hseq⟩ := (h s₂ hr hi).1 hp.nonempty
      have hg : Guar S t s₂ s₃ := .published _ _ hp hcommit hd
      have hi₃ : StoreInv S s₃ := StoreInv.publish hi hp hcommit hd hseq
      refine ⟨hg, hi₃, hp.closed, (h s₂ hr hi).2 s₃ hi₃ hg.later ?_⟩
      rw [hp.wal, entry, if_neg hp.nonempty]

/-- A transaction. -/
theorem serves_transaction {label : Label} {body : Store α} (hs : s.session t = none)
    (hbody : ∀ s₂, Later s s₂ → StoreInv S s₂ → s₂.session t = some { label } →
      txp (contract S) t body (Committable S t label P) s₂) :
    Serves S t (transaction mapSqlx label body) P s :=
  (servesOr_transaction hs (fun _ _ _ _ _ => trivial) fun s₂ hl _ => hbody s₂ hl).serves

/-- A statement outside a transaction. -/
theorem servesOr_run {stmt : Stmt α} (hs : s.session t = none)
    (h : ∀ s₁ scan a, Since t s s₁ → StoreInv S s₁ → S.rule stmt.label s₁.db →
      stmt.run scan s₁.db = .ok a →
      (a.writes ≠ [] → Commits S s₁.world s₁.wal s₁.db stmt.label a.writes ∧
        Disciplined t s₁ a.writes ∧ ∀ r ∈ feedOf a.writes, r.1 ≤ s₁.seq) ∧
      ∀ s₂, StoreInv S s₂ → Later s₁ s₂ → s₂.wal = s₁.wal ++ entry stmt.label a.writes →
        P a.result s₂)
    (hrefuse : ∀ s₁ e, Since t s s₁ → stmt.Refuses liveNameUq s₁.db e → F (mapSqlx e) s₁) :
    ServesOr S t F (run stmt) P s := by
  have hK := contract_transactional S
  refine .of_wp (wp_query_auto hK hs (fun _ _ hs hr => ⟨hs, hr⟩)
    (fun s₁ hr _ _ e he => hrefuse s₁ e hr he) ?_)
  intro s₁ hr hi _ hpm scan a ha
  obtain ⟨hcommit, hpost⟩ := h s₁ scan a hr hi hpm ha
  refine ⟨fun s₂ hp => ?_, fun s₂ hstep hi₂ hs₂ => ⟨hs₂, ?_⟩⟩
  · obtain ⟨hc, hd, hseq⟩ := hcommit hp.nonempty
    exact ⟨.published _ _ hp hc hd, StoreInv.publish hi hp hc hd hseq⟩
  · -- nothing was written, or the write set was published
    rcases hstep with ⟨hnil, rfl⟩ | hp
    · exact hpost _ hi₂ (.refl _) (by rw [hnil, entry, if_pos rfl, List.append_nil])
    · obtain ⟨hc, hd, _⟩ := hcommit hp.nonempty
      have hg : Guar S t s₁ s₂ := .published _ _ hp hc hd
      exact hpost s₂ hi₂ hg.later (by rw [hp.wal, entry, if_neg hp.nonempty])

/-- A statement that only reads. -/
theorem servesOr_select {f : Db → α} (hs : s.session t = none)
    (h : ∀ s₁, Later s s₁ → StoreInv S s₁ → s₁.session t = none → P (f s₁.db) s₁) :
    ServesOr S t F (run (select f)) P s := by
  have hK := contract_transactional S
  refine .of_wp (wp_query_auto hK hs (fun _ _ hs hr => ⟨hs, hr⟩) (fun s₁ _ _ _ e he => ?_) ?_)
  · obtain ⟨scan, herror⟩ := refuses_run he fun scan a ha w hw => by
      obtain rfl := Except.ok.inj ha
      exact absurd hw List.not_mem_nil
    cases herror
  intro s₁ hr hi hs₁ _ scan a ha
  obtain rfl := Except.ok.inj ha
  refine ⟨fun s₂ hp => absurd rfl hp.nonempty, fun s₂ hstep _ hs₂ => ⟨hs₂, ?_⟩⟩
  rcases hstep with ⟨_, rfl⟩ | hp
  · exact h _ hr.later hi hs₂
  · exact absurd rfl hp.nonempty

/-- A query outside of transactions. -/
theorem serves_select {f : Db → α} (hs : s.session t = none)
    (h : ∀ s₁, Later s s₁ → StoreInv S s₁ → s₁.session t = none → P (f s₁.db) s₁) :
    Serves S t (run (select f)) P s := (servesOr_select (F := fun _ _ => True) hs h).serves

/-- A step outside the store. -/
theorem servesOr_outside {label : Label} {f : Env → World → Option (α × World)}
    (hs : s.session t = none)
    (h : ∀ s₁ e a w, Later s s₁ → StoreInv S s₁ → s₁.session t = none →
      f e s₁.world = some (a, w) → s₁.world.Grows w ∧ WorldInv S s₁.wal w ∧
      P a (s₁.move t w)) : ServesOr S t F (outside label f) P s := by
  refine .of_wp fun s₁ hr hi _ ch a s₂ he => ?_
  have he : exec liveNameUq t ch (.world ⟨label, f⟩) s₁ = some (a, s₂) := he
  obtain ⟨w, hf, rfl⟩ := exec_world he
  have hs₁ : s₁.session t = none := hr.session.trans hs
  obtain ⟨hgrows, hw, hp⟩ := h s₁ ch.world a w hr.later hi hs₁ hf
  exact ⟨.world w hgrows rfl, hi.move hgrows hw, hs₁, hp⟩

/-- A step of the world. -/
theorem serves_outside {label : Label} {f : Env → World → Option (α × World)}
    (hs : s.session t = none)
    (h : ∀ s₁ e a w, Later s s₁ → StoreInv S s₁ → s₁.session t = none →
      f e s₁.world = some (a, w) → s₁.world.Grows w ∧ WorldInv S s₁.wal w ∧
      P a (s₁.move t w)) : Serves S t (outside label f) P s :=
  (servesOr_outside (F := fun _ _ => True) hs h).serves

/-! ## Rules for results -/

theorem servesOr_ret {a : α} (hs : s.session t = none) (h : P a s) :
    ServesOr S t F (.ret a) P s := ⟨hs, .refl s, h⟩

/-- A weaker end. -/
theorem ServesOr.mono {P' : α → DbState → Prop} (h : ServesOr S t F p P s)
    (hP : ∀ a s', s'.session t = none → Later s s' → P a s' → P' a s') : ServesOr S t F p P' s := by
  refine wp_mono h fun r s' ⟨hs', hl, hr⟩ => ⟨hs', hl, ?_⟩
  cases r with
  | ok a => exact hP a s' hs' hl hr
  | error e => exact hr

/-- One program after the other. -/
theorem servesOr_seq {f : α → Store β} {P : β → DbState → Prop}
    (h : ServesOr S t F p (fun a s' => ServesOr S t F (f a) P s') s) :
    ServesOr S t F (p >>= f) P s := by
  refine wp_bind.mpr (wp_mono h fun r s₁ ⟨hs₁, hl, hr⟩ => ?_)
  cases r with
  | ok a => exact wp_mono hr fun _ _ h => ⟨h.1, hl.trans h.2.1, h.2.2⟩
  | error e => exact ⟨hs₁, hl, hr⟩

/-- What a program fails with is in its text. -/
theorem Serves.ends {F : DomainError → Prop}
    (h : Serves S t p P s) (hf : p.Fails F) : Ends S t p (fun r s' => match r with
      | .ok a => P a s'
      | .error e => F e) s := by
  refine wp_mono (wp_fails h hf) fun r s' ⟨⟨hs', hl, hp⟩, he⟩ => ⟨hs', hl, ?_⟩
  cases r with
  | ok a => exact hp a rfl
  | error e => exact he e rfl

/-- A weaker end. -/
theorem Ends.mono {P P' : Except DomainError α → DbState → Prop}
    (h : Ends S t p P s) (hP : ∀ r s', s'.session t = none → Later s s' → P r s' → P' r s') :
    Ends S t p P' s :=
  wp_mono h fun r s' ⟨hs', hl, hp⟩ => ⟨hs', hl, hP r s' hs' hl hp⟩

/-- One program after the other: an error of the first one is an error of both. -/
theorem ends_seq {f : α → Store β}
    {P : Except DomainError β → DbState → Prop}
    (h : Ends S t p (fun r s' => match r with
      | .ok a => Ends S t (f a) P s'
      | .error e => P (.error e) s') s) : Ends S t (p >>= f) P s := by
  refine wp_bind.mpr (wp_mono h fun r s₁ ⟨hs₁, hl, hp⟩ => ?_)
  cases r with
  | ok a => exact wp_mono hp fun _ _ h => ⟨h.1, hl.trans h.2.1, h.2.2⟩
  | error e => exact ⟨hs₁, hl, hp⟩

/-- A program whose failure is looked at. -/
theorem ends_attempt {f : Except DomainError α → Store β}
    {P : Except DomainError β → DbState → Prop}
    (h : Ends S t p (fun r s' => Ends S t (f r) P s') s) :
    Ends S t ((p.attempt : Store (Except DomainError α)) >>= f) P s := by
  refine wp_bind.mpr (wp_attempt.mpr (wp_mono h fun r s₁ ⟨_, hl, hp⟩ => ?_))
  exact wp_mono hp fun _ _ h => ⟨h.1, hl.trans h.2.1, h.2.2⟩

theorem ends_ret {a : α} {P : Except DomainError α → DbState → Prop} (hs : s.session t = none)
    (h : P (.ok a) s) : Ends S t (.ret a) P s := ⟨hs, .refl s, h⟩

theorem ends_fail {e : DomainError} {P : Except DomainError α → DbState → Prop}
    (hs : s.session t = none) (h : P (.error e) s) : Ends S t (.fail e) P s := ⟨hs, .refl s, h⟩

theorem ends_require {c : Prop} [Decidable c] {e : DomainError}
    {P : Except DomainError Unit → DbState → Prop} (hs : s.session t = none) (h : c → P (.ok ()) s)
    (h' : ¬ c → P (.error e) s) : Ends S t (require c e : Store Unit) P s := by
  by_cases hc : c
  · rw [require, if_pos hc]
    exact ends_ret hs (h hc)
  · rw [require, if_neg hc]
    exact ends_fail hs (h' hc)

end AnyStore
