import AnyStore.Lib.Effects
import AnyStore.Lib.Locked
import AnyStore.Lib.Sequential
import AnyStore.Lib.Transaction

/-!
# Transactions that run alone

On a store without open transactions a lone transaction needs neither sessions
nor locks: `solo` runs its body on the rows it sees, as a call under one lock,
and `Alone` says that the machine does the same.

* `solo_bind`, `solo_query`, `solo_require`, … — what the body of a transaction
  is as a call.
* `Alone.transaction` — a failing body leaves the rows as they were.
-/

namespace ReadCommitted

variable {R K L X C ε α β : Type} [DecidableEq R] [DecidableEq K] {Val : R → Type}

/-! ## Conditions -/

section Conditions

variable {Op : Type → Type 1} {S : Type} {M : Machine Op C S} {t : Nat} {ch : C}

@[simp] theorem eval_require {c : Prop} [Decidable c] (e : ε) :
    (require c e : Prog Op ε Unit).eval M t ch = Locked.check c e := by
  unfold require Locked.check
  split <;> rfl

@[simp] theorem eval_whenever {c : Prop} [Decidable c] (p : Prog Op ε Unit) :
    (whenever c p).eval M t ch = if c then p.eval M t ch else Locked.ret () := by
  unfold whenever
  split <;> rfl

variable {permits : ∀ {β : Type}, Op β → C → Prop} {I : S → Prop}

theorem preserves_require {c : Prop} [Decidable c] (e : ε) :
    Prog.Preserves M t permits I (require c e : Prog Op ε Unit) := by
  unfold require
  split
  · exact Prog.preserves_ret ()
  · exact Prog.preserves_fail e

theorem preserves_whenever {c : Prop} [Decidable c] {p : Prog Op ε Unit}
    (h : Prog.Preserves M t permits I p) : Prog.Preserves M t permits I (whenever c p) := by
  unfold whenever
  split
  · exact h
  · exact Prog.preserves_ret ()

end Conditions

/-! ## The body of a transaction -/

/-- What a lone transaction sees. -/
structure Solo (Val : R → Type) (X : Type) where
  db : Db Val
  seq : Nat
  world : X

/-- The store without its sessions. -/
def State.solo (s : State Val L X) : Solo Val X := ⟨s.db, s.seq, s.world⟩

section Body

variable (ix : (r : R) → Val r → Option K) (rank : R → Nat) (env : C)

/-- One operation of a body. -/
def Solo.exec (s : Solo Val X) : Cmd Val L C X β → Option (β × Solo Val X)
  | .sql stmt =>
    match stmt.run ⟨rank, fun _ => true⟩ s.db with
    | .error e => some (.error e, s)
    | .ok a =>
      if IndexOk ix (replay a.writes s.db) a.writes then
        some (.ok a.result, { s with db := replay a.writes s.db })
      else some (.error .uniqueIndex, s)
  | .advisoryLock => some (.ok (), s)
  | .nextval n => some (.ok (List.range' (s.seq + 1) n), { s with seq := s.seq + n })
  | .world op => (op.run env s.world).map fun r => (r.1, { s with world := r.2 })
  | .begin _ => none
  | .commit => none
  | .rollback => none

/-- The body of a transaction, as a call under one lock. -/
def solo : Prog (Cmd Val L C X) ε α → Locked (Solo Val X) ε α
  | .ret a => Locked.ret a
  | .fail e => Locked.fail e
  | .call op k => fun s => (s.exec ix rank env op).bind fun r => solo (k r.1) r.2

/-- A failing transaction leaves the rows as they were. -/
def Solo.commit (m : Locked (Solo Val X) ε α) : Locked (Solo Val X) ε α := fun s =>
  (m s).map fun r =>
    match r.1 with
    | .ok a => (.ok a, r.2)
    | .error e => (.error e, { r.2 with db := s.db })

variable {ix rank env}

@[simp] theorem solo_ret (a : α) :
    solo ix rank env (.ret a : Prog (Cmd Val L C X) ε α) = Locked.ret a := rfl

@[simp] theorem solo_fail (e : ε) :
    solo ix rank env (.fail e : Prog (Cmd Val L C X) ε α) = Locked.fail e := rfl

@[simp] theorem solo_bind (p : Prog (Cmd Val L C X) ε α) (f : α → Prog (Cmd Val L C X) ε β) :
    solo ix rank env (p >>= f) = solo ix rank env p >>= fun a => solo ix rank env (f a) := by
  show solo ix rank env (p.bind f) = _
  induction p with
  | ret a => rfl
  | fail e => rfl
  | call op k ih =>
    funext s
    show (s.exec ix rank env op).bind _ = ((s.exec ix rank env op).bind _).bind _
    rw [Option.bind_assoc]
    congr 1
    funext r
    exact congrFun (ih r.1) r.2

@[simp] theorem solo_require {c : Prop} [Decidable c] (e : ε) :
    solo ix rank env (require c e : Prog (Cmd Val L C X) ε Unit) = Locked.check c e := by
  unfold require Locked.check
  split <;> rfl

@[simp] theorem solo_whenever {c : Prop} [Decidable c] (p : Prog (Cmd Val L C X) ε Unit) :
    solo ix rank env (whenever c p) = if c then solo ix rank env p else Locked.ret () := by
  unfold whenever
  split <;> rfl

@[simp] theorem solo_orFail (e : ε) (o : Option α) :
    solo ix rank env (Prog.orFail e o : Prog (Cmd Val L C X) ε α) = Locked.orFail e o := by
  cases o <;> rfl

@[simp] theorem solo_ofExcept (x : Except ε α) :
    solo ix rank env (Prog.ofExcept x : Prog (Cmd Val L C X) ε α) = Locked.ofExcept x := by
  cases x <;> rfl

@[simp] theorem solo_lock (mapErr : SqlError → ε) :
    solo ix rank env (lock mapErr : Prog (Cmd Val L C X) ε Unit) = Locked.ret () := rfl

@[simp] theorem solo_nextvals (mapErr : SqlError → ε) (n : Nat) :
    solo ix rank env (nextvals mapErr n : Prog (Cmd Val L C X) ε (List Nat)) =
      Locked.change fun s => (List.range' (s.seq + 1) n, { s with seq := s.seq + n }) := rfl

/-- A statement that is refused. -/
theorem solo_query_error {mapErr : SqlError → ε} {stmt : Stmt Val L α} {s : Solo Val X}
    {e : SqlError} (h : stmt.run ⟨rank, fun _ => true⟩ s.db = .error e) :
    solo ix rank env (query mapErr stmt : Prog (Cmd Val L C X) ε α) s = some (.error (mapErr e), s) := by
  show (s.exec ix rank env (.sql stmt)).bind _ = _
  unfold Solo.exec
  simp only [h]
  rfl

/-- A statement that is carried out, unless the index refuses what it writes. -/
theorem solo_query_ok {mapErr : SqlError → ε} {stmt : Stmt Val L α} {s : Solo Val X}
    {a : Answer Val α} (h : stmt.run ⟨rank, fun _ => true⟩ s.db = .ok a) :
    solo ix rank env (query mapErr stmt : Prog (Cmd Val L C X) ε α) s =
      if IndexOk ix (replay a.writes s.db) a.writes then
        some (.ok a.result, { s with db := replay a.writes s.db })
      else some (.error (mapErr .uniqueIndex), s) := by
  show (s.exec ix rank env (.sql stmt)).bind _ = _
  unfold Solo.exec
  simp only [h]
  by_cases hix : IndexOk ix (replay a.writes s.db) a.writes
  · rw [if_pos hix, if_pos hix]
    rfl
  · rw [if_neg hix, if_neg hix]
    rfl

omit [DecidableEq K] in
theorem indexOk_nil (db : Db Val) : IndexOk ix db [] := by
  intro w hw
  cases hw

end Body

/-! ## A lone transaction on the machine -/

variable {ix : (r : R) → Val r → Option K} {rank : R → Nat} {env : C} {t : Nat}
  {s s' : State Val L X} {l l' : Solo Val X}

/-- Only session `t` is open, and sees `l`. -/
structure Opened (t : Nat) (s₀ s : State Val L X) (label : L) (l : Solo Val X) : Prop where
  session : ∃ sess, s.session t = some sess ∧ sess.label = label ∧ l.db = replay sess.log s.db
  only : ∀ e ∈ s.sessions.entries, e.1 = t
  db : s.db = s₀.db
  seq : l.seq = s.seq
  world : l.world = s.world

section Opened

variable {s₀ : State Val L X} {label : L}

/-- No other session is open. -/
theorem Opened.key (h : Opened t s₀ s label l) {t' : Nat} (ht : t' ∈ s.sessions) : t' = t := by
  obtain ⟨e, he, rfl⟩ := List.mem_map.mp (AList.mem_keys.mp ht)
  exact h.only e he

/-- The session of the transaction is changed. -/
theorem Opened.setSession (h : Opened t s₀ s label l) {sess : Session Val L}
    (hlabel : sess.label = label) (hlog : l'.db = replay sess.log s.db) (hseq : l'.seq = l.seq)
    (hworld : l'.world = l.world) : Opened t s₀ (s.setSession t sess) label l' where
  session := ⟨sess, AList.lookup_insert _, hlabel, hlog⟩
  only := by
    intro e he
    have hkey : e.1 ∈ s.sessions.insert t sess := by
      rw [AList.mem_keys]
      exact List.mem_map_of_mem he
    rcases (AList.mem_insert _).mp hkey with hsame | hkey
    · exact hsame
    · exact h.key hkey
  db := h.db
  seq := hseq.trans h.seq
  world := hworld.trans h.world

/-- Once it is closed, none is open. -/
theorem Opened.close (h : Opened t s₀ s label l) : (s.close t).sessions = ∅ := by
  apply AList.ext
  show (s.sessions.erase t).entries = []
  rw [List.eq_nil_iff_forall_not_mem]
  intro e he
  have hkey : e.1 ∈ s.sessions.erase t := by
    rw [AList.mem_keys]
    exact List.mem_map_of_mem he
  obtain ⟨hne, hmem⟩ := AList.mem_erase.mp hkey
  exact hne (h.key hmem)

/-- No other session is in the way. -/
theorem Opened.grants (h : Opened t s₀ s label l) (locks : List (R × LockMode)) :
    s.Grants t locks :=
  fun e he hne => absurd (h.only e he) hne

/-- A statement waits for nobody, so it does what it does on the rows. -/
theorem Opened.execSql (h : Opened t s₀ s label l) {stmt : Stmt Val L α} {r : Except SqlError α}
    (hexec : l.exec ix rank env (.sql stmt : Cmd Val L C X _) = some (r, l')) :
    ∃ s', ReadCommitted.execSql ix t rank stmt s = some (r, s') ∧ Opened t s₀ s' label l' := by
  obtain ⟨sess, hsess, hlabel, hlog⟩ := h.session
  have hview : s.view t = l.db := by
    unfold State.view
    rw [hsess, hlog]
  have hfree : (fun r => decide (s.Grants t [(r, .update)])) = fun _ => true :=
    funext fun r => decide_eq_true (h.grants _)
  unfold ReadCommitted.execSql
  rw [hview, hfree]
  unfold Solo.exec at hexec
  cases hrun : stmt.run ⟨rank, fun _ => true⟩ l.db with
  | error e =>
    simp only [hrun] at hexec ⊢
    obtain ⟨rfl, rfl⟩ := Prod.mk.inj (Option.some.inj hexec)
    exact ⟨s, rfl, h⟩
  | ok a =>
    simp only [hrun] at hexec ⊢
    have hquiet : s.Quiet t a.waits := fun e he hne => absurd (h.only e he) hne
    have hindex : s.IndexFree ix t (replay a.writes l.db) a.writes :=
      fun e he hne => absurd (h.only e he) hne
    rw [if_pos ⟨h.grants _, hquiet, hindex⟩]
    by_cases hix : IndexOk ix (replay a.writes l.db) a.writes
    · rw [if_pos hix] at hexec ⊢
      obtain ⟨rfl, rfl⟩ := Prod.mk.inj (Option.some.inj hexec)
      have hrecord : s.record t stmt.label a = s.setSession t (sess.extend a) := by
        unfold State.record
        rw [hsess]
      refine ⟨_, rfl, ?_⟩
      rw [hrecord]
      refine h.setSession hlabel ?_ rfl rfl
      show replay a.writes l.db = replay (sess.log ++ a.writes) s.db
      rw [replay_append, hlog]
    · rw [if_neg hix] at hexec ⊢
      obtain ⟨rfl, rfl⟩ := Prod.mk.inj (Option.some.inj hexec)
      exact ⟨s, rfl, h⟩

/-- One operation of the body on the machine. -/
theorem Opened.exec (h : Opened t s₀ s label l) {op : Cmd Val L C X β} {b : β}
    (hexec : l.exec ix rank env op = some (b, l')) :
    ∃ s', (machine ix).exec t ⟨.ok, rank, env⟩ op s = some (b, s') ∧ Opened t s₀ s' label l' := by
  obtain ⟨sess, hsess, hlabel, hlog⟩ := h.session
  cases op with
  | sql stmt => exact h.execSql hexec
  | advisoryLock =>
    obtain ⟨rfl, rfl⟩ := Prod.mk.inj (Option.some.inj hexec)
    have hfree : s.AdvisoryFree t := fun e he hne => absurd (h.only e he) hne
    refine ⟨s.setSession t { sess with advisory := true }, ?_, h.setSession hlabel hlog rfl rfl⟩
    rw [machine_exec]
    unfold ReadCommitted.exec
    simp only [hsess]
    rw [if_pos hfree]
  | nextval n =>
    obtain ⟨rfl, rfl⟩ := Prod.mk.inj (Option.some.inj hexec)
    refine ⟨{ s with seq := s.seq + n }, ?_, ⟨sess, hsess, hlabel, hlog⟩, h.only, h.db, ?_, h.world⟩
    · rw [h.seq]
      rfl
    · exact congrArg (· + n) h.seq
  | world op =>
    obtain ⟨⟨a, x⟩, hrun, heq⟩ := Option.map_eq_some_iff.mp hexec
    obtain ⟨rfl, rfl⟩ := Prod.mk.inj heq
    refine ⟨s.move t x, ?_, ⟨sess, hsess, hlabel, hlog⟩, h.only, h.db, h.seq, rfl⟩
    show (op.run env s.world).map _ = _
    rw [← h.world, hrun]
    rfl
  | begin label => cases hexec
  | commit => cases hexec
  | rollback => cases hexec

/-- The body on the machine. -/
theorem Opened.eval (h : Opened t s₀ s label l) {b : Prog (Cmd Val L C X) ε α} {r : Except ε α}
    (hsolo : solo ix rank env b l = some (r, l')) :
    ∃ s', b.eval (machine ix) t ⟨.ok, rank, env⟩ s = some (r, s') ∧ Opened t s₀ s' label l' := by
  induction b generalizing s l with
  | ret a =>
    obtain ⟨rfl, rfl⟩ := Prod.mk.inj (Option.some.inj hsolo)
    exact ⟨s, rfl, h⟩
  | fail e =>
    obtain ⟨rfl, rfl⟩ := Prod.mk.inj (Option.some.inj hsolo)
    exact ⟨s, rfl, h⟩
  -- one operation, and the rest by induction
  | call op k ih =>
    obtain ⟨⟨b, l₁⟩, hexec, hrest⟩ := Option.bind_eq_some_iff.mp hsolo
    obtain ⟨s₁, hs₁, h₁⟩ := h.exec hexec
    obtain ⟨s', hs', h'⟩ := ih b h₁ hrest
    refine ⟨s', ?_, h'⟩
    show ((machine ix).exec t _ op s).bind _ = _
    rw [hs₁]
    exact hs'

end Opened

/-- The state of a store without open transactions after a lone call. -/
structure Alone (s : State Val L X) (l : Solo Val X) : Prop where
  sessions : s.sessions = ∅
  solo_eq : s.solo = l

/-- A lone transaction begins. -/
theorem Alone.begin (ix : (r : R) → Val r → Option K) (rank : R → Nat) (env : C) (t : Nat)
    (h : Alone s l) (label : L) : ∃ s',
    (machine ix).exec t ⟨.ok, rank, env⟩ (.begin label : Cmd Val L C X _) s = some (.ok (), s') ∧
      Opened t s s' label l := by
  have hnone : s.session t = none := by
    unfold State.session
    rw [h.sessions]
    rfl
  refine ⟨s.setSession t { label }, ?_, ?_⟩
  · rw [machine_exec]
    unfold ReadCommitted.exec
    simp only [hnone, Option.isNone_none, if_true]
  · rw [← h.solo_eq]
    refine ⟨⟨{ label }, AList.lookup_insert _, rfl, rfl⟩, ?_, rfl, rfl, rfl⟩
    intro e he
    have hkey : e.1 ∈ s.sessions.insert t { label } := by
      rw [AList.mem_keys]
      exact List.mem_map_of_mem he
    rw [h.sessions] at hkey
    exact ((AList.mem_insert _).mp hkey).resolve_right (AList.notMem_empty _)

/-- A commit without other sessions. -/
theorem State.publish_same (s : State Val L X) (label : L) (ws : List (Write Val)) :
    (s.publish label ws).sessions = s.sessions ∧
      (s.publish label ws).solo = ⟨replay ws s.db, s.seq, s.world⟩ := by
  unfold State.publish
  cases ws with
  | nil => exact ⟨rfl, rfl⟩
  | cons w ws => exact ⟨rfl, rfl⟩

/-- Its rows are published. -/
theorem Opened.commit (ix : (r : R) → Val r → Option K) (rank : R → Nat) (env : C) {s₀ : State Val L X} {label : L} (h : Opened t s₀ s label l) : ∃ s',
    (machine ix).exec t ⟨.ok, rank, env⟩ (.commit : Cmd Val L C X _) s = some (.ok (), s') ∧
      Alone s' l := by
  obtain ⟨sess, hsess, hlabel, hlog⟩ := h.session
  obtain ⟨hsessions, hstate⟩ := (s.close t).publish_same sess.label sess.log
  refine ⟨(s.close t).publish sess.label sess.log, ?_, hsessions.trans h.close, ?_⟩
  · rw [machine_exec]
    unfold ReadCommitted.exec
    simp only [hsess]
  · rw [hstate]
    show Solo.mk (replay sess.log s.db) s.seq s.world = _
    rw [← hlog, ← h.seq, ← h.world]

/-- A lone transaction does what its body does, and nothing to the rows if that
fails. -/
theorem Alone.transaction {mapErr : SqlError → ε} {label : L} {b : Prog (Cmd Val L C X) ε α}
    {r : Except ε α} (h : Alone s l)
    (hsolo : Solo.commit (solo ix rank env b) l = some (r, l')) :
    ∃ s', (transaction mapErr label b).eval (machine ix) t ⟨.ok, rank, env⟩ s = some (r, s') ∧
      Alone s' l' := by
  obtain ⟨⟨r', l₁⟩, hbody, hcommit⟩ := Option.map_eq_some_iff.mp hsolo
  obtain ⟨s₀, hbegin, hopened⟩ := Alone.begin ix rank env t h label
  obtain ⟨s₁, hs₁, h₁⟩ := hopened.eval hbody
  have hattempt : (b.attempt : Prog (Cmd Val L C X) ε (Except ε α)).eval (machine ix) t
      ⟨.ok, rank, env⟩ s₀ = some (.ok r', s₁) := Prog.eval_attempt hs₁
  unfold ReadCommitted.transaction
  cases r' with
  -- the body has failed: its writes are dropped
  | error e =>
    obtain ⟨rfl, rfl⟩ := Prod.mk.inj hcommit
    refine ⟨s₁.close t, ?_, h₁.close, ?_⟩
    · show ((machine ix).exec t _ _ s).bind _ = _
      rw [hbegin]
      show (b.attempt >>= _ : Prog (Cmd Val L C X) ε α).eval _ t _ _ = _
      rw [Prog.eval_bind, Locked.bind_run hattempt]
      rfl
    · have hdb : s₁.db = l.db := h₁.db.trans (congrArg Solo.db h.solo_eq)
      show Solo.mk s₁.db s₁.seq s₁.world = _
      rw [hdb, ← h₁.seq, ← h₁.world]
  -- the body has returned: its writes are published
  | ok a =>
    obtain ⟨rfl, rfl⟩ := Prod.mk.inj hcommit
    obtain ⟨s', hend, halone⟩ := Opened.commit ix rank env h₁
    refine ⟨s', ?_, halone⟩
    show ((machine ix).exec t _ _ s).bind _ = _
    rw [hbegin]
    show (b.attempt >>= _ : Prog (Cmd Val L C X) ε α).eval _ t _ _ = _
    rw [Prog.eval_bind, Locked.bind_run hattempt]
    show ((machine ix).exec t _ _ s₁).bind _ = _
    rw [hend]
    rfl

/-! ## A choice for each step -/

/-- No operation is disturbed; the world does as `ok` says. -/
def Calm (ok : C → Prop) (ch : Choice R C) : Prop := ch.outcome = .ok ∧ ok ch.world

/-- The operations of a body, in any scan order. -/
def soloEffect (L : Type) (X : Type) (ix : (r : R) → Val r → Option K) (ok : C → Prop) :
    Effect (Cmd Val L C X) (Solo Val X) where
  run op Q l := ∀ rank env, ok env → ∃ b l', l.exec ix rank env op = some (b, l') ∧ Q b l'
  mono := by
    intro β op Q Q' l h hQ rank env henv
    obtain ⟨b, l', he, hq⟩ := h rank env henv
    exact ⟨b, l', he, hQ b l' hq⟩

section Calm

variable {ok : C → Prop} {mapErr : SqlError → ε} {stmt : Stmt Val L α}
  {Q : Except ε α → Solo Val X → Prop}

/-- A statement of a body that is carried out. -/
theorem sure_query (h : ∀ rank, ∃ a, stmt.run ⟨rank, fun _ => true⟩ l.db = .ok a ∧
      IndexOk ix (replay a.writes l.db) a.writes ∧
      Q (.ok a.result) { l with db := replay a.writes l.db }) :
    (query mapErr stmt : Prog (Cmd Val L C X) ε α).Sure (soloEffect L X ix ok) Q l := by
  intro rank env henv
  obtain ⟨a, ha, hix, hq⟩ := h rank
  refine ⟨.ok a.result, { l with db := replay a.writes l.db }, ?_, hq⟩
  unfold Solo.exec
  simp only [ha]
  rw [if_pos hix]

/-- The body on the machine. -/
theorem Opened.sure {s₀ : State Val L X} {label : L} (h : Opened t s₀ s label l)
    {b : Prog (Cmd Val L C X) ε α} (hb : b.Sure (soloEffect L X ix ok) Q l) :
    b.Sure ((machine ix).effect t (Calm ok))
      (fun r s' => ∃ l', Opened t s₀ s' label l' ∧ Q r l') s := by
  induction b generalizing s l with
  | ret a => exact ⟨l, h, hb⟩
  | fail e => exact ⟨l, h, hb⟩
  | call op k ih =>
    rintro ⟨_, rank, env⟩ ⟨rfl, henv⟩
    obtain ⟨b, l₁, hexec, hk⟩ := hb rank env henv
    obtain ⟨s₁, hs₁, h₁⟩ := h.exec hexec
    exact ⟨b, s₁, hs₁, ih b h₁ hk⟩

/-- A transaction whose body is sure to return. -/
theorem Alone.sure_transaction {label : L} {b : Prog (Cmd Val L C X) ε α}
    {P : α → Solo Val X → Prop} (h : Alone s l)
    (hb : b.Sure (soloEffect L X ix ok) (fun r l' => ∃ a, r = .ok a ∧ P a l') l) :
    (ReadCommitted.transaction mapErr label b).Sure ((machine ix).effect t (Calm ok))
      (fun r s' => ∃ a, r = .ok a ∧ ∃ l', Alone s' l' ∧ P a l') s := by
  rintro ⟨_, rank, env⟩ ⟨rfl, _⟩
  obtain ⟨s₀, hbegin, hopened⟩ := Alone.begin ix rank env t h label
  refine ⟨_, s₀, hbegin, ?_⟩
  show (b.attempt >>= _ : Prog (Cmd Val L C X) ε α).Sure _ _ s₀
  refine Prog.Sure.bind ((hopened.sure hb).attempt.mono ?_)
  rintro r s₁ ⟨r', rfl, l', h₁, a, rfl, hP⟩
  refine ⟨_, rfl, ?_⟩
  rintro ⟨_, rank, env⟩ ⟨rfl, _⟩
  obtain ⟨s', hend, halone⟩ := Opened.commit ix rank env h₁
  exact ⟨_, s', hend, a, rfl, l', halone, hP⟩

/-- A statement outside a transaction, on the machine. -/
theorem Alone.execSql (h : Alone s l) {r : Except SqlError α}
    (hexec : l.exec ix rank env (.sql stmt : Cmd Val L C X _) = some (r, l')) :
    ∃ s', ReadCommitted.execSql ix t rank stmt s = some (r, s') ∧ Alone s' l' := by
  have hnone : ∀ e ∈ s.sessions.entries, e.1 = t := by
    rw [h.sessions]
    intro e he
    cases he
  have hsession : s.session t = none := by
    unfold State.session
    rw [h.sessions]
    rfl
  have hview : s.view t = l.db := by
    unfold State.view
    rw [hsession]
    exact congrArg Solo.db h.solo_eq
  -- every lock is free, so no row is skipped
  have hfree : (fun r => decide (s.Grants t [(r, .update)])) = fun _ => true :=
    funext fun r => decide_eq_true fun e he hne => absurd (hnone e he) hne
  unfold ReadCommitted.execSql
  rw [hview, hfree]
  unfold Solo.exec at hexec
  cases hrun : stmt.run ⟨rank, fun _ => true⟩ l.db with
  | error e =>
    simp only [hrun] at hexec ⊢
    obtain ⟨rfl, rfl⟩ := Prod.mk.inj (Option.some.inj hexec)
    exact ⟨s, rfl, h⟩
  | ok a =>
    simp only [hrun] at hexec ⊢
    -- for the same reason the statement waits for nothing
    have hgrants : s.Grants t a.allLocks := fun e he hne => absurd (hnone e he) hne
    have hquiet : s.Quiet t a.waits := fun e he hne => absurd (hnone e he) hne
    have hindex : s.IndexFree ix t (replay a.writes l.db) a.writes :=
      fun e he hne => absurd (hnone e he) hne
    rw [if_pos ⟨hgrants, hquiet, hindex⟩]
    by_cases hix : IndexOk ix (replay a.writes l.db) a.writes
    · rw [if_pos hix] at hexec ⊢
      obtain ⟨rfl, rfl⟩ := Prod.mk.inj (Option.some.inj hexec)
      refine ⟨_, rfl, ?_⟩
      unfold State.record
      rw [hsession]
      obtain ⟨hsessions, hstate⟩ := State.publish_same s stmt.label a.writes
      refine ⟨hsessions.trans h.sessions, ?_⟩
      rw [hstate, ← h.solo_eq]
      rfl
    · rw [if_neg hix] at hexec ⊢
      obtain ⟨rfl, rfl⟩ := Prod.mk.inj (Option.some.inj hexec)
      exact ⟨s, rfl, h⟩

/-- A statement outside a transaction. -/
theorem Alone.sure_query (h : Alone s l)
    (hq : (query mapErr stmt : Prog (Cmd Val L C X) ε α).Sure (soloEffect L X ix ok) Q l) :
    (query mapErr stmt : Prog (Cmd Val L C X) ε α).Sure ((machine ix).effect t (Calm ok))
      (fun r s' => ∃ l', Alone s' l' ∧ Q r l') s := by
  rintro ⟨_, rank, env⟩ ⟨rfl, henv⟩
  obtain ⟨b, l', hexec, hk⟩ := hq rank env henv
  obtain ⟨s', hs', halone⟩ := h.execSql hexec
  refine ⟨b, s', hs', ?_⟩
  cases b with
  | ok a => exact ⟨l', halone, hk⟩
  | error e => exact ⟨l', halone, hk⟩

/-- A step outside the store. -/
theorem Alone.sure_world (h : Alone s l) {op : WorldOp L C X α}
    (hq : ∀ env, ok env → ∃ a x, op.run env l.world = some (a, x) ∧ Q (.ok a) { l with world := x }) :
    (Prog.op (.world op) : Prog (Cmd Val L C X) ε α).Sure ((machine ix).effect t (Calm ok))
      (fun r s' => ∃ l', Alone s' l' ∧ Q r l') s := by
  rintro ⟨_, rank, env⟩ ⟨rfl, henv⟩
  obtain ⟨a, x, hrun, hq⟩ := hq env henv
  refine ⟨a, s.move t x, ?_, ⟨_, ⟨h.sessions, ?_⟩, hq⟩⟩
  · have hworld : s.world = l.world := congrArg Solo.world h.solo_eq
    show (op.run env s.world).map _ = _
    rw [hworld, hrun]
    rfl
  · have hsolo := h.solo_eq
    subst hsolo
    rfl

end Calm

end ReadCommitted
