import AnyStore.Lib.RelyGuarantee
import Mathlib.Data.List.AList

/-!
# Transactions at READ COMMITTED

A store of rows shared by sessions that run SQL statements, at the level at
which PostgreSQL's default isolation is visible to a program:

* every statement sees the rows committed when it runs and the writes of its
  own transaction (`State.view`), nothing of other open transactions;
* a statement that locks or writes a row waits while another session holds a
  conflicting lock on it, and is evaluated on the latest committed version
  once the lock is free, so conditions are re-checked;
* a unique index refuses a write whose key is taken and waits while an open
  transaction may still take or release the key;
* one transaction-scoped advisory lock, and a sequence whose values are never
  given back;
* a commit publishes the writes of the transaction in one step; a rollback, a
  failed commit or the death of the session drops them with all locks. A
  commit can also succeed although the client sees an error;
* `failed` names the sessions of which a call failed for a reason outside the
  store: a lost connection, a lock timeout, a deadlock;
* `moves` remembers which session has changed the world outside.

No operation reads `failed` or `moves`.

A statement is a function (`Stmt`): it reads the view and answers with a
result, the rows it locks and the rows it writes. `wal` records the committed
write sets in commit order, each under the label of its transaction, so `wal`
and the initial rows determine `db`.

The schema is a type `R` of row names, a family `Val` of row types and the key
of each row in the unique index. `L` labels transactions and statements, `X` is
the world outside the store and `C` what the scheduler decides about it.
-/

namespace ReadCommitted

/-! ## Rows, writes and locks -/

/-- Row-level lock modes. -/
inductive LockMode
  | keyShare
  | share
  | noKeyUpdate
  | update
  deriving DecidableEq

/-- The conflict table of row-level locks. -/
def LockMode.conflicts : LockMode → LockMode → Bool
  | .keyShare, .update => true
  | .share, .noKeyUpdate => true
  | .share, .update => true
  | .noKeyUpdate, .share => true
  | .noKeyUpdate, .noKeyUpdate => true
  | .noKeyUpdate, .update => true
  | .update, _ => true
  | _, _ => false

/-- Conflicts are mutual. -/
theorem LockMode.conflicts_comm (m m' : LockMode) : m.conflicts m' = m'.conflicts m := by
  cases m <;> cases m' <;> rfl

inductive SqlError
  /-- The unique index refuses the write. -/
  | uniqueIndex
  /-- The primary key is taken. -/
  | uniqueKey
  /-- A lock timeout, a deadlock or a serialization failure. -/
  | contention
  /-- Anything else: a lost connection, a constraint, a cancelled statement. -/
  | other
  deriving DecidableEq

variable {R K L X C α : Type} [DecidableEq R] [DecidableEq K] {Val : R → Type}

/-- The rows of all tables. -/
abbrev Db (Val : R → Type) := AList Val

/-- A new version of one row; `none` deletes it. -/
abbrev Write (Val : R → Type) := (r : R) × Option (Val r)

/-- One write. -/
def put (db : Db Val) : Write Val → Db Val
  | ⟨r, some v⟩ => db.insert r v
  | ⟨r, none⟩ => db.erase r

/-- Applies writes in order. -/
def replay (ws : List (Write Val)) (db : Db Val) : Db Val := ws.foldl put db

/-- Applies committed write sets in commit order. -/
def replayAll (wal : List (L × List (Write Val))) (db : Db Val) : Db Val :=
  wal.foldl (fun d e => replay e.2 d) db

@[simp] theorem lookup_put_self (db : Db Val) (r : R) (v : Option (Val r)) :
    (put db ⟨r, v⟩).lookup r = v := by
  cases v with
  | some v => exact AList.lookup_insert db
  | none => exact AList.lookup_erase r db

theorem lookup_put_ne (db : Db Val) {w : Write Val} {r : R} (h : r ≠ w.1) :
    (put db w).lookup r = db.lookup r := by
  obtain ⟨r', v⟩ := w
  cases v with
  | some v => exact AList.lookup_insert_ne h
  | none => exact AList.lookup_erase_ne h

@[simp] theorem replay_nil (db : Db Val) : replay [] db = db := rfl

@[simp] theorem replay_cons (w : Write Val) (ws : List (Write Val)) (db : Db Val) :
    replay (w :: ws) db = replay ws (put db w) := rfl

/-- Write sets one after the other. -/
theorem replay_append (ws ws' : List (Write Val)) (db : Db Val) :
    replay (ws ++ ws') db = replay ws' (replay ws db) := List.foldl_append ..

/-- The last commit comes last. -/
theorem replayAll_concat (wal : List (L × List (Write Val))) (e : L × List (Write Val))
    (db : Db Val) : replayAll (wal ++ [e]) db = replay e.2 (replayAll wal db) := by
  simp [replayAll]

/-- Rows that are not written keep their version. -/
theorem lookup_replay_of_not_mem {ws : List (Write Val)} {r : R} (h : r ∉ ws.map Sigma.fst)
    (db : Db Val) : (replay ws db).lookup r = db.lookup r := by
  induction ws generalizing db with
  | nil => rfl
  | cons w ws ih =>
    simp only [List.map_cons, List.mem_cons, not_or] at h
    rw [replay_cons, ih h.2, lookup_put_ne db h.1]

/-- The version of a written row depends on the writes alone. -/
theorem lookup_replay_of_mem {ws : List (Write Val)} {r : R} (h : r ∈ ws.map Sigma.fst)
    (db db' : Db Val) : (replay ws db).lookup r = (replay ws db').lookup r := by
  induction ws generalizing db db' with
  | nil => cases h
  | cons w ws ih =>
    by_cases hr : r ∈ ws.map Sigma.fst
    · exact ih hr _ _
    · obtain rfl : r = w.1 := by
        rw [List.map_cons, List.mem_cons] at h
        exact h.resolve_right hr
      rw [replay_cons, replay_cons, lookup_replay_of_not_mem hr, lookup_replay_of_not_mem hr,
        lookup_put_self, lookup_put_self]

/-- The last version that a write set gives to a row. -/
def written : List (Write Val) → (r : R) → Option (Option (Val r))
  | [], _ => none
  | ⟨r', v⟩ :: ws, r => (written ws r).or (if h : r' = r then some (h ▸ v) else none)

@[simp] theorem written_nil (r : R) : written ([] : List (Write Val)) r = none := rfl

@[simp] theorem written_cons_self (r : R) (v : Option (Val r)) (ws : List (Write Val)) :
    written (⟨r, v⟩ :: ws) r = (written ws r).or (some v) := by
  rw [written, dif_pos rfl]

@[simp] theorem written_cons_ne {r r' : R} (h : r' ≠ r) (v : Option (Val r'))
    (ws : List (Write Val)) : written (⟨r', v⟩ :: ws) r = written ws r := by
  rw [written, dif_neg h, Option.or_none]

@[simp] theorem written_append (ws ws' : List (Write Val)) (r : R) :
    written (ws ++ ws') r = (written ws' r).or (written ws r) := by
  induction ws with
  | nil => rw [List.nil_append, written_nil, Option.or_none]
  | cons w ws ih =>
    obtain ⟨r', v⟩ := w
    rw [List.cons_append, written, written, ih, Option.or_assoc]

/-- What is not written. -/
theorem written_eq_none_iff {ws : List (Write Val)} {r : R} :
    written ws r = none ↔ r ∉ ws.map Sigma.fst := by
  induction ws with
  | nil => simp
  | cons w ws ih =>
    obtain ⟨r', v⟩ := w
    by_cases h : r' = r
    · subst h
      simp
    · rw [written_cons_ne h, ih, List.map_cons, List.mem_cons, not_or]
      exact ⟨fun hr => ⟨Ne.symm h, hr⟩, fun hr => hr.2⟩

/-- What is written was in the write set. -/
theorem mem_of_written {ws : List (Write Val)} {r : R} {v : Option (Val r)}
    (h : written ws r = some v) : ⟨r, v⟩ ∈ ws := by
  induction ws with
  | nil => cases h
  | cons w ws ih =>
    obtain ⟨r', v'⟩ := w
    by_cases hr : r' = r
    · subst hr
      rw [written_cons_self] at h
      rcases Option.or_eq_some_iff.mp h with h | ⟨_, h⟩
      · exact List.mem_cons_of_mem _ (ih h)
      · obtain rfl := Option.some.inj h
        exact List.mem_cons_self ..
    · rw [written_cons_ne hr] at h
      exact List.mem_cons_of_mem _ (ih h)

/-- A write set that gives each of its rows one version. -/
theorem written_map {ι : Type} {l : List ι} (row : ι → R) (val : (i : ι) → Option (Val (row i)))
    (h : (l.map row).Nodup) {i : ι} (hi : i ∈ l) :
    written (l.map fun i => (⟨row i, val i⟩ : Write Val)) (row i) = some (val i) := by
  induction l with
  | nil => cases hi
  | cons j l ih =>
    rw [List.map_cons, List.nodup_cons] at h
    rw [List.map_cons]
    rcases List.mem_cons.mp hi with rfl | hi
    · have hnone : written (l.map fun i => (⟨row i, val i⟩ : Write Val)) (row i) = none := by
        rw [written_eq_none_iff, List.map_map]
        exact h.1
      rw [written_cons_self, hnone, Option.none_or]
    · have hne : row j ≠ row i := fun he => h.1 (he ▸ List.mem_map_of_mem hi)
      rw [written_cons_ne hne, ih h.2 hi]

/-- **Rows.** A row is what was written last, or what it was before. -/
theorem lookup_replay (ws : List (Write Val)) (db : Db Val) (r : R) :
    (replay ws db).lookup r = (written ws r).getD (db.lookup r) := by
  induction ws generalizing db with
  | nil => rfl
  | cons w ws ih =>
    obtain ⟨r', v⟩ := w
    rw [replay_cons, ih]
    by_cases h : r' = r
    · subst h
      rw [written_cons_self, lookup_put_self]
      cases written ws r' <;> rfl
    · rw [written_cons_ne h, lookup_put_ne db (Ne.symm h)]

/-! ## Sessions and the shared state -/

/-- An open transaction: the writes made so far, the row locks and whether the
advisory lock is held. -/
structure Session (Val : R → Type) (L : Type) where
  label : L
  log : List (Write Val) := []
  locks : List (R × LockMode) := []
  advisory : Bool := false

/-- One session has changed the world outside. -/
structure WorldMove (X : Type) where
  session : Nat
  before : X
  after : X

structure State (Val : R → Type) (L X : Type) where
  -- the committed rows, and the write sets that made them, oldest first
  db : Db Val
  wal : List (L × List (Write Val)) := []
  -- the last value drawn from the sequence
  seq : Nat := 0
  sessions : AList fun _ : Nat => Session Val L := ∅
  -- the sessions of which a call failed from outside
  failed : List Nat := []
  world : X
  -- the changes of the world outside, the latest first
  moves : List (WorldMove X) := []

namespace State

variable (s : State Val L X) (t : Nat)

/-- The open transaction of session `t`. -/
def session : Option (Session Val L) := s.sessions.lookup t

/-- What a statement of session `t` sees. -/
def view : Db Val :=
  match s.session t with
  | some sess => replay sess.log s.db
  | none => s.db

/-- The session is as given. -/
def setSession (sess : Session Val L) : State Val L X :=
  { s with sessions := s.sessions.insert t sess }

/-- The session is gone. -/
def close : State Val L X := { s with sessions := s.sessions.erase t }

/-- Notes that a call of session `t` failed. -/
def fail : State Val L X := { s with failed := t :: s.failed }

/-- Session `t` changes the world outside. -/
def move (x : X) : State Val L X := { s with world := x, moves := ⟨t, s.world, x⟩ :: s.moves }

/-- Makes writes visible to every session. -/
def publish (label : L) (ws : List (Write Val)) : State Val L X :=
  if ws.isEmpty then s else { s with db := replay ws s.db, wal := s.wal ++ [(label, ws)] }

/-- No other session holds a lock that conflicts with one of these. -/
def Grants (locks : List (R × LockMode)) : Prop :=
  ∀ e ∈ s.sessions.entries, e.1 ≠ t → ∀ l ∈ locks, ∀ l' ∈ e.2.locks, l'.1 = l.1 →
    l.2.conflicts l'.2 = false

instance (locks : List (R × LockMode)) : Decidable (s.Grants t locks) := by
  unfold Grants
  infer_instance

/-- No other open transaction has written one of these rows. -/
def Quiet (rows : List R) : Prop :=
  ∀ e ∈ s.sessions.entries, e.1 ≠ t → ∀ w ∈ e.2.log, w.1 ∉ rows

instance (rows : List R) : Decidable (s.Quiet t rows) := by
  unfold Quiet
  infer_instance

/-- No other session holds the advisory lock. -/
def AdvisoryFree : Prop := ∀ e ∈ s.sessions.entries, e.1 ≠ t → e.2.advisory = false

instance : Decidable (s.AdvisoryFree t) := by
  unfold AdvisoryFree
  infer_instance

end State

/-! ## The unique index -/

/-- The key under which a row is indexed, if it is. -/
def keyOf (ix : (r : R) → Val r → Option K) (r : R) (db : Db Val) : Option K :=
  (db.lookup r).bind (ix r)

/-- No other open transaction may still take or release a key of these writes. -/
def State.IndexFree (s : State Val L X) (ix : (r : R) → Val r → Option K) (t : Nat)
    (view : Db Val) (ws : List (Write Val)) : Prop :=
  ∀ e ∈ s.sessions.entries, e.1 ≠ t → ∀ w' ∈ e.2.log, ∀ w ∈ ws, w'.1 ≠ w.1 →
    keyOf ix w.1 view = none ∨ keyOf ix w.1 view ≠ keyOf ix w'.1 s.db ∧
      keyOf ix w.1 view ≠ keyOf ix w'.1 (replay e.2.log s.db)

instance (s : State Val L X) (ix : (r : R) → Val r → Option K) (t : Nat) (view : Db Val)
    (ws : List (Write Val)) : Decidable (s.IndexFree ix t view ws) := by
  unfold State.IndexFree
  infer_instance

/-- No other visible row has a key of these writes. -/
def IndexOk (ix : (r : R) → Val r → Option K) (view : Db Val) (ws : List (Write Val)) : Prop :=
  ∀ w ∈ ws, ∀ r ∈ view.keys, r ≠ w.1 → keyOf ix w.1 view = none ∨
    keyOf ix w.1 view ≠ keyOf ix r view

instance (ix : (r : R) → Val r → Option K) (view : Db Val) (ws : List (Write Val)) :
    Decidable (IndexOk ix view ws) := by
  unfold IndexOk
  infer_instance

/-! ## Statements -/

/-- What a statement finds out about the execution: the order in which the
rows happen to be scanned, and which rows no other session has locked. -/
structure Scan (R : Type) where
  rank : R → Nat
  free : R → Bool

/-- The effect of a statement: its result, the rows it locks or must see
settled, and the rows it writes. A written row is locked as well. -/
structure Answer (Val : R → Type) (α : Type) where
  result : α
  locks : List (R × LockMode) := []
  waits : List R := []
  writes : List (Write Val) := []

/-- What is written is locked, too. -/
def Answer.allLocks (a : Answer Val α) : List (R × LockMode) :=
  a.locks ++ a.writes.map fun w => (w.1, .noKeyUpdate)

/-- A statement: what it is called in the journal, and what it does on the rows it sees. -/
structure Stmt (Val : R → Type) (L α : Type) where
  label : L
  run : Scan R → Db Val → Except SqlError (Answer Val α)

/-- A step outside the store. -/
structure WorldOp (L C X α : Type) where
  label : L
  run : C → X → Option (α × X)

/-- The operations of a session. -/
inductive Cmd (Val : R → Type) (L C X : Type) : Type → Type 1
  | begin (label : L) : Cmd Val L C X (Except SqlError Unit)
  | sql {α : Type} (stmt : Stmt Val L α) : Cmd Val L C X (Except SqlError α)
  | advisoryLock : Cmd Val L C X (Except SqlError Unit)
  | nextval (n : Nat) : Cmd Val L C X (Except SqlError (List Nat))
  | commit : Cmd Val L C X (Except SqlError Unit)
  | rollback : Cmd Val L C X Unit
  | world {α : Type} (op : WorldOp L C X α) : Cmd Val L C X α

/-- How one operation ends: normally, with an error and no effect, or with an
error although it took effect. -/
inductive Outcome
  | ok
  | failed (e : SqlError)
  | lost (e : SqlError)

/-- What the scheduler decides about one operation. -/
structure Choice (R C : Type) where
  outcome : Outcome
  rank : R → Nat
  world : C

/-! ## Execution -/

/-- Enters the effect of a statement into the transaction. -/
def Session.extend (sess : Session Val L) (a : Answer Val α) : Session Val L :=
  { sess with log := sess.log ++ a.writes, locks := sess.locks ++ a.allLocks }

/-- A statement outside a transaction is published at once. -/
def State.record (s : State Val L X) (t : Nat) (label : L) (a : Answer Val α) : State Val L X :=
  match s.session t with
  | some sess => s.setSession t (sess.extend a)
  | none => s.publish label a.writes

/-- Runs a statement; `none` while it has to wait. -/
def execSql (ix : (r : R) → Val r → Option K) (t : Nat) (rank : R → Nat) (stmt : Stmt Val L α)
    (s : State Val L X) : Option (Except SqlError α × State Val L X) :=
  match stmt.run ⟨rank, fun r => decide (s.Grants t [(r, .update)])⟩ (s.view t) with
  | .error e => some (.error e, s)
  | .ok a =>
    if s.Grants t a.allLocks ∧ s.Quiet t a.waits ∧
        s.IndexFree ix t (replay a.writes (s.view t)) a.writes then
      if IndexOk ix (replay a.writes (s.view t)) a.writes then
        some (.ok a.result, s.record t stmt.label a)
      else some (.error .uniqueIndex, s)
    else none

def exec (ix : (r : R) → Val r → Option K) (t : Nat) (ch : Choice R C) {α : Type}
    (cmd : Cmd Val L C X α) (s : State Val L X) : Option (α × State Val L X) :=
  match cmd with
  | .begin label =>
    match ch.outcome with
    | .ok => if (s.session t).isNone then some (.ok (), s.setSession t { label }) else none
    | .failed e => some (.error e, s.fail t)
    | .lost e => some (.error e, s.fail t)
  | .sql stmt =>
    match ch.outcome with
    | .ok => execSql ix t ch.rank stmt s
    | .failed e => some (.error e, s.fail t)
    | .lost e =>
      match s.session t with
      | some _ => some (.error e, s.fail t)
      | none => (execSql ix t ch.rank stmt s).map fun r => (.error e, r.2.fail t)
  | .advisoryLock =>
    match ch.outcome, s.session t with
    | .ok, some sess =>
      if s.AdvisoryFree t then some (.ok (), s.setSession t { sess with advisory := true })
      else none
    | .ok, none => none
    | .failed e, _ => some (.error e, s.fail t)
    | .lost e, _ => some (.error e, s.fail t)
  | .nextval n =>
    match ch.outcome with
    | .ok => some (.ok (List.range' (s.seq + 1) n), { s with seq := s.seq + n })
    | .failed e => some (.error e, s.fail t)
    | .lost e => some (.error e, { s with seq := s.seq + n }.fail t)
  | .commit =>
    match s.session t with
    | none => none
    | some sess =>
      match ch.outcome with
      | .ok => some (.ok (), (s.close t).publish sess.label sess.log)
      | .failed e => some (.error e, (s.close t).fail t)
      | .lost e => some (.error e, ((s.close t).publish sess.label sess.log).fail t)
  | .rollback => some ((), s.close t)
  | .world op => (op.run ch.world s.world).map fun r => (r.1, s.move t r.2)

/-- The machine of a store with the given unique index. -/
def machine (ix : (r : R) → Val r → Option K) :
    Machine (Cmd Val L C X) (Choice R C) (State Val L X) where
  exec t ch _ cmd s := exec ix t ch cmd s
  crash t s := s.close t

theorem machine_exec (ix : (r : R) → Val r → Option K) (t : Nat) (ch : Choice R C) {α : Type}
    (cmd : Cmd Val L C X α) (s : State Val L X) :
    (machine ix).exec t ch cmd s = exec ix t ch cmd s := rfl

end ReadCommitted
