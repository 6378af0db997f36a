import AnyStore.Lib.Alone
import AnyStore.Spec.Writes

/-!
# Store operations that run alone

The bodies of transactions as calls under one lock.
-/

namespace AnyStore

open ReadCommitted (Solo solo solo_bind solo_orFail solo_require solo_query_ok indexOk_nil IndexOk
  keyOf)

/-- What a lone transaction sees of the store. -/
abbrev Rows := Solo Row.Val World

/-- Only objects have an index. -/
theorem indexOk_of_table {db : Db} {ws : List Write} (h : ∀ w ∈ ws, w.1.table ≠ .objects) :
    IndexOk liveNameUq db ws := by
  rintro ⟨r, v⟩ hw r' _ _
  left
  have hr := h _ hw
  unfold keyOf
  cases r with
  | object id => exact absurd rfl hr
  | _ => exact Option.bind_fun_none _

section Solo

variable {rank : Row → Nat} {env : Env} {l : Rows}

/-- The body of a transaction of the store. -/
abbrev body {α : Type} (p : Store α) : Locked Rows DomainError α := solo liveNameUq rank env p

/-- A statement that writes nothing. -/
theorem body_reads {α : Type} {stmt : Stmt α} {a : Answer α}
    (h : stmt.run ⟨rank, fun _ => true⟩ l.db = .ok a) (hwrites : a.writes = []) :
    solo liveNameUq rank env (run stmt) l = some (.ok a.result, l) := by
  unfold run
  rw [solo_query_ok h, hwrites, if_pos (indexOk_nil _)]
  rfl

theorem body_orFail_bind {α β : Type} {e : DomainError} {o : Option α} {a : α} (h : o = some a)
    (f : α → Store β) :
    solo liveNameUq rank env (Prog.orFail e o >>= f) l = solo liveNameUq rank env (f a) l := by
  rw [h]
  rfl

theorem body_require_bind {α : Type} {c : Prop} [Decidable c] (hc : c) (e : DomainError)
    (f : Unit → Store α) :
    solo liveNameUq rank env (ReadCommitted.require c e >>= f) l =
      solo liveNameUq rank env (f ()) l := by
  unfold ReadCommitted.require
  rw [if_pos hc]
  rfl

theorem body_require_not {c : Prop} [Decidable c] (hc : ¬ c) (e : DomainError) :
    solo liveNameUq rank env (ReadCommitted.require c e : Store Unit) l = some (.error e, l) := by
  unfold ReadCommitted.require
  rw [if_neg hc]
  rfl

theorem body_bind {α β : Type} {p : Store α} {a : α} {l' : Rows}
    (h : solo liveNameUq rank env p l = some (.ok a, l')) (f : α → Store β) :
    solo liveNameUq rank env (p >>= f) l = solo liveNameUq rank env (f a) l' := by
  rw [solo_bind, Locked.bind_run h]

theorem body_bind_error {α β : Type} {p : Store α} {e : DomainError} {l' : Rows}
    (h : solo liveNameUq rank env p l = some (.error e, l')) (f : α → Store β) :
    solo liveNameUq rank env (p >>= f) l = some (.error e, l') := by
  rw [solo_bind, Locked.bind_run_error h]

theorem body_selectObjectForUpdate (id : ObjectId) :
    solo liveNameUq rank env (run (selectObjectForUpdate id)) l =
      some (.ok (Db.object l.db id), l) := by
  have hrun : (selectObjectForUpdate id).run ⟨rank, fun _ => true⟩ l.db = .ok {
      result := Db.object l.db id
      locks := if (Db.object l.db id).isSome then [(.object id, .update)] else [] } := rfl
  exact body_reads hrun rfl

theorem body_selectUploadForUpdate (id : UploadId) :
    solo liveNameUq rank env (run (selectUploadForUpdate id)) l =
      some (.ok (Db.upload l.db id), l) := by
  have hrun : (selectUploadForUpdate id).run ⟨rank, fun _ => true⟩ l.db = .ok {
      result := Db.upload l.db id
      locks := if (Db.upload l.db id).isSome then [(.upload id, .update)] else [] } := rfl
  exact body_reads hrun rfl

/-- A payload that `jsonb` takes. -/
theorem body_requirePayload {a : Adapter} {hasNul : Bool} (h : a = .rpc → hasNul = false)
    {α : Type} (f : Unit → Store α) :
    solo liveNameUq rank env (requirePayload a hasNul >>= f) l =
      solo liveNameUq rank env (f ()) l := by
  cases a with
  | sqlx => rfl
  | rpc => exact body_require_bind (h rfl) _ f

/-- A payload that it refuses. -/
theorem body_requirePayload_not {hasNul : Bool} (h : hasNul = true) {α : Type}
    (f : Unit → Store α) :
    solo liveNameUq rank env (requirePayload .rpc hasNul >>= f) l =
      some (.error (mapSqlx .other), l) := by
  unfold requirePayload
  exact body_bind_error (body_require_not (by rw [h]; decide) _) f

theorem body_lockLiveObject {a : Adapter} {id : ObjectId} {o held : ObjectRow}
    (hid : isText id = true) (h : Db.live l.db id = some o) (hheld : a.held o = some held) :
    solo liveNameUq rank env (lockLiveObject a id) l = some (.ok held, l) := by
  obtain ⟨hobject, hlive⟩ := Option.filter_eq_some_iff.mp h
  have hlive : held.deletedAt.isNone = true := by
    rw [Adapter.held_eq hheld]
    exact hlive
  unfold lockLiveObject requireText
  rw [body_require_bind hid, body_bind (body_selectObjectForUpdate id), body_orFail_bind hobject,
    body_orFail_bind hheld, body_require_bind hlive]
  rfl

/-- A row whose metadata cannot be parsed stops the operation. -/
theorem body_lockLiveObject_unread {a : Adapter} {id : ObjectId} {o : ObjectRow}
    (hid : isText id = true) (h : Db.live l.db id = some o) (hheld : a.held o = none) :
    solo liveNameUq rank env (lockLiveObject a id) l = some (.error (mapSqlx .other), l) := by
  obtain ⟨hobject, -⟩ := Option.filter_eq_some_iff.mp h
  unfold lockLiveObject requireText
  rw [body_require_bind hid, body_bind (body_selectObjectForUpdate id), body_orFail_bind hobject]
  rw [hheld]
  rfl

/-- The check of a mutation that expects another revision. -/
theorem body_checkIfMatchIn {a : Adapter} {current expected : Revision} (h : expected ≠ current) :
    solo liveNameUq rank env (checkIfMatchIn a current (some expected)) l =
      if a = .rpc ∧ 2 ^ 63 ≤ expected then some (.error (mapSqlx .other), l)
      else some (.error (.revisionConflict current), l) := by
  have hstale : ¬ ∀ e ∈ some expected, e = current := fun hall => h (hall expected rfl)
  have hconflict : solo liveNameUq rank env (checkIfMatch current (some expected)) l =
      some (.error (.revisionConflict current), l) := body_require_not hstale _
  cases a with
  | sqlx =>
    rw [if_neg fun hcast => Adapter.noConfusion hcast.1]
    exact hconflict
  | rpc =>
    unfold checkIfMatchIn
    by_cases hfits : expected < 2 ^ 63
    · have hall : ∀ e ∈ some expected, e < 2 ^ 63 := fun e he => Option.some.inj he ▸ hfits
      rw [body_require_bind hall, hconflict, if_neg fun hcast => absurd hcast.2 (Nat.not_le.mpr hfits)]
    · have hlarge : ¬ ∀ e ∈ some expected, e < 2 ^ 63 := fun hall => hfits (hall expected rfl)
      rw [body_bind_error (body_require_not hlarge _), if_pos ⟨rfl, Nat.not_lt.mp hfits⟩]

end Solo

end AnyStore
