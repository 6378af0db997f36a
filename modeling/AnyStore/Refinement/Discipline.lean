import AnyStore.Lib.Typestate
import AnyStore.Refinement.Idempotency

/-!
# The discipline of a session

What the text of every program of the store keeps to, whatever the answers: a
mutation takes its idempotency record last, after the Change-order lock nothing
but Changes and that record, and has nothing left to do once it is committed.
`discipline_tracks` ties the phase of a program to its session.
-/

namespace AnyStore

open ReadCommitted

variable {α : Type} {L : Label → Prop} {label : Label} {x : Phase} {t u : Nat} {s s' : DbState}

/-- The transactions that mutate objects. -/
def Label.mutates : Label → Bool
  | .createObject _ | .patchObject _ | .deleteObject _ | .commitContent _ => true
  | _ => false

/-- The transactions that are about idempotency records alone. -/
def Label.keepsRecords : Label → Bool
  | .acquire _ | .purgeIdempotencyRecords _ => true
  | _ => false

/-- The idempotency record that a transaction finalises. -/
def Label.OwnRecord (label : Label) (r : Row) : Prop :=
  ∃ ictx, label.finalizer = some ictx ∧ r = ictx.recordKey.row

/-- Where the session of a process stands. -/
inductive Phase
  | idle
  | opened (label : Label)
  -- the Change-order lock is held
  | ordered (label : Label)
  -- the idempotency record may have been taken
  | finalized (label : Label)
  -- a mutation was committed
  | done

/-- The statement may lock the row, write it or wait for it. -/
def Takes (stmt : Stmt α) (r : Row) : Prop :=
  ∃ scan db a, stmt.run scan db = .ok a ∧ (r ∈ a.allLocks.map Prod.fst ∨ r ∈ a.waits)

/-- What a transaction may take before the Change-order lock. -/
structure Label.MayTake (label : Label) (r : Row) : Prop where
  own : r.table = .idempotency → label.keepsRecords = true ∨ label.mutates = true ∧ label.OwnRecord r
  alone : label.keepsRecords = true → r.table = .idempotency

/-- A provider session that is not open was known before. -/
def Opens (f : Env → World → Option (α × World)) : Prop :=
  ∀ e w a w', f e w = some (a, w') → ∀ m ∈ w'.multipart, m.status = .opened ∨
    m.id ∈ w.multipart.map (·.id)

/-- What a process may do in a phase; its commits carry labels in `L`. -/
def Phase.Allows (L : Label → Prop) : ∀ {β : Type}, Phase → Op β → Prop
  | _, .idle, .begin label => L label
  | _, .idle, .sql stmt => L stmt.label ∧ stmt.label.mutates = false
  | _, .idle, .world op => Opens op.run
  | _, .opened label, .sql stmt => ∀ r, Takes stmt r → label.MayTake r
  | _, .opened label, .advisoryLock => label.mutates = true
  | _, .opened _, .world op => Opens op.run
  | _, .opened _, .commit => True
  | _, .opened _, .rollback => True
  | _, .ordered label, .sql stmt => ∀ r, Takes stmt r → r.table = .changes ∨ label.OwnRecord r
  | _, .ordered _, .advisoryLock => True
  | _, .ordered _, .nextval _ => True
  | _, .ordered _, .commit => True
  | _, .ordered _, .rollback => True
  | _, .finalized _, .commit => True
  | _, .finalized _, .rollback => True
  | _, _, _ => False

/-- The phase after a commit. -/
def Label.closed (label : Label) : Phase := if label.mutates then .done else .idle

open Classical in
/-- The phase after a statement. -/
noncomputable def Phase.after (stmt : Stmt α) : Phase → Phase
  | .opened label =>
    if label.mutates = true ∧ ∃ r, Takes stmt r ∧ r.table = .idempotency then .finalized label
    else .opened label
  | .ordered label =>
    if ∃ r, Takes stmt r ∧ r.table = .idempotency then .finalized label else .ordered label
  | x => x

noncomputable def Phase.next : ∀ {β : Type}, Phase → Op β → β → Phase
  | _, .idle, .begin label, .ok _ => .opened label
  | _, x, .sql stmt, .ok _ => x.after stmt
  | _, .opened label, .advisoryLock, .ok _ => .ordered label
  | _, .opened label, .commit, .ok _ => label.closed
  | _, .ordered label, .commit, .ok _ => label.closed
  | _, .finalized label, .commit, .ok _ => label.closed
  | _, _, .commit, .error _ => .idle
  | _, _, .rollback, _ => .idle
  | _, x, _, _ => x

/-- The discipline of a process whose commits carry labels in `L`. -/
noncomputable def discipline (L : Label → Prop) : Typestate Op Phase where
  allows x _ op := x.Allows L op
  next x _ op b := x.next op b

/-! ## The session behind a phase -/

/-- What a session may have taken by now. -/
structure Fits (sess : Session Row.Val Label) (label : Label) : Prop where
  named : sess.label = label
  owns : ∀ w ∈ sess.log, w.1 ∈ sess.locks.map Prod.fst
  records : ∀ r ∈ sess.locks.map Prod.fst,
    r.table = .idempotency ↔ label.keepsRecords = true

/-- The session of a process in this phase. -/
def Phase.Shows (L : Label → Prop) (t : Nat) (s : DbState) : Phase → Prop
  | .idle => s.session t = none
  | .done => s.session t = none
  | .opened label => L label ∧ ∃ sess, s.session t = some sess ∧ Fits sess label ∧
      sess.advisory = false
  | .ordered label => L label ∧ label.mutates = true ∧
      ∃ sess, s.session t = some sess ∧ Fits sess label
  | .finalized label => L label ∧ label.mutates = true ∧
      ∃ sess, s.session t = some sess ∧ sess.label = label

/-- A phase only depends on the session. -/
theorem Phase.Shows.congr (h : x.Shows L t s) (hs : s'.session t = s.session t) :
    x.Shows L t s' := by
  cases x <;> simp only [Phase.Shows, hs] at h ⊢ <;> exact h

/-- A step of another process leaves the session alone. -/
theorem exec_session_ne {β : Type} {op : Op β} {ch : Choice Row Env} {b : β} (hut : u ≠ t)
    (h : store.exec u ch op s = some (b, s')) : s'.session t = s.session t := by
  rw [machine_exec] at h
  cases op with
  | begin label =>
    simp only [exec] at h
    split at h
    · split at h
      · cases h
        exact State.session_setSession_ne _ hut.symm
      · cases h
    · cases h
      rfl
    · cases h
      rfl
  | sql stmt =>
    have hsql : ∀ {r s'}, execSql liveNameUq u ch.rank stmt s = some (r, s') →
        s'.session t = s.session t := by
      intro r s' h
      rcases execSql_cases h with ⟨e, _, rfl, _⟩ | ⟨scan, a, _, _, rfl, _⟩
      · rfl
      · rw [State.record]
        split
        · exact State.session_setSession_ne _ hut.symm
        · exact State.session_publish ..
    simp only [exec] at h
    split at h
    · exact hsql h
    · cases h
      rfl
    · split at h
      · cases h
        rfl
      · obtain ⟨⟨r, s₂⟩, hr, heq⟩ := Option.map_eq_some_iff.mp h
        obtain ⟨_, rfl⟩ := Prod.mk.inj heq
        rw [State.session_fail]
        exact hsql hr
  | advisoryLock =>
    simp only [exec] at h
    split at h
    · split at h
      · cases h
        exact State.session_setSession_ne _ hut.symm
      · cases h
    · cases h
    · cases h
      rfl
    · cases h
      rfl
  | nextval n =>
    simp only [exec] at h
    split at h <;> cases h <;> rfl
  | commit =>
    simp only [exec] at h
    split at h
    · cases h
    · split at h <;> cases h
      · rw [State.session_publish, State.session_close_ne hut.symm]
      · exact State.session_close_ne hut.symm
      · rw [State.session_fail, State.session_publish, State.session_close_ne hut.symm]
  | rollback =>
    simp only [exec] at h
    cases h
    exact State.session_close_ne hut.symm
  | world op =>
    obtain ⟨w, _, rfl⟩ := exec_world h
    rfl

/-- A statement that ran in a session. -/
theorem exec_sql_session {stmt : Stmt α} {ch : Choice Row Env} {b : Except SqlError α}
    {sess : Session Row.Val Label} (hs : s.session t = some sess)
    (h : store.exec t ch (.sql stmt) s = some (b, s')) :
    (∃ e, b = .error e) ∧ s'.session t = some sess ∨ ∃ scan a,
      stmt.run scan (s.view t) = .ok a ∧ b = .ok a.result ∧
        s'.session t = some (sess.extend a) := by
  rw [machine_exec] at h
  simp only [exec, hs] at h
  split at h
  · rcases execSql_cases h with ⟨e, rfl, rfl, _⟩ | ⟨scan, a, ha, rfl, rfl, _⟩
    · exact .inl ⟨⟨e, rfl⟩, hs⟩
    · refine .inr ⟨scan, a, ha, rfl, ?_⟩
      rw [State.record, hs]
      exact State.session_setSession_self _
  · cases h
    exact .inl ⟨⟨_, rfl⟩, hs⟩
  · cases h
    exact .inl ⟨⟨_, rfl⟩, hs⟩

/-- The rows that a statement adds to the locks of its session are those it takes. -/
theorem takes_of_extend {stmt : Stmt α} {scan : Scan Row} {db : Db} {a : Answer α}
    (ha : stmt.run scan db = .ok a) {sess : Session Row.Val Label} {r : Row}
    (hr : r ∈ (sess.extend a).locks.map Prod.fst) : r ∈ sess.locks.map Prod.fst ∨ Takes stmt r := by
  rw [Session.extend, List.map_append, List.mem_append] at hr
  exact hr.imp_right fun hr => ⟨scan, db, a, ha, .inl hr⟩

/-- A statement of the right kind keeps the session fitting. -/
theorem Fits.extend {sess : Session Row.Val Label} (h : Fits sess label) {stmt : Stmt α}
    {scan : Scan Row} {db : Db} {a : Answer α} (ha : stmt.run scan db = .ok a)
    (hrecords : ∀ r, Takes stmt r → (r.table = .idempotency ↔ label.keepsRecords = true)) :
    Fits (sess.extend a) label where
  named := h.named
  owns w hw := by
    rw [Session.extend] at hw ⊢
    rw [List.map_append, List.mem_append]
    rcases List.mem_append.mp hw with hw | hw
    · exact .inl (h.owns w hw)
    · refine .inr (List.mem_map.mpr ⟨(w.1, .noKeyUpdate), ?_, rfl⟩)
      exact List.mem_append_right _ (List.mem_map.mpr ⟨w, hw, rfl⟩)
  records r hr := by
    rcases takes_of_extend ha hr with hr | hr
    · exact h.records r hr
    · exact hrecords r hr

/-- A mutation keeps no records. -/
theorem Label.mutates_not_keeps (h : label.mutates = true) : label.keepsRecords = false := by
  cases label <;> first | rfl | cases h

/-- What a session may take keeps its locks in order. -/
theorem Label.MayTake.iff {r : Row} (h : label.MayTake r)
    (hown : ¬ (label.mutates = true ∧ r.table = .idempotency)) :
    r.table = .idempotency ↔ label.keepsRecords = true := by
  refine ⟨fun hr => ?_, h.alone⟩
  rcases h.own hr with hkeeps | ⟨hmutates, _⟩
  · exact hkeeps
  · exact absurd ⟨hmutates, hr⟩ hown

/-- A statement within a transaction. -/
theorem Phase.Shows.sql {stmt : Stmt α} {ch : Choice Row Env} {b : Except SqlError α}
    (h : x.Shows L t s) (hallows : x.Allows L (.sql stmt : Op _))
    (he : store.exec t ch (.sql stmt) s = some (b, s')) : (x.next (.sql stmt : Op _) b).Shows L t s' := by
  cases x with
  | idle =>
    have hidle : s'.session t = none := by
      rw [machine_exec] at he
      have hsql : ∀ {r s'}, execSql liveNameUq t ch.rank stmt s = some (r, s') →
          s'.session t = none := by
        intro r s' he
        rcases execSql_cases he with ⟨e, _, rfl, _⟩ | ⟨scan, a, _, _, rfl, _⟩
        · exact h
        · rw [State.record, show s.session t = none from h]
          exact (State.session_publish ..).trans h
      simp only [exec] at he
      split at he
      · exact hsql he
      · cases he
        exact h
      · rw [show s.session t = none from h] at he
        obtain ⟨⟨r, s₂⟩, hr, heq⟩ := Option.map_eq_some_iff.mp he
        obtain ⟨_, rfl⟩ := Prod.mk.inj heq
        rw [State.session_fail]
        exact hsql hr
    cases b <;> exact hidle
  | opened label =>
    obtain ⟨hL, sess, hs, hfits, hadv⟩ := h
    rcases exec_sql_session hs he with ⟨⟨e, rfl⟩, hs'⟩ | ⟨scan, a, ha, rfl, hs'⟩
    · exact ⟨hL, sess, hs', hfits, hadv⟩
    · show Phase.Shows L t s' (Phase.after stmt (.opened label))
      rw [Phase.after]
      split
      · next hfinal => exact ⟨hL, hfinal.1, sess.extend a, hs', hfits.named⟩
      · next hfinal =>
        refine ⟨hL, sess.extend a, hs', hfits.extend ha fun r hr => ?_, hadv⟩
        exact (hallows r hr).iff fun h => hfinal ⟨h.1, r, hr, h.2⟩
  | ordered label =>
    obtain ⟨hL, hmutates, sess, hs, hfits⟩ := h
    rcases exec_sql_session hs he with ⟨⟨e, rfl⟩, hs'⟩ | ⟨scan, a, ha, rfl, hs'⟩
    · exact ⟨hL, hmutates, sess, hs', hfits⟩
    · show Phase.Shows L t s' (Phase.after stmt (.ordered label))
      rw [Phase.after]
      split
      · exact ⟨hL, hmutates, sess.extend a, hs', hfits.named⟩
      · next hfinal =>
        refine ⟨hL, hmutates, sess.extend a, hs', hfits.extend ha fun r hr => ?_⟩
        rw [Label.mutates_not_keeps hmutates]
        exact ⟨fun htable => absurd ⟨r, hr, htable⟩ hfinal, Bool.noConfusion⟩
  | finalized label => exact hallows.elim
  | done => exact hallows.elim

/-- A commit or a rollback ends the session. -/
theorem exec_close {β : Type} {op : Op β} {ch : Choice Row Env} {b : β}
    (hop : (∃ h : β = Except SqlError Unit, h ▸ op = .commit) ∨ ∃ h : β = Unit, h ▸ op = .rollback)
    (h : store.exec t ch op s = some (b, s')) : s'.session t = none := by
  rw [machine_exec] at h
  rcases hop with ⟨rfl, rfl⟩ | ⟨rfl, rfl⟩
  · simp only [exec] at h
    split at h
    · cases h
    · split at h <;> cases h
      · rw [State.session_publish, State.session_close_self]
      · exact State.session_close_self
      · rw [State.session_fail, State.session_publish, State.session_close_self]
  · simp only [exec] at h
    cases h
    exact State.session_close_self

/-- Outside of transactions. -/
theorem Label.closed_shows (hs : s.session t = none) : label.closed.Shows L t s := by
  rw [Label.closed]
  split <;> exact hs

/-- **Step.** -/
theorem Phase.Shows.step {β : Type} {op : Op β} {ch : Choice Row Env} {b : β} (h : x.Shows L t s)
    (hallows : x.Allows L op) (he : store.exec t ch op s = some (b, s')) :
    (x.next op b).Shows L t s' := by
  cases op with
  | sql stmt => exact h.sql hallows he
  | begin label =>
    cases x with
    | idle =>
      rw [machine_exec] at he
      simp only [exec] at he
      split at he
      · split at he
        · cases he
          exact ⟨hallows, { label }, State.session_setSession_self _,
            ⟨rfl, fun w hw => absurd hw List.not_mem_nil, fun r hr => absurd hr List.not_mem_nil⟩, rfl⟩
        · cases he
      · cases he
        exact h
      · cases he
        exact h
    | _ => exact hallows.elim
  | advisoryLock =>
    have hlock : ∀ {sess : Session Row.Val Label}, s.session t = some sess →
        (∃ e, b = .error e) ∧ s'.session t = some sess ∨
          b = .ok () ∧ s'.session t = some { sess with advisory := true } := by
      intro sess hs
      rw [machine_exec] at he
      simp only [exec, hs] at he
      split at he
      · next hsess =>
        obtain rfl := Option.some.inj hsess
        split at he
        · cases he
          exact .inr ⟨rfl, State.session_setSession_self _⟩
        · cases he
      · next hnone => cases hnone
      · cases he
        exact .inl ⟨⟨_, rfl⟩, hs⟩
      · cases he
        exact .inl ⟨⟨_, rfl⟩, hs⟩
    cases x with
    | opened label =>
      obtain ⟨hL, sess, hs, hfits, hadv⟩ := h
      rcases hlock hs with ⟨⟨e, rfl⟩, hs'⟩ | ⟨rfl, hs'⟩
      · exact ⟨hL, sess, hs', hfits, hadv⟩
      · exact ⟨hL, hallows, _, hs', hfits.named, hfits.owns, hfits.records⟩
    | ordered label =>
      obtain ⟨hL, hmutates, sess, hs, hfits⟩ := h
      rcases hlock hs with ⟨⟨e, rfl⟩, hs'⟩ | ⟨rfl, hs'⟩
      · exact ⟨hL, hmutates, sess, hs', hfits⟩
      · exact ⟨hL, hmutates, _, hs', hfits.named, hfits.owns, hfits.records⟩
    | _ => exact hallows.elim
  | nextval n =>
    have hsession : s'.session t = s.session t := by
      rw [machine_exec] at he
      simp only [exec] at he
      split at he <;> cases he <;> rfl
    cases x with
    | ordered label => cases b <;> exact h.congr hsession
    | _ => exact hallows.elim
  | commit =>
    have hs' : s'.session t = none := exec_close (.inl ⟨rfl, rfl⟩) he
    cases x with
    | opened label | ordered label | finalized label =>
      cases b with
      | ok u => exact Label.closed_shows hs'
      | error e => exact hs'
    | _ => exact hallows.elim
  | rollback =>
    have hs' : s'.session t = none := exec_close (.inr ⟨rfl, rfl⟩) he
    cases x with
    | opened label | ordered label | finalized label => exact hs'
    | _ => exact hallows.elim
  | world op =>
    rw [machine_exec] at he
    obtain ⟨w, _, rfl⟩ := exec_world he
    cases x with
    | idle | opened label => exact h
    | _ => exact hallows.elim

/-- Publishing a write set makes one entry of the journal, if any. -/
theorem publish_cases (s : DbState) (label : Label) (ws : List Write) :
    s.publish label ws = s ∨ (s.publish label ws).wal = s.wal ++ [(label, ws)] := by
  by_cases hws : ws = []
  · left
    rw [State.publish, if_pos (by simpa using hws)]
  · exact .inr (State.wal_publish label ws hws)

/-- What a step adds to the journal: a commit under a label of the program, and
after a mutation there is nothing left to do, if the answer arrives. -/
inductive Adds (L : Label → Prop) (s s' : DbState) (ch : Choice Row Env) (y : Phase) : Prop
  | nothing (hdb : s'.db = s.db) (hwal : s'.wal = s.wal)
  | commit (label : Label) (ws : List Write) (hwal : s'.wal = s.wal ++ [(label, ws)])
      (hlabel : L label)
      (hdone : label.mutates = true → y = .done ∨ ∃ e, ch.outcome = .lost e)

/-- A transaction that fails adds nothing. -/
theorem Adds.fail {L : Label → Prop} {ch : Choice Row Env} {y : Phase} (h : Adds L s s' ch y) :
    Adds L s (s'.fail t) ch y := by
  cases h with
  | nothing hdb hwal => exact .nothing hdb hwal
  | commit label ws hwal hlabel hdone => exact .commit label ws hwal hlabel hdone

/-- **Step.** What an operation adds is what its phase allows. -/
theorem Phase.Shows.adds {β : Type} {op : Op β} {ch : Choice Row Env} {b : β} (h : x.Shows L t s)
    (hallows : x.Allows L op) (he : store.exec t ch op s = some (b, s')) :
    Adds L s s' ch (x.next op b) := by
  rw [machine_exec] at he
  cases op with
  | begin label | advisoryLock =>
    simp only [exec] at he
    refine .nothing ?_ ?_ <;> (repeat' split at he) <;> cases he <;> rfl
  | nextval n =>
    simp only [exec] at he
    refine .nothing ?_ ?_ <;> split at he <;> cases he <;> rfl
  | rollback =>
    simp only [exec] at he
    cases he
    exact .nothing rfl rfl
  | world op =>
    obtain ⟨w, _, rfl⟩ := exec_world he
    exact .nothing rfl rfl
  | sql stmt =>
    have hsql : ∀ {r s'}, execSql liveNameUq t ch.rank stmt s = some (r, s') → ∀ y,
        Adds L s s' ch y := by
      intro r s' he y
      rcases execSql_cases he with ⟨e, _, rfl, _⟩ | ⟨scan, a, _, _, rfl, _⟩
      · exact .nothing rfl rfl
      · rw [State.record]
        split
        · exact .nothing rfl rfl
        · next hs =>
          -- outside a transaction
          have hx : x = .idle := by
            cases x with
            | idle => rfl
            | opened label =>
              obtain ⟨_, sess, hsess, _⟩ := h
              cases hs.symm.trans hsess
            | ordered label =>
              obtain ⟨_, _, sess, hsess, _⟩ := h
              cases hs.symm.trans hsess
            | finalized label => exact hallows.elim
            | done => exact hallows.elim
          subst hx
          rcases publish_cases s stmt.label a.writes with heq | hwal
          · rw [heq]
            exact .nothing rfl rfl
          · refine .commit stmt.label a.writes hwal hallows.1 fun hm => ?_
            rw [hallows.2] at hm
            cases hm
    simp only [exec] at he
    split at he
    · exact hsql he _
    · cases he
      exact .nothing rfl rfl
    · split at he
      · cases he
        exact .nothing rfl rfl
      · obtain ⟨⟨r, s₂⟩, hr, heq⟩ := Option.map_eq_some_iff.mp he
        obtain ⟨_, rfl⟩ := Prod.mk.inj heq
        exact (hsql hr _).fail
  | commit =>
    have hcommit : ∀ label, L label → (∃ sess, s.session t = some sess ∧ sess.label = label) →
        (b = .ok () → x.next (.commit : Op _) b = label.closed) →
        Adds L s s' ch (x.next (.commit : Op _) b) := by
      rintro _ hL ⟨sess, hs, rfl⟩ hnext
      have hpublish : ∀ y, (sess.label.mutates = true → y = .done ∨ ∃ e, ch.outcome = .lost e) →
          Adds L s ((s.close t).publish sess.label sess.log) ch y := by
        intro y hy
        rcases publish_cases (s.close t) sess.label sess.log with heq | hwal
        · rw [heq]
          exact .nothing rfl rfl
        · exact .commit sess.label sess.log hwal hL hy
      simp only [exec, hs] at he
      split at he
      · cases he
        refine hpublish _ fun hm => .inl ?_
        rw [hnext rfl, Label.closed, hm]
        rfl
      · cases he
        exact .nothing rfl rfl
      · next e hlost =>
        cases he
        exact (hpublish _ fun _ => .inr ⟨e, hlost⟩).fail
    cases x with
    | opened label =>
      obtain ⟨hL, sess, hs, hfits, _⟩ := h
      exact hcommit label hL ⟨sess, hs, hfits.named⟩ fun hb => by subst hb; rfl
    | ordered label =>
      obtain ⟨hL, _, sess, hs, hfits⟩ := h
      exact hcommit label hL ⟨sess, hs, hfits.named⟩ fun hb => by subst hb; rfl
    | finalized label =>
      obtain ⟨hL, _, sess, hs, hname⟩ := h
      exact hcommit label hL ⟨sess, hs, hname⟩ fun hb => by subst hb; rfl
    | _ => exact hallows.elim

/-- A session that is opened by a step is open after it. -/
theorem Phase.Shows.opens {β : Type} {op : Op β} {ch : Choice Row Env} {b : β}
    (hallows : x.Allows L op) (he : store.exec t ch op s = some (b, s')) :
    ∀ m ∈ s'.world.multipart, m.status = .opened ∨ m.id ∈ s.world.multipart.map (·.id) := by
  have hsame : s'.world = s.world → ∀ m ∈ s'.world.multipart, m.status = .opened ∨
      m.id ∈ s.world.multipart.map (·.id) := by
    intro hw m hm
    rw [hw] at hm
    exact .inr (List.mem_map.mpr ⟨m, hm, rfl⟩)
  rw [machine_exec] at he
  cases op with
  | begin label | advisoryLock =>
    simp only [exec] at he
    refine hsame ?_
    (repeat' split at he) <;> cases he <;> rfl
  | nextval n =>
    simp only [exec] at he
    refine hsame ?_
    split at he <;> cases he <;> rfl
  | rollback =>
    simp only [exec] at he
    cases he
    exact hsame rfl
  | sql stmt =>
    have hsql : ∀ {r s'}, execSql liveNameUq t ch.rank stmt s = some (r, s') →
        s'.world = s.world := by
      intro r s' he
      rcases execSql_cases he with ⟨e, _, rfl, _⟩ | ⟨scan, a, _, _, rfl, _⟩
      · rfl
      · rw [State.record]
        split
        · rfl
        · exact State.world_publish ..
    simp only [exec] at he
    refine hsame ?_
    split at he
    · exact hsql he
    · cases he
      rfl
    · split at he
      · cases he
        rfl
      · obtain ⟨⟨r, s₂⟩, hr, heq⟩ := Option.map_eq_some_iff.mp he
        obtain ⟨_, rfl⟩ := Prod.mk.inj heq
        exact (hsql hr : s₂.world = s.world)
  | commit =>
    simp only [exec] at he
    refine hsame ?_
    split at he
    · cases he
    · split at he <;> cases he
      · exact State.world_publish ..
      · rfl
      · exact (State.world_publish .. : ((s.close t).publish _ _).world = _)
  | world op =>
    obtain ⟨w, hw, rfl⟩ := exec_world he
    cases x with
    | idle | opened label => exact hallows _ _ _ _ hw
    | _ => exact hallows.elim

/-- **Discipline.** The phases follow the sessions. -/
theorem discipline_tracks (L : Request → Label → Prop) :
    Typestate.Tracks (fun req => discipline (L req)) store (fun t req x s => x.Shows (L req) t s)
      (fun t s => s.session t = none) .idle where
  begins _ _ _ h := h
  moves _ _ _ _ _ _ _ _ _ h hallows he := h.step hallows he
  others _ _ _ _ _ _ _ _ _ _ _ _ hne h _ _ he := h.congr (exec_session_ne hne he)
  idles _ _ _ _ _ _ _ _ _ _ hne h _ _ he := (exec_session_ne hne he).trans h
  crash _ _ _ _ _ hne h := h.congr (State.session_close_ne hne.symm)
  crash_idle _ _ _ hne h := (State.session_close_ne hne.symm).trans h

end AnyStore
