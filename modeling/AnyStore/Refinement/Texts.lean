import AnyStore.Refinement.Discipline

/-!
# The texts of the programs

Every program of the store follows `discipline`, with the labels that its
request may commit under (`Request.Utters`).
-/

namespace AnyStore

open ReadCommitted

variable {α β : Type} {L : Label → Prop} {label : Label} {x : Phase} {app : AppState}
  {ctx : RequestContext}

/-- The text of the program follows the discipline from the phase on. -/
abbrev Follows (L : Label → Prop) (p : Store α) (Q : Except DomainError α → Phase → Prop)
    (x : Phase) : Prop :=
  p.Obeys (discipline L) Q x

/-- The program ends in the phase it starts in. -/
def Stays (L : Label → Prop) (x : Phase) (p : Store α) (R : α → Prop) : Prop :=
  Follows L p (fun r y => y = x ∧ ∀ a, r = .ok a → R a) x

/-- Nothing is done. -/
theorem stays_ret {a : α} {R : α → Prop} (h : R a) : Stays L x (.ret a) R :=
  ⟨rfl, fun _ ha => Except.ok.inj ha ▸ h⟩

theorem stays_fail {e : DomainError} {R : α → Prop} : Stays L x (.fail e) R :=
  ⟨rfl, fun _ h => nomatch h⟩

/-- **Sequence.** Both programs follow the discipline. -/
theorem follows_seq {p : Store α} {f : α → Store β} {R : α → Prop}
    {Q : Except DomainError β → Phase → Prop} (hp : Stays L x p R)
    (hf : ∀ a, R a → Follows L (f a) Q x) (herror : ∀ e, Q (.error e) x) :
    Follows L (p >>= f) Q x := by
  refine Prog.obeys_bind.mpr (hp.mono fun r y ⟨hy, hr⟩ => ?_)
  subst hy
  cases r with
  | ok a => exact hf a (hr a rfl)
  | error e => exact herror e

/-- Two programs that stay in a phase. -/
theorem stays_seq {p : Store α} {f : α → Store β} {R : α → Prop} {R' : β → Prop}
    (hp : Stays L x p R) (hf : ∀ a, R a → Stays L x (f a) R') : Stays L x (p >>= f) R' :=
  follows_seq hp hf fun _ => ⟨rfl, fun _ h => nomatch h⟩

/-- A weaker end. -/
theorem Stays.mono {p : Store α} {R R' : α → Prop} (h : Stays L x p R) (hR : ∀ a, R a → R' a) :
    Stays L x p R' :=
  Prog.Obeys.mono h fun _ _ ⟨hy, hr⟩ => ⟨hy, fun a ha => hR a (hr a ha)⟩

/-- An attempt goes on after an error. -/
theorem stays_attempt {p : Store α} {R : α → Prop} (h : Stays L x p R) :
    Stays L x (p.attempt : Store (Except DomainError α)) (fun r => ∀ a, r = .ok a → R a) := by
  refine Prog.obeys_attempt.mpr (Prog.Obeys.mono h fun r y ⟨hy, hr⟩ => ⟨hy, fun r' hr' a ha => ?_⟩)
  obtain rfl := Except.ok.inj hr'
  exact hr a ha

theorem stays_require {p : Prop} [Decidable p] {e : DomainError} :
    Stays L x (require p e) (fun _ => p) := by
  rw [require]
  split
  · next h => exact stays_ret h
  · exact stays_fail

theorem stays_orFail {e : DomainError} (o : Option α) :
    Stays L x (Prog.orFail e o) (fun a => o = some a) := by
  cases o with
  | none => exact stays_fail
  | some a => exact stays_ret rfl

theorem stays_ofExcept (r : Except DomainError α) :
    Stays L x (Prog.ofExcept r) (fun a => r = .ok a) := by
  cases r with
  | error e => exact stays_fail
  | ok a => exact stays_ret rfl

/-- A statement that stays in the phase. -/
theorem stays_run_of {stmt : Stmt α} (hallows : x.Allows L (.sql stmt : Op _))
    (hafter : x.after stmt = x) : Stays L x (run stmt) (fun _ => True) := by
  refine ⟨hallows, fun b => ?_⟩
  cases b with
  | ok a =>
    refine ⟨?_, fun _ _ => trivial⟩
    show Phase.next x (.sql stmt : Op _) (.ok a) = x
    cases x <;> exact hafter
  | error e =>
    refine ⟨?_, fun _ h => nomatch h⟩
    show Phase.next x (.sql stmt : Op _) (.error e) = x
    cases x <;> rfl

/-- A statement that is its own transaction. -/
theorem stays_run {stmt : Stmt α} (h : L stmt.label)
    (hm : stmt.label.mutates = false := by rfl) : Stays L .idle (run stmt) (fun _ => True) :=
  stays_run_of ⟨h, hm⟩ rfl

/-- A step of the world may be made with no transaction open, or in one that has written
nothing. -/
theorem stays_outside {label : Label} {f : Env → World → Option (α × World)} (hf : Opens f)
    (hx : x = .idle ∨ ∃ label, x = .opened label) : Stays L x (outside label f) (fun _ => True) := by
  rcases hx with rfl | ⟨label, rfl⟩
  · exact ⟨hf, fun b => ⟨rfl, fun _ _ => trivial⟩⟩
  · exact ⟨hf, fun b => ⟨rfl, fun _ _ => trivial⟩⟩

/-! ## Rows that statements take -/

/-- The statement takes rows of one table only. -/
def TakesOn (T : Table) (stmt : Stmt α) : Prop := ∀ r, Takes stmt r → r.table = T

/-- The statement takes no row. -/
def TakesNone (stmt : Stmt α) : Prop := ∀ r, ¬ Takes stmt r

/-- The statement leaves idempotency records alone. -/
def OffRecords (stmt : Stmt α) : Prop := ∀ r, Takes stmt r → r.table ≠ .idempotency

/-- Rows of other tables are no records. -/
theorem TakesOn.offRecords {T : Table} {stmt : Stmt α} (h : TakesOn T stmt)
    (hT : T ≠ .idempotency) : OffRecords stmt := fun r hr => by rwa [h r hr]

theorem TakesNone.offRecords {stmt : Stmt α} (h : TakesNone stmt) : OffRecords stmt :=
  fun r hr => absurd hr (h r)

theorem takesNone_select (f : Db → α) : TakesNone (select f) := by
  rintro r ⟨scan, db, a, ha, hr⟩
  cases ha
  rcases hr with hr | hr <;> cases hr

/-- A statement that leaves idempotency records alone, before the Change-order lock. -/
theorem stays_off {stmt : Stmt α} (h : OffRecords stmt) (hlabel : label.keepsRecords = false) :
    Stays L (.opened label) (run stmt) (fun _ => True) := by
  refine stays_run_of (fun r hr => ⟨fun htable => absurd htable (h r hr), fun hk => ?_⟩) ?_
  · rw [hlabel] at hk
    cases hk
  · rw [Phase.after, if_neg]
    rintro ⟨_, r, hr, htable⟩
    exact h r hr htable

/-- A statement on idempotency records, in a transaction that is about them. -/
theorem stays_on_records {stmt : Stmt α} (h : TakesOn .idempotency stmt)
    (hlabel : label.keepsRecords = true) :
    Stays L (.opened label) (run stmt) (fun _ => True) := by
  refine stays_run_of (fun r hr => ⟨fun _ => .inl hlabel, fun _ => h r hr⟩) ?_
  rw [Phase.after, if_neg]
  rintro ⟨hmutates, _⟩
  rw [Label.mutates_not_keeps hmutates] at hlabel
  cases hlabel

/-- The transaction is open and its record is not finalised. -/
def Phase.Unfinished (label : Label) (x : Phase) : Prop := x = .opened label ∨ x = .ordered label

/-- A query takes no rows. -/
theorem stays_select {f : Db → α} (hx : x.Unfinished label) :
    Stays L x (run (select f)) (fun _ => True) := by
  have hnone := takesNone_select f
  rcases hx with rfl | rfl
  · refine stays_run_of (fun r hr => absurd hr (hnone r)) ?_
    rw [Phase.after, if_neg]
    rintro ⟨_, r, hr, _⟩
    exact hnone r hr
  · refine stays_run_of (fun r hr => absurd hr (hnone r)) ?_
    rw [Phase.after, if_neg]
    rintro ⟨r, hr, _⟩
    exact hnone r hr

/-! ## Transactions -/

/-- A session of the label is open. -/
def Phase.Of (label : Label) (x : Phase) : Prop := x.Unfinished label ∨ x = .finalized label

/-- **Transaction.** The body starts in a new session of the label. -/
theorem follows_transaction {body : Store α} {R : α → Prop} (hL : L label)
    (hbody : Follows L body (fun r y => y.Of label ∧ ∀ a, r = .ok a → R a) (.opened label)) :
    Follows L (transaction mapSqlx label body) (fun r y => match r with
      | .ok a => y = label.closed ∧ R a
      | .error _ => y = .idle) .idle := by
  refine ⟨hL, fun b => ?_⟩
  cases b with
  | error e => exact rfl
  | ok u =>
    refine Prog.obeys_bind.mpr (Prog.obeys_attempt.mpr (Prog.Obeys.mono hbody fun r y h => ?_))
    obtain ⟨hy, hr⟩ := h
    cases r with
    | error e =>
      rcases hy with (rfl | rfl) | rfl <;> exact ⟨trivial, fun _ => rfl⟩
    | ok a =>
      -- from any phase of a running body the commit leads to the same one
      have hclosed : ∀ u, y.next (.commit : Op _) (.ok u) = label.closed := by
        rcases hy with (rfl | rfl) | rfl <;> exact fun _ => rfl
      have hfailed : ∀ e, y.next (.commit : Op _) (.error e) = .idle := by
        rcases hy with (rfl | rfl) | rfl <;> exact fun _ => rfl
      refine ⟨by rcases hy with (rfl | rfl) | rfl <;> exact trivial, fun b => ?_⟩
      cases b with
      | ok u => exact ⟨hclosed u, hr a rfl⟩
      | error e => exact hfailed e

/-- A transaction that is not a mutation. -/
theorem stays_transaction {body : Store α} {R : α → Prop} (hL : L label)
    (hlabel : label.mutates = false) (hbody : Stays L (.opened label) body R) :
    Stays L .idle (transaction mapSqlx label body) R := by
  have hclosed : label.closed = .idle := by
    rw [Label.closed, hlabel]
    rfl
  refine (follows_transaction hL (Prog.Obeys.mono hbody fun r y h =>
    ⟨.inl (.inl h.1), h.2⟩)).mono fun r y h => ?_
  cases r with
  | ok a => exact ⟨h.1.trans hclosed, fun a' ha' => Except.ok.inj ha' ▸ h.2⟩
  | error e =>
    refine ⟨h, fun a ha => ?_⟩
    cases ha

/-! ## Statements -/

/-- The rows of an answer are all in tables that satisfy `P`. -/
theorem takes_of_answers {stmt : Stmt α} {P : Row → Prop}
    (h : ∀ scan db a, stmt.run scan db = .ok a → (∀ l ∈ a.locks, P l.1) ∧ (∀ r ∈ a.waits, P r) ∧
      ∀ w ∈ a.writes, P w.1) : ∀ r, Takes stmt r → P r := by
  rintro r ⟨scan, db, a, ha, hr⟩
  obtain ⟨hlocks, hwaits, hwrites⟩ := h scan db a ha
  rcases hr with hr | hr
  · obtain ⟨l, hl, rfl⟩ := List.mem_map.mp hr
    rcases List.mem_append.mp hl with hl | hl
    · exact hlocks l hl
    · obtain ⟨w, hw, rfl⟩ := List.mem_map.mp hl
      exact hwrites w hw
  · exact hwaits r hr

/-- A statement whose effect depends on the rows alone. -/
theorem takes_statement {f : Db → Except SqlError (Answer α)} {P : Row → Prop}
    (h : ∀ db a, f db = .ok a → (∀ l ∈ a.locks, P l.1) ∧ (∀ r ∈ a.waits, P r) ∧
      ∀ w ∈ a.writes, P w.1) : ∀ r, Takes (statement label f) r → P r :=
  takes_of_answers fun _ db a ha => h db a ha

theorem takesOn_selectObjectForUpdate (id : ObjectId) :
    TakesOn .objects (selectObjectForUpdate id) :=
  takes_statement fun db a ha => by
    cases ha
    split <;> simp

theorem takesOn_liveKindForShare (id : ObjectId) : TakesOn .objects (liveKindForShare id) :=
  takes_statement fun db a ha => by
    cases ha
    split <;> simp

theorem takesOn_insertObject (cmd : CreateObjectCommit) : TakesOn .objects (insertObject cmd) :=
  takes_statement fun db a ha => by
    split at ha <;> cases ha
    simp

theorem takesOn_updateLiveObject (id : ObjectId) (set : ObjectRow → ObjectRow) :
    TakesOn .objects (updateLiveObject id set) :=
  takes_statement fun db a ha => by
    split at ha <;> cases ha <;> simp

theorem takesOn_lockObjects (ids : List ObjectId) : TakesOn .objects (lockObjects ids) :=
  takes_statement fun db a ha => by
    cases ha
    refine ⟨fun l hl => ?_, by simp, by simp⟩
    obtain ⟨id, _, rfl⟩ := List.mem_map.mp hl
    rfl

theorem takesOn_deleteRows (targets : List ObjectId) (now : Time) :
    TakesOn .objects (deleteRows targets now) :=
  takes_statement fun db a ha => by
    cases ha
    refine ⟨by simp, by simp, fun w hw => ?_⟩
    obtain ⟨r, _, rfl⟩ := List.mem_map.mp hw
    rfl

theorem takesOn_insertChanges (records : List (Nat × ChangeRecord)) :
    TakesOn .changes (insertChanges records) :=
  takes_statement fun db a ha => by
    split at ha <;> cases ha
    refine ⟨by simp, by simp, fun w hw => ?_⟩
    obtain ⟨r, _, rfl⟩ := List.mem_map.mp hw
    rfl

theorem takesOn_enqueueBlobGc (backend blobRef : String) (notBefore : Time) :
    TakesOn .gc (enqueueBlobGc backend blobRef notBefore) :=
  takes_statement fun db a ha => by
    split at ha <;> cases ha <;> simp

theorem takesOn_dequeueBlobGc (label : Label) (backend blobRef : String) :
    TakesOn .gc (dequeueBlobGc label backend blobRef) :=
  takes_statement fun db a ha => by
    split at ha <;> cases ha <;> simp

theorem takesOn_selectUploadForUpdate (id : UploadId) :
    TakesOn .uploads (selectUploadForUpdate id) :=
  takes_statement fun db a ha => by
    cases ha
    split <;> simp

theorem takesOn_completeUpload (cmd : CommitContent) : TakesOn .uploads (completeUpload cmd) :=
  takes_statement fun db a ha => by
    split at ha
    · cases ha
      simp
    · split at ha <;> cases ha <;> simp

/-- A new upload takes its own row, and that of its object. -/
theorem offRecords_insertUpload (cmd : CreateUploadRecord) : OffRecords (insertUpload cmd) :=
  takes_statement fun db a ha => by
    split at ha
    · cases ha
      simp
    · split at ha <;> cases ha
      simp

theorem takesOn_abortUpload (cmd : AbortUploadRecord) : TakesOn .uploads (abortUpload cmd) :=
  takes_statement fun db a ha => by
    split at ha <;> cases ha <;> simp

theorem takesNone_dueGc (now : Time) : TakesNone (dueGc now) :=
  takes_of_answers fun scan db a ha => by
    cases ha
    simp

theorem takesOn_claimGc (now : Time) (k : String × String) : TakesOn .gc (claimGc now k) :=
  takes_of_answers fun scan db a ha => by
    simp only [claimGc] at ha
    split at ha <;> cases ha <;> simp

theorem takesNone_dueUploads (now : Time) : TakesNone (dueUploads now) :=
  takes_of_answers fun scan db a ha => by
    cases ha
    simp

theorem takesOn_expireUpload (now : Time) (id : UploadId) : TakesOn .uploads (expireUpload now id) :=
  takes_of_answers fun scan db a ha => by
    simp only [expireUpload] at ha
    split at ha <;> cases ha <;> simp

theorem takesOn_deleteRow {T : Table} {r : Row} (hr : r.table = T) (due : r.Val → Bool) :
    TakesOn T (deleteRow r due) := by
  subst hr
  exact takes_statement fun db a ha => by
    split at ha <;> cases ha <;> simp

theorem takesNone_dueChanges (olderThan : Time) : TakesNone (dueChanges olderThan) :=
  takes_statement fun db a ha => by
    cases ha
    simp

theorem takesOn_raiseWatermark (maxSeq : Nat) : TakesOn .retention (raiseWatermark maxSeq) :=
  takes_statement fun db a ha => by
    split at ha <;> cases ha <;> simp

theorem takesOn_insertClaim (req : IdempotencyAcquire) : TakesOn .idempotency (insertClaim req) :=
  takes_statement fun db a ha => by
    split at ha <;> cases ha <;> simp

theorem takesOn_stealLease (req : IdempotencyAcquire) (createdAt now : Time) :
    TakesOn .idempotency (stealLease req createdAt now) :=
  takes_statement fun db a ha => by
    split at ha <;> cases ha <;> simp

/-- Finalising takes the record of the attempt alone. -/
theorem takes_finalize (ictx : IdempotencyContext) (response : StoredResponse)
    (now expiresAt : Time) : ∀ r, Takes (finalize ictx response now expiresAt) r →
      r = ictx.recordKey.row :=
  takes_statement fun db a ha => by
    split at ha
    · cases ha
      simp
    · split at ha <;> cases ha
      · refine ⟨by simp, by simp, fun w hw => ?_⟩
        obtain rfl := List.mem_singleton.mp hw
        rfl
      · simp

theorem takesOn_insertCursor (id : CursorId) (row : CursorRow) :
    TakesOn .cursors (insertCursor id row) :=
  takes_statement fun db a ha => by
    split at ha <;> cases ha
    simp

theorem takesOn_selectCursorForUpdate (id : CursorId) :
    TakesOn .cursors (selectCursorForUpdate id) :=
  takes_statement fun db a ha => by
    cases ha
    split <;> simp

theorem takesOn_materializeCursor (id : CursorId) (limit : Nat) (built : BuiltPage)
    (next : CursorId) : TakesOn .cursors (materializeCursor id limit built next) :=
  takes_statement fun db a ha => by
    split at ha <;> cases ha <;> simp

theorem takesNone_selectPage (afterSeq snapshot limit : Nat) :
    TakesNone (selectPage afterSeq snapshot limit) :=
  takes_statement fun db a ha => by
    cases ha
    simp

theorem takesNone_buildPageAtOnce (afterSeq limit : Nat) :
    TakesNone (buildPageAtOnce afterSeq limit) :=
  takes_statement fun db a ha => by
    cases ha
    simp

theorem takesNone_selectMaterializedPage (afterSeq pageEndSeq : Nat) :
    TakesNone (selectMaterializedPage afterSeq pageEndSeq) :=
  takes_statement fun db a ha => by
    cases ha
    simp

/-! ## Mutations -/

/-- The program goes on in an open transaction whose record is not finalised. -/
def Advances (L : Label → Prop) (label : Label) (p : Store α) (x : Phase) : Prop :=
  Follows L p (fun _ y => y.Unfinished label) x

/-- Who stays in a phase has not finalised the record. -/
theorem Stays.advances {p : Store α} {R : α → Prop} (h : Stays L x p R) (hx : x.Unfinished label) :
    Advances L label p x :=
  Prog.Obeys.mono h fun _ _ ⟨hy, _⟩ => hy ▸ hx

/-- One program after the other. -/
theorem advances_seq {p : Store α} {f : α → Store β} {Q : Except DomainError β → Phase → Prop}
    (hp : Advances L label p x) (hf : ∀ a y, y.Unfinished label → Follows L (f a) Q y)
    (herror : ∀ e y, y.Unfinished label → Q (.error e) y) : Follows L (p >>= f) Q x := by
  refine Prog.obeys_bind.mpr (Prog.Obeys.mono hp fun r y hy => ?_)
  cases r with
  | ok a => exact hf a y hy
  | error e => exact herror e y hy

/-- The Change-order lock. -/
theorem advances_lock (h : label.mutates = true) (hx : x.Unfinished label) :
    Follows L (lock mapSqlx) (fun r y => y.Unfinished label ∧ (r = .ok () → y = .ordered label)) x := by
  rcases hx with rfl | rfl
  · refine ⟨h, fun b => ?_⟩
    cases b with
    | ok u => exact ⟨.inr rfl, fun _ => rfl⟩
    | error e => exact ⟨.inl rfl, fun h => nomatch h⟩
  · refine ⟨trivial, fun b => ?_⟩
    cases b with
    | ok u => exact ⟨.inr rfl, fun _ => rfl⟩
    | error e => exact ⟨.inr rfl, fun h => nomatch h⟩

/-- Numbers are drawn under the advisory lock, -/
theorem stays_nextvals (n : Nat) :
    Stays L (.ordered label) (nextvals mapSqlx n) (fun _ => True) := by
  refine ⟨trivial, fun b => ?_⟩
  cases b with
  | ok u => exact ⟨rfl, fun _ _ => trivial⟩
  | error e => exact ⟨rfl, fun _ h => nomatch h⟩

/-- and Changes are inserted under it. -/
theorem stays_insertChanges (records : List (Nat × ChangeRecord)) :
    Stays L (.ordered label) (run (insertChanges records)) (fun _ => True) := by
  have htakes := takesOn_insertChanges records
  refine stays_run_of (fun r hr => .inl (htakes r hr)) ?_
  rw [Phase.after, if_neg]
  rintro ⟨r, hr, htable⟩
  rw [htakes r hr] at htable
  cases htable

/-- The driver appends them one by one. -/
theorem stays_appendOneByOne (ctx : MutationContext) (pending : List PendingChange) :
    Stays L (.ordered label) (appendOneByOne ctx pending) (fun _ => True) := by
  induction pending with
  | nil => exact stays_ret trivial
  | cons p pending ih =>
    refine stays_seq (stays_nextvals 1) fun seqs _ => ?_
    refine stays_seq (stays_insertChanges _) fun _ _ => ?_
    exact stays_seq ih fun records _ => stays_ret trivial

/-- The advisory lock is taken with the first Change. -/
theorem advances_appendChanges (a : Adapter) (ctx : MutationContext)
    (pending : List PendingChange) (h : label.mutates = true) (hx : x.Unfinished label) :
    Advances L label (appendChanges a ctx pending) x := by
  unfold appendChanges
  split
  · exact hx
  -- the rest runs under the lock
  have hlock : ∀ {p : Store (List ChangeRecord)} {R : List ChangeRecord → Prop},
      Stays L (.ordered label) p R → Advances L label (lock mapSqlx >>= fun _ => p) x := by
    intro p R hp
    refine Prog.obeys_bind.mpr (Prog.Obeys.mono (advances_lock h hx) fun r y ⟨hy, hlocked⟩ => ?_)
    cases r with
    | ok u =>
      rw [hlocked rfl]
      exact hp.advances (.inr rfl)
    | error e => exact hy
  cases a with
  | sqlx =>
    refine hlock (R := fun _ => True) (stays_seq (stays_nextvals _) fun seqs _ => ?_)
    exact stays_seq (stays_insertChanges _) fun _ _ => stays_ret trivial
  | rpc => exact hlock (stays_appendOneByOne ctx pending)

/-- Finalising the record comes last. -/
theorem follows_finish {ctx : MutationContext} {outcome : MutationOutcome}
    (h : label.mutates = true) (hfinalizer : label.finalizer = ctx.idempotency)
    (hx : x.Unfinished label) : Follows L (finish ctx outcome) (fun _ y => y.Of label) x := by
  have hof : ∀ (e : DomainError) (y : Phase), y.Unfinished label → y.Of label := fun _ _ hy => .inl hy
  refine advances_seq ((stays_ofExcept _).advances hx) (fun response y hy => ?_) hof
  unfold finalizeInTx
  cases hctx : ctx.idempotency with
  | none => exact .inl hy
  | some ictx =>
    -- the only record that is written is that of the attempt
    have hown : ∀ r, Takes (finalize ictx response ctx.now ctx.idempotencyExpiresAt) r →
        label.OwnRecord r := fun r hr =>
      ⟨ictx, hfinalizer.trans hctx, takes_finalize _ _ _ _ r hr⟩
    have hrun : Follows L (run (finalize ictx response ctx.now ctx.idempotencyExpiresAt))
        (fun _ z => z.Of label) y := by
      -- before the first Change, and behind it
      rcases hy with rfl | rfl
      · refine ⟨fun r hr => ⟨fun _ => .inr ⟨h, hown r hr⟩, fun hk => ?_⟩, fun b => ?_⟩
        · rw [Label.mutates_not_keeps h] at hk
          cases hk
        · cases b with
          | ok rows =>
            show Phase.Of label (Phase.after _ (.opened label))
            rw [Phase.after]
            split
            · exact .inr rfl
            · exact .inl (.inl rfl)
          | error e => exact .inl (.inl rfl)
      · refine ⟨fun r hr => .inr (hown r hr), fun b => ?_⟩
        cases b with
        | ok rows =>
          show Phase.Of label (Phase.after _ (.ordered label))
          rw [Phase.after]
          split
          · exact .inr rfl
          · exact .inl (.inr rfl)
        | error e => exact .inl (.inr rfl)
    refine Prog.obeys_bind.mpr (Prog.obeys_bind.mpr (hrun.mono fun r z hz => ?_))
    cases r with
    | error e => exact hz
    | ok rows =>
      refine Prog.Obeys.mono (stays_require (x := z)) fun r y hy => ?_
      rw [hy.1]
      cases r <;> exact hz

section Bodies

variable (hlabel : label.mutates = true)

/-- A mutation takes rows of objects. -/
theorem stays_object {stmt : Stmt α} (h : TakesOn .objects stmt) (hlabel : label.mutates = true) :
    Stays L (.opened label) (run stmt) (fun _ => True) :=
  stays_off (h.offRecords (by decide)) (Label.mutates_not_keeps hlabel)

theorem stays_requirePayload (a : Adapter) (hasNul : Bool) :
    Stays L x (requirePayload a hasNul) (fun _ => True) := by
  cases a with
  | sqlx => exact stays_ret trivial
  | rpc => exact stays_require.mono fun _ _ => trivial

/-- The object is locked, -/
theorem stays_lockLiveObject (a : Adapter) (id : ObjectId) (hlabel : label.mutates = true) :
    Stays L (.opened label) (lockLiveObject a id) (fun _ => True) := by
  refine stays_seq stays_require fun _ _ => ?_
  refine stays_seq (stays_object (takesOn_selectObjectForUpdate id) hlabel) fun o _ => ?_
  refine stays_seq (stays_orFail o) fun row _ => ?_
  refine stays_seq (stays_orFail (a.held row)) fun held _ => ?_
  exact stays_seq stays_require fun _ _ => stays_ret trivial

/-- its folder is locked against deletion, -/
theorem stays_requireLiveFolder (id : ObjectId) (hlabel : label.mutates = true) :
    Stays L (.opened label) (requireLiveFolder id) (fun _ => True) := by
  refine stays_seq stays_require fun _ _ => ?_
  refine stays_seq (stays_object (takesOn_liveKindForShare id) hlabel) fun kind _ => ?_
  refine stays_seq (stays_orFail kind) fun kind _ => ?_
  exact stays_require.mono fun _ _ => trivial

theorem stays_checkIfMatchIn (a : Adapter) (current : Revision) (ifMatch : Option Revision) :
    Stays L x (checkIfMatchIn a current ifMatch) (fun _ => True) := by
  cases a with
  | sqlx => exact stays_require.mono fun _ _ => trivial
  | rpc => exact stays_seq stays_require fun _ _ => stays_require.mono fun _ _ => trivial

/-- and views are read. -/
theorem stays_loadView (id : ObjectId) (hx : x.Unfinished label) :
    Stays L x (loadView id) (fun _ => True) := by
  refine stays_seq stays_require fun _ _ => ?_
  refine stays_seq (stays_select hx) fun o _ => ?_
  cases o with
  | none => exact stays_ret trivial
  | some object =>
    refine stays_seq (stays_orFail (object.read columnRoom)) fun object _ => ?_
    refine stays_seq (stays_select hx) fun path _ => ?_
    exact stays_seq (stays_orFail path) fun _ _ => stays_ret trivial

theorem stays_renderedView (a : Adapter) (id : ObjectId) (missing : DomainError)
    (hx : x.Unfinished label) : Stays L x (renderedView a id missing) (fun _ => True) := by
  cases a with
  | sqlx =>
    exact stays_seq (stays_loadView id hx) fun view _ => (stays_orFail view).mono fun _ _ => trivial
  | rpc =>
    refine stays_seq (stays_select hx) fun object _ => stays_seq (stays_orFail object) fun _ _ => ?_
    exact stays_seq (stays_select hx) fun path _ => stays_ret trivial

theorem stays_unchangedView (a : Adapter) (id : ObjectId) (object : ObjectRow)
    (hx : x.Unfinished label) : Stays L x (unchangedView a id object) (fun _ => True) := by
  cases a with
  | sqlx =>
    exact stays_seq (stays_loadView id hx) fun view _ => (stays_orFail view).mono fun _ _ => trivial
  | rpc => exact stays_seq (stays_select hx) fun path _ => stays_ret trivial

theorem stays_enqueueBlob (blob : Option (String × String)) (notBefore : Time)
    (hlabel : label.keepsRecords = false) :
    Stays L (.opened label) (enqueueBlob blob notBefore) (fun _ => True) := by
  cases blob with
  | none => exact stays_ret trivial
  | some b => exact stays_off ((takesOn_enqueueBlobGc _ _ _).offRecords (by decide)) hlabel

/-- The blobs of a delete are queued one after the other. -/
theorem stays_enqueueBlobs (notBefore : Time) (blobs : List (Option (String × String)))
    (hlabel : label.keepsRecords = false) :
    Stays L (.opened label) (enqueueBlobs notBefore blobs) (fun _ => True) := by
  induction blobs with
  | nil => exact stays_ret trivial
  | cons blob blobs ih => exact stays_seq (stays_enqueueBlob blob notBefore hlabel) fun _ _ => ih

/-- The rounds of a recursive delete lock objects. -/
theorem stays_collectAndLockDescendants (root : ObjectId) (n : Nat)
    (previous : Option (List ObjectId)) (hlabel : label.mutates = true) :
    Stays L (.opened label) (collectAndLockDescendants root n previous) (fun _ => True) := by
  induction n generalizing previous with
  | zero => exact stays_fail
  | succ n ih =>
    refine stays_seq (stays_select (.inl rfl)) fun ids _ => ?_
    split
    · exact stays_ret trivial
    · exact stays_seq (stays_object (takesOn_lockObjects ids) hlabel) fun _ _ => ih _

/-- So do its other branches. -/
theorem stays_deleteTargets (a : Adapter) (cmd : DeleteObjectCommit) (current : ObjectRow)
    (hlabel : label.mutates = true) :
    Stays L (.opened label) (deleteTargets a cmd current) (fun _ => True) := by
  unfold deleteTargets
  split
  · exact stays_collectAndLockDescendants _ _ _ hlabel
  · split
    · refine stays_seq (stays_select (.inl rfl)) fun _ _ => ?_
      exact stays_seq stays_require fun _ _ => stays_ret trivial
    · exact stays_ret trivial

/-- The destination of a move is locked, -/
theorem stays_checkDestination (current : ObjectRow) (id : ObjectId) (target : PatchTarget)
    (hlabel : label.mutates = true) :
    Stays L (.opened label) (checkDestination current id target) (fun _ => True) := by
  refine stays_seq (stays_orFail _) fun destination _ => ?_
  refine stays_seq (stays_requireLiveFolder destination hlabel) fun _ _ => ?_
  rw [whenever]
  split
  · exact stays_seq (stays_select (.inl rfl)) fun _ _ => stays_require.mono fun _ _ => trivial
  · exact stays_ret trivial

/-- and checked again under the advisory lock. -/
theorem advances_recheckDestination (id : ObjectId) (target : PatchTarget)
    (hlabel : label.mutates = true) (hx : x.Unfinished label) :
    Advances L label (recheckDestination id target) x := by
  refine advances_seq (Prog.Obeys.mono (advances_lock hlabel hx) fun _ _ h => h.1)
    (fun _ y hy => ?_) fun _ _ hy => hy
  cases target.parent with
  | none => exact hy
  | some destination =>
    exact (stays_seq (stays_select hy) fun _ _ =>
      stays_require.mono fun _ _ => trivial : Stays L y _ fun _ => True).advances hy

end Bodies

/-- **Creation.** One commit under its label. -/
theorem follows_createObject (a : Adapter) (cmd : CreateObjectCommit)
    (hL : L (.createObject cmd)) :
    Follows L (createObject a cmd) (fun r y => match r with
      | .ok _ => y = .done
      | .error _ => y = .idle) .idle := by
  have hm : Label.mutates (.createObject cmd) = true := rfl
  have hidle : Phase.Unfinished (.createObject cmd) (.opened (.createObject cmd)) := .inl rfl
  refine (follows_transaction (R := fun _ => True) hL (Prog.Obeys.mono ?_ fun r y hy =>
    ⟨hy, fun _ _ => trivial⟩)).mono fun r y h => ?_
  · -- the body, line by line
    refine follows_seq (stays_requirePayload a _) (fun _ _ => ?_) fun _ => .inl hidle
    refine follows_seq (stays_requireLiveFolder _ hm) (fun _ _ => ?_) fun _ => .inl hidle
    refine follows_seq stays_require (fun _ _ => ?_) fun _ => .inl hidle
    refine follows_seq (stays_object (takesOn_insertObject cmd) hm) (fun _ _ => ?_) fun _ => .inl hidle
    refine follows_seq (stays_renderedView a _ _ hidle) (fun view _ => ?_) fun _ => .inl hidle
    refine advances_seq (advances_appendChanges a _ _ hm hidle) (fun changes y hy => ?_)
      fun _ _ hy => .inl hy
    exact follows_finish hm rfl hy
  · cases r with
    | ok a => exact h.1
    | error e => exact h

/-- **Patch.** One commit under its label. -/
theorem follows_patchObject (a : Adapter) (cmd : PatchObjectCommit) (hL : L (.patchObject cmd)) :
    Follows L (patchObject a cmd) (fun r y => match r with
      | .ok _ => y = .done
      | .error _ => y = .idle) .idle := by
  have hm : Label.mutates (.patchObject cmd) = true := rfl
  have hidle : Phase.Unfinished (.patchObject cmd) (.opened (.patchObject cmd)) := .inl rfl
  refine (follows_transaction (R := fun _ => True) hL (Prog.Obeys.mono ?_ fun r y hy =>
    ⟨hy, fun _ _ => trivial⟩)).mono fun r y h => ?_
  · -- the body, line by line; it is split where the patch is a no-op
    refine follows_seq (stays_requirePayload a _) (fun _ _ => ?_) fun _ => .inl hidle
    refine follows_seq (stays_lockLiveObject a _ hm) (fun current _ => ?_) fun _ => .inl hidle
    refine follows_seq (stays_checkIfMatchIn a _ _) (fun _ _ => ?_) fun _ => .inl hidle
    have hroot : Stays L (.opened (.patchObject cmd)) (checkRoot cmd) (fun _ => True) :=
      stays_seq stays_require fun _ _ => stays_require.mono fun _ _ => trivial
    refine follows_seq hroot (fun _ _ => ?_) fun _ => .inl hidle
    refine follows_seq (stays_ofExcept _) (fun target _ => ?_) fun _ => .inl hidle
    split
    · refine follows_seq (stays_unchangedView a _ _ hidle) (fun view _ => ?_) fun _ => .inl hidle
      exact follows_finish hm rfl hidle
    · have hdestination : Stays L (.opened (.patchObject cmd))
          (whenever (target.parentChanged current) (checkDestination current cmd.id target))
          (fun _ => True) := by
        rw [whenever]
        split
        · exact stays_checkDestination _ _ _ hm
        · exact stays_ret trivial
      refine follows_seq hdestination (fun _ _ => ?_) fun _ => .inl hidle
      refine follows_seq stays_require (fun _ _ => ?_) fun _ => .inl hidle
      refine follows_seq stays_require (fun _ _ => ?_) fun _ => .inl hidle
      refine follows_seq (stays_object (takesOn_updateLiveObject _ _) hm) (fun o _ => ?_)
        fun _ => .inl hidle
      refine follows_seq (stays_orFail o) (fun revision _ => ?_) fun _ => .inl hidle
      -- the second check of a move comes under the advisory lock
      have hwalk : Advances L (.patchObject cmd) (whenever
          (target.parentChanged current ∧ current.kind = .folder)
          (recheckDestination cmd.id target)) (.opened (.patchObject cmd)) := by
        rw [whenever]
        split
        · exact advances_recheckDestination _ _ hm hidle
        · exact hidle
      refine advances_seq hwalk (fun _ y hy => ?_) fun _ _ hy => .inl hy
      refine advances_seq (advances_appendChanges a _ _ hm hy) (fun changes y hy => ?_)
        fun _ _ hy => .inl hy
      refine advances_seq ((stays_renderedView a _ _ hy).advances hy) (fun view y hy => ?_)
        fun _ _ hy => .inl hy
      exact follows_finish hm rfl hy
  · cases r with
    | ok a => exact h.1
    | error e => exact h

/-- **Deletion.** One commit under its label. -/
theorem follows_deleteObject (a : Adapter) (cmd : DeleteObjectCommit)
    (hL : L (.deleteObject cmd)) :
    Follows L (deleteObject a cmd) (fun r y => match r with
      | .ok _ => y = .done
      | .error _ => y = .idle) .idle := by
  have hm : Label.mutates (.deleteObject cmd) = true := rfl
  have hidle : Phase.Unfinished (.deleteObject cmd) (.opened (.deleteObject cmd)) := .inl rfl
  refine (follows_transaction (R := fun _ => True) hL (Prog.Obeys.mono ?_ fun r y hy =>
    ⟨hy, fun _ _ => trivial⟩)).mono fun r y h => ?_
  · refine follows_seq (stays_requirePayload a _) (fun _ _ => ?_) fun _ => .inl hidle
    refine follows_seq (stays_lockLiveObject a _ hm) (fun current _ => ?_) fun _ => .inl hidle
    refine follows_seq (stays_checkIfMatchIn a _ _) (fun _ _ => ?_) fun _ => .inl hidle
    refine follows_seq stays_require (fun _ _ => ?_) fun _ => .inl hidle
    refine follows_seq (stays_deleteTargets a cmd current hm) (fun targets _ => ?_)
      fun _ => .inl hidle
    refine follows_seq (stays_object (takesOn_deleteRows _ _) hm) (fun rows _ => ?_)
      fun _ => .inl hidle
    refine follows_seq (stays_enqueueBlobs _ _ rfl) (fun _ _ => ?_) fun _ => .inl hidle
    refine advances_seq (advances_appendChanges a _ _ hm hidle) (fun changes y hy => ?_)
      fun _ _ hy => .inl hy
    exact follows_finish hm rfl hy
  · cases r with
    | ok a => exact h.1
    | error e => exact h

/-- **Content.** One commit under its label. -/
theorem follows_commitContent (a : Adapter) (cmd : CommitContent) (hL : L (.commitContent cmd)) :
    Follows L (commitContent a cmd) (fun r y => match r with
      | .ok _ => y = .done
      | .error _ => y = .idle) .idle := by
  have hm : Label.mutates (.commitContent cmd) = true := rfl
  have hk : Label.keepsRecords (.commitContent cmd) = false := rfl
  have hidle : Phase.Unfinished (.commitContent cmd) (.opened (.commitContent cmd)) := .inl rfl
  refine (follows_transaction (R := fun _ => True) hL (Prog.Obeys.mono ?_ fun r y hy =>
    ⟨hy, fun _ _ => trivial⟩)).mono fun r y h => ?_
  · refine follows_seq (stays_requirePayload a _) (fun _ _ => ?_) fun _ => .inl hidle
    refine follows_seq stays_require (fun _ _ => ?_) fun _ => .inl hidle
    refine follows_seq (stays_off ((takesOn_selectUploadForUpdate _).offRecords (by decide)) hk)
      (fun upload _ => ?_) fun _ => .inl hidle
    refine follows_seq (stays_orFail upload) (fun upload _ => ?_) fun _ => .inl hidle
    refine follows_seq stays_require (fun _ _ => ?_) fun _ => .inl hidle
    refine follows_seq stays_require (fun _ _ => ?_) fun _ => .inl hidle
    refine follows_seq (stays_lockLiveObject a _ hm) (fun current _ => ?_) fun _ => .inl hidle
    refine follows_seq stays_require (fun _ _ => ?_) fun _ => .inl hidle
    refine follows_seq (stays_checkIfMatchIn a _ _) (fun _ _ => ?_) fun _ => .inl hidle
    -- an upload that is completed already is answered as before
    split
    · refine follows_seq (stays_unchangedView a _ _ hidle) (fun view _ => ?_) fun _ => .inl hidle
      exact follows_finish hm rfl hidle
    · refine follows_seq stays_require (fun _ _ => ?_) fun _ => .inl hidle
      refine follows_seq (stays_object (takesOn_updateLiveObject _ _) hm) (fun o _ => ?_)
        fun _ => .inl hidle
      refine follows_seq (stays_orFail o) (fun revision _ => ?_) fun _ => .inl hidle
      refine follows_seq (stays_enqueueBlob _ _ hk) (fun _ _ => ?_) fun _ => .inl hidle
      refine follows_seq (stays_off ((takesOn_completeUpload cmd).offRecords (by decide)) hk)
        (fun rows _ => ?_) fun _ => .inl hidle
      refine follows_seq stays_require (fun _ _ => ?_) fun _ => .inl hidle
      refine follows_seq (stays_off ((takesOn_dequeueBlobGc _ _ _).offRecords (by decide)) hk)
        (fun _ _ => ?_) fun _ => .inl hidle
      refine advances_seq (advances_appendChanges a _ _ hm hidle) (fun changes y hy => ?_)
        fun _ _ hy => .inl hy
      refine advances_seq ((stays_renderedView a _ _ hy).advances hy) (fun view y hy => ?_)
        fun _ _ hy => .inl hy
      exact follows_finish hm rfl hy
  · cases r with
    | ok a => exact h.1
    | error e => exact h

end AnyStore
