import AnyStore.Refinement.Reads

/-!
# Attempts

What the decisions about an attempt mean for its idempotency record, and from
that what its reply says: an attempt that succeeds returns the response that
its record was completed with, and an attempt that finds its record completed
is answered by that record, unless one of its calls fails from outside.

## Results

* `servesOr_poll`: a poll gives up for no reason of its own.
* `servesOr_acquireWithin`: who is told to try again has found the record
  without a response, or one of its calls has failed.
* `ends_idempotencyRun`, `ends_idempotencyRunWithCompletion`: what an attempt
  is answered (`Replied`), whatever the other processes do meanwhile.
-/

namespace AnyStore

open ReadCommitted

variable {S : Setting} {t : Nat} {s s' : DbState} {sess : Session Row.Val Label} {α : Type}
variable {wal₀ wal wal' : Journal} {F : DomainError → DbState → Prop}

/-! ## Decisions -/

/-- At some point in between, the record was not completed. -/
def Undecided (S : Setting) (wal₀ wal : Journal) (key : RecordKey) : Prop :=
  ∃ wal₁, wal₀ <+: wal₁ ∧ wal₁ <+: wal ∧ ∀ r, ¬ Completed S wal₁ key r

/-- At some point in between, the record was completed for the request hash
with this response. -/
def Replays (S : Setting) (wal₀ wal : Journal) (key : RecordKey) (hash : String)
    (response : StoredResponse) : Prop :=
  ∃ wal₁ r, wal₀ <+: wal₁ ∧ wal₁ <+: wal ∧ Completed S wal₁ key r ∧ r.requestHash = hash ∧
    r.response = response

/-- At some point in between, the record was one of another request. -/
def Clashes (S : Setting) (wal₀ wal : Journal) (key : RecordKey) (hash : String) : Prop :=
  ∃ wal₁ r, wal₀ <+: wal₁ ∧ wal₁ <+: wal ∧ (S.rows wal₁).record key = some r ∧ r.requestHash ≠ hash

/-- What was undecided was so, -/
theorem Undecided.mono {key : RecordKey} (h : Undecided S wal₀ wal key) (hp : wal <+: wal') :
    Undecided S wal₀ wal' key := by
  obtain ⟨wal₁, h₀, hwal, h⟩ := h
  exact ⟨wal₁, h₀, hwal.trans hp, h⟩

/-- what is replayed was completed, -/
theorem Replays.mono {key : RecordKey} {hash : String} {response : StoredResponse}
    (h : Replays S wal₀ wal key hash response) (hp : wal <+: wal') :
    Replays S wal₀ wal' key hash response := by
  obtain ⟨wal₁, r, h₀, hwal, h⟩ := h
  exact ⟨wal₁, r, h₀, hwal.trans hp, h⟩

/-- and what clashes has clashed, -/
theorem Clashes.mono {key : RecordKey} {hash : String} (h : Clashes S wal₀ wal key hash)
    (hp : wal <+: wal') : Clashes S wal₀ wal' key hash := by
  obtain ⟨wal₁, r, h₀, hwal, h⟩ := h
  exact ⟨wal₁, r, h₀, hwal.trans hp, h⟩

/-- What one poll has found out. -/
def Decided (S : Setting) (wal₀ : Journal) (s : DbState) (ictx : IdempotencyContext) :
    Option IdempotencyDecision → Prop
  | none => Undecided S wal₀ s.wal ictx.recordKey
  | some (.owner resourceToken) => Undecided S wal₀ s.wal ictx.recordKey ∧
      Owner S s.world s.wal { ictx with resourceToken }
  | some (.replay response) => Replays S wal₀ s.wal ictx.recordKey ictx.requestHash response
  | some .conflict => Clashes S wal₀ s.wal ictx.recordKey ictx.requestHash

/-- so a decision stays true. -/
theorem Decided.mono {ictx : IdempotencyContext} {d : Option IdempotencyDecision}
    (h : Decided S wal₀ s ictx d) (hl : Later s s') : Decided S wal₀ s' ictx d := by
  match d with
  | none => exact Undecided.mono h hl.wal
  | some (.owner _) => exact ⟨h.1.mono hl.wal, (h.2.mono hl.world).later hl.wal⟩
  | some (.replay _) => exact Replays.mono h hl.wal
  | some .conflict => exact Clashes.mono h hl.wal

/-- A record that is claimed or absent. -/
theorem undecided_of_row {key : RecordKey} (h₀ : wal₀ <+: wal)
    (h : ∀ r ∈ (S.rows wal).record key, r.state = .inProgress) : Undecided S wal₀ wal key := by
  refine ⟨wal, h₀, List.prefix_rfl, fun r ⟨hr, hstate⟩ => ?_⟩
  rw [h r hr] at hstate
  cases hstate

/-- The claim of a fresh record. -/
theorem owner_of_claim {req : IdempotencyAcquire} {w : World} (hminted : Minted w req.context)
    (h : (S.rows wal).record req.context.recordKey = some req.row) :
    Owner S w wal { req.context with resourceToken := resourceToken req.now } :=
  ⟨wal, req.row, List.prefix_rfl, ⟨hminted, h, rfl, rfl⟩, rfl, .inl rfl⟩

/-- A lease that was taken over. -/
theorem owner_of_steal {req : IdempotencyAcquire} {w : World} {r : IdempotencyRow}
    {createdAt : Time} {db : Db} (hminted : Minted w req.context)
    (h : (S.rows wal).record req.context.recordKey = some (r.stolen req))
    (hstate : r.state = .inProgress) (hrule : S.rule (.steal req createdAt) db)
    (hrow : db.record req.context.recordKey = some r) :
    Owner S w wal { req.context with resourceToken := resourceToken createdAt } :=
  ⟨wal, r.stolen req, List.prefix_rfl, ⟨hminted, h, hstate, rfl⟩, rfl,
    .inr ⟨req, createdAt, db, r, hrule, rfl, rfl, rfl, hrow, rfl, rfl⟩⟩

/-! ## Polling -/

/-- The clock only moves on. -/
theorem servesOr_utcNow {P : Time → DbState → Prop} (hs : s.session t = none)
    (h : ∀ now s₁, Later s s₁ → s₁.session t = none → P now s₁) : ServesOr S t F utcNow P s := by
  refine servesOr_outside hs fun s₁ e now w hl hi hs₁ hf => ?_
  obtain ⟨rfl, rfl⟩ := Prod.mk.inj (Option.some.inj hf)
  exact ⟨.refl _, hi.world, h _ _ (hl.trans (.move (.refl _))) hs₁⟩

/-- It cannot fail. -/
theorem serves_utcNow {P : Time → DbState → Prop} (hs : s.session t = none)
    (h : ∀ now s₁, Later s s₁ → s₁.session t = none → P now s₁) : Serves S t utcNow P s :=
  (servesOr_utcNow (F := fun _ _ => True) hs h).serves

/-- The statement that claims a fresh record. -/
theorem insertClaim_ok {req : IdempotencyAcquire} {scan : Scan Row} {db : Db} {ans : Answer Bool}
    (h : (insertClaim req).run scan db = .ok ans) :
    (ans.result = true ∧ db.record req.context.recordKey = none ∧ ans.locks = [] ∧
      ans.writes = [idempotencyWrite req.context (some req.row)]) ∨
    (ans.result = false ∧ ans.locks = [] ∧ ans.writes = []) := by
  simp only [insertClaim, statement] at h
  split at h
  · obtain rfl := Except.ok.inj h
    exact .inr ⟨rfl, rfl, rfl⟩
  · next hnone =>
    obtain rfl := Except.ok.inj h
    exact .inl ⟨rfl, hnone, rfl, rfl⟩

/-- The statement that takes a lease over. -/
theorem stealLease_ok {req : IdempotencyAcquire} {createdAt now : Time} {scan : Scan Row} {db : Db}
    {ans : Answer Bool} (h : (stealLease req createdAt now).run scan db = .ok ans) :
    (∃ r, ans.result = true ∧ db.record req.context.recordKey = some r ∧ r.state = .inProgress ∧
      ans.locks = [] ∧ ans.writes = [idempotencyWrite req.context (some (r.stolen req))]) ∨
    (ans.result = false ∧ ans.locks = [] ∧ ans.writes = []) := by
  simp only [stealLease, statement] at h
  split at h
  · obtain rfl := Except.ok.inj h
    exact .inr ⟨rfl, rfl, rfl⟩
  · next r hr =>
    obtain ⟨hrow, hstate⟩ := Option.filter_eq_some_iff.mp hr
    obtain rfl := Except.ok.inj h
    exact .inl ⟨r, rfl, hrow, (of_decide_eq_true hstate).1, rfl, rfl⟩

/-- Claiming a record is not refused: a row that is there is waited for. -/
theorem insertClaim_sure {req : IdempotencyAcquire} {db : Db} {e : SqlError}
    (h : (insertClaim req).Refuses liveNameUq db e) : False := by
  obtain ⟨scan, herror⟩ := refuses_run h fun scan ans ha w hw => by
    rcases insertClaim_ok ha with ⟨_, _, _, hwrites⟩ | ⟨_, _, hwrites⟩
    · rw [hwrites, List.mem_singleton] at hw
      rw [hw]
      simp [idempotencyWrite]
    · rw [hwrites] at hw
      exact absurd hw List.not_mem_nil
  simp only [insertClaim, statement] at herror
  split at herror <;> cases herror

/-- Nor is taking a lease over. -/
theorem stealLease_sure {req : IdempotencyAcquire} {createdAt now : Time} {db : Db} {e : SqlError}
    (h : (stealLease req createdAt now).Refuses liveNameUq db e) : False := by
  obtain ⟨scan, herror⟩ := refuses_run h fun scan ans ha w hw => by
    rcases stealLease_ok ha with ⟨r, _, _, _, _, hwrites⟩ | ⟨_, _, hwrites⟩
    · rw [hwrites, List.mem_singleton] at hw
      rw [hw]
      simp [idempotencyWrite]
    · rw [hwrites] at hw
      exact absurd hw List.not_mem_nil
  simp only [stealLease, statement] at herror
  split at herror <;> cases herror

/-- The record after its claim or its theft was published. -/
theorem record_published {label : Label} {ictx : IdempotencyContext} {r : IdempotencyRow}
    (h : s'.wal = s.wal ++ entry label [idempotencyWrite ictx (some r)]) :
    (S.rows s'.wal).record ictx.recordKey = some r := by
  rw [h, entry, if_neg (by simp), Setting.rows_snoc, record_replay, written_idempotencyWrite,
    if_pos rfl]
  rfl

/-- One poll of the `sqlx` store: every statement is a transaction of its own. -/
theorem servesOr_pollRecord {req : IdempotencyAcquire} (hs : s.session t = none)
    (hminted : Minted s.world req.context) :
    ServesOr S t F (pollRecord req utcNow) (fun d s' => Decided S s.wal s' req.context d) s := by
  refine servesOr_seq ((servesOr_quiet (P := fun claimed s₁ => claimed = true →
    Decided S s.wal s₁ req.context (some (.owner (resourceToken req.now)))) hs ?_
      fun _ _ _ h => (insertClaim_sure h).elim).mono ?_)
  · intro s₁ scan ans hr hi _ ha
    -- the record is new, or there is one
    rcases insertClaim_ok ha with ⟨hres, hnone, _, hwrites⟩ | ⟨hres, _, hwrites⟩
    · have hminted₁ := hminted.mono hr.later.world
      rw [hres, hwrites]
      refine ⟨by simp [idempotencyWrite], rfl, fun _ => .claim req hminted₁ hnone,
        fun s₂ _ hl₂ hwal _ => ⟨?_, ?_⟩⟩
      · refine (undecided_of_row hr.later.wal fun r hrow => ?_).mono hl₂.wal
        rw [← hi.db, hnone] at hrow
        cases hrow
      · exact owner_of_claim (hminted₁.mono hl₂.world) (record_published hwal)
    · rw [hres, hwrites]
      exact ⟨by simp, rfl, fun hne => absurd rfl hne, fun _ _ _ _ h => by cases h⟩
  intro claimed s₁ hs₁ hl₁ hclaimed
  split
  · next h => exact servesOr_ret hs₁ (hclaimed h)
  refine servesOr_seq (servesOr_select hs₁ fun s₂ hl₂ hi₂ hs₂ => ?_)
  have hwal₂ : s.wal <+: s₂.wal := hl₁.wal.trans hl₂.wal
  split
  · -- the row has gone between the statements: the next poll finds out
    next hnone =>
    refine servesOr_ret hs₂ (undecided_of_row hwal₂ fun r hrow => ?_)
    rw [← hi₂.db] at hrow
    exact absurd (hrow.symm.trans hnone) (by simp)
  next r hr =>
  have hrow : (S.rows s₂.wal).record req.context.recordKey = some r := by
    rw [← hi₂.db]
    exact hr
  split
  · -- the key was used for another request
    next hhash => exact servesOr_ret hs₂ ⟨s₂.wal, r, hwal₂, List.prefix_rfl, hrow, hhash⟩
  next hhash =>
  split
  · next hstate =>
    exact servesOr_ret hs₂ ⟨s₂.wal, r, hwal₂, List.prefix_rfl, ⟨hrow, hstate⟩, not_not.mp hhash, rfl⟩
  next hstate =>
  -- the row is there and not completed, so the attempt is undecided
  have hopen : Undecided S s.wal s₂.wal req.context.recordKey :=
    undecided_of_row hwal₂ fun r' hrow' => by
      obtain rfl := Option.some.inj (hrow.symm.trans hrow')
      cases h : r.state with
      | inProgress => rfl
      | completed => exact absurd h hstate
  refine servesOr_seq (servesOr_utcNow hs₂ fun now s₃ hl₃ hs₃ => ?_)
  split
  · refine servesOr_seq (servesOr_utcNow hs₃ fun now' s₄ hl₄ hs₄ => ?_)
    have hl₂₄ := hl₃.trans hl₄
    refine servesOr_seq ((servesOr_quiet (P := fun stolen s₅ => Undecided S s.wal s₅.wal
      req.context.recordKey ∧ (stolen = true → Decided S s.wal s₅ req.context
        (some (.owner (resourceToken r.createdAt))))) hs₄ ?_
        fun _ _ _ h => (stealLease_sure h).elim).mono ?_)
    · intro s₅ scan ans hr₅ hi₅ hrule ha
      have hopen₅ := hopen.mono (hl₂₄.wal.trans hr₅.later.wal)
      -- the lease is taken over, or somebody was faster
      rcases stealLease_ok ha with ⟨r', hres, hrow', hstate', _, hwrites⟩ | ⟨hres, _, hwrites⟩
      · have hminted₅ := hminted.mono
          ((hl₁.world.trans hl₂.world).trans (hl₂₄.world.trans hr₅.later.world))
        rw [hres, hwrites]
        refine ⟨by simp [idempotencyWrite], rfl, fun _ => .steal req (.inr rfl) hminted₅ hrow' hstate',
          fun s₆ _ hl₆ hwal => ⟨hopen₅.mono hl₆.wal, fun _ => ⟨hopen₅.mono hl₆.wal, ?_⟩⟩⟩
        exact owner_of_steal (hminted₅.mono hl₆.world) (record_published hwal) hstate' hrule hrow'
      · rw [hres, hwrites]
        exact ⟨by simp, rfl, fun hne => absurd rfl hne,
          fun _ _ hl₆ _ => ⟨hopen₅.mono hl₆.wal, fun h => by cases h⟩⟩
    · intro stolen s₅ hs₅ _ hstolen
      obtain ⟨hopen₅, howner⟩ := hstolen
      split
      · next h => exact servesOr_ret hs₅ (howner h)
      · exact servesOr_ret hs₅ hopen₅
  · exact servesOr_ret hs₃ (hopen.mono hl₃.wal)

/-- A poll that has written nothing may end with what it has found out. -/
theorem committable_of_decided {label : Label} {ictx : IdempotencyContext}
    {d : Option IdempotencyDecision} (hs : s.session t = some sess) (hlabel : sess.label = label)
    (hlog : sess.log = []) (h : Decided S wal₀ s ictx d) :
    Committable S t label (fun d s' => Decided S wal₀ s' ictx d) d s :=
  committable_of_quiet hs hlabel (by rw [hlog]; simp) (by rw [hlog]; rfl)
    (fun _ _ _ hne => absurd hlog hne) fun _ _ hsince _ _ hl _ => h.mono (hsince.later.trans hl)

/-- A poll that has written the record may end when it still may write it. -/
theorem committable_of_record {label : Label} {ictx : IdempotencyContext} {r : IdempotencyRow}
    {d : Option IdempotencyDecision} (hs : s.session t = some sess) (hlabel : sess.label = label)
    (hlog : sess.log = [idempotencyWrite ictx (some r)])
    (hcommit : ∀ s₂, Since t s s₂ → StoreInv S s₂ →
      Commits S s₂.world s₂.wal s₂.db label [idempotencyWrite ictx (some r)])
    (hpost : ∀ s₂ s₃, Since t s s₂ → StoreInv S s₂ → Later s₂ s₃ →
      (S.rows s₃.wal).record ictx.recordKey = some r → Decided S wal₀ s₃ ictx d) :
    Committable S t label (fun d s' => Decided S wal₀ s' ictx d) d s := by
  refine committable_of_quiet hs hlabel (by rw [hlog]; simp [idempotencyWrite]) (by rw [hlog]; rfl)
    (fun s₂ hsince hi _ => hlog ▸ hcommit s₂ hsince hi) fun s₂ s₃ hsince hi _ hl hwal => ?_
  rw [hlog] at hwal
  exact hpost s₂ s₃ hsince hi hl (record_published hwal)

/-- One poll of the PL/pgSQL store, all in one transaction. -/
theorem txp_pollRecord {req : IdempotencyAcquire} {now : Time} {label : Label}
    (hlabel : label = .acquire req) (hs : s.session t = some { label })
    (hwal : wal₀ <+: s.wal) (hminted : Minted s.world req.context) :
    txpOr (contract S) t F (pollRecord req (pure now)) (Committable S t label
      fun d s' => Decided S wal₀ s' req.context d) s := by
  refine txp_seq (txpOr_run hs (fun s₁ scan ans hr₁ _ ha => ?_)
    fun _ _ _ h => (insertClaim_sure h).elim)
  rw [replay_nil] at ha
  have hwal₁ := hwal.trans hr₁.onward.later.wal
  have hminted₁ := hminted.mono hr₁.onward.later.world
  -- the same cases as for the driver, in one transaction: a row that is written stays locked
  rcases insertClaim_ok ha with ⟨hres, hnone, _, hwrites⟩ | ⟨hres, hlocks, hwrites⟩
  · rw [hres, if_pos rfl]
    have hlock : (Row.idempotency req.context.principalId req.context.operation req.context.key,
        LockMode.noKeyUpdate) ∈ (Session.extend ({ label } : Session Row.Val Label) ans).locks := by
      refine List.mem_append_right _ (List.mem_append_right _ ?_)
      rw [hwrites]
      exact List.mem_singleton_self _
    refine txp_ret (committable_of_record hr₁.session rfl (r := req.row) ?_
      (fun s₂ hsince _ => ?_) fun s₂ s₃ hsince hi hl hrow => ⟨?_, ?_⟩)
    · rw [Session.extend, hwrites]
      rfl
    · rw [hlabel]
      refine .claim req (hminted₁.mono hsince.later.world) ?_
      exact (hsince.onward.lookup hr₁.session hlock (by decide)).trans hnone
    · refine (undecided_of_row (hwal₁.trans hsince.later.wal) fun r hrow => ?_).mono hl.wal
      rw [← hi.db] at hrow
      have hgone := (hsince.onward.lookup hr₁.session hlock (by decide)).trans hnone
      cases hrow.symm.trans hgone
    · exact owner_of_claim (hminted₁.mono (hsince.later.world.trans hl.world)) hrow
  rw [hres]
  rw [Session.extend_read hlocks hwrites, hwrites] at hr₁
  refine txp_seq (txp_select hr₁.session fun s₂ hr₂ => ?_)
  have hr := hr₁.trans hr₂
  have hwal₂ := hwal₁.trans hr₂.onward.later.wal
  rw [replay_nil]
  split
  · next hnone =>
    refine txp_ret (committable_of_decided hr.session rfl rfl (undecided_of_row hwal₂ fun r hrow => ?_))
    rw [← hr.inv.db] at hrow
    cases hrow.symm.trans hnone
  next r hrow =>
  have hrow : (S.rows s₂.wal).record req.context.recordKey = some r := by
    rw [← hr.inv.db]
    exact hrow
  split
  · next hhash =>
    exact txp_ret (committable_of_decided hr.session rfl rfl
      ⟨s₂.wal, r, hwal₂, List.prefix_rfl, hrow, hhash⟩)
  next hhash =>
  split
  · next hstate =>
    exact txp_ret (committable_of_decided hr.session rfl rfl
      ⟨s₂.wal, r, hwal₂, List.prefix_rfl, ⟨hrow, hstate⟩, not_not.mp hhash, rfl⟩)
  next hstate =>
  have hopen : Undecided S wal₀ s₂.wal req.context.recordKey :=
    undecided_of_row hwal₂ fun r' hrow' => by
      obtain rfl := Option.some.inj (hrow.symm.trans hrow')
      cases h : r.state with
      | inProgress => rfl
      | completed => exact absurd h hstate
  refine txp_seq (txp_ret ?_)
  split
  · refine txp_seq (txp_ret (txp_seq (txpOr_run hr.session (fun s₃ scan ans hr₃ hrule ha => ?_)
      fun _ _ _ h => (stealLease_sure h).elim)))
    rw [replay_nil] at ha
    have hopen₃ := hopen.mono hr₃.onward.later.wal
    rcases stealLease_ok ha with ⟨r', hres, hrow', hstate', _, hwrites⟩ | ⟨hres, hlocks, hwrites⟩
    · rw [hres, if_pos rfl]
      have hlock : (Row.idempotency req.context.principalId req.context.operation req.context.key,
          LockMode.noKeyUpdate) ∈ (Session.extend ({ label } : Session Row.Val Label) ans).locks := by
        refine List.mem_append_right _ (List.mem_append_right _ ?_)
        rw [hwrites]
        exact List.mem_singleton_self _
      have hminted₃ := hminted.mono (hr.trans hr₃).onward.later.world
      refine txp_ret (committable_of_record hr₃.session rfl (r := r'.stolen req) ?_
        (fun s₄ hsince _ => ?_) fun s₄ s₅ hsince _ hl hrow₅ => ⟨?_, ?_⟩)
      · rw [Session.extend, hwrites]
        rfl
      · have hlabel' : label = .acquire req ∨ label = .steal req r.createdAt := .inl hlabel
        refine .steal req hlabel' (hminted₃.mono hsince.later.world) ?_ hstate'
        exact (hsince.onward.lookup hr₃.session hlock (by decide)).trans hrow'
      · exact hopen₃.mono (hsince.later.wal.trans hl.wal)
      · exact owner_of_steal (hminted₃.mono (hsince.later.world.trans hl.world)) hrow₅ hstate' hrule hrow'
    · rw [hres]
      rw [Session.extend_read hlocks hwrites, hwrites] at hr₃
      exact txp_ret (committable_of_decided hr₃.session rfl rfl hopen₃)
  · exact txp_ret (committable_of_decided hr.session rfl rfl hopen)

/-- A poll gives up for no reason of its own. -/
theorem servesOr_poll {a : Adapter} {req : IdempotencyAcquire} (hs : s.session t = none)
    (hminted : Minted s.world req.context) :
    ServesOr S t (fun _ _ => False) (poll a req)
      (fun d s' => Decided S s.wal s' req.context d) s := by
  cases a with
  | sqlx => exact servesOr_pollRecord hs hminted
  | rpc =>
    refine servesOr_seq (servesOr_utcNow hs fun now s₁ hl₁ hs₁ => ?_)
    exact servesOr_transaction hs₁ (fun _ _ _ _ h => h) fun s₂ hl₂ _ _ hs₂ =>
      txp_pollRecord rfl hs₂ (hl₁.wal.trans hl₂.wal) (hminted.mono (hl₁.world.trans hl₂.world))

/-! ## Acquiring -/

/-- A decision made later is one made since. -/
theorem Decided.of_prefix {ictx : IdempotencyContext} {d : Option IdempotencyDecision}
    (h : Decided S wal s ictx d) (hp : wal₀ <+: wal) : Decided S wal₀ s ictx d := by
  match d with
  | none =>
    obtain ⟨wal₁, h₁, h⟩ := h
    exact ⟨wal₁, hp.trans h₁, h⟩
  | some (.owner _) =>
    obtain ⟨⟨wal₁, h₁, h⟩, howner⟩ := h
    exact ⟨⟨wal₁, hp.trans h₁, h⟩, howner⟩
  | some (.replay _) =>
    obtain ⟨wal₁, r, h₁, h⟩ := h
    exact ⟨wal₁, r, hp.trans h₁, h⟩
  | some .conflict =>
    obtain ⟨wal₁, r, h₁, h⟩ := h
    exact ⟨wal₁, r, hp.trans h₁, h⟩

/-- Giving up on a concurrent owner: a call has failed, or the last poll found
the record without a response. -/
theorem servesOr_acquireWithin {a : Adapter} {req : IdempotencyAcquire} (n : Nat)
    (hs : s.session t = none) (hminted : Minted s.world req.context) (h₀ : wal₀ <+: s.wal)
    (hn : n = 0 → Undecided S wal₀ s.wal req.context.recordKey) :
    ServesOr S t (fun _ s' => Undecided S wal₀ s'.wal req.context.recordKey)
      (acquireWithin a req n) (fun d s' => Decided S wal₀ s' req.context (some d)) s := by
  -- on the number of polls that are left
  induction n generalizing s with
  | zero => exact ends_fail hs (.inr (hn rfl))
  | succ n ih =>
    refine ends_seq ((servesOr_poll hs hminted).ends.mono fun r s₁ hs₁ hl hr => ?_)
    cases r with
    | error e =>
      rcases hr with hfailed | hnever
      · exact .inl hfailed
      · exact hnever.elim
    | ok d =>
      have hd : Decided S wal₀ s₁ req.context d := Decided.of_prefix hr h₀
      cases d with
      | none => exact ih hs₁ (hminted.mono hl.world) (h₀.trans hl.wal) fun _ => hd
      | some d => exact ends_ret hs₁ hd

/-! ## Attempts -/

/-- The context is that of the attempt. -/
structure Attempt (ctx : RequestContext) (ictx : IdempotencyContext) : Prop where
  principalId : ictx.principalId = ctx.principalId
  operation : ictx.operation = ctx.operation
  key : ctx.idempotencyKey = some ictx.key
  requestHash : ictx.requestHash = ctx.requestHash

def RequestContext.recordKey (ctx : RequestContext) (key : IdempotencyKey) : RecordKey :=
  (ctx.principalId, ctx.operation, key)

/-- The record is that of the request's key. -/
theorem Attempt.recordKey {ctx : RequestContext} {ictx : IdempotencyContext} (h : Attempt ctx ictx)
    {key : IdempotencyKey} (hkey : ctx.idempotencyKey = some key) :
    ictx.recordKey = ctx.recordKey key := by
  obtain rfl : ictx.key = key := Option.some.inj (h.key.symm.trans hkey)
  rw [IdempotencyContext.recordKey, RequestContext.recordKey, h.principalId, h.operation]

/-- What an attempt may rely on while it carries out its operation. -/
def Proceeds (S : Setting) (ctx : RequestContext) (ictx : Option IdempotencyContext) (s : DbState) :
    Prop :=
  (ictx = none → ctx.idempotencyKey = none) ∧
    ∀ i ∈ ictx, Attempt ctx i ∧ Owner S s.world s.wal i

/-- What comes of claiming the record of an attempt. -/
def ClaimSpec (S : Setting) (t : Nat) (wal₀ : Journal) (s : DbState) (ctx : RequestContext) :
    Except DomainError Claim → Prop
  | .ok (.proceed ictx) => Proceeds S ctx ictx s ∧
      ∀ i ∈ ictx, Undecided S wal₀ s.wal i.recordKey
  | .ok (.replay response) => ∃ key, ctx.idempotencyKey = some key ∧
      Replays S wal₀ s.wal (ctx.recordKey key) ctx.requestHash response
  | .error e => t ∈ s.failed ∨ ∃ key, ctx.idempotencyKey = some key ∧
      (Undecided S wal₀ s.wal (ctx.recordKey key) ∨
        e = .idempotencyKeyReused ∧ Clashes S wal₀ s.wal (ctx.recordKey key) ctx.requestHash)

/-- **Claim.** A call without a key goes on; one with a key owns its record, replays it, or is
told why not. -/
theorem ends_claim {app : AppState} {ctx : RequestContext} (hs : s.session t = none) :
    Ends S t (claim app ctx) (fun r s' => ClaimSpec S t s.wal s' ctx r) s := by
  rw [claim, idempotencyContext]
  cases hkey : ctx.idempotencyKey with
  | none => exact ends_ret hs ⟨⟨fun _ => hkey, fun _ h => nomatch h⟩, fun _ h => nomatch h⟩
  | some key =>
    have hul : Ends S t (ulid (some ⟨ctx.principalId, ctx.operation, key, ctx.requestHash⟩))
        (fun r s' => match r with
          | .ok id => (id, some ⟨ctx.principalId, ctx.operation, key, ctx.requestHash⟩) ∈
              s'.world.ulids
          | .error _ => False) s :=
      Serves.ends (F := fun _ => False) (serves_ulid hs fun id s₁ _ _ hmem _ => hmem) fun _ => trivial
    refine ends_seq (ends_seq (hul.mono fun r s₁ hs₁ hl₁ hmem => ?_))
    cases r with
    | error e => exact hmem.elim
    | ok token =>
    refine ends_ret hs₁ ?_
    have hminted : Minted s₁.world ⟨ctx.principalId, ctx.operation, key, ctx.requestHash, token,
      resourceToken ctx.now⟩ := hmem
    refine ends_seq (Ends.mono (servesOr_acquireWithin contentionPolls hs₁ hminted hl₁.wal
      fun h => (nomatch h)).ends fun r s₂ hs₂ _ hr => ?_)
    cases r with
    | error e => exact hr.imp_right fun hopen => ⟨key, hkey, .inl hopen⟩
    | ok d =>
      cases d with
      | owner token' =>
        refine ends_ret hs₂ ⟨⟨fun h => (nomatch h), fun i hi => ?_⟩, fun i hi => ?_⟩
        · obtain rfl := Option.some.inj hi
          exact ⟨⟨rfl, rfl, hkey, rfl⟩, hr.2⟩
        · obtain rfl := Option.some.inj hi
          exact hr.1
      | replay response => exact ends_ret hs₂ ⟨key, hkey, hr⟩
      | conflict => exact ends_fail hs₂ (.inr ⟨key, hkey, .inr ⟨rfl, hr⟩⟩)

/-- What the reply to an attempt says about its record. `failed` says that a
call of the attempt has failed. -/
structure AttemptSpec (S : Setting) (failed : Prop) (wal₀ wal : Journal) (key : RecordKey)
    (hash : String) (result : Except DomainError StoredResponse) : Prop where
  success : ∀ response, result = .ok response → Replays S [] wal key hash response
  fate : Undecided S wal₀ wal key ∨
    (∃ response, result = .ok response ∧ Replays S wal₀ wal key hash response) ∨
    (result = .error .idempotencyKeyReused ∧ Clashes S wal₀ wal key hash) ∨
    failed ∧ ∃ e, result = .error e

/-- A replay begun later is one begun before. -/
theorem Replays.of_prefix {key : RecordKey} {hash : String} {response : StoredResponse}
    (h : Replays S wal' wal key hash response) (hp : wal₀ <+: wal') :
    Replays S wal₀ wal key hash response := by
  obtain ⟨wal₁, r, h₀, hwal, h⟩ := h
  exact ⟨wal₁, r, hp.trans h₀, hwal, h⟩

/-- What was answered is replayed. -/
theorem Answered.replays {ictx : IdempotencyContext} {response : StoredResponse}
    (h : Answered S wal ictx response) :
    Replays S [] wal ictx.recordKey ictx.requestHash response := by
  obtain ⟨wal₁, r, hwal, hcompleted, hrest⟩ := h
  exact ⟨wal₁, r, List.nil_prefix, hwal, hcompleted, hrest⟩

/-- What holds of an attempt holds later, too. -/
theorem AttemptSpec.mono {failed failed' : Prop} {key : RecordKey} {hash : String}
    {result : Except DomainError StoredResponse}
    (h : AttemptSpec S failed wal₀ wal key hash result) (hp : wal <+: wal')
    (hfailed : failed → failed') : AttemptSpec S failed' wal₀ wal' key hash result := by
  refine ⟨fun response hr => (h.success response hr).mono hp, ?_⟩
  rcases h.fate with h | ⟨response, hr, h⟩ | ⟨hr, h⟩ | h
  · exact .inl (h.mono hp)
  · exact .inr (.inl ⟨response, hr, h.mono hp⟩)
  · exact .inr (.inr (.inl ⟨hr, h.mono hp⟩))
  · exact .inr (.inr (.inr (h.imp_left hfailed)))

/-- The reply of process `t` to an attempt. -/
def Replied (S : Setting) (t : Nat) (wal₀ : Journal) (ctx : RequestContext)
    (r : Except DomainError StoredResponse) (s : DbState) : Prop :=
  ∀ key, ctx.idempotencyKey = some key →
    AttemptSpec S (t ∈ s.failed) wal₀ s.wal (ctx.recordKey key) ctx.requestHash r

/-- The token of an owner was minted by it. -/
theorem Owner.minted {w : World} {ictx : IdempotencyContext} (h : Owner S w wal ictx) :
    Minted w ictx :=
  have ⟨_, _, _, hheld, _⟩ := h
  hheld.1

/-- A failed attempt gives its record back. -/
theorem serves_failOrRelease {ictx : IdempotencyContext} (hs : s.session t = none)
    (hminted : Minted s.world ictx) : Serves S t (failOrRelease ictx) (fun _ _ => True) s := by
  refine serves_quiet hs fun s₁ scan ans hr _ _ ha => ?_
  simp only [releaseClaim, statement] at ha
  split at ha
  · obtain rfl := Except.ok.inj ha
    exact ⟨by simp, rfl, fun hne => absurd rfl hne, fun _ _ _ _ => trivial⟩
  · next r hrow =>
    obtain ⟨hrow, hheld⟩ := Option.filter_eq_some_iff.mp hrow
    obtain rfl := Except.ok.inj ha
    have hheld := of_decide_eq_true hheld
    exact ⟨by simp, rfl, fun _ => .release ictx ⟨hminted.mono hr.later.world, hrow, hheld⟩,
      fun _ _ _ _ => trivial⟩

/-- A failed operation fails the attempt, whatever becomes of the claim. -/
theorem ends_releaseAndFail {ictx : Option IdempotencyContext} {error : DomainError}
    {P : Except DomainError StoredResponse → DbState → Prop} (hs : s.session t = none)
    (hminted : ∀ i ∈ ictx, Minted s.world i)
    (h : ∀ s', Later s s' → P (.error error) s') :
    Ends S t (releaseAndFail ictx error) P s := by
  cases ictx with
  | none => exact ends_fail hs (h s (.refl s))
  | some i =>
    have hrel : Ends S t (failOrRelease i) (fun _ _ => True) s :=
      wp_mono (serves_failOrRelease hs (hminted i rfl)) fun _ _ h => ⟨h.1, h.2.1, trivial⟩
    exact ends_attempt (hrel.mono fun r s₁ hs₁ hl _ => ends_fail hs₁ (h s₁ hl))

/-- A completed record holds the answer. -/
theorem serves_complete {req : IdempotencyComplete} (hs : s.session t = none)
    (hminted : Minted s.world req.context) :
    Serves S t (complete req) (fun _ s' => Answered S s'.wal req.context req.response) s := by
  refine serves_seq ((serves_quiet (P := fun rows s' => rows = 1 →
    Answered S s'.wal req.context req.response) hs ?_).mono fun rows s₁ hs₁ _ h =>
      serves_require hs₁ h)
  intro s₁ scan ans hr hi _ ha
  simp only [finalize, statement] at ha
  split at ha
  · obtain rfl := Except.ok.inj ha
    exact ⟨by simp, rfl, fun hne => absurd rfl hne, fun _ _ _ _ h => absurd h Nat.zero_ne_one⟩
  next r hrow =>
  split at ha
  · next hown =>
    obtain rfl := Except.ok.inj ha
    have hheld : Held s₁.world s₁.db req.context r := ⟨hminted.mono hr.later.world, hrow, hown⟩
    refine ⟨by simp, rfl, fun _ => .complete req ⟨r, hheld, rfl⟩, fun s₂ _ _ hwal _ => ?_⟩
    have hhash : r.requestHash = req.context.requestHash := hi.held_hash hheld
    exact ⟨s₂.wal, _, List.prefix_rfl, ⟨record_published hwal, rfl⟩, hhash,
      r.response_completed ..⟩
  · obtain rfl := Except.ok.inj ha
    exact ⟨by simp, rfl, fun hne => absurd rfl hne, fun _ _ _ _ h => absurd h Nat.zero_ne_one⟩

section Runs

variable {app : AppState} {ctx : RequestContext}
  {operation : Option IdempotencyContext → Store StoredResponse}

/-- A claim that ends an attempt at once. -/
theorem ClaimSpec.replied_replay {response : StoredResponse}
    (h : ClaimSpec S t wal₀ s ctx (.ok (.replay response))) :
    Replied S t wal₀ ctx (.ok response) s := by
  obtain ⟨key, hkey, hreplays⟩ := h
  intro key' hkey'
  obtain rfl : key = key' := Option.some.inj (hkey.symm.trans hkey')
  refine ⟨fun response' hr => ?_, .inr (.inl ⟨response, rfl, hreplays⟩)⟩
  exact Except.ok.inj hr ▸ hreplays.of_prefix List.nil_prefix

/-- An error of the claim is the reply. -/
theorem ClaimSpec.replied_error {e : DomainError} (h : ClaimSpec S t wal₀ s ctx (.error e)) :
    Replied S t wal₀ ctx (.error e) s := by
  intro key hkey
  refine ⟨fun _ hr => (nomatch hr), ?_⟩
  rcases h with hfailed | ⟨key', hkey', h⟩
  · exact .inr (.inr (.inr ⟨hfailed, e, rfl⟩))
  obtain rfl : key' = key := Option.some.inj (hkey'.symm.trans hkey)
  rcases h with hopen | ⟨rfl, hclash⟩
  · exact .inl hopen
  · exact .inr (.inr (.inl ⟨rfl, hclash⟩))

/-- An attempt that went on. -/
theorem ClaimSpec.replied {ictx : Option IdempotencyContext}
    {r : Except DomainError StoredResponse}
    (h : ClaimSpec S t wal₀ s ctx (.ok (.proceed ictx))) (hl : Later s s')
    (hok : ∀ response, r = .ok response → ∀ i ∈ ictx, Answered S s'.wal i response) :
    Replied S t wal₀ ctx r s' := by
  obtain ⟨⟨hnone, hproceeds⟩, hopen⟩ := h
  intro key hkey
  cases ictx with
  | none =>
    rw [hnone rfl] at hkey
    cases hkey
  | some i =>
    obtain ⟨hattempt, _⟩ := hproceeds i rfl
    rw [← hattempt.recordKey hkey, ← hattempt.requestHash]
    exact ⟨fun response hr => (hok response hr i rfl).replays, .inl ((hopen i rfl).mono hl.wal)⟩

/-- An answer is that of the operation, or the one that the record holds. -/
def Settled (S : Setting) (wal₀ : Journal) (ctx : RequestContext)
    (P : StoredResponse → Journal → Prop) (r : Except DomainError StoredResponse) (s : DbState) :
    Prop :=
  ∀ response, r = .ok response → P response s.wal ∨ ∃ key, ctx.idempotencyKey = some key ∧
    Replays S wal₀ s.wal (ctx.recordKey key) ctx.requestHash response

variable {P : StoredResponse → Journal → Prop}

/-- What is settled stays settled. -/
theorem Settled.mono {wal₀ : Journal} {r : Except DomainError StoredResponse}
    (hP : ∀ response wal wal', wal <+: wal' → P response wal → P response wal')
    (h : Settled S wal₀ ctx P r s) (hl : Later s s') : Settled S wal₀ ctx P r s' := by
  intro response hr
  rcases h response hr with h | ⟨key, hkey, h⟩
  · exact .inl (hP _ _ _ hl.wal h)
  · exact .inr ⟨key, hkey, h.mono hl.wal⟩

/-- **An attempt** whose operation finalises the record. -/
theorem ends_idempotencyRun (hs : s.session t = none)
    (hop : ∀ ictx s₁, Later s s₁ → s₁.session t = none → Proceeds S ctx ictx s₁ →
      Serves S t (operation ictx) (fun response s' =>
        (∀ i ∈ ictx, Answered S s'.wal i response) ∧ P response s'.wal) s₁) :
    Ends S t (idempotencyRun app ctx operation) (fun r s' =>
      Replied S t s.wal ctx r s' ∧ Settled S s.wal ctx P r s') s := by
  refine ends_seq ((ends_claim hs).mono fun r s₁ hs₁ hl₁ hclaim => ?_)
  match r, hclaim with
  | .error e, hclaim => exact ⟨hclaim.replied_error, fun response h => nomatch h⟩
  | .ok (.replay response), hclaim =>
    refine ends_ret hs₁ ⟨hclaim.replied_replay, fun response' h => .inr ?_⟩
    obtain rfl := Except.ok.inj h
    exact hclaim
  | .ok (.proceed ictx), hclaim =>
    refine ends_attempt (Ends.mono (P := fun r s' => ∀ response, r = .ok response →
      (∀ i ∈ ictx, Answered S s'.wal i response) ∧ P response s'.wal) (hop ictx s₁ hl₁ hs₁ hclaim.1)
      fun r s₂ hs₂ hl₂ hr => ?_)
    -- the answer was committed with the mutation, an error gives the record back
    cases r with
    | ok response =>
      obtain ⟨hanswered, hp⟩ := hr response rfl
      refine ends_ret hs₂ ⟨hclaim.replied hl₂ fun response' h => ?_,
        fun response' h => .inl ?_⟩
      · obtain rfl := Except.ok.inj h
        exact hanswered
      · obtain rfl := Except.ok.inj h
        exact hp
    | error e =>
      refine ends_releaseAndFail hs₂ (fun i hi => ((hclaim.1.2 i hi).2.minted).mono hl₂.world)
        fun s₃ hl₃ => ⟨hclaim.replied (hl₂.trans hl₃) fun _ h => (nomatch h),
          fun response h => nomatch h⟩

/-- An attempt whose record is finalised once the operation is done. -/
theorem ends_idempotencyRunWithCompletion (hs : s.session t = none)
    (hop : ∀ ictx s₁, Later s s₁ → s₁.session t = none → Proceeds S ctx ictx s₁ →
      Ends S t (operation ictx) (fun _ _ => True) s₁) :
    Ends S t (idempotencyRunWithCompletion app ctx operation)
      (fun r s' => Replied S t s.wal ctx r s') s := by
  refine ends_seq ((ends_claim hs).mono fun r s₁ hs₁ hl₁ hclaim => ?_)
  match r, hclaim with
  | .error e, hclaim => exact hclaim.replied_error
  | .ok (.replay response), hclaim => exact ends_ret hs₁ hclaim.replied_replay
  | .ok (.proceed ictx), hclaim =>
    refine ends_attempt ((hop ictx s₁ hl₁ hs₁ hclaim.1).mono fun r s₂ hs₂ hl₂ _ => ?_)
    cases r with
    | error e =>
      exact ends_releaseAndFail hs₂ (fun i hi => ((hclaim.1.2 i hi).2.minted).mono hl₂.world)
        fun s₃ hl₃ => hclaim.replied (hl₂.trans hl₃) fun _ h => nomatch h
    | ok response =>
      -- without a key there is nothing to complete
      cases ictx with
      | none =>
        exact ends_ret hs₂ (hclaim.replied hl₂ fun _ _ _ h => nomatch h)
      | some i =>
        have hminted := ((hclaim.1.2 i rfl).2.minted).mono hl₂.world
        have hdone : Ends S t (complete ⟨i, response, ctx.now, ctx.now + app.idempotencyRetention⟩)
            (fun r s' => match r with
              | .ok _ => Answered S s'.wal i response
              | .error _ => True) s₂ :=
          wp_mono (serves_complete hs₂ hminted) fun r _ h => ⟨h.1, h.2.1, by
            cases r with
            | ok u => exact h.2.2 u rfl
            | error e => trivial⟩
        refine ends_seq (hdone.mono fun r s₃ hs₃ hl₃ hr => ?_)
        cases r with
        | error e =>
          exact hclaim.replied (hl₂.trans hl₃) fun _ h => nomatch h
        | ok u =>
          refine ends_ret hs₃ (hclaim.replied (hl₂.trans hl₃) fun response' h i' hi => ?_)
          obtain rfl := Except.ok.inj h
          obtain rfl := Option.some.inj hi
          exact hr

/-- An attempt that goes on after its claim. -/
theorem ends_settled {rest : Option IdempotencyContext → Store StoredResponse}
    (hs : s.session t = none)
    (hrest : ∀ ictx s₁, Later s s₁ → s₁.session t = none → Proceeds S ctx ictx s₁ →
      Ends S t (rest ictx) (fun r s' => ∀ response, r = .ok response → P response s'.wal) s₁) :
    Ends S t (claim app ctx >>= fun c => match c with
      | .replay response => pure response
      | .proceed ictx => rest ictx) (fun r s' => Settled S s.wal ctx P r s') s := by
  refine ends_seq ((ends_claim hs).mono fun r s₁ hs₁ hl₁ hclaim => ?_)
  match r, hclaim with
  | .error e, _ =>
    intro response h
    cases h
  | .ok (.replay response), hclaim =>
    refine ends_ret hs₁ fun response' h => .inr ?_
    obtain rfl := Except.ok.inj h
    exact hclaim
  | .ok (.proceed ictx), hclaim =>
    exact Ends.mono (hrest ictx s₁ hl₁ hs₁ hclaim.1) fun r s₂ _ _ h response hr => .inl (h response hr)

/-- **Run.** An answer is that of the operation or was stored before. -/
theorem ends_idempotencyRunWithCompletion_settled
    (hP : ∀ response wal wal', wal <+: wal' → P response wal → P response wal')
    (hs : s.session t = none)
    (hop : ∀ ictx s₁, Later s s₁ → s₁.session t = none → Proceeds S ctx ictx s₁ →
      Serves S t (operation ictx) (fun response s' => P response s'.wal) s₁) :
    Ends S t (idempotencyRunWithCompletion app ctx operation)
      (fun r s' => Settled S s.wal ctx P r s') s := by
  refine ends_settled hs fun ictx s₁ hl₁ hs₁ hproceeds => ?_
  have hminted : ∀ s₂, Later s₁ s₂ → ∀ i ∈ ictx, Minted s₂.world i := fun s₂ hl₂ i hi =>
    ((hproceeds.2 i hi).2.minted).mono hl₂.world
  refine ends_attempt (Ends.mono (P := fun r s' => ∀ response, r = .ok response → P response s'.wal)
    (hop ictx s₁ hl₁ hs₁ hproceeds) fun r s₂ hs₂ hl₂ hr => ?_)
  cases r with
  | error e =>
    refine ends_releaseAndFail hs₂ (hminted s₂ hl₂) fun s₃ _ response h => ?_
    cases h
  | ok response =>
    have hp : P response s₂.wal := hr response rfl
    cases ictx with
    | none => exact ends_ret hs₂ hr
    | some i =>
      have hdone : Ends S t (complete ⟨i, response, ctx.now, ctx.now + app.idempotencyRetention⟩)
          (fun _ _ => True) s₂ := wp_mono (serves_complete hs₂ (hminted s₂ hl₂ i rfl))
        fun _ _ h => ⟨h.1, h.2.1, trivial⟩
      refine ends_seq (hdone.mono fun r s₃ hs₃ hl₃ _ => ?_)
      cases r with
      | error e =>
        intro response' h
        cases h
      | ok u =>
        refine ends_ret hs₃ fun response' h => ?_
        obtain rfl := Except.ok.inj h
        exact hP _ _ _ hl₃.wal hp

end Runs

end AnyStore
