import AnyStore.Spec.History
import AnyStore.Refinement.Rules

/-!
# Object mutations

The transactions of `Model.Objects` only publish write sets that their commands
may commit, in every interleaving. The parts that the mutations share come
first, each with a rule that says where it leads.
-/

namespace AnyStore

open ReadCommitted

variable {S : Setting} {t : Nat} {s s₁ s₂ s₃ : DbState} {α : Type}
variable {sess : Session Row.Val Label} {a : Adapter}

/-! ## Shared parts -/

/-- The transaction has written no object yet. -/
def NoObjects (ws : List Write) : Prop := ∀ id, written ws (.object id) = none

/-- Where no object is written the live ones are as they were, -/
theorem NoObjects.live {ws : List Write} (h : NoObjects ws) (db : Db) (id : ObjectId) :
    Db.live (replay ws db) id = db.live id :=
  Db.live_congr (by rw [object_replay, h]; rfl)

/-- and so are the rows. -/
theorem NoObjects.object {ws : List Write} (h : NoObjects ws) (db : Db) (id : ObjectId) :
    Db.object (replay ws db) id = db.object id := by
  rw [object_replay, h]
  rfl

/-- Nothing is written. -/
theorem noObjects_nil : NoObjects [] := fun _ => rfl

/-- The procedure refuses a payload that jsonb does. -/
theorem txp_requirePayload {hasNul : Bool} {P : Unit → DbState → Prop}
    (hs : s.session t = some sess) (h : P () s) :
    txp (contract S) t (requirePayload a hasNul) P s := by
  cases a with
  | sqlx => exact h
  | rpc => exact txp_require hs fun _ => h

/-- The row is locked as it is stored, whatever is held of it. -/
theorem txp_lockLiveObject {id : ObjectId} {P : ObjectRow → DbState → Prop}
    (hs : s.session t = some sess) (hlog : NoObjects sess.log)
    (h : ∀ o held sess₂ s₂, Reaches S t sess s [] sess₂ s₂ →
      (Row.object id, .update) ∈ sess₂.locks → Db.live s₂.db id = some o → a.held o = some held →
      P held s₂) :
    txp (contract S) t (lockLiveObject a id) P s := by
  refine txp_seq (txp_require hs fun _ => ?_)
  refine txp_seq (txp_run hs fun s₂ scan ans hr _ ha => ?_)
  obtain rfl := Except.ok.inj ha
  rw [hlog.object] at hr ⊢
  refine txp_seq (txp_orFail hr.session fun o (ho : Db.object s₂.db id = some o) => ?_)
  refine txp_seq (txp_orFail hr.session fun held hheld => ?_)
  refine txp_seq (txp_require hr.session fun hlive => ?_)
  rw [Adapter.held_eq hheld] at hlive
  refine h o held _ s₂ hr ?_ (Db.live_eq_some.mpr ⟨ho, Option.isNone_iff_eq_none.mp hlive⟩) hheld
  rw [if_pos (by rw [ho]; rfl)]
  exact List.mem_append_right _ (List.mem_singleton_self _)

/-- **Folder.** The parent is live, a folder, and locked. -/
theorem txp_requireLiveFolder {id : ObjectId} {P : Unit → DbState → Prop}
    (hs : s.session t = some sess) (hlog : NoObjects sess.log)
    (h : ∀ o sess₂ s₂, Reaches S t sess s [] sess₂ s₂ → (Row.object id, .share) ∈ sess₂.locks →
      Db.live s₂.db id = some o → o.kind = .folder → P () s₂) :
    txp (contract S) t (requireLiveFolder id) P s := by
  refine txp_seq (txp_require hs fun _ => ?_)
  refine txp_seq (txp_run hs fun s₂ scan ans hr _ ha => ?_)
  obtain rfl := Except.ok.inj ha
  rw [hlog.live] at hr ⊢
  refine txp_seq (txp_orFail hr.session fun kind hkind => ?_)
  obtain ⟨o, ho, rfl⟩ := Option.map_eq_some_iff.mp hkind
  refine txp_require hr.session fun hfolder => ?_
  refine h o _ s₂ hr ?_ ho hfolder
  rw [if_pos (by rw [ho]; rfl)]
  exact List.mem_append_right _ (List.mem_singleton_self _)

/-- Reads that only serve the answer. -/
theorem txp_loadView {id : ObjectId} {P : Option ObjectView → DbState → Prop}
    (hs : s.session t = some sess) (h : ∀ v s₂, Reaches S t sess s [] sess s₂ → P v s₂) :
    txp (contract S) t (loadView id) P s := by
  refine txp_seq (txp_require hs fun _ => ?_)
  refine txp_seq (txp_select hs fun s₁ hr₁ => ?_)
  split
  · exact h none s₁ hr₁
  · refine txp_seq (txp_orFail hr₁.session fun object _ => ?_)
    refine txp_seq (txp_select hr₁.session fun s₂ hr₂ => ?_)
    refine txp_seq (txp_orFail hr₂.session fun path _ => ?_)
    exact h _ s₂ (hr₁.trans hr₂)

/-- The view of an object only reads. -/
theorem txp_renderedView {id : ObjectId} {e : DomainError} {P : ObjectView → DbState → Prop}
    (hs : s.session t = some sess) (h : ∀ v s₂, Reaches S t sess s [] sess s₂ → P v s₂) :
    txp (contract S) t (renderedView a id e) P s := by
  cases a with
  | sqlx =>
    refine txp_seq (txp_loadView hs fun v s₁ hr₁ => ?_)
    exact txp_orFail hr₁.session fun v _ => h v s₁ hr₁
  | rpc =>
    refine txp_seq (txp_select hs fun s₁ hr₁ => ?_)
    refine txp_seq (txp_orFail hr₁.session fun o _ => ?_)
    refine txp_seq (txp_select hr₁.session fun s₂ hr₂ => ?_)
    exact h _ s₂ (hr₁.trans hr₂)

/-- So does that of an object that is left as it is. -/
theorem txp_unchangedView {id : ObjectId} {o : ObjectRow} {P : ObjectView → DbState → Prop}
    (hs : s.session t = some sess) (h : ∀ v s₂, Reaches S t sess s [] sess s₂ → P v s₂) :
    txp (contract S) t (unchangedView a id o) P s := by
  cases a with
  | sqlx =>
    refine txp_seq (txp_loadView hs fun v s₁ hr₁ => ?_)
    exact txp_orFail hr₁.session fun v _ => h v s₁ hr₁
  | rpc =>
    refine txp_seq (txp_select hs fun s₁ hr₁ => ?_)
    exact h _ s₁ hr₁

/-- Records under fresh sequence numbers. -/
def Drawn (ctx : MutationContext) (lo hi : Nat) (pending : List PendingChange)
    (records : List (Nat × ChangeRecord)) : Prop :=
  ∃ seqs : List Nat, seqs.length = pending.length ∧
    records = List.zipWith (fun p seq => (seq, p.record ctx seq)) pending seqs ∧
    seqs.Pairwise (· < ·) ∧ ∀ seq ∈ seqs, lo < seq ∧ seq ≤ hi

/-- Changes are appended under the numbers that were drawn. -/
theorem txp_insertChanges {records : List (Nat × ChangeRecord)} {P : Unit → DbState → Prop}
    (hs : s.session t = some sess)
    (h : ∀ sess₂ s₂, Reaches S t sess s (changeWrites records) sess₂ s₂ →
      (sess.advisory = true → sess₂.advisory = true) → P () s₂) :
    txp (contract S) t (run (insertChanges records)) P s := by
  refine txp_run hs fun s₂ scan ans hr _ ha => ?_
  simp only [insertChanges, statement] at ha
  split at ha
  · cases ha
  · obtain rfl := Except.ok.inj ha
    exact h _ s₂ hr id

/-- PL/pgSQL appends the records one after the other. -/
theorem txp_appendOneByOne {ctx : MutationContext} {pending : List PendingChange}
    {P : List ChangeRecord → DbState → Prop} (hs : s.session t = some sess) (hi : StoreInv S s)
    (h : ∀ answer records sess₂ s₂, Reaches S t sess s (changeWrites records) sess₂ s₂ →
      Drawn ctx s.seq s₂.seq pending records → (sess.advisory = true → sess₂.advisory = true) →
      P answer s₂) :
    txp (contract S) t (appendOneByOne ctx pending) P s := by
  -- on what is pending; each number is behind the one before it
  induction pending generalizing s sess P with
  | nil =>
    exact h [] [] sess s (.refl hs hi)
      ⟨[], rfl, rfl, .nil, fun _ h => absurd h List.not_mem_nil⟩ id
  | cons p pending ih =>
    refine txp_seq (txp_draw hs fun s₁ m hr₁ hm hseq => ?_)
    refine txp_seq (txp_insertChanges hr₁.session fun sess₂ s₂ hr₂ hadv₂ => ?_)
    refine txp_seq (ih hr₂.session hr₂.inv fun answer records sess₃ s₃ hr₃ hdrawn hadv₃ => ?_)
    obtain ⟨seqs, hlen, hrecords, hsorted, hbounds⟩ := hdrawn
    have hle₂ := hr₂.onward.later.seq
    have hle₃ := hr₃.onward.later.seq
    refine h _ ((m + 1, p.record ctx (m + 1)) :: records) sess₃ s₃ ?_
      ⟨(m + 1) :: seqs, by simp [hlen], by rw [List.zipWith_cons_cons, hrecords], ?_, ?_⟩
      fun ha => hadv₃ (hadv₂ ha)
    · have := (hr₁.trans hr₂).trans hr₃
      simpa [changeWrites] using this
    · refine List.pairwise_cons.mpr ⟨fun seq hseq' => ?_, hsorted⟩
      have := (hbounds seq hseq').1
      omega
    · refine List.forall_mem_cons.mpr ⟨⟨by omega, by omega⟩, fun seq hseq' => ?_⟩
      have := hbounds seq hseq'
      omega

/-- While the Change-order lock is held, no other record is committed. -/
theorem Drawn.numbered {ctx : MutationContext} {pending : List PendingChange}
    {records : List (Nat × ChangeRecord)} (h : Drawn ctx s₁.seq s₂.seq pending records)
    (hi : StoreInv S s₁) (hs : s₁.session t = some sess) (hadv : sess.advisory = true)
    (hon : Onward t s₁ s₃) (hle : s₂.seq ≤ s₃.seq) :
    Numbered s₃.wal ctx pending records ∧ ∀ r ∈ records, r.1 ≤ s₃.seq := by
  obtain ⟨seqs, hlen, rfl, hsorted, hbounds⟩ := h
  -- under the advisory lock nobody else appends, so all that is in the feed lies before
  have hfeed : feed s₃.wal = feed s₁.wal := (hon.locks sess hs).1.feed hadv
  refine ⟨⟨seqs, hlen, rfl, hsorted, fun seq hseq => ⟨?_, fun r hr => ?_⟩⟩, fun r hr => ?_⟩
  · have := (hbounds seq hseq).1
    omega
  · rw [hfeed] at hr
    exact (hi.seq r hr).trans_lt (hbounds seq hseq).1
  · have hmem : r.1 ∈ seqs := by
      rw [← @zipWith_record_fst ctx _ _ hlen]
      exact List.mem_map_of_mem hr
    exact (hbounds _ hmem).2.trans hle

/-- The Changes of a mutation, which stay in order until it commits. -/
theorem txp_appendChanges {ctx : MutationContext} {pending : List PendingChange}
    {P : List ChangeRecord → DbState → Prop} (hs : s.session t = some sess) (hne : pending ≠ [])
    (h : ∀ answer records sess₂ s₂, Reaches S t sess s (changeWrites records) sess₂ s₂ →
      sess₂.advisory = true → (∀ s₃, Onward t s₂ s₃ → Numbered s₃.wal ctx pending records ∧
        ∀ r ∈ records, r.1 ≤ s₃.seq) → P answer s₂) :
    txp (contract S) t (appendChanges a ctx pending) P s := by
  unfold appendChanges
  rw [if_neg hne]
  -- the driver draws a block of numbers, the procedure one after the other
  cases a with
  | sqlx =>
    refine txp_seq (txp_lockOrder hs fun s₁ hr₁ => ?_)
    refine txp_seq (txp_draw hr₁.session fun s₂ m hr₂ hm hseq => ?_)
    refine txp_seq (txp_insertChanges hr₂.session fun sess₃ s₃ hr₃ hadv₃ => ?_)
    have hle₃ := hr₃.onward.later.seq
    refine h _ _ sess₃ s₃ ((hr₁.trans hr₂).trans hr₃) (hadv₃ rfl) fun s₄ hon => ?_
    have hdrawn : Drawn ctx s₁.seq s₂.seq pending _ :=
      ⟨List.range' (m + 1) pending.length, by simp, rfl, List.pairwise_lt_range', fun seq hseq' => by
        have := List.mem_range'_1.mp hseq'
        omega⟩
    exact hdrawn.numbered hr₁.inv hr₁.session rfl ((hr₂.onward.trans hr₃.onward).trans hon)
      (hle₃.trans hon.later.seq)
  | rpc =>
    refine txp_seq (txp_lockOrder hs fun s₁ hr₁ => ?_)
    refine txp_appendOneByOne hr₁.session hr₁.inv fun answer records sess₂ s₂ hr₂ hdrawn hadv₂ => ?_
    refine h answer records sess₂ s₂ (hr₁.trans hr₂) (hadv₂ rfl) fun s₃ hon => ?_
    exact hdrawn.numbered hr₁.inv hr₁.session rfl (hr₂.onward.trans hon) hon.later.seq

/-! ## Finishing -/

/-- The transaction has written no idempotency record yet. -/
def NoRecords (ws : List Write) : Prop := ∀ key : RecordKey, written ws key.row = none

/-- Nothing is written. -/
theorem noRecords_nil : NoRecords [] := fun _ => rfl

/-- One part after the other. -/
theorem NoRecords.append {ws ws' : List Write} (h : NoRecords ws) (h' : NoRecords ws') :
    NoRecords (ws ++ ws') := fun key => by
  rw [written_append, h, h']
  rfl

/-- Writes to another table touch no record. -/
theorem OnTable.noRecords {T : Table} {ws : List Write} (h : OnTable T ws)
    (hT : T ≠ .idempotency) : NoRecords ws := written_record_of_ne (h.ne hT)

/-- The answer is rendered and the idempotency record finalised; its row stays
locked until the commit. -/
theorem txp_finish {ctx : MutationContext} {outcome : MutationOutcome}
    {P : StoredResponse → DbState → Prop} (hs : s.session t = some sess) (hi : StoreInv S s)
    (hlog : NoRecords sess.log) (hminted : ∀ ictx ∈ ctx.idempotency, Minted s.world ictx)
    (h : ∀ response fin sess₂ s₂, Reaches S t sess s fin sess₂ s₂ →
      (∀ s₃, Onward t s₂ s₃ → Finalizes s₃.world s₃.db ctx.idempotency response ctx.now
        ctx.idempotencyExpiresAt fin) → P response s₂) :
    txp (contract S) t (finish ctx outcome) P s := by
  refine txp_seq (txp_ofExcept hs fun response _ => ?_)
  cases hctx : ctx.idempotency with
  | none =>
    refine h response [] sess s (.refl hs hi) fun s₃ _ => ?_
    rw [hctx]
    exact rfl
  | some ictx =>
    refine txp_seq (txp_seq (txp_run hs fun s₂ scan ans hr _ ha => ?_))
    simp only [finalize, statement] at ha
    have hview : Db.idempotency (replay sess.log s₂.db) ictx.principalId ictx.operation ictx.key =
        Db.idempotency s₂.db ictx.principalId ictx.operation ictx.key := by
      have := record_replay sess.log s₂.db ictx.recordKey
      rw [hlog] at this
      exact this
    rw [hview] at ha
    split at ha
    · obtain rfl := Except.ok.inj ha
      exact txp_require hr.session fun h => nomatch h
    · next r hrow =>
      split at ha
      · next hown =>
        obtain rfl := Except.ok.inj ha
        refine txp_require hr.session fun _ => h response _ _ s₂ hr fun s₃ hon => ?_
        rw [hctx]
        refine ⟨r, ⟨?_, ?_, hown⟩, rfl⟩
        · exact (hminted ictx hctx).mono (hr.onward.later.world.trans hon.later.world)
        · -- the row is locked by the write
          have hlocked : Db.idempotency s₃.db ictx.principalId ictx.operation ictx.key = _ :=
            hon.lookup hr.session (m := .noKeyUpdate)
              (List.mem_append_right _ (List.mem_append_right _ (List.mem_singleton_self _)))
              (by decide)
          exact hlocked.trans hrow
      · obtain rfl := Except.ok.inj ha
        exact txp_require hr.session fun h => nomatch h

/-- The response was stored in the record of the attempt. -/
def Answered (S : Setting) (wal : Journal) (ictx : IdempotencyContext) (response : StoredResponse) :
    Prop :=
  ∃ wal₁ r, wal₁ <+: wal ∧ Completed S wal₁ ictx.recordKey r ∧ r.requestHash = ictx.requestHash ∧
    r.response = response

/-- The record that an attempt holds has its request hash. -/
theorem StoreInv.held_hash (hi : StoreInv S s) {ictx : IdempotencyContext} {r : IdempotencyRow}
    (h : Held s.world s.db ictx r) : r.requestHash = ictx.requestHash :=
  hi.serial.held_hash hi.world.ulids (hi.db ▸ h)

/-- A finished mutation may be committed if its command may commit what it
wrote; once it is, its response is in the record. -/
theorem committable_of_finalizes {label : Label} {ctx : MutationContext} {front fin : List Write}
    {response : StoredResponse} (hs : s.session t = some sess) (hlabel : sess.label = label)
    (hlog : sess.log = front ++ fin) (hfront : NoRecords front)
    (hfin : ∀ s₂, Onward t s s₂ → Finalizes s₂.world s₂.db ctx.idempotency response ctx.now
      ctx.idempotencyExpiresAt fin)
    (hcommit : ∀ s₂, Since t s s₂ → StoreInv S s₂ → ctx.Finalizes s₂.world s₂.db fin →
      front ++ fin ≠ [] → Commits S s₂.world s₂.wal s₂.db label (front ++ fin) ∧
        Disciplined t s₂ (front ++ fin) ∧ ∀ r ∈ feedOf (front ++ fin), r.1 ≤ s₂.seq) :
    Committable S t label (fun response s => ∀ ictx ∈ ctx.idempotency,
      Answered S s.wal ictx response) response s := by
  refine ⟨sess, hs, hlabel, fun s₂ hr hi => ⟨fun hne => ?_, fun s₃ hi₃ _ hwal ictx hctx => ?_⟩⟩
  · rw [hlog] at hne ⊢
    exact hcommit s₂ hr hi ⟨response, hfin s₂ hr.onward⟩ hne
  · have hfin₂ := hfin s₂ hr.onward
    rw [Option.mem_def.mp hctx] at hfin₂
    obtain ⟨r, hheld, rfl⟩ := hfin₂
    -- the hash of a record never changes, so it is the one that was claimed
    have hhash : r.requestHash = ictx.requestHash := hi.held_hash hheld
    refine ⟨s₃.wal, r.completed response (encodeHeaders response.headers) ctx.now
      ctx.idempotencyExpiresAt, List.prefix_rfl, ⟨?_, rfl⟩, hhash, r.response_completed ..⟩
    have hne : sess.log ≠ [] := by
      rw [hlog]
      simp
    rw [hwal, entry, if_neg hne, Setting.rows_snoc, record_replay, hlog, written_append, hfront,
      written_idempotencyWrite, if_pos rfl]
    rfl

/-- With what holds later anyway. -/
theorem Committable.and {label : Label} {a : α} {P P' : α → DbState → Prop}
    (h : Committable S t label P a s) (hP' : ∀ s', Later s s' → P' a s') :
    Committable S t label (fun a s => P a s ∧ P' a s) a s := by
  obtain ⟨sess, hs, hlabel, h⟩ := h
  refine ⟨sess, hs, hlabel, fun s₂ hr hi => ⟨(h s₂ hr hi).1, fun s₃ hi₃ hl hwal => ?_⟩⟩
  exact ⟨(h s₂ hr hi).2 s₃ hi₃ hl hwal, hP' s₃ (hr.later.trans hl)⟩

/-- A check that is passed, whatever the adapter. -/
theorem txp_checkIfMatchIn {a : Adapter} {current : Revision} {ifMatch : Option Revision}
    {P : Unit → DbState → Prop} (hs : s.session t = some sess)
    (h : (∀ expected ∈ ifMatch, expected = current) → P () s) :
    txp (contract S) t (checkIfMatchIn a current ifMatch) P s := by
  cases a with
  | sqlx => exact txp_require hs h
  | rpc => exact txp_seq (txp_require hs fun _ => txp_require hs h)

/-- Between the two points of the journal there is one where the object was
live with the revision that is expected. -/
def Matched (S : Setting) (wal₀ wal : Journal) (id : ObjectId) (ifMatch : Option Revision) : Prop :=
  ∃ wal₁ o, wal₀ <+: wal₁ ∧ wal₁ <+: wal ∧ (S.rows wal₁).live id = some o ∧
    ∀ expected ∈ ifMatch, expected = o.revision

/-- The object is live and its revision the expected one: it was so during the call. -/
theorem Matched.of_live {s₁ s₂ : DbState} {id : ObjectId} {ifMatch : Option Revision}
    {o : ObjectRow} (hi : StoreInv S s₁) (hlive : Db.live s₁.db id = some o)
    (hmatch : ∀ expected ∈ ifMatch, expected = o.revision) (hl : Later s s₁) (hl' : Later s₁ s₂) :
    Matched S s.wal s₂.wal id ifMatch :=
  ⟨s₁.wal, o, hl.wal, hl'.wal, hi.db ▸ hlive, hmatch⟩

/-- What has matched has matched. -/
theorem Matched.mono {wal₀ wal wal' : Journal} {id : ObjectId} {ifMatch : Option Revision}
    (h : Matched S wal₀ wal id ifMatch) (hp : wal <+: wal') : Matched S wal₀ wal' id ifMatch := by
  obtain ⟨wal₁, o, h₀, h₁, hrest⟩ := h
  exact ⟨wal₁, o, h₀, h₁.trans hp, hrest⟩

/-- The call may have come in earlier. -/
theorem Matched.since {wal₀ wal₁ wal : Journal} {id : ObjectId} {ifMatch : Option Revision}
    (h : Matched S wal₁ wal id ifMatch) (hp : wal₀ <+: wal₁) : Matched S wal₀ wal id ifMatch := by
  obtain ⟨wal₂, o, h₁, hrest⟩ := h
  exact ⟨wal₂, o, hp.trans h₁, hrest⟩

/-! ## Discipline -/

/-- No cursor is written. -/
def NoCursors (ws : List Write) : Prop := ∀ id, written ws (.cursor id) = none

/-- Writes to other tables write no cursor, -/
theorem NoCursors.of_tables {ws : List Write} (h : ∀ w ∈ ws, w.1.table ≠ .cursors) :
    NoCursors ws := by
  intro id
  rw [written_eq_none_iff]
  intro hmem
  obtain ⟨w, hw, he⟩ := List.mem_map.mp hmem
  exact h w hw (by rw [he]; rfl)

/-- so there is no new one, -/
theorem NoCursors.drawn {ws : List Write} (h : NoCursors ws) (id : CursorId) (row : CursorRow)
    (hw : written ws (.cursor id) = some (some row)) (_ : Db.cursor s.db id = none) :
    OwnsCursor t id s := by
  rw [h id] at hw
  cases hw

/-- nor in two parts, -/
theorem NoCursors.append {ws ws' : List Write} (h : NoCursors ws) (h' : NoCursors ws') :
    NoCursors (ws ++ ws') := by
  intro id
  rw [written_append, h id, h' id]
  rfl

/-- nor with an object before them. -/
theorem NoCursors.cons_object {id : ObjectId} {o : Option ObjectRow} {ws : List Write}
    (h : NoCursors ws) : NoCursors (⟨.object id, o⟩ :: ws) := by
  intro x
  rw [written_cons_ne (by simp), h x]

/-- What follows the rows of a mutation. -/
theorem NoCursors.of_rest {records : List (Nat × ChangeRecord)} {fin : List Write}
    (hfin : OnTable .idempotency fin) : NoCursors (changeWrites records ++ fin) :=
  fun _ => written_rest hfin (by simp) (by simp)

/-- Neither an object nor a cursor is written. -/
def QuietTables (ws : List Write) : Prop :=
  ∀ w ∈ ws, w.1.table ≠ .objects ∧ w.1.table ≠ .cursors

/-- Nothing is written. -/
@[simp] theorem quietTables_nil : QuietTables [] := fun _ h => absurd h List.not_mem_nil

/-- One write and the rest. -/
@[simp] theorem quietTables_cons {w : Write} {ws : List Write} : QuietTables (w :: ws) ↔
    (w.1.table ≠ .objects ∧ w.1.table ≠ .cursors) ∧ QuietTables ws := List.forall_mem_cons

/-- One part after the other. -/
theorem QuietTables.append {ws ws' : List Write} (h : QuietTables ws) (h' : QuietTables ws') :
    QuietTables (ws ++ ws') := List.forall_mem_append.mpr ⟨h, h'⟩

/-- Writes to another table are quiet, -/
theorem OnTable.quiet {T : Table} {ws : List Write} (h : OnTable T ws)
    (hT : T ≠ .objects ∧ T ≠ .cursors) : QuietTables ws :=
  fun w hw => ⟨h.ne hT.1 w hw, h.ne hT.2 w hw⟩

/-- and write no cursor. -/
theorem NoCursors.of_quiet {ws : List Write} (h : QuietTables ws) : NoCursors ws :=
  .of_tables fun w hw => (h w hw).2

/-- One object row is written under the Change-order lock, below a folder that
it was in or that is locked. -/
theorem Disciplined.of_single {ws : List Write} {id : ObjectId} {o : ObjectRow}
    (hadv : ∃ sess, s.session t = some sess ∧ sess.advisory = true)
    (hobj : objectWrites ws = single id o)
    (hparent : ∀ p, o.parentId = some p → o.deletedAt = none →
      (∃ o', Db.live s.db id = some o' ∧ o'.parentId = some p) ∨
      ∃ sess m, s.session t = some sess ∧ (Row.object p, m) ∈ sess.locks ∧ m ≠ .keyShare)
    (hcursors : NoCursors ws) : Disciplined t s ws := by
  refine ⟨fun _ => hadv, fun c o' p hc hp => ?_, hcursors.drawn⟩
  obtain ⟨hc', hlive⟩ := Db.live_eq_some.mp hc
  have hrow : Db.object (replay ws s.db) c = if c = id then some o else Db.object s.db c :=
    object_single fun x => by
      rw [object_replay, ← hobj]
      rfl
  rw [hrow] at hc'
  -- the object that was written, and any other one
  split at hc'
  · next hid =>
    subst hid
    obtain rfl := Option.some.inj hc'
    exact hparent p hp hlive
  · exact .inl ⟨o', Db.live_eq_some.mpr ⟨hc', hlive⟩, hp⟩

/-- No object and no Change is written. -/
theorem Disciplined.of_quiet {ws : List Write} (hobjects : ∀ w ∈ ws, w.1.table ≠ .objects)
    (hfeed : feedOf ws = []) (hdrawn : ∀ id row, written ws (.cursor id) = some (some row) →
      Db.cursor s.db id = none → OwnsCursor t id s) : Disciplined t s ws := by
  refine ⟨fun h => ?_, fun c o p hc hp => .inl ⟨o, ?_, hp⟩, hdrawn⟩
  · rcases h with ⟨w, hw, he⟩ | hne
    · exact absurd he (hobjects w hw)
    · exact absurd hfeed hne
  · rw [← hc]
    refine (Db.live_congr ?_).symm
    rw [object_replay, written_eq_none_iff.mpr]
    · rfl
    · intro hmem
      obtain ⟨w, hw, he⟩ := List.mem_map.mp hmem
      exact hobjects w hw (by rw [he]; rfl)

/-- A transaction that leaves objects and Changes alone. -/
theorem committable_of_reading {label : Label} {P : α → DbState → Prop} {a : α}
    (hs : s.session t = some sess) (hlabel : sess.label = label)
    (hobjects : ∀ w ∈ sess.log, w.1.table ≠ .objects) (hfeed : feedOf sess.log = [])
    (hdrawn : ∀ id row, written sess.log (.cursor id) = some (some row) →
      ∀ s₂, Since t s s₂ → Db.cursor s₂.db id = none → OwnsCursor t id s₂)
    (hcommit : ∀ s₂, Since t s s₂ → StoreInv S s₂ → sess.log ≠ [] →
      Commits S s₂.world s₂.wal s₂.db label sess.log)
    (hpost : ∀ s₂ s₃, Since t s s₂ → StoreInv S s₂ → StoreInv S s₃ → Later s₂ s₃ →
      s₃.wal = s₂.wal ++ entry label sess.log → P a s₃) : Committable S t label P a s := by
  refine ⟨sess, hs, hlabel, fun s₂ hr hi => ⟨fun hne => ⟨hcommit s₂ hr hi hne,
    .of_quiet hobjects hfeed fun id row hw => hdrawn id row hw s₂ hr, ?_⟩,
    fun s₃ hi₃ hl hwal => hpost s₂ s₃ hr hi hi₃ hl hwal⟩⟩
  rw [hfeed]
  exact fun r hr => absurd hr List.not_mem_nil

/-- A transaction that leaves the cursors alone, too. -/
theorem committable_of_quiet {label : Label} {P : α → DbState → Prop} {a : α}
    (hs : s.session t = some sess) (hlabel : sess.label = label)
    (hquiet : QuietTables sess.log) (hfeed : feedOf sess.log = [])
    (hcommit : ∀ s₂, Since t s s₂ → StoreInv S s₂ → sess.log ≠ [] →
      Commits S s₂.world s₂.wal s₂.db label sess.log)
    (hpost : ∀ s₂ s₃, Since t s s₂ → StoreInv S s₂ → StoreInv S s₃ → Later s₂ s₃ →
      s₃.wal = s₂.wal ++ entry label sess.log → P a s₃) : Committable S t label P a s :=
  committable_of_reading hs hlabel (fun w hw => (hquiet w hw).1) hfeed
    (fun id row hw _ _ => (NoCursors.of_quiet hquiet).drawn id row hw) hcommit hpost

/-- A statement outside a transaction that leaves objects and Changes alone. -/
theorem servesOr_quiet {F : DomainError → DbState → Prop} {stmt : Stmt α}
    {P : α → DbState → Prop} (hs : s.session t = none)
    (h : ∀ s₁ scan ans, Since t s s₁ → StoreInv S s₁ → S.rule stmt.label s₁.db →
      stmt.run scan s₁.db = .ok ans →
      QuietTables ans.writes ∧ feedOf ans.writes = [] ∧
      (ans.writes ≠ [] → Commits S s₁.world s₁.wal s₁.db stmt.label ans.writes) ∧
      ∀ s₂, StoreInv S s₂ → Later s₁ s₂ → s₂.wal = s₁.wal ++ entry stmt.label ans.writes →
        P ans.result s₂)
    (hrefuse : ∀ s₁ e, Since t s s₁ → stmt.Refuses liveNameUq s₁.db e → F (mapSqlx e) s₁) :
    ServesOr S t F (run stmt) P s := by
  refine servesOr_run hs (fun s₁ scan ans hr hi hrule ha => ?_) hrefuse
  obtain ⟨hquiet, hfeed, hcommit, hpost⟩ := h s₁ scan ans hr hi hrule ha
  refine ⟨fun hne => ⟨hcommit hne, .of_quiet (fun w hw => (hquiet w hw).1) hfeed
    (NoCursors.of_quiet hquiet).drawn, ?_⟩, hpost⟩
  rw [hfeed]
  exact fun r hr => absurd hr List.not_mem_nil

/-- **Statement.** One that writes neither objects nor cursors needs no lock. -/
theorem serves_quiet {stmt : Stmt α} {P : α → DbState → Prop} (hs : s.session t = none)
    (h : ∀ s₁ scan ans, Since t s s₁ → StoreInv S s₁ → S.rule stmt.label s₁.db →
      stmt.run scan s₁.db = .ok ans →
      QuietTables ans.writes ∧ feedOf ans.writes = [] ∧
      (ans.writes ≠ [] → Commits S s₁.world s₁.wal s₁.db stmt.label ans.writes) ∧
      ∀ s₂, StoreInv S s₂ → Later s₁ s₂ → s₂.wal = s₁.wal ++ entry stmt.label ans.writes →
        P ans.result s₂) : Serves S t (run stmt) P s :=
  (servesOr_quiet (F := fun _ _ => True) hs h fun _ _ _ _ => trivial).serves

/-! ## Creating -/

/-- **Create.** It keeps the contract and is answered by what it has committed. -/
theorem serves_createObject {cmd : CreateObjectCommit} (hs : s.session t = none)
    (hminted : ∀ ictx ∈ cmd.ctx.idempotency, Minted s.world ictx) :
    Serves S t (createObject a cmd) (fun response s => ∀ ictx ∈ cmd.ctx.idempotency,
      Answered S s.wal ictx response) s := by
  refine serves_transaction hs fun s₁ hl hi hs₁ => ?_
  refine txp_seq (txp_requirePayload hs₁ ?_)
  refine txp_seq (txp_requireLiveFolder hs₁ noObjects_nil
    fun folder sess₂ s₂ hr₂ hshare hfolder hkind => ?_)
  refine txp_seq (txp_require hr₂.session fun _ => ?_)
  refine txp_seq (txp_run hr₂.session fun s₃ scan ans hr₃ _ ha => ?_)
  simp only [insertObject, statement] at ha
  split at ha
  · cases ha
  next hfresh =>
  obtain rfl := Except.ok.inj ha
  refine txp_seq (txp_renderedView hr₃.session fun view s₄ hr₄ => ?_)
  refine txp_seq (txp_appendChanges hr₄.session (by simp)
    fun answer records sess₅ s₅ hr₅ hadv hnumbered => ?_)
  have hr := ((hr₂.trans hr₃).trans hr₄).trans hr₅
  have hlog : sess₅.log = [⟨.object cmd.id, some cmd.row⟩] ++ changeWrites records := by
    simpa using hr.log
  have hfront : NoRecords ([⟨.object cmd.id, some cmd.row⟩] ++ changeWrites records) :=
    .append (OnTable.noRecords (onTable_objects [()] (fun _ => cmd.id) fun _ => some cmd.row)
      (by decide)) ((onTable_changeWrites records).noRecords (by decide))
  refine txp_finish hr₅.session hr₅.inv (hlog ▸ hfront)
    (fun ictx h => (hminted ictx h).mono (hl.world.trans hr.onward.later.world))
    fun response fin sess₆ s₆ hr₆ hfin => ?_
  refine committable_of_finalizes hr₆.session (hr₆.label.trans hr.label)
    (by rw [hr₆.log, hlog]) hfront hfin fun s₇ hsince hi₇ hfin₇ _ => ?_
  -- what the locks have kept
  have hon₅ : Onward t s₅ s₇ := hr₆.onward.trans hsince.onward
  have hon₃ : Onward t s₃ s₇ := (hr₄.onward.trans hr₅.onward).trans hon₅
  have hon₂ : Onward t s₂ s₇ := hr₃.onward.trans hon₃
  have hfresh₇ : Db.object s₇.db cmd.id = none := by
    rw [hon₃.object hr₃.session (m := .noKeyUpdate)
      (List.mem_append_right _ (List.mem_append_right _ (List.mem_singleton_self _))) (by decide)]
    have hlog₂ : sess₂.log = [] := hr₂.log
    rw [hlog₂, replay_nil] at hfresh
    simpa using hfresh
  have hparent₇ : Db.live s₇.db cmd.parentId = some folder :=
    (hon₂.live hr₂.session hshare (by decide)).trans hfolder
  obtain ⟨hnum, hbound⟩ := hnumbered s₇ hon₅
  have hfin' := hfin₇.onTable
  refine ⟨.createObject cmd hfresh₇ hparent₇ hkind hnum hfin₇, .of_single (hon₅.ordered hr₅.session hadv)
    (objectWrites_cons fun x => written_rest hfin' (by simp) (by simp)) (fun p hp _ => ?_)
    (.cons_object (.of_rest hfin')), ?_⟩
  · obtain rfl := Option.some.inj hp
    obtain ⟨sess₇, hs₇, hmem⟩ := hon₂.holds hr₂.session hshare
    exact .inr ⟨sess₇, _, hs₇, hmem, by decide⟩
  · have hfeed : feedOf ([⟨.object cmd.id, some cmd.row⟩] ++ changeWrites records ++ fin) = records :=
      feedOf_rest hfin'
    rw [hfeed]
    exact hbound

/-! ## Patching -/

/-- The walk from the destination did not meet the object. -/
theorem txp_requireOutside {id destination : ObjectId} {P : Unit → DbState → Prop}
    (hs : s.session t = some sess)
    (h : ∀ s₂, Reaches S t sess s [] sess s₂ →
      id ∉ Db.ancestors (replay sess.log s₂.db) destination → P () s₂) :
    txp (contract S) t (requireOutside id destination) P s := by
  refine txp_seq (txp_select hs fun s₂ hr => ?_)
  exact txp_require hr.session fun hnot => h s₂ hr (by simpa using hnot)

variable {current : ObjectRow} {id : ObjectId} {target : PatchTarget}

/-- A move has found a live folder and keeps it alive. -/
theorem txp_checkDestination {P : Unit → DbState → Prop} (hs : s.session t = some sess)
    (hi : StoreInv S s) (hlog : NoObjects sess.log)
    (h : ∀ sess₂ s₂, Reaches S t sess s [] sess₂ s₂ →
      (∀ s', Onward t s₂ s' → target.parentChanged current = true → ∃ d folder sess',
        target.parent = some d ∧ Db.live s'.db d = some folder ∧ folder.kind = .folder ∧
        s'.session t = some sess' ∧ (Row.object d, .share) ∈ sess'.locks) → P () s₂) :
    txp (contract S) t
      (whenever (target.parentChanged current) (checkDestination current id target)) P s := by
  refine txp_whenever (fun _ => ?_) fun hsame => ?_
  · refine txp_seq (txp_orFail hs fun d hd => ?_)
    refine txp_seq (txp_requireLiveFolder hs hlog fun folder sess₂ s₂ hr₂ hshare hfolder hkind => ?_)
    -- the lock on the destination is kept to the end, so it stays a live folder
    have hkept : ∀ s', Onward t s₂ s' → target.parentChanged current = true → ∃ d folder sess',
        target.parent = some d ∧ Db.live s'.db d = some folder ∧ folder.kind = .folder ∧
        s'.session t = some sess' ∧ (Row.object d, .share) ∈ sess'.locks := by
      intro s' hon _
      obtain ⟨sess', hs', hmem⟩ := hon.holds hr₂.session hshare
      exact ⟨d, folder, sess', hd, (hon.live hr₂.session hshare (by decide)).trans hfolder, hkind,
        hs', hmem⟩
    refine txp_whenever (fun _ => ?_) fun _ => h sess₂ s₂ hr₂ hkept
    refine txp_requireOutside hr₂.session fun s₃ hr₃ _ => ?_
    exact h sess₂ s₃ (hr₂.trans hr₃) fun s' hon => hkept s' (hr₃.onward.trans hon)
  · exact h sess s (.refl hs hi) fun _ _ hmoved => absurd hmoved hsame

/-- The parent relation looks at the objects alone. -/
theorem parent_replay_congr {ws : List Write} {db db' : Db}
    (h : ∀ id, db'.object id = db.object id) :
    Db.Parent (replay ws db') = Db.Parent (replay ws db) := by
  funext a b
  rw [Db.Parent, object_replay, h, ← object_replay, Db.Parent]

/-- The repeated walk holds until the commit: no other move is published before. -/
theorem txp_recheckDestination {P : Unit → DbState → Prop} (hs : s.session t = some sess)
    (hi : StoreInv S s) (hself : ∀ db, (Db.object (replay sess.log db) id).isSome)
    (h : ∀ sess₂ s₂, Reaches S t sess s [] sess₂ s₂ →
      (∀ s', Onward t s₂ s' → target.parentChanged current = true → current.kind = .folder →
        ∀ d ∈ target.parent, ¬ Relation.ReflTransGen (Db.Parent (replay sess.log s'.db)) d id) →
      P () s₂) :
    txp (contract S) t (whenever (target.parentChanged current ∧ current.kind = .folder)
      (recheckDestination id target)) P s := by
  refine txp_whenever (fun _ => ?_) fun hnot => ?_
  · refine txp_seq (txp_lockOrder hs fun s₁ hr₁ => ?_)
    -- a move below a folder is walked again; at the top there is nothing to walk
    split
    · next d hd =>
      refine txp_requireOutside hr₁.session fun s₂ hr₂ hwalk => ?_
      refine h _ s₂ (hr₁.trans hr₂) fun s' hon _ _ d' hd' hpath => hwalk ?_
      obtain rfl : d = d' := Option.some.inj (hd.symm.trans hd')
      rw [parent_replay_congr ((hon.locks _ hr₂.session).1.objects rfl)] at hpath
      exact Db.mem_ancestors hpath (hself _)
    · next hd =>
      refine h _ s₁ hr₁ fun s' _ _ _ d hd' => ?_
      rw [hd] at hd'
      cases hd'
  · exact h sess s (.refl hs hi) fun _ _ hmoved hkind => absurd ⟨hmoved, hkind⟩ hnot

/-- An attempt that changes nothing only finalises its record. -/
theorem committable_of_noop {label : Label} {ctx : MutationContext} {fin : List Write}
    {response : StoredResponse} (hs : s.session t = some sess) (hlabel : sess.label = label)
    (hlog : sess.log = fin)
    (hfin : ∀ s₂, Onward t s s₂ → Finalizes s₂.world s₂.db ctx.idempotency response ctx.now
      ctx.idempotencyExpiresAt fin)
    (hcommit : ∀ s₂, Onward t s s₂ → ctx.Finalizes s₂.world s₂.db fin →
      Commits S s₂.world s₂.wal s₂.db label fin) :
    Committable S t label (fun response s => ∀ ictx ∈ ctx.idempotency,
      Answered S s.wal ictx response) response s := by
  refine committable_of_finalizes hs hlabel (show sess.log = [] ++ fin from hlog) noRecords_nil hfin
    fun s₂ hsince _ hfin₂ _ => ⟨hcommit s₂ hsince.onward hfin₂, ?_, ?_⟩
  · exact .of_quiet (hfin₂.onTable.ne (by decide)) (hfin₂.onTable.feedOf (by decide))
      (NoCursors.of_tables (hfin₂.onTable.ne (by decide))).drawn
  · rw [List.nil_append, hfin₂.onTable.feedOf (by decide)]
    exact fun r hr => absurd hr List.not_mem_nil

/-- **Patch.** It keeps the contract, is answered by what it has committed, and has met the
revision. -/
theorem serves_patchObject {cmd : PatchObjectCommit} (hs : s.session t = none)
    (hminted : ∀ ictx ∈ cmd.ctx.idempotency, Minted s.world ictx) :
    Serves S t (patchObject S.app.adapter cmd) (fun response s' =>
      (∀ ictx ∈ cmd.ctx.idempotency, Answered S s'.wal ictx response) ∧
        Matched S s.wal s'.wal cmd.id cmd.ifMatch) s := by
  refine serves_transaction hs fun s₁ hl hi hs₁ => ?_
  refine txp_seq (txp_requirePayload hs₁ ?_)
  refine txp_seq (txp_lockLiveObject hs₁ noObjects_nil
    fun current held sess₂ s₂ hr₂ hlock hlive hheld => ?_)
  -- what is held differs from the row in its metadata only
  obtain ⟨metadata, rfl⟩ : ∃ metadata, held = { current with metadata } :=
    ⟨_, Adapter.held_eq hheld⟩
  refine txp_seq (txp_checkIfMatchIn hr₂.session fun hmatch => ?_)
  replace hmatch : ∀ expected ∈ cmd.ifMatch, expected = current.revision := hmatch
  refine txp_seq (txp_seq (txp_require hr₂.session fun hroot =>
    txp_require hr₂.session fun hroot' => ?_))
  refine txp_seq (txp_ofExcept hr₂.session fun target htarget => ?_)
  split
  · refine txp_seq (txp_unchangedView hr₂.session fun view s₃ hr₃ => ?_)
    have hr := hr₂.trans hr₃
    have hlog : sess₂.log = [] := hr.log
    refine txp_finish hr₃.session hr₃.inv (hlog ▸ noRecords_nil)
      (fun ictx h => (hminted ictx h).mono (hl.world.trans hr.onward.later.world))
      fun response fin sess₄ s₄ hr₄ hfin => ?_
    have hon : Onward t s₂ s₄ := hr₃.onward.trans hr₄.onward
    refine .and (committable_of_noop hr₄.session (hr₄.label.trans hr.label)
      (by rw [hr₄.log, hlog, List.nil_append]) hfin fun s₅ hon₅ h => .unpatched cmd ?_ hmatch h)
      fun s₅ hl₅ => ?_
    · exact ((hon.trans hon₅).live hr₂.session hlock (by decide)).trans hlive
    · exact .of_live hr₂.inv hlive hmatch (hl.trans hr₂.onward.later) (hon.later.trans hl₅)
  next hchanged =>
  have hchanged : target.unchanged S.app.adapter { current with metadata } = false := by
    simpa using hchanged
  have hlog₂ : sess₂.log = [] := hr₂.log
  refine txp_seq (txp_checkDestination hr₂.session hr₂.inv (hlog₂ ▸ noObjects_nil)
    fun sess₃ s₃ hr₃ hdestination => ?_)
  refine txp_seq (txp_require hr₃.session fun _ => ?_)
  refine txp_seq (txp_require hr₃.session fun _ => ?_)
  refine txp_seq (txp_run hr₃.session fun s₄ scan ans hr₄ _ ha => ?_)
  have hlog₃ : sess₃.log = [] := (hr₂.trans hr₃).log
  simp only [updateLiveObject, statement, hlog₃, replay_nil] at ha
  have hon₂₄ : Onward t s₂ s₄ := hr₃.onward.trans hr₄.onward
  rw [hon₂₄.live hr₂.session hlock (by decide), hlive] at ha
  obtain rfl := Except.ok.inj ha
  refine txp_seq (txp_orFail hr₄.session fun revision hrevision => ?_)
  obtain rfl : current.revision + 1 = revision := Option.some.inj hrevision
  have hlog₄ : (sess₃.extend (_ : Answer (Option Revision))).log = [⟨.object cmd.id,
      some (target.row cmd.ctx.now current)⟩] := ((hr₂.trans hr₃).trans hr₄).log
  refine txp_seq (txp_recheckDestination hr₄.session hr₄.inv (fun db => ?_)
    fun sess₅ s₅ hr₅ hwalk => ?_)
  · rw [hlog₄, object_replay, written_cons_self]
    rfl
  refine txp_seq (txp_appendChanges hr₅.session (PatchTarget.pending_ne_nil hchanged)
    fun answer records sess₆ s₆ hr₆ hadv hnumbered => ?_)
  refine txp_seq (txp_renderedView hr₆.session fun view s₇ hr₇ => ?_)
  have hr := ((((hr₂.trans hr₃).trans hr₄).trans hr₅).trans hr₆).trans hr₇
  have hlog : sess₆.log = [⟨.object cmd.id, some (target.row cmd.ctx.now current)⟩] ++
      changeWrites records := by
    simpa using hr.log
  have hfront : NoRecords ([⟨.object cmd.id, some (target.row cmd.ctx.now current)⟩] ++
      changeWrites records) :=
    .append (OnTable.noRecords (onTable_objects [()] (fun _ => cmd.id) fun _ => some _)
      (by decide)) ((onTable_changeWrites records).noRecords (by decide))
  refine txp_finish hr₇.session hr₇.inv (hlog ▸ hfront)
    (fun ictx h => (hminted ictx h).mono (hl.world.trans hr.onward.later.world))
    fun response fin sess₈ s₈ hr₈ hfin => ?_
  have hon₂₈ : Onward t s₂ s₈ := ((((hr₃.onward.trans hr₄.onward).trans hr₅.onward).trans
    hr₆.onward).trans hr₇.onward).trans hr₈.onward
  refine .and (committable_of_finalizes hr₈.session (hr₈.label.trans hr.label)
    (by rw [hr₈.log, hlog]) hfront hfin fun s₉ hsince hi₉ hfin₉ _ => ?_)
    fun s₉ hl₉ => .of_live hr₂.inv hlive hmatch (hl.trans hr₂.onward.later) (hon₂₈.later.trans hl₉)
  -- what the locks have kept
  have hon₆ : Onward t s₆ s₉ := (hr₇.onward.trans hr₈.onward).trans hsince.onward
  have hon₅ : Onward t s₅ s₉ := hr₆.onward.trans hon₆
  have hon₃ : Onward t s₃ s₉ := (hr₄.onward.trans hr₅.onward).trans hon₅
  have hlive₉ : Db.live s₉.db cmd.id = some current :=
    ((hr₃.onward.trans hon₃).live hr₂.session hlock (by decide)).trans hlive
  obtain ⟨hnum, hbound⟩ := hnumbered s₉ hon₆
  have hfin' := hfin₉.onTable
  rw [hlog₄] at hwalk
  refine ⟨.patchObject cmd hlive₉ hheld hmatch (fun h => ⟨hroot h, hroot' h⟩) htarget hchanged (fun hmoved => ?_)
    (hwalk s₉ hon₅) hnum hfin₉, .of_single (hon₆.ordered hr₆.session hadv)
    (objectWrites_cons fun x => written_rest hfin' (by simp) (by simp)) (fun p hp _ => ?_)
    (.cons_object (.of_rest hfin')), ?_⟩
  · obtain ⟨d, folder, _, hd, hdlive, hkind, _⟩ := hdestination s₉ hon₃ hmoved
    exact ⟨d, folder, hd, hdlive, hkind⟩
  · cases hmoved : target.parentChanged current with
    | false =>
      have hsame : target.parent = current.parentId := by
        simpa [PatchTarget.parentChanged] using hmoved
      exact .inl ⟨current, hlive₉, hsame ▸ hp⟩
    | true =>
      obtain ⟨d, folder, sess', hd, _, _, hs', hmem⟩ := hdestination s₉ hon₃ hmoved
      obtain rfl : d = p := Option.some.inj (hd.symm.trans hp)
      exact .inr ⟨sess', _, hs', hmem, by decide⟩
  · have hfeed : feedOf ([⟨.object cmd.id, some (target.row cmd.ctx.now current)⟩] ++
        changeWrites records ++ fin) = records := feedOf_rest hfin'
    rw [hfeed]
    exact hbound

end AnyStore
