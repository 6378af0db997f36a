import AnyStore.Spec.Writes

/-!
# Idempotency records

The life of one record: claimed, perhaps stolen, then completed by its owner or
released. `RecordStep` is one commit seen by one record, and `Owned` says that
the owner token of a claimed record was drawn for the request hash it holds. A
completed record stays until a purge removes it (`Serial.record_completed`).
-/

namespace AnyStore

open ReadCommitted

variable {S : Setting} {w : World} {wal : Journal} {db db' : Db} {label : Label}

/-- The primary key of `idempotency_records`. -/
abbrev RecordKey := PrincipalId × String × IdempotencyKey

def IdempotencyContext.recordKey (ictx : IdempotencyContext) : RecordKey :=
  (ictx.principalId, ictx.operation, ictx.key)

def Db.record (db : Db) (key : RecordKey) : Option IdempotencyRow :=
  db.idempotency key.1 key.2.1 key.2.2

def RecordKey.row (key : RecordKey) : Row := .idempotency key.1 key.2.1 key.2.2

/-- The owner token of the record was drawn for its request hash. -/
def Owned (w : World) (key : RecordKey) (r : IdempotencyRow) : Prop :=
  ∃ token, r.ownerToken = some token ∧ (token, some ⟨key.1, key.2.1, key.2.2, r.requestHash⟩) ∈ w.ulids

/-- The journal entry is a purge that takes this record. -/
def Purges (key : RecordKey) (e : Label × List Write) : Prop :=
  (∃ now, e.1 = .purgeIdempotencyRecords now) ∧ written e.2 key.row ≠ none

/-- The attempt whose record a command finalises. -/
def Label.finalizer : Label → Option IdempotencyContext
  | .createObject cmd => cmd.ctx.idempotency
  | .patchObject cmd => cmd.ctx.idempotency
  | .deleteObject cmd => cmd.ctx.idempotency
  | .commitContent cmd => cmd.ctx.idempotency
  | .complete req => some req.context
  | _ => none

/-- One commit as a record sees it. -/
inductive RecordStep (w : World) (e : Label × List Write) (key : RecordKey) :
    Option IdempotencyRow → Option IdempotencyRow → Prop
  | same (r) : RecordStep w e key r r
  | claimed {r} (hstate : r.state = .inProgress) (howned : Owned w key r) :
      RecordStep w e key none (some r)
  | stolen {r r'} (hstate : r.state = .inProgress) (hstate' : r'.state = .inProgress)
      (hcreated : r'.createdAt = r.createdAt) (howned : Owned w key r') :
      RecordStep w e key (some r) (some r')
  | completed {r} {ictx : IdempotencyContext} (hfinalizer : e.1.finalizer = some ictx)
      (hkey : ictx.recordKey = key) (hminted : Minted w ictx) (hstate : r.state = .inProgress)
      (howner : r.ownerToken = some ictx.ownerToken) (response : StoredResponse)
      (now expiresAt : Time) :
      RecordStep w e key (some r)
        (some (r.completed response (encodeHeaders response.headers) now expiresAt))
  | released {r} (hstate : r.state = .inProgress) : RecordStep w e key (some r) none
  | purged {r} (hpurges : Purges key e) : RecordStep w e key r none

theorem record_replay (ws : List Write) (db : Db) (key : RecordKey) :
    Db.record (replay ws db) key = (written ws key.row).getD (db.record key) :=
  lookup_replay ws db _

theorem written_idempotencyWrite (ictx : IdempotencyContext) (r : Option IdempotencyRow)
    (key : RecordKey) : written [idempotencyWrite ictx r] key.row =
      if ictx.recordKey = key then some r else none := by
  split
  · next hk =>
    subst hk
    rw [idempotencyWrite]
    exact (written_cons_self _ _ _).trans rfl
  · next hk =>
    have hne : Row.idempotency ictx.principalId ictx.operation ictx.key ≠ key.row := by
      intro he
      obtain ⟨h₁, h₂, h₃⟩ := Row.idempotency.inj he
      exact hk (Prod.ext h₁ (Prod.ext h₂ h₃))
    exact (written_cons_ne hne _ _).trans rfl

/-- A record that is not written. -/
theorem RecordStep.of_written {ws : List Write} {key : RecordKey}
    (h : written ws key.row = none) :
    RecordStep w (label, ws) key (db.record key) (Db.record (replay ws db) key) := by
  rw [record_replay, h]
  exact .same _

theorem Minted.owned {ictx : IdempotencyContext} (h : Minted w ictx) {r : IdempotencyRow}
    (howner : r.ownerToken = some ictx.ownerToken) (hhash : r.requestHash = ictx.requestHash) :
    Owned w ictx.recordKey r :=
  ⟨ictx.ownerToken, howner, by rw [hhash]; exact h⟩

/-- Finalising a command. -/
theorem RecordStep.of_finalizes {context : Option IdempotencyContext}
    {response : StoredResponse} {now expiresAt : Time} {ws fin : List Write}
    (hfin : Finalizes w db context response now expiresAt fin)
    (hlabel : label.finalizer = context) {key : RecordKey}
    (hws : written ws key.row = written fin key.row) :
    RecordStep w (label, ws) key (db.record key) (Db.record (replay ws db) key) := by
  rw [record_replay, hws]
  cases context with
  | none =>
    rw [Finalizes] at hfin
    subst hfin
    exact .same _
  | some ictx =>
    obtain ⟨r, ⟨hminted, hr, hstate, howner⟩, rfl⟩ := hfin
    rw [written_idempotencyWrite]
    split
    · next hk =>
      subst hk
      have hr' : db.record ictx.recordKey = some r := hr
      rw [hr']
      exact .completed hlabel rfl hminted hstate howner response now expiresAt
    · exact .same _

theorem RecordKey.table (key : RecordKey) : key.row.table = .idempotency := rfl

/-- A write set without idempotency records. -/
theorem written_record_of_ne {ws : List Write} (h : ∀ w ∈ ws, w.1.table ≠ .idempotency)
    (key : RecordKey) : written ws key.row = none := by
  rw [written_eq_none_iff, List.mem_map]
  rintro ⟨w, hw, he⟩
  exact h w hw (by rw [he]; rfl)

/-- The idempotency record is all that the rest of a mutation writes. -/
theorem written_record_rest {front fin : List Write} {records : List (Nat × ChangeRecord)}
    (hfront : ∀ w ∈ front, w.1.table ≠ .idempotency) (key : RecordKey) :
    written (front ++ (changeWrites records ++ fin)) key.row = written fin key.row := by
  rw [written_append, written_append, written_record_of_ne hfront,
    (onTable_changeWrites records).written (show key.row.table ≠ .changes by rw [RecordKey.table]; decide),
    Option.or_none, Option.or_none]

/-- **Step.** -/
theorem Commits.recordStep {ws : List Write} (h : Commits S w wal db label ws) (key : RecordKey) :
    RecordStep w (label, ws) key (db.record key) (Db.record (replay ws db) key) := by
  have hne : ∀ {T : Table} {ws : List Write}, OnTable T ws → T ≠ .idempotency →
      ∀ w ∈ ws, w.1.table ≠ .idempotency := fun h hT => h.ne hT
  have hother : ∀ {T : Table} {label : Label} {ws : List Write}, OnTable T ws → T ≠ .idempotency →
      RecordStep w (label, ws) key (db.record key) (Db.record (replay ws db) key) :=
    fun h hT => .of_written (written_record_of_ne (hne h hT) key)
  have hone : ∀ id o, ∀ w ∈ ([⟨.object id, some o⟩] : List Write), w.1.table ≠ .idempotency := by
    simp
  cases h with
  | createObject cmd hfresh hparent hfolder hrecords hfin =>
    obtain ⟨response, hfin⟩ := hfin
    exact .of_finalizes hfin rfl (written_record_rest (hone _ _) key)
  | patchObject cmd hlive hheld hmatch hroot htarget hchanged hdestination hwalk hrecords hfin =>
    obtain ⟨response, hfin⟩ := hfin
    exact .of_finalizes hfin rfl (written_record_rest (hone _ _) key)
  | @deleteObject cmd current targets rows records fin hlive hmatch hself hroot hnodup hclosed
      hbelow hordered hrows hdistinct hrecords hfin =>
    obtain ⟨response, hfin⟩ := hfin
    rw [← List.append_assoc]
    exact .of_finalizes hfin rfl (written_record_rest (List.forall_mem_append.mpr
      ⟨hne (onTable_objects _ _ _) (by decide), hne (onTable_enqueues _ _) (by decide)⟩) key)
  | @commitContent cmd upload current records fin hupload hstate htarget hblob hlive hfile
      hmatch hrecords hfin =>
    obtain ⟨response, hfin⟩ := hfin
    have hfront : ∀ w ∈ (⟨.object cmd.objectId, some (cmd.row current)⟩ ::
        (enqueues (supersededBlob current cmd).toList cmd.gcNotBefore ++
          [⟨.upload cmd.uploadId, some (cmd.uploadRow upload)⟩]) : List Write),
        w.1.table ≠ .idempotency :=
      List.forall_mem_cons.mpr ⟨by simp, List.forall_mem_append.mpr
        ⟨hne (onTable_enqueues _ _) (by decide), by simp⟩⟩
    have hrest : written (_ ++ (changeWrites records ++ fin)) key.row = written fin key.row :=
      written_record_rest hfront key
    rw [List.cons_append, List.append_assoc] at hrest
    exact .of_finalizes hfin rfl hrest
  | unpatched cmd _ _ hfin | uncommitted cmd _ _ _ _ _ _ _ hfin =>
    obtain ⟨response, hfin⟩ := hfin
    exact .of_finalizes hfin rfl rfl
  | complete req hfin => exact .of_finalizes hfin rfl rfl
  | createUploadRecord | updateUploadState | finishGc | failGc =>
    exact .of_written (written_record_of_ne (by simp [gcWrite]) key)
  | abortUploadRecord cmd hupload hstate hgc =>
    refine .of_written (written_record_of_ne (List.forall_mem_cons.mpr ⟨by simp, ?_⟩) key)
    rcases hgc with rfl | ⟨rfl, _⟩
    · exact hne (onTable_enqueues _ _) (by decide)
    · simp
  | @claimGcBatch now limit entries hentries =>
    exact hother (OnTable.map entries (fun e => .gc e.1.1 e.1.2) (fun e => some e.2) fun _ => rfl)
      (by decide)
  | @claimExpiredUploads now limit uploads huploads hdistinct =>
    have hup := OnTable.map uploads (fun e => .upload e.1) (fun e => some e.2.expired) fun _ => rfl
    exact .of_written (written_record_of_ne (List.forall_mem_append.mpr
      ⟨hne hup (by decide), hne (onTable_enqueues _ _) (by decide)⟩) key)
  | claim req hminted hfresh =>
    rw [record_replay, written_idempotencyWrite]
    split
    · next hk =>
      subst hk
      have hr : db.record req.context.recordKey = none := hfresh
      rw [hr]
      exact .claimed rfl (hminted.owned rfl rfl)
    · exact .same _
  | @steal req label createdAt r hlabel hminted hrecord hstate =>
    rw [record_replay, written_idempotencyWrite]
    split
    · next hk =>
      subst hk
      have hr : db.record req.context.recordKey = some r := hrecord
      rw [hr]
      exact .stolen hstate hstate rfl (hminted.owned rfl rfl)
    · exact .same _
  | @release ictx r hheld =>
    obtain ⟨_, hrecord, hstate, _⟩ := hheld
    rw [record_replay, written_idempotencyWrite]
    split
    · next hk =>
      subst hk
      have hr : db.record ictx.recordKey = some r := hrecord
      rw [hr]
      exact .released hstate
    · exact .same _
  | @firstRead req next row =>
    exact hother (onTable_cursors [(next, row)] Prod.fst fun e => some e.2) (by decide)
  | @nextRead req cursor next c row built =>
    exact hother (onTable_cursors [(next, row), (cursor, c.materialize req.limit built next)]
      Prod.fst fun e => some e.2) (by decide)
  | purgeChanges olderThan =>
    exact .of_written (written_record_of_ne (purge_table_ne (by decide) (by decide)) key)
  | @purgeIdempotencyRecords now keys =>
    rw [record_replay]
    cases hw : written (keys.map fun k =>
        (⟨.idempotency k.1 k.2.1 k.2.2, none⟩ : Write)) key.row with
    | none => exact .same _
    | some r =>
      obtain ⟨k, _, he⟩ := List.mem_map.mp (mem_of_written hw)
      have hnone := congrArg (fun w : Write => w.2.isSome) he
      obtain rfl : r = none := by
        cases r with
        | none => rfl
        | some r => cases hnone
      exact .purged ⟨⟨now, rfl⟩, by rw [hw]; simp⟩
  | @purgeChangeCursors now ids =>
    exact hother (onTable_cursors ids (fun id => id) fun _ => none) (by decide)

/-- A command that finalises a record holds it, and completes it. -/
theorem Commits.finalizes {ws : List Write} (h : Commits S w wal db label ws)
    {ictx : IdempotencyContext} (hf : label.finalizer = some ictx) :
    ∃ r response now expiresAt, Held w db ictx r ∧
      Db.record (replay ws db) ictx.recordKey =
        some (r.completed response (encodeHeaders response.headers) now expiresAt) := by
  have hrest : ∀ (front : List Write) {fin : List Write} (records) {response now expiresAt},
      (∀ w ∈ front, w.1.table ≠ .idempotency) →
      Finalizes w db (some ictx) response now expiresAt fin →
      ∃ r response now expiresAt, Held w db ictx r ∧
        Db.record (replay (front ++ (changeWrites records ++ fin)) db) ictx.recordKey =
          some (r.completed response (encodeHeaders response.headers) now expiresAt) := by
    intro front fin records response now expiresAt hfront hfin
    obtain ⟨r, hheld, rfl⟩ := hfin
    refine ⟨r, response, now, expiresAt, hheld, ?_⟩
    rw [record_replay, written_record_rest hfront, written_idempotencyWrite, if_pos rfl]
    rfl
  have hctx : ∀ {ctx : MutationContext} (front : List Write) {fin : List Write} (records),
      ctx.idempotency = some ictx → (∀ w ∈ front, w.1.table ≠ .idempotency) →
      ctx.Finalizes w db fin → ∃ r response now expiresAt, Held w db ictx r ∧
        Db.record (replay (front ++ (changeWrites records ++ fin)) db) ictx.recordKey =
          some (r.completed response (encodeHeaders response.headers) now expiresAt) := by
    intro ctx front fin records hctx hfront hfin
    obtain ⟨response, hfin⟩ := hfin
    exact hrest front records hfront (hctx ▸ hfin)
  cases h with
  | createObject cmd hfresh hparent hfolder hrecords hfin =>
    exact hctx [_] _ hf (by simp) hfin
  | patchObject cmd hlive hheld hmatch hroot htarget hchanged hdestination hwalk hrecords hfin =>
    exact hctx [_] _ hf (by simp) hfin
  | @deleteObject cmd current targets rows records fin hlive hmatch hself hroot hnodup hclosed
      hbelow hordered hrows hdistinct hrecords hfin =>
    rw [← List.append_assoc]
    exact hctx _ _ hf (List.forall_mem_append.mpr ⟨(onTable_objects _ _ _).ne (by decide),
      (onTable_enqueues _ _).ne (by decide)⟩) hfin
  | @commitContent cmd upload current records fin hupload hstate htarget hblob hlive hfile
      hmatch hrecords hfin =>
    have hfront : ∀ w ∈ (⟨.object cmd.objectId, some (cmd.row current)⟩ ::
        (enqueues (supersededBlob current cmd).toList cmd.gcNotBefore ++
          [⟨.upload cmd.uploadId, some (cmd.uploadRow upload)⟩]) : List Write),
        w.1.table ≠ .idempotency :=
      List.forall_mem_cons.mpr ⟨by simp, List.forall_mem_append.mpr
        ⟨(onTable_enqueues _ _).ne (by decide), by simp⟩⟩
    have h := hctx _ records hf hfront hfin
    rw [List.cons_append, List.append_assoc] at h
    exact h
  | unpatched cmd _ _ hfin => exact hctx [] [] hf (by simp) hfin
  | uncommitted cmd _ _ _ _ _ _ _ hfin => exact hctx [] [] hf (by simp) hfin
  | complete req hfin =>
    obtain rfl := Option.some.inj hf
    exact hrest [] [] (by simp) hfin
  | steal req hlabel => rcases hlabel with rfl | rfl <;> cases hf
  | _ => cases hf

/-! ## Runs -/

/-- Every claimed record has an owner token that was drawn for it. -/
theorem Serial.owned (h : Serial S w wal) {key : RecordKey} {r : IdempotencyRow}
    (hr : (S.rows wal).record key = some r) (hstate : r.state = .inProgress) : Owned w key r := by
  induction h generalizing r with
  | nil =>
    rw [Setting.rows_nil, Db.record, Db.idempotency, lookup_initialDb _ (by simp) (by simp)] at hr
    cases hr
  | @snoc wal label ws _ hc ih =>
    have hstep := hc.recordStep key
    rw [← Setting.rows_snoc S wal label ws, hr] at hstep
    generalize hold : (S.rows wal).record key = old at hstep
    cases hstep with
    | same => exact ih hold hstate
    | claimed _ howned => exact howned
    | stolen _ _ _ howned => exact howned
    | completed => cases hstate

/-- The record is completed. -/
def Completed (S : Setting) (wal : Journal) (key : RecordKey) (r : IdempotencyRow) : Prop :=
  (S.rows wal).record key = some r ∧ r.state = .completed

/-- No purge in the journal takes the record. -/
def Unpurged (key : RecordKey) (wal : Journal) : Prop := ∀ e ∈ wal, ¬ Purges key e

/-- A completed record is final. -/
theorem Completed.snoc {ws : List Write} {key : RecordKey} {r : IdempotencyRow}
    (h : Completed S wal key r) (hc : Commits S w wal (S.rows wal) label ws)
    (hpurge : ¬ Purges key (label, ws)) :
    Completed S (wal ++ [(label, ws)]) key r := by
  obtain ⟨hr, hstate⟩ := h
  have hstep := hc.recordStep key
  rw [hr] at hstep
  rw [Completed, Setting.rows_snoc]
  generalize Db.record (replay ws (S.rows wal)) key = new at hstep
  cases hstep with
  | same => exact ⟨rfl, hstate⟩
  | stolen hs => rw [hstate] at hs; cases hs
  | completed _ _ _ hs => rw [hstate] at hs; cases hs
  | released hs => rw [hstate] at hs; cases hs
  | purged hpurges => exact absurd hpurges hpurge

/-- **Run.** A completed record stays as it is. -/
theorem Completed.mono {wal' : Journal} {key : RecordKey} {r : IdempotencyRow}
    (h : Completed S wal key r) (hserial : Serial S w wal') (hp : wal <+: wal')
    (hpurge : Unpurged key wal') : Completed S wal' key r := by
  induction hserial with
  | nil => exact List.prefix_nil.mp hp ▸ h
  | snoc _ hc ih =>
    rcases List.prefix_concat_iff.mp hp with rfl | hp
    · exact h
    · have hpurge' : Unpurged key _ := fun e he => hpurge e (List.mem_append_left _ he)
      exact (ih hp hpurge').snoc hc
        (hpurge _ (List.mem_append_right _ (List.mem_singleton_self _)))

/-! ## Finalising once -/

/-- A token was drawn for one use. -/
theorem World.use_unique {w : World} (h : (w.ulids.map Prod.fst).Nodup) {token : String}
    {use use' : Option TokenUse} (hu : (token, use) ∈ w.ulids) (hu' : (token, use') ∈ w.ulids) :
    use = use' := by
  have := List.inj_on_of_nodup_map h hu hu' rfl
  exact (Prod.ext_iff.mp this).2

/-- The record that an attempt holds has its request hash. -/
theorem Serial.held_hash (h : Serial S w wal) (hw : (w.ulids.map Prod.fst).Nodup)
    {ictx : IdempotencyContext} {r : IdempotencyRow} (hheld : Held w (S.rows wal) ictx r) :
    r.requestHash = ictx.requestHash := by
  obtain ⟨hminted, hr, hstate, howner⟩ := hheld
  have hr' : (S.rows wal).record ictx.recordKey = some r := hr
  obtain ⟨token, htoken, huse⟩ := h.owned hr' hstate
  obtain rfl : ictx.ownerToken = token := Option.some.inj (howner.symm.trans htoken)
  exact congrArg TokenUse.requestHash (Option.some.inj (World.use_unique hw huse hminted))

/-- The entry finalises the record for a request hash. -/
def Finishes (key : RecordKey) (hash : String) (e : Label × List Write) : Prop :=
  ∃ ictx, e.1.finalizer = some ictx ∧ ictx.recordKey = key ∧ ictx.requestHash = hash

/-- What a finalising entry leaves behind, and what it found. -/
theorem Serial.finishes {ws : List Write} {key : RecordKey} {hash : String}
    (h : Serial S w wal) (hw : (w.ulids.map Prod.fst).Nodup)
    (hc : Commits S w wal (S.rows wal) label ws) (hf : Finishes key hash (label, ws)) :
    (∀ r, ¬ Completed S wal key r) ∧
      ∃ r, Completed S (wal ++ [(label, ws)]) key r ∧ r.requestHash = hash := by
  obtain ⟨ictx, hfinal, rfl, rfl⟩ := hf
  obtain ⟨r, response, now, expiresAt, hheld, hrow⟩ := hc.finalizes hfinal
  have hhash := h.held_hash hw hheld
  obtain ⟨_, hr, hstate, _⟩ := hheld
  refine ⟨fun r' ⟨hr', hstate'⟩ => ?_, r.completed response (encodeHeaders response.headers) now
    expiresAt, ⟨?_, rfl⟩, hhash⟩
  · obtain rfl : r = r' := Option.some.inj (Eq.trans hr.symm hr')
    rw [hstate] at hstate'
    cases hstate'
  · rw [Setting.rows_snoc]
    exact hrow

theorem Unpurged.of_prefix {wal' : Journal} {key : RecordKey} (h : Unpurged key wal')
    (hp : wal <+: wal') : Unpurged key wal := fun e he => h e (hp.subset he)

/-- **Run.** A record that an entry finalised is completed. -/
theorem Serial.finished (h : Serial S w wal) (hw : (w.ulids.map Prod.fst).Nodup)
    {key : RecordKey} {hash : String} (hpurge : Unpurged key wal) {e : Label × List Write}
    (he : e ∈ wal) (hf : Finishes key hash e) :
    ∃ r, Completed S wal key r ∧ r.requestHash = hash := by
  induction h with
  | nil => exact absurd he List.not_mem_nil
  | snoc h hc ih =>
    rcases List.mem_append.mp he with he | he
    · obtain ⟨r, hr, hhash⟩ := ih (hpurge.of_prefix (List.prefix_append ..)) he
      exact ⟨r, hr.snoc hc (hpurge _ (List.mem_append_right _ (List.mem_singleton_self _))), hhash⟩
    · obtain rfl := List.mem_singleton.mp he
      exact (h.finishes hw hc hf).2

/-- **Run.** At most one entry finalises a record. -/
theorem Serial.finishes_once (h : Serial S w wal) (hw : (w.ulids.map Prod.fst).Nodup)
    {key : RecordKey} (hpurge : Unpurged key wal) :
    wal.Pairwise fun e e' => ∀ hash hash', Finishes key hash e → ¬ Finishes key hash' e' := by
  induction h with
  | nil => exact .nil
  | snoc h hc ih =>
    have hpurge' := hpurge.of_prefix (List.prefix_append ..)
    refine List.pairwise_append.mpr ⟨ih hpurge', List.pairwise_singleton .., ?_⟩
    intro e he e' he' hash hash' hf hf'
    obtain rfl := List.mem_singleton.mp he'
    obtain ⟨r, hr, _⟩ := h.finished hw hpurge' he hf
    exact (h.finishes hw hc hf').1 r hr

/-- **Run.** A completed record was finalised by an entry. -/
theorem Serial.finishes_of_completed (h : Serial S w wal) (hw : (w.ulids.map Prod.fst).Nodup)
    {key : RecordKey} {r : IdempotencyRow} (hr : Completed S wal key r) :
    ∃ e ∈ wal, Finishes key r.requestHash e := by
  induction h generalizing r with
  | nil =>
    obtain ⟨hr, _⟩ := hr
    rw [Setting.rows_nil, Db.record, Db.idempotency, lookup_initialDb _ (by simp) (by simp)] at hr
    cases hr
  | @snoc wal label ws h hc ih =>
    obtain ⟨hr, hstate⟩ := hr
    have hstep := hc.recordStep key
    rw [← Setting.rows_snoc S wal label ws, hr] at hstep
    generalize hold : (S.rows wal).record key = old at hstep
    cases hstep with
    | same =>
      obtain ⟨e, he, hf⟩ := ih ⟨hold, hstate⟩
      exact ⟨e, List.mem_append_left _ he, hf⟩
    | claimed hs => rw [hstate] at hs; cases hs
    | stolen _ hs => rw [hstate] at hs; cases hs
    | @completed r ictx hfinalizer hkey hminted hs howner =>
      refine ⟨_, List.mem_append_right _ (List.mem_singleton_self _), ictx, hfinalizer, hkey, ?_⟩
      subst hkey
      exact (h.held_hash hw ⟨hminted, hold, hs, howner⟩).symm

end AnyStore
