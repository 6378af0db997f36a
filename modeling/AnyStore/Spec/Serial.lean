import AnyStore.Lib.Forest
import AnyStore.Model.Services

/-!
# The serial store

What the store is for, without sessions, locks and snapshots: one command after
the other is carried out on the committed rows. `Commits` says which write set
each command may commit on the rows `db`, `Serial` which journals of committed
write sets arise in that way. That the store at READ COMMITTED, with any number
of transactions interleaved statement by statement, only ever produces serial
journals is proved in `AnyStore.Refinement`; the invariants of the following
modules are about serial journals alone.
-/

namespace AnyStore

open ReadCommitted

abbrev Write := ReadCommitted.Write Row.Val

/-- The committed write sets, oldest first, each with the command it carries out. -/
abbrev Journal := List (Label × List Write)

/-- What is fixed in a run: the application, the instant of the migration, the
requests that clients send, and a rule about the rows on which a labelled
statement runs. -/
structure Setting where
  app : AppState
  migratedAt : Time
  admits : Request → Prop := fun _ => True
  rule : Label → Db → Prop := fun _ _ => True

/-- The committed rows after a journal. -/
def Setting.rows (S : Setting) (wal : Journal) : Db := replayAll wal (initialDb S.migratedAt)

/-! ## The feed -/

/-- The Change records that a write set inserts. -/
def feedOf (ws : List Write) : List (Nat × ChangeRecord) := ws.filterMap fun
  | ⟨.change seq, some c⟩ => some (seq, c)
  | _ => none

/-- Every Change record that was ever committed, in commit order. -/
def feed (wal : Journal) : List (Nat × ChangeRecord) := wal.flatMap fun e => feedOf e.2

def changeWrites (records : List (Nat × ChangeRecord)) : List Write :=
  records.map fun r => ⟨.change r.1, some r.2⟩

/-- The records of a command: its pending Changes under increasing sequence
numbers that come after everything committed. -/
def Numbered (wal : Journal) (ctx : MutationContext) (pending : List PendingChange)
    (records : List (Nat × ChangeRecord)) : Prop :=
  ∃ seqs : List Nat, seqs.length = pending.length ∧
    records = List.zipWith (fun p seq => (seq, p.record ctx seq)) pending seqs ∧
    seqs.Pairwise (· < ·) ∧ ∀ seq ∈ seqs, 0 < seq ∧ ∀ r ∈ feed wal, r.1 < seq

/-! ## The tree -/

/-- `b` is the parent of `a`, dead or alive. -/
def Db.Parent (db : Db) (a b : ObjectId) : Prop :=
  ∃ o, db.object a = some o ∧ o.parentId = some b

def Db.LiveChild (db : Db) (a b : ObjectId) : Prop :=
  ∃ o, db.live a = some o ∧ o.parentId = some b

/-! ## Idempotency -/

/-- The owner token of the context was drawn for it. -/
def Minted (w : World) (ictx : IdempotencyContext) : Prop :=
  (ictx.ownerToken, some ⟨ictx.principalId, ictx.operation, ictx.key, ictx.requestHash⟩) ∈ w.ulids

def idempotencyWrite (ictx : IdempotencyContext) (r : Option IdempotencyRow) : Write :=
  ⟨.idempotency ictx.principalId ictx.operation ictx.key, r⟩

/-- The record that `ictx` holds. -/
def Held (w : World) (db : Db) (ictx : IdempotencyContext) (r : IdempotencyRow) : Prop :=
  Minted w ictx ∧ db.idempotency ictx.principalId ictx.operation ictx.key = some r ∧
    r.state = .inProgress ∧ r.ownerToken = some ictx.ownerToken

/-- The resource token of an owner: the creation time of its record, or the one
that it had seen when it took the lease over. -/
def Names (S : Setting) (ictx : IdempotencyContext) (r : IdempotencyRow) : Prop :=
  ictx.resourceToken = resourceToken r.createdAt ∨ ∃ req createdAt db r₀,
    S.rule (.steal req createdAt) db ∧ req.context.principalId = ictx.principalId ∧
    req.context.operation = ictx.operation ∧ req.context.key = ictx.key ∧
    db.idempotency ictx.principalId ictx.operation ictx.key = some r₀ ∧
    r₀.createdAt = r.createdAt ∧ ictx.resourceToken = resourceToken createdAt

/-- The attempt has owned a record. -/
def Owner (S : Setting) (w : World) (wal : Journal) (ictx : IdempotencyContext) : Prop :=
  ∃ wal₁ r, wal₁ <+: wal ∧ Held w (S.rows wal₁) ictx r ∧ r.requestHash = ictx.requestHash ∧
    Names S ictx r

/-- Where the id of an upload comes from: a client of the store, the idempotency
record of the attempt, or, where there is none, a fresh ULID. -/
inductive Origin (S : Setting) (w : World) (wal : Journal) (cmd : CreateUploadRecord) : Prop
  | client (hadmits : S.admits (.createUploadRecord cmd))
  | fresh (hattempt : cmd.attempt = none) (id : String) (hdrawn : (id, none) ∈ w.ulids)
      (hid : cmd.id = "upload_" ++ id)
  | derived (i : IdempotencyContext) (hattempt : cmd.attempt = some i) (howner : Owner S w wal i)
      (hid : cmd.id = derivedId S.app "upload_" i)

/-- What finalising the record of a command writes. -/
def Finalizes (w : World) (db : Db) (context : Option IdempotencyContext)
    (response : StoredResponse) (now expiresAt : Time) (fin : List Write) : Prop :=
  match context with
  | none => fin = []
  | some ictx => ∃ r, Held w db ictx r ∧ fin = [idempotencyWrite ictx
      (some (r.completed response (encodeHeaders response.headers) now expiresAt))]

def MutationContext.Finalizes (ctx : MutationContext) (w : World) (db : Db)
    (fin : List Write) : Prop :=
  ∃ response, AnyStore.Finalizes w db ctx.idempotency response ctx.now ctx.idempotencyExpiresAt fin

/-! ## Blobs -/

def UploadRow.blob (u : UploadRow) : String × String := (u.blobBackend, u.blobRef)

def BlobGcEntry.blob (e : BlobGcEntry) : String × String := (e.blobBackend, e.blobRef)

def gcWrite (blob : String × String) (g : Option GcRow) : Write := ⟨.gc blob.1 blob.2, g⟩

/-- Entries for blobs that had none. -/
def enqueues (blobs : List (String × String)) (notBefore : Time) : List Write :=
  blobs.map fun b => gcWrite b (some { notBefore })

/-! ## Pages -/

/-- The statements that built a page ran, in this order, somewhere between two
points of the journal. -/
def BuiltBetween (S : Setting) (wal₀ wal : Journal) (afterSeq limit : Nat) (built : BuiltPage) :
    Prop :=
  ∃ wal₁ wal₂ wal₃, wal₀ <+: wal₁ ∧ wal₁ <+: wal₂ ∧ wal₂ <+: wal₃ ∧ wal₃ <+: wal ∧
    built.snapshotMaxSeq = (S.rows wal₁).snapshotMaxSeq afterSeq ∧
    S.rule (.page afterSeq) (S.rows wal₂) ∧
    built.items = ((S.rows wal₂).changesBetween afterSeq built.snapshotMaxSeq).take limit ∧
    built.pageEndSeq = pageEnd built.items afterSeq ∧
    built.hasMore =
      decide ((S.rows wal₃).changesBetween built.pageEndSeq built.snapshotMaxSeq ≠ [])

/-! ## Commands -/

/-- The write sets that a command may commit on the rows `db` after the journal
`wal`, with `w` outside. -/
inductive Commits (S : Setting) (w : World) (wal : Journal) (db : Db) :
    Label → List Write → Prop
  | createObject (cmd : CreateObjectCommit) {parent : ObjectRow} {records fin}
      (hfresh : db.object cmd.id = none)
      (hparent : db.live cmd.parentId = some parent) (hfolder : parent.kind = .folder)
      (hrecords : Numbered wal cmd.ctx [.new cmd.id Revision.initial .created] records)
      (hfin : cmd.ctx.Finalizes w db fin) :
      Commits S w wal db (.createObject cmd)
        (⟨.object cmd.id, some cmd.row⟩ :: (changeWrites records ++ fin))
  | patchObject (cmd : PatchObjectCommit) {current held : ObjectRow} {target records fin}
      (hlive : db.live cmd.id = some current)
      (hheld : S.app.adapter.held current = some held)
      (hmatch : ∀ expected ∈ cmd.ifMatch, expected = current.revision)
      (hroot : cmd.id = rootId → cmd.newParentId = none ∧ cmd.newName = none)
      (htarget : patchTarget S.app.adapter cmd held = .ok target)
      (hchanged : target.unchanged S.app.adapter held = false)
      (hdestination : target.parentChanged current = true → ∃ d folder,
        target.parent = some d ∧ db.live d = some folder ∧ folder.kind = .folder)
      (hwalk : target.parentChanged current = true → current.kind = .folder →
        ∀ d ∈ target.parent, ¬ Relation.ReflTransGen
          (Db.Parent (replay [⟨.object cmd.id, some (target.row cmd.ctx.now current)⟩] db)) d cmd.id)
      (hrecords : Numbered wal cmd.ctx
        (target.pending S.app.adapter held cmd.id (current.revision + 1)) records)
      (hfin : cmd.ctx.Finalizes w db fin) :
      Commits S w wal db (.patchObject cmd)
        (⟨.object cmd.id, some (target.row cmd.ctx.now current)⟩ :: (changeWrites records ++ fin))
  | unpatched (cmd : PatchObjectCommit) {current : ObjectRow} {fin}
      (hlive : db.live cmd.id = some current)
      (hmatch : ∀ expected ∈ cmd.ifMatch, expected = current.revision)
      (hfin : cmd.ctx.Finalizes w db fin) :
      Commits S w wal db (.patchObject cmd) fin
  | deleteObject (cmd : DeleteObjectCommit) {current : ObjectRow} {targets rows records fin}
      (hlive : db.live cmd.id = some current)
      (hmatch : ∀ expected ∈ cmd.ifMatch, expected = current.revision)
      (hself : cmd.id ∈ targets) (hroot : rootId ∉ targets) (hnodup : targets.Nodup)
      (hclosed : ∀ c o p, db.live c = some o → o.parentId = some p → p ∈ targets → c ∈ targets)
      (hbelow : ∀ x ∈ targets, x = cmd.id ∨ ∃ p ∈ targets, db.LiveChild x p)
      -- deepest first
      (hordered : targets.Pairwise fun a b => ¬ db.LiveChild b a)
      (hrows : ∀ id o', (id, o') ∈ rows ↔
        id ∈ targets ∧ ∃ o, db.live id = some o ∧ o' = o.tombstone cmd.ctx.now)
      (hdistinct : (rows.map Prod.fst).Nodup)
      (hrecords : Numbered wal cmd.ctx (tombstones targets rows) records)
      (hfin : cmd.ctx.Finalizes w db fin) :
      Commits S w wal db (.deleteObject cmd)
        (rows.map (fun r => ⟨.object r.1, some r.2⟩) ++
          (enqueues (rows.filterMap fun r => r.2.blob) cmd.ctx.now ++
            (changeWrites records ++ fin)))
  | commitContent (cmd : CommitContent) {upload : UploadRow} {current : ObjectRow} {records fin}
      (hupload : db.upload cmd.uploadId = some upload)
      (hstate : upload.state = .ready ∨ upload.state = .completing)
      (htarget : upload.objectId = cmd.objectId)
      (hblob : upload.blob = (cmd.blobBackend, cmd.blobRef))
      (hlive : db.live cmd.objectId = some current) (hfile : current.kind = .file)
      (hmatch : ∀ expected ∈ cmd.ifMatch, expected = current.revision)
      (hrecords : Numbered wal cmd.ctx
        [.new cmd.objectId (current.revision + 1) (contentAction current)] records)
      (hfin : cmd.ctx.Finalizes w db fin) :
      Commits S w wal db (.commitContent cmd)
        (⟨.object cmd.objectId, some (cmd.row current)⟩ ::
          (enqueues (supersededBlob current cmd).toList cmd.gcNotBefore ++
            (⟨.upload cmd.uploadId, some (cmd.uploadRow upload)⟩ :: (changeWrites records ++ fin))))
  | uncommitted (cmd : CommitContent) {upload : UploadRow} {current : ObjectRow} {fin}
      (hupload : db.upload cmd.uploadId = some upload) (hstate : upload.state = .completed)
      (htarget : upload.objectId = cmd.objectId)
      (hblob : upload.blob = (cmd.blobBackend, cmd.blobRef))
      (hlive : db.live cmd.objectId = some current) (hfile : current.kind = .file)
      (hmatch : ∀ expected ∈ cmd.ifMatch, expected = current.revision)
      (hfin : cmd.ctx.Finalizes w db fin) :
      Commits S w wal db (.commitContent cmd) fin
  | createUploadRecord (cmd : CreateUploadRecord) (hfresh : db.upload cmd.id = none)
      (horigin : Origin S w wal cmd) :
      Commits S w wal db (.createUploadRecord cmd) [⟨.upload cmd.id, some cmd.row⟩]
  | updateUploadState (cmd : UpdateUploadState) {u : UploadRow}
      (hupload : db.upload cmd.id = some u) (hallows : cmd.allows u = true)
      (hrule : S.rule (.updateUploadState cmd) db)
      (horigin : S.admits (.updateUploadState cmd) ∨
        ∀ id ∈ cmd.providerUploadId, id ∈ w.multipart.map (·.id)) :
      Commits S w wal db (.updateUploadState cmd) [⟨.upload cmd.id, some (cmd.row u)⟩]
  | abortUploadRecord (cmd : AbortUploadRecord) {u : UploadRow} {gcs}
      (hupload : db.upload cmd.id = some u) (hstate : u.state ≠ .completed)
      (hgc : gcs = enqueues [u.blob] cmd.gcNotBefore ∨ gcs = [] ∧ u.state.isTerminal = true) :
      Commits S w wal db (.abortUploadRecord cmd)
        (⟨.upload cmd.id, some (cmd.row u)⟩ :: gcs)
  | claimGcBatch (now : Time) (limit : Nat) {entries : List ((String × String) × GcRow)}
      (hentries : ∀ e ∈ entries, (db.gc e.1.1 e.1.2).isSome) :
      Commits S w wal db (.claimGcBatch now limit) (entries.map fun e => gcWrite e.1 (some e.2))
  | finishGc (entry : BlobGcEntry) (hdeleted : entry.blob ∈ w.deleted) :
      Commits S w wal db (.finishGc entry) [gcWrite entry.blob none]
  | failGc (entry : BlobGcEntry) (error : String) (retryAt : Time) {g g' : GcRow}
      (hentry : db.gc entry.blobBackend entry.blobRef = some g) :
      Commits S w wal db (.failGc entry error retryAt)
        [gcWrite entry.blob (some g')]
  | claimExpiredUploads (now : Time) (limit : Nat) {uploads : List (UploadId × UploadRow)}
      (huploads : ∀ e ∈ uploads, db.upload e.1 = some e.2 ∧ e.2.expires now = true)
      (hdistinct : (uploads.map Prod.fst).Nodup) :
      Commits S w wal db (.claimExpiredUploads now limit)
        (uploads.map (fun e => ⟨.upload e.1, some e.2.expired⟩) ++
          enqueues (uploads.map fun e => e.2.blob) now)
  | claim (req : IdempotencyAcquire) (hminted : Minted w req.context)
      (hfresh : db.idempotency req.context.principalId req.context.operation req.context.key = none) :
      Commits S w wal db (.acquire req) [idempotencyWrite req.context (some req.row)]
  | steal (req : IdempotencyAcquire) {label : Label} {createdAt : Time} {r : IdempotencyRow}
      (hlabel : label = .acquire req ∨ label = .steal req createdAt)
      (hminted : Minted w req.context)
      (hrecord : db.idempotency req.context.principalId req.context.operation req.context.key = some r)
      (hstate : r.state = .inProgress) :
      Commits S w wal db label [idempotencyWrite req.context (some (r.stolen req))]
  | complete (req : IdempotencyComplete) {fin}
      (hfin : Finalizes w db (some req.context) req.response req.now req.expiresAt fin) :
      Commits S w wal db (.complete req) fin
  | release (ictx : IdempotencyContext) {r : IdempotencyRow} (hheld : Held w db ictx r) :
      Commits S w wal db (.release ictx) [idempotencyWrite ictx none]
  | firstRead (req : ReadChanges) {next : CursorId} {row : CursorRow}
      (hfresh : db.cursor next = none) (hrow : row.materialized = false) :
      Commits S w wal db (.readChanges req) [⟨.cursor next, some row⟩]
  | nextRead (req : ReadChanges) {cursor next : CursorId} {c row : CursorRow} {built : BuiltPage}
      {wal₀ : Journal} (hcursor : db.cursor cursor = some c) (hc : c.materialized = false)
      (hfresh : db.cursor next = none) (hrow : row.materialized = false)
      (hend : row.afterSeq = built.pageEndSeq) (hissued : (S.rows wal₀).cursor cursor = some c)
      (hbuilt : BuiltBetween S wal₀ wal c.afterSeq req.limit built) :
      Commits S w wal db (.readChanges req)
        [⟨.cursor next, some row⟩, ⟨.cursor cursor, some (c.materialize req.limit built next)⟩]
  | purgeChanges (olderThan : Time) {wal₀ : Journal} {seqs : List Nat} {watermark : Nat}
      (hne : seqs ≠ []) (hwal : wal₀ <+: wal)
      (hrule : S.rule (.purgeChanges olderThan) (S.rows wal₀))
      -- what the snapshot of the deletion shows as due is deleted, if not by this command
      (hdue : ∀ seq c, (S.rows wal₀).change seq = some c → c.changedAt < olderThan →
        seq ∈ seqs ∨ db.change seq = none)
      (hrows : ∀ seq ∈ seqs, ∃ c, (S.rows wal₀).change seq = some c ∧ db.change seq = some c ∧
        c.changedAt < olderThan)
      (hwatermark : db.purgedThrough = some watermark) :
      Commits S w wal db (.purgeChanges olderThan)
        (seqs.map (fun seq => ⟨.change seq, none⟩) ++
          [⟨.retention, some (max watermark (seqs.max?.getD 0))⟩])
  | purgeIdempotencyRecords (now : Time) {keys : List (PrincipalId × String × IdempotencyKey)} :
      Commits S w wal db (.purgeIdempotencyRecords now)
        (keys.map fun k => ⟨.idempotency k.1 k.2.1 k.2.2, none⟩)
  | purgeChangeCursors (now : Time) {ids : List CursorId} :
      Commits S w wal db (.purgeChangeCursors now) (ids.map fun id => ⟨.cursor id, none⟩)

/-- A journal in which every write set is one that its command may commit after
those before it. -/
inductive Serial (S : Setting) (w : World) : Journal → Prop
  | nil : Serial S w []
  | snoc {wal : Journal} {label : Label} {ws : List Write} : Serial S w wal →
      Commits S w wal (S.rows wal) label ws → Serial S w (wal ++ [(label, ws)])

theorem Setting.rows_nil (S : Setting) : S.rows [] = initialDb S.migratedAt := rfl

theorem Setting.rows_snoc (S : Setting) (wal : Journal) (label : Label) (ws : List Write) :
    S.rows (wal ++ [(label, ws)]) = replay ws (S.rows wal) :=
  replayAll_concat ..

/-- A prefix of a serial journal is one. -/
theorem Serial.of_prefix {S : Setting} {w : World} {wal wal' : Journal} (h : Serial S w wal') (hp : wal <+: wal') :
    Serial S w wal := by
  induction h with
  | nil => exact List.prefix_nil.mp hp ▸ .nil
  | snoc h hc ih =>
    rcases List.prefix_concat_iff.mp hp with rfl | hp
    · exact .snoc h hc
    · exact ih hp

end AnyStore
