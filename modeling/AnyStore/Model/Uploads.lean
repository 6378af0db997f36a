import AnyStore.Model.Objects

/-!
# Upload records and maintenance

`uploads.rs` and `maintenance.rs` of the SQL stores. A statement that claims or
deletes a set of rows finds them in its snapshot and then takes them one after
the other: a row that another session has locked is skipped or waited for, and
the condition is checked again on the row as it is by then.
-/

namespace AnyStore

open ReadCommitted

/-! ## Upload records -/

def CreateUploadRecord.row (cmd : CreateUploadRecord) : UploadRow where
  objectId := cmd.objectId
  state := .initiating
  mode := cmd.mode
  blobBackend := cmd.blobBackend
  blobRef := cmd.blobRef
  expectedSize := cmd.expectedSize
  contentType := cmd.contentType
  expectedSha256 := cmd.expectedSha256
  createdAt := cmd.createdAt
  expiresAt := cmd.expiresAt

/-- `INSERT INTO uploads … ON CONFLICT (id) DO NOTHING`. -/
def insertUpload (cmd : CreateUploadRecord) : Stmt Bool :=
  statement .other fun db =>
    -- a retry waits for the attempt that is writing the row
    if (db.upload cmd.id).isSome then .ok { result := false, waits := [.upload cmd.id] }
    else if (db.object cmd.objectId).isSome then .ok {
      result := true
      locks := [(.object cmd.objectId, .keyShare)]
      writes := [⟨.upload cmd.id, some cmd.row⟩] }
    -- the foreign key
    else .error .other

def createUploadRecord (cmd : CreateUploadRecord) : Store (UploadRecord × Bool) :=
  transaction mapSqlx (.createUploadRecord cmd) do
    let created ← run (insertUpload cmd)
    -- inserted now, or by an earlier attempt
    let row ← Prog.orFail (.sqlx .other) (← run (select fun db => db.upload cmd.id))
    return (⟨cmd.id, row⟩, created)

def getUpload (id : UploadId) : Store (Option UploadRecord) := do
  return (← run (select fun db => db.upload id)).map fun row => ⟨id, row⟩

/-- The states from which `update_upload_state` may go to `state`. -/
def UpdateUploadState.allows (cmd : UpdateUploadState) (u : UploadRow) : Bool :=
  (cmd.state = .ready ∧ (u.state = .initiating ∨ u.state = .ready)) ∨
    (cmd.state = .completing ∧ (u.state = .ready ∨ u.state = .completing))

def UpdateUploadState.row (cmd : UpdateUploadState) (u : UploadRow) : UploadRow :=
  { u with
    state := cmd.state
    providerUploadId := cmd.providerUploadId.or u.providerUploadId
    providerCompleted := cmd.providerCompleted.getD u.providerCompleted }

def updateUpload (cmd : UpdateUploadState) : Stmt Nat :=
  statement (.updateUploadState cmd) fun db =>
    match db.upload cmd.id with
    | none => .ok { result := 0 }
    | some u =>
      -- a row that has ended is not brought back
      if cmd.allows u then .ok { result := 1, writes := [⟨.upload cmd.id, some (cmd.row u)⟩] }
      else .ok { result := 0 }

def updateUploadState (cmd : UpdateUploadState) : Store Unit := do
  let rows ← run (updateUpload cmd)
  require (rows ≠ 0) DomainError.uploadNotFound

def AbortUploadRecord.row (cmd : AbortUploadRecord) (u : UploadRow) : UploadRow :=
  { u with state := .aborted, abortedAt := some cmd.now }

/-- `UPDATE uploads SET state = 'aborted' … WHERE state <> 'completed' RETURNING …`. -/
def abortUpload (cmd : AbortUploadRecord) : Stmt (Option UploadRow) :=
  statement .other fun db =>
    -- aborting twice is fine
    match (db.upload cmd.id).filter (·.state ≠ .completed) with
    | none => .ok { result := none }
    | some u => .ok {
        result := some u
        writes := [⟨.upload cmd.id, some (cmd.row u)⟩] }

def abortUploadRecord (cmd : AbortUploadRecord) : Store Unit :=
  transaction mapSqlx (.abortUploadRecord cmd) do
    let row ← run (abortUpload cmd)
    enqueueBlob (row.map fun u => (u.blobBackend, u.blobRef)) cmd.gcNotBefore

/-! ## Claims -/

/-- How long a claimed entry stays invisible to other workers. -/
def gcLeaseMinutes : Int := 5

def minutes (n : Int) : Int := n * 60 * 1000000

/-- Some live object with ready content points to the blob. -/
def Db.pointsTo (db : Db) (blob : String × String) : Bool :=
  db.objectIds.any fun id => (db.live id).any fun o =>
    o.contentState = some .ready ∧ o.blob = some blob

/-- By time, and in scan order where the times are the same. -/
def earlier (a b : Time × Nat) : Prop := a.1 < b.1 ∨ a.1 = b.1 ∧ a.2 ≤ b.2

instance : DecidableRel earlier := fun _ _ => inferInstanceAs (Decidable (_ ∨ _))

def dueGc (now : Time) : Stmt (List (String × String)) where
  label := .other
  run scan (db : Db) :=
    -- an entry whose blob is live content is not due
    let due := db.gcKeys.filter fun k =>
      (db.gc k.1 k.2).any (fun g => g.notBefore ≤ now) && !db.pointsTo k
    let order (k : String × String) : Time × Nat :=
      (((db.gc k.1 k.2).map (·.notBefore)).getD 0, scan.rank (.gc k.1 k.2))
    .ok { result := due.insertionSort fun k k' => earlier (order k) (order k') }

def claimGc (now : Time) (k : String × String) : Stmt (Option BlobGcEntry) where
  label := .other
  run scan (db : Db) :=
    -- `SKIP LOCKED`, and the condition on the row as it is now
    match (db.gc k.1 k.2).filter (fun g => g.notBefore ≤ now ∧ scan.free (.gc k.1 k.2)) with
    | none => .ok { result := none }
    | some g => .ok {
        result := some { blobBackend := k.1, blobRef := k.2, attempts := g.attempts }
        writes := [⟨.gc k.1 k.2, some { g with notBefore := now + minutes gcLeaseMinutes }⟩] }

/-- Takes rows one after the other until the limit is reached. -/
def claimEach {κ α : Type} (claim : κ → Stmt (Option α)) : Nat → List κ → Store (List α)
  | 0, _ => return []
  | _, [] => return []
  | n + 1, k :: ks => do
    match ← run (claim k) with
    -- a row that was skipped does not count
    | none => claimEach claim (n + 1) ks
    | some a => return a :: (← claimEach claim n ks)

/-- Pushing `not_before` forward is the claim. -/
def claimGcBatch (now : Time) (limit : Nat) : Store (List BlobGcEntry) :=
  transaction mapSqlx (.claimGcBatch now limit) do
    let due ← run (dueGc now)
    claimEach (claimGc now) limit due

def finishGc (entry : BlobGcEntry) : Store Unit :=
  run (dequeueBlobGc (.finishGc entry) entry.blobBackend entry.blobRef)

def failGc (entry : BlobGcEntry) (error : String) (retryAt : Time) : Store Unit :=
  run (statement (.failGc entry error retryAt) fun db =>
    match db.gc entry.blobBackend entry.blobRef with
    | none => .ok { result := () }
    | some g => .ok {
        result := ()
        writes := [⟨.gc entry.blobBackend entry.blobRef, some {
          notBefore := retryAt
          attempts := g.attempts + 1
          lastError := some error }⟩] })

def UploadRow.expires (u : UploadRow) (now : Time) : Bool :=
  u.expiresAt ≤ now ∧ (u.state = .initiating ∨ u.state = .ready ∨ u.state = .completing)

def dueUploads (now : Time) : Stmt (List UploadId) where
  label := .other
  run scan (db : Db) :=
    let due := db.uploadIds.filter fun id => (db.upload id).any (·.expires now)
    let order (id : UploadId) : Time × Nat :=
      (((db.upload id).map (·.expiresAt)).getD 0, scan.rank (.upload id))
    .ok { result := due.insertionSort fun x y => earlier (order x) (order y) }

def UploadRow.expired (u : UploadRow) : UploadRow := { u with state := .expired }

def expireUpload (now : Time) (id : UploadId) : Stmt (Option UploadRecord) where
  label := .other
  run scan (db : Db) :=
    -- `SKIP LOCKED`, and the condition on the row as it is now
    match (db.upload id).filter (fun u => u.expires now ∧ scan.free (.upload id)) with
    | none => .ok { result := none }
    | some u => .ok {
        result := some ⟨id, u.expired⟩
        writes := [⟨.upload id, some u.expired⟩] }

def claimExpiredUploads (now : Time) (limit : Nat) : Store (List UploadRecord) :=
  transaction mapSqlx (.claimExpiredUploads now limit) do
    let due ← run (dueUploads now)
    let uploads ← claimEach (expireUpload now) limit due
    -- the blobs are queued with the claim
    enqueueBlobs now (uploads.map fun u => some (u.row.blobBackend, u.row.blobRef))
    return uploads

/-! ## Purges -/

/-- Deletes one row of a multi-row `DELETE` if the condition still holds. -/
def deleteRow (r : Row) (due : r.Val → Bool) : Stmt Bool :=
  statement .other fun db =>
    -- a row that was changed or has gone by then is passed over
    if (db.lookup r).any due then .ok { result := true, writes := [⟨r, none⟩] }
    else .ok { result := false }

/-- Deletes rows one after the other and returns the keys of those deleted. -/
def deleteEach {κ : Type} (delete : κ → Stmt Bool) : List κ → Store (List κ)
  | [] => return []
  | k :: ks => do
    if ← run (delete k) then return k :: (← deleteEach delete ks)
    else deleteEach delete ks

def purgeIdempotencyRecords (now : Time) : Store Nat :=
  transaction mapSqlx (.purgeIdempotencyRecords now) do
    let due ← run (select fun db => db.keys.filterMap fun
      | .idempotency p o k =>
        if (db.idempotency p o k).any (fun r => r.expiresAt ≤ now) then some (p, o, k) else none
      | _ => none)
    let deleted ← deleteEach
      (fun k => deleteRow (.idempotency k.1 k.2.1 k.2.2) fun r => r.expiresAt ≤ now) due
    return deleted.length

def purgeChangeCursors (now : Time) : Store Nat :=
  transaction mapSqlx (.purgeChangeCursors now) do
    let due ← run (select fun db => db.keys.filterMap fun
      | .cursor id => if (db.cursor id).any (fun c => c.expiresAt ≤ now) then some id else none
      | _ => none)
    let deleted ← deleteEach (fun id => deleteRow (.cursor id) fun c => c.expiresAt ≤ now) due
    return deleted.length

/-- `UPDATE changes_retention SET purged_through_seq = GREATEST(…)`. -/
def raiseWatermark (maxSeq : Nat) : Stmt Unit :=
  statement .other fun db =>
    match db.purgedThrough with
    -- the migration has put the row there
    | none => .ok { result := () }
    | some w => .ok { result := (), writes := [⟨.retention, some (max w maxSeq)⟩] }

def dueChanges (olderThan : Time) : Stmt (List Nat) :=
  statement (.purgeChanges olderThan) fun db => .ok {
    result := db.seqs.filter fun seq => (db.change seq).any fun c => c.changedAt < olderThan }

/-- The watermark outlives the rows, so that a cursor pointing into purged
history can still be rejected. -/
def purgeChanges (olderThan : Time) : Store Nat :=
  transaction mapSqlx (.purgeChanges olderThan) do
    let due ← run (dueChanges olderThan)
    let deleted ← deleteEach (fun seq => deleteRow (.change seq) fun c => c.changedAt < olderThan) due
    -- nothing was deleted: the watermark stays
    whenever (deleted ≠ []) (run (raiseWatermark (deleted.max?.getD 0)))
    return deleted.length

end AnyStore
