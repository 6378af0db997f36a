import AnyStore.Model.Schema
import Mathlib.Algebra.Group.Nat.Defs
import Mathlib.Data.List.Sort

/-!
# Object mutations

`objects_write.rs` and the reads of `objects_read.rs` and `rows.rs` that it
uses, statement by statement. The PL/pgSQL functions of the migrations do the
same; the `Adapter` says where they differ: how metadata is patched and
compared, how Change records are inserted, which reads render the answer, and
what is made of texts and documents on the way. `sqlx` binds every value to the
statement that needs it and parses the metadata of each row that it fetches; a
call of PostgREST has its whole payload converted to `jsonb` before the function
starts, and the function works on `jsonb` itself.

`anystore_rpc` runs an operation in a block of its own inside the transaction of
the call. An error that it catches rolls the block back, and nothing else was
done in the transaction, so this is a `rollback` too.
-/

namespace AnyStore

open ReadCommitted

/-! ## Tree walks

The recursive queries carry the ids they have visited and stop on a repeat.
They are run here with one step for each row of the store. -/

/-- `ANCESTOR_QUERY`: the object and what lies above it. -/
def Db.up (db : Db) : Nat → List ObjectId → ObjectId → List ObjectId
  | 0, _, _ => []
  | n + 1, visited, id =>
    -- the join drops a parent that is not there
    match db.object id with
    | none => []
    | some o =>
      match o.parentId with
      | none => [id]
      -- a repeat ends the walk
      | some p => if p ∈ id :: visited then [id] else id :: db.up n (id :: visited) p

def Db.ancestors (db : Db) (id : ObjectId) : List ObjectId := db.up db.keys.length [] id

def Db.liveChildren (db : Db) (id : ObjectId) : List ObjectId :=
  db.objectIds.filter fun c => ((db.live c).bind (·.parentId)) = some id

/-- `DESCENDANTS_QUERY` before it is sorted: every object with its depth. -/
def Db.down (db : Db) : Nat → Nat → List ObjectId → ObjectId → List (Nat × ObjectId)
  | 0, _, _, _ => []
  | n + 1, depth, visited, id =>
    (depth, id) :: ((db.liveChildren id).filter (· ∉ id :: visited)).flatMap
      (db.down n (depth + 1) (id :: visited))

/-- Deepest first, then by id. -/
def walkOrder (a b : Nat × ObjectId) : Prop := b.1 < a.1 ∨ b.1 = a.1 ∧ a.2 ≤ b.2

instance : DecidableRel walkOrder := fun _ _ => inferInstanceAs (Decidable (_ ∨ _))

def Db.descendants (db : Db) (id : ObjectId) : List ObjectId :=
  if (db.live id).isSome then
    ((db.down db.keys.length 0 [] id).insertionSort walkOrder).map Prod.snd
  else []

/-- `PATH_QUERY`. -/
def Db.path (db : Db) (id : ObjectId) : String :=
  let names := (db.ancestors id).reverse.filterMap fun a => (db.object a).map (·.name)
  -- the root has the empty name, and no other object
  "/" ++ "/".intercalate (names.filter (· ≠ ""))

/-! ## Statements -/

def select {α : Type} (f : Db → α) : Stmt α :=
  statement .other fun db => .ok { result := f db }

/-- `SELECT … WHERE id = $1 FOR UPDATE`. -/
def selectObjectForUpdate (id : ObjectId) : Stmt (Option ObjectRow) :=
  statement .other fun db => .ok {
    result := db.object id
    locks := if (db.object id).isSome then [(.object id, .update)] else [] }

/-- `live_kind` with `lock`. -/
def liveKindForShare (id : ObjectId) : Stmt (Option ObjectKind) :=
  statement .other fun db => .ok {
    result := (db.live id).map (·.kind)
    locks := if (db.live id).isSome then [(.object id, .share)] else [] }

def CreateObjectCommit.row (cmd : CreateObjectCommit) : ObjectRow where
  revision := Revision.initial
  kind := cmd.kind
  name := cmd.name
  parentId := some cmd.parentId
  contentType := cmd.contentType
  contentState := match cmd.kind with
    | .file => some .none
    | .folder => none
  metadata := cmd.metadata.written
  createdAt := cmd.ctx.now
  updatedAt := cmd.ctx.now

def insertObject (cmd : CreateObjectCommit) : Stmt Unit :=
  statement .other fun db =>
    -- the primary key
    if (db.object cmd.id).isSome then .error .uniqueKey
    else .ok {
      result := ()
      -- the foreign key
      locks := [(.object cmd.parentId, .keyShare)]
      writes := [⟨.object cmd.id, some cmd.row⟩] }

/-- `UPDATE objects … WHERE id = $1 AND deleted_at IS NULL RETURNING revision`. -/
def updateLiveObject (id : ObjectId) (set : ObjectRow → ObjectRow) : Stmt (Option Revision) :=
  statement .other fun db =>
    match db.live id with
    | none => .ok { result := none }
    | some o => .ok {
        result := some (set o).revision
        writes := [⟨.object id, some (set o)⟩] }

def hasLiveChildren (id : ObjectId) : Stmt Bool := select fun db => db.liveChildren id ≠ []

def isSelfOrDescendant (candidate subject : ObjectId) : Stmt Bool :=
  select fun db => subject ∈ db.ancestors candidate

/-- `SELECT id FROM objects WHERE id = ANY($1) FOR UPDATE`. -/
def lockObjects (ids : List ObjectId) : Stmt Unit :=
  statement .other fun db => .ok {
    result := ()
    locks := (ids.filter fun id => (db.object id).isSome).map fun id => (.object id, .update) }

def ObjectRow.tombstone (o : ObjectRow) (now : Time) : ObjectRow :=
  { o with revision := o.revision + 1, deletedAt := some now, updatedAt := now }

/-- `UPDATE objects SET deleted_at = $2 … WHERE id = ANY($1) AND deleted_at IS NULL`. -/
def deleteRows (targets : List ObjectId) (now : Time) : Stmt (List (ObjectId × ObjectRow)) :=
  statement .other fun db =>
    let rows := db.objectIds.filterMap fun id =>
      -- a target that is deleted already is passed over
      if id ∈ targets then (db.live id).map fun o => (id, o.tombstone now) else none
    .ok { result := rows, writes := rows.map fun r => ⟨.object r.1, some r.2⟩ }

def insertChanges (records : List (Nat × ChangeRecord)) : Stmt Unit :=
  statement .other fun db =>
    -- the primary key
    if ∃ r ∈ records, (db.change r.1).isSome then .error .uniqueKey
    else .ok { result := (), writes := records.map fun r => ⟨.change r.1, some r.2⟩ }

/-- `enqueue_blob_gc`; `ON CONFLICT DO NOTHING` waits for an open transaction
that inserts or deletes the entry. -/
def enqueueBlobGc (backend blobRef : String) (notBefore : Time) : Stmt Unit :=
  statement .other fun db =>
    match db.gc backend blobRef with
    -- the row of a conflict is waited for, not locked
    | some _ => .ok { result := (), waits := [.gc backend blobRef] }
    | none => .ok { result := (), writes := [⟨.gc backend blobRef, some { notBefore }⟩] }

/-- `DELETE FROM blob_gc_queue WHERE blob_backend = $1 AND blob_ref = $2`. -/
def dequeueBlobGc (label : Label) (backend blobRef : String) : Stmt Unit :=
  statement label fun db =>
    match db.gc backend blobRef with
    | some _ => .ok { result := (), writes := [⟨.gc backend blobRef, none⟩] }
    | none => .ok { result := () }

/-! ## Shared helpers -/

/-- A text that a statement is about to bind. -/
def requireText (s : String) : Store Unit := require (isText s) (mapSqlx .other)

/-- A document that a statement is about to bind. -/
def requireJsonb (x : Json) : Store Unit := require (x.hasNul = false) (mapSqlx .other)

/-- The payload of a call of PostgREST, which has to convert to `jsonb`. -/
def requirePayload (a : Adapter) (hasNul : Bool) : Store Unit :=
  match a with
  -- every statement of the driver checks the texts that it binds
  | .sqlx => pure ()
  | .rpc => require (hasNul = false) (mapSqlx .other)

/-- What an operation holds of a row that it has fetched: `decode_object` parses
the document, PL/pgSQL has it as it is. -/
def Adapter.held (a : Adapter) (o : ObjectRow) : Option ObjectRow :=
  match a with
  | .sqlx => o.read columnRoom
  | .rpc => some o

/-- `lock_object`, for an object that has to be live. -/
def lockLiveObject (a : Adapter) (id : ObjectId) : Store ObjectRow := do
  requireText id
  let o ← Prog.orFail .objectNotFound (← run (selectObjectForUpdate id))
  -- the row is decoded before it is looked at
  let held ← Prog.orFail (mapSqlx .other) (a.held o)
  -- a deleted row is locked all the same, up to the rollback
  require held.deletedAt.isNone DomainError.objectNotFound
  return held

/-- The destination has to be a live folder, and stays one while it is locked. -/
def requireLiveFolder (id : ObjectId) : Store Unit := do
  requireText id
  let kind ← Prog.orFail .objectNotFound (← run (liveKindForShare id))
  require (kind = .folder) DomainError.notAFolder

def checkIfMatch (current : Revision) (ifMatch : Option Revision) : Store Unit :=
  -- without If-Match every revision will do
  require (∀ expected ∈ ifMatch, expected = current) (DomainError.revisionConflict current)

/-- The check inside a mutation; PL/pgSQL casts the expected revision to `bigint`
first, and the cast fails from 2^63 on. -/
def checkIfMatchIn (a : Adapter) (current : Revision) (ifMatch : Option Revision) : Store Unit :=
  match a with
  | .sqlx => checkIfMatch current ifMatch
  | .rpc => do
    require (∀ expected ∈ ifMatch, expected < 2 ^ 63) (mapSqlx .other)
    checkIfMatch current ifMatch

def invalidFolderMove : DomainError :=
  .invalidMove "A folder cannot be moved into itself or one of its descendants."

/-- What becomes of metadata that cannot be parsed; `client.rs` fails on the
whole answer. -/
def Adapter.unparsed (a : Adapter) : DomainError :=
  match a with
  | .sqlx => mapSqlx .other
  | .rpc => .internal "cloudbase postgrest returned a non-JSON response"

/-- `client.rs` parses an answer as one document: the metadata of an object lies
in the object in the envelope. -/
def Adapter.viewRoom (a : Adapter) : Nat :=
  match a with
  | .sqlx => columnRoom
  | .rpc => columnRoom - 2

/-- `load_view`. -/
def loadView (id : ObjectId) : Store (Option ObjectView) := do
  requireText id
  match ← run (select fun db => db.live id) with
  | none => return none
  | some object =>
    let object ← Prog.orFail (mapSqlx .other) (object.read columnRoom)
    -- another statement, with a snapshot of its own
    let path ← run (select fun db => (db.object id).map fun _ => db.path id)
    let path ← Prog.orFail (.internal "failed to render object path") path
    return some { id, object, path }

/-- The object as a mutation leaves it. -/
def renderedView (a : Adapter) (id : ObjectId) (missing : DomainError) : Store ObjectView :=
  match a with
  | .sqlx => do Prog.orFail missing (← loadView id)
  | .rpc => do
    let object ← Prog.orFail missing (← run (select fun db => db.object id))
    let path ← run (select fun db => db.path id)
    return { id, object, path }

/-- The object that a mutation left alone; PL/pgSQL renders the locked row. -/
def unchangedView (a : Adapter) (id : ObjectId) (object : ObjectRow) : Store ObjectView :=
  match a with
  | .sqlx => do Prog.orFail .objectNotFound (← loadView id)
  | .rpc => do
    let path ← run (select fun db => db.path id)
    return { id, object, path }

def PendingChange.record (p : PendingChange) (ctx : MutationContext) (seq : Nat) : ChangeRecord where
  changeId := ChangeId.fromSeq seq
  objectId := p.objectId
  revision := p.revision
  action := p.action
  changedAt := ctx.now
  requestId := ctx.requestId
  idempotencyKey := ctx.idempotencyKey
  tombstone := p.tombstone

/-- PL/pgSQL draws and inserts one record after the other. -/
def appendOneByOne (ctx : MutationContext) : List PendingChange → Store (List ChangeRecord)
  | [] => return []
  | p :: pending => do
    -- the lock is held, so nobody else draws in between
    let seqs ← nextvals mapSqlx 1
    let records := seqs.map fun seq => (seq, p.record ctx seq)
    run (insertChanges records)
    return records.map Prod.snd ++ (← appendOneByOne ctx pending)

/-- `append_changes`: the lock that orders Change records comes before the
sequence numbers are drawn. -/
def appendChanges (a : Adapter) (ctx : MutationContext) (pending : List PendingChange) :
    Store (List ChangeRecord) :=
  -- without a Change the lock is not taken
  if pending = [] then return [] else
    match a with
    | .sqlx => do
      lock mapSqlx
      let seqs ← nextvals mapSqlx pending.length
      let records := List.zipWith (fun p seq => (seq, p.record ctx seq)) pending seqs
      run (insertChanges records)
      return records.map Prod.snd
    | .rpc => do
      lock mapSqlx
      appendOneByOne ctx pending

def IdempotencyRow.completed (r : IdempotencyRow) (response : StoredResponse)
    (headers : Json) (now expiresAt : Time) : IdempotencyRow :=
  { r with
    state := .completed
    statusCode := some response.status
    responseHeaders := some headers
    responseBody := some response.body
    completedAt := some now
    expiresAt
    ownerToken := none
    leaseUntil := none }

/-- `encode_headers`. -/
def encodeHeaders (headers : List (String × String)) : Json :=
  .arr (headers.foldr (fun h xs => .cons (.arr (.cons (.str h.1) (.cons (.str h.2) .nil))) xs) .nil)

/-- `FINALIZE`; the result is the number of rows. -/
def finalize (ctx : IdempotencyContext) (response : StoredResponse) (now expiresAt : Time) :
    Stmt Nat :=
  statement .other fun db =>
    match db.idempotency ctx.principalId ctx.operation ctx.key with
    | none => .ok { result := 0 }
    | some r =>
      -- a lease that was taken over has another token
      if r.state = .inProgress ∧ r.ownerToken = some ctx.ownerToken then .ok {
        result := 1
        writes := [⟨.idempotency ctx.principalId ctx.operation ctx.key,
          some (r.completed response (encodeHeaders response.headers) now expiresAt)⟩] }
      else .ok { result := 0 }

/-- `finalize_in_tx`. -/
def finalizeInTx (context : Option IdempotencyContext) (response : StoredResponse)
    (now expiresAt : Time) : Store Unit :=
  match context with
  -- a request without a key has no record
  | none => return ()
  | some ctx => do
    let rows ← run (finalize ctx response now expiresAt)
    require (rows = 1) (DomainError.internal "idempotency lease was lost during the mutation")

/-- Renders the response and finalises idempotency inside the transaction. -/
def finish (ctx : MutationContext) (outcome : MutationOutcome) : Store StoredResponse := do
  let response ← Prog.ofExcept (ctx.render outcome)
  finalizeInTx ctx.idempotency response ctx.now ctx.idempotencyExpiresAt
  return response

/-! ## Mutations -/

/-- A text of the command has U+0000 in it. -/
def CreateObjectCommit.hasNul (cmd : CreateObjectCommit) : Bool :=
  !isText cmd.id || !isText cmd.name || cmd.contentType.any (!isText ·) || cmd.metadata.hasNul

def createObject (a : Adapter) (cmd : CreateObjectCommit) : Store StoredResponse :=
  transaction mapSqlx (.createObject cmd) do
    requirePayload a (!isText cmd.parentId || cmd.hasNul)
    -- FOR SHARE keeps the parent alive for the duration of the insert
    requireLiveFolder cmd.parentId
    -- the driver finds the other texts out when it binds the row
    require (cmd.hasNul = false) (mapSqlx .other)
    run (insertObject cmd)
    -- the answer shows the row as this transaction has written it
    let view ← renderedView a cmd.id (.internal "created object disappeared")
    let changes ← appendChanges a cmd.ctx [.new cmd.id Revision.initial .created]
    finish cmd.ctx { object := some view, changes, noOp := false }

structure PatchTarget where
  name : String
  parent : Option ObjectId
  metadata : Json

def Items.snoc : Items → Json → Items
  | .nil, y => .cons y .nil
  | .cons x xs, y => .cons x (xs.snoc y)

def Items.removeStr (key : String) : Items → Items
  | .nil => .nil
  | .cons x xs => if x = .str key then xs.removeStr key else .cons x (xs.removeStr key)

/-- `jsonb || jsonb` with an object on the right. -/
def Json.concat (x : Json) (set : Members) : Json :=
  match x with
  | .obj m => .obj (set.insertAll m)
  | .arr xs => .arr (xs.snoc (.obj set))
  | x => .arr (.cons x (.cons (.obj set) .nil))

/-- `jsonb - text`, on what `Json.concat` returns. -/
def Json.deleteKey (x : Json) (key : String) : Json :=
  match x with
  | .obj m => .obj (m.remove key)
  | .arr xs => .arr (xs.removeStr key)
  | x => x

def Adapter.applyMetadataPatch (a : Adapter) (current : Json) (patch : MetadataPatch) :
    DomainResult Json :=
  match a with
  | .sqlx => AnyStore.applyMetadataPatch current patch
  | .rpc => .ok (patch.remove.foldl Json.deleteKey (current.concat patch.set.written))

/-- `metadata_equal`, or equality of `jsonb`. -/
def Adapter.metadataEqual (a : Adapter) (x y : Json) : Bool :=
  match a with
  | .sqlx => AnyStore.metadataEqual x y
  | .rpc => x.normalize true = y.normalize true

def patchTarget (a : Adapter) (cmd : PatchObjectCommit) (current : ObjectRow) :
    DomainResult PatchTarget := do
  let metadata ← match cmd.metadataPatch with
    | some patch => a.applyMetadataPatch current.metadata patch
    | none => .ok current.metadata
  return {
    name := cmd.newName.getD current.name
    -- a patch cannot take the parent away
    parent := cmd.newParentId.or current.parentId
    metadata }

namespace PatchTarget

variable (target : PatchTarget) (a : Adapter) (current : ObjectRow)

def nameChanged : Bool := target.name ≠ current.name
def parentChanged : Bool := target.parent ≠ current.parentId
def metadataChanged : Bool := !a.metadataEqual target.metadata current.metadata

def unchanged : Bool :=
  !target.nameChanged current && !target.parentChanged current && !target.metadataChanged a current

/-- The Changes of one patch, in emission order. -/
def pending (id : ObjectId) (revision : Revision) : List PendingChange :=
  let changes :=
    -- all of them carry the revision of the patch
    (if target.nameChanged current then [.new id revision .renamed] else []) ++
    (if target.parentChanged current then [.new id revision .moved] else []) ++
    (if target.metadataChanged a current then [.new id revision .metadataUpdated] else [])
  changes.insertionSort fun p q => p.action.emissionOrder ≤ q.action.emissionOrder

def row (now : Time) (o : ObjectRow) : ObjectRow :=
  { o with
    revision := o.revision + 1
    name := target.name
    parentId := target.parent
    metadata := target.metadata.written
    updatedAt := now }

end PatchTarget

def checkRoot (cmd : PatchObjectCommit) : Store Unit := do
  require (cmd.id = rootId → cmd.newParentId = none) (DomainError.invalidMove "Root cannot be moved.")
  require (cmd.id = rootId → cmd.newName = none)
    (DomainError.invalidRequest "Root cannot be renamed.")

def requireOutside (id : ObjectId) (destination : ObjectId) : Store Unit := do
  require (¬ (← run (isSelfOrDescendant destination id))) invalidFolderMove

def checkDestination (current : ObjectRow) (id : ObjectId) (target : PatchTarget) : Store Unit := do
  let destination ← Prog.orFail (.invalidMove "Destination is required.") target.parent
  requireLiveFolder destination
  -- a file has nothing below it
  whenever (current.kind = .folder) (requireOutside id destination)

/-- The ancestor walk takes no row locks, so it is repeated under the
Change-order lock: it then sees every earlier move and this one. -/
def recheckDestination (id : ObjectId) (target : PatchTarget) : Store Unit := do
  lock mapSqlx
  match target.parent with
  | some destination => requireOutside id destination
  | none => pure ()

/-- A text of the command has U+0000 in it. -/
def PatchObjectCommit.hasNul (cmd : PatchObjectCommit) : Bool :=
  !isText cmd.id || cmd.newName.any (!isText ·) || cmd.newParentId.any (!isText ·) ||
    cmd.metadataPatch.any fun patch => patch.set.hasNul || patch.remove.any (!isText ·)

def patchObject (a : Adapter) (cmd : PatchObjectCommit) : Store StoredResponse :=
  transaction mapSqlx (.patchObject cmd) do
    requirePayload a cmd.hasNul
    let current ← lockLiveObject a cmd.id
    -- the row is locked, so the revision stays what it is here
    checkIfMatchIn a current.revision cmd.ifMatch
    checkRoot cmd
    let target ← Prog.ofExcept (patchTarget a cmd current)
    if target.unchanged a current then
      -- a no-op must not increment the revision or emit a Change
      let view ← unchangedView a cmd.id current
      finish cmd.ctx { object := some view, changes := [], noOp := true }
    else
      whenever (target.parentChanged current) (checkDestination current cmd.id target)
      requireText target.name
      requireJsonb target.metadata
      -- the unique index on live names speaks here
      let revision ← Prog.orFail .objectNotFound
        (← run (updateLiveObject cmd.id (target.row cmd.ctx.now)))
      whenever (target.parentChanged current ∧ current.kind = .folder)
        (recheckDestination cmd.id target)
      let changes ← appendChanges a cmd.ctx (target.pending a current cmd.id revision)
      let view ← renderedView a cmd.id .objectNotFound
      finish cmd.ctx { object := some view, changes, noOp := false }

/-- Rounds of the lock-then-verify loop of a recursive delete. -/
def descendantLockAttempts : Nat := 5

/-- Collects the subtree and locks every member, until the walk finds the set
that is locked already. -/
def collectAndLockDescendants (root : ObjectId) :
    Nat → Option (List ObjectId) → Store (List ObjectId)
  | 0, _ => .fail (.internal "subtree kept changing while acquiring delete locks")
  | n + 1, previous => do
    let ids ← run (select fun db => db.descendants root)
    -- nothing has joined the subtree since it was locked
    if some ids = previous then return ids
    else
      run (lockObjects ids)
      collectAndLockDescendants root n (some ids)

def deleteTargets (a : Adapter) (cmd : DeleteObjectCommit) (current : ObjectRow) :
    Store (List ObjectId) :=
  if current.kind = .folder ∧ cmd.recursive then
    -- PL/pgSQL starts from `NULL`, which equals no list
    collectAndLockDescendants cmd.id descendantLockAttempts
      (match a with | .sqlx => some [] | .rpc => none)
  -- without `recursive` only an empty folder goes
  else if current.kind = .folder then do
    require (¬ (← run (hasLiveChildren cmd.id))) DomainError.folderNotEmpty
    return [cmd.id]
  else return [cmd.id]

/-- The blob that an object points to. -/
def ObjectRow.blob (o : ObjectRow) : Option (String × String) :=
  match o.blobBackend, o.blobRef with
  | some backend, some blobRef => some (backend, blobRef)
  | _, _ => none

def enqueueBlob (blob : Option (String × String)) (notBefore : Time) : Store Unit :=
  match blob with
  | some (backend, blobRef) => run (enqueueBlobGc backend blobRef notBefore)
  | none => pure ()

def enqueueBlobs (notBefore : Time) : List (Option (String × String)) → Store Unit
  | [] => pure ()
  | blob :: blobs => do
    enqueueBlob blob notBefore
    enqueueBlobs notBefore blobs

/-- One tombstone for each deleted object, in the order of the walk. -/
def tombstones (targets : List ObjectId) (rows : List (ObjectId × ObjectRow)) :
    List PendingChange :=
  targets.filterMap fun id =>
    (rows.find? fun r => r.1 = id).map fun r => .new id r.2.revision .deleted

def deleteObject (a : Adapter) (cmd : DeleteObjectCommit) : Store StoredResponse :=
  transaction mapSqlx (.deleteObject cmd) do
    requirePayload a (!isText cmd.id)
    let current ← lockLiveObject a cmd.id
    checkIfMatchIn a current.revision cmd.ifMatch
    require (cmd.id ≠ rootId) (DomainError.invalidRequest "Root cannot be deleted.")
    let targets ← deleteTargets a cmd current
    let rows ← run (deleteRows targets cmd.ctx.now)
    -- the blobs go with the rows, in the same transaction
    enqueueBlobs cmd.ctx.now (rows.map fun r => r.2.blob)
    let changes ← appendChanges a cmd.ctx (tombstones targets rows)
    finish cmd.ctx { object := none, changes, noOp := false }

def selectUploadForUpdate (id : UploadId) : Stmt (Option UploadRow) :=
  statement .other fun db => .ok {
    result := db.upload id
    locks := if (db.upload id).isSome then [(.upload id, .update)] else [] }

def CommitContent.row (cmd : CommitContent) (o : ObjectRow) : ObjectRow :=
  { o with
    revision := o.revision + 1
    blobBackend := some cmd.blobBackend
    blobRef := some cmd.blobRef
    sizeBytes := some cmd.size
    contentType := some cmd.contentType
    sha256 := cmd.sha256
    contentState := some .ready
    updatedAt := cmd.ctx.now }

def CommitContent.uploadRow (cmd : CommitContent) (u : UploadRow) : UploadRow :=
  { u with
    state := .completed
    providerCompleted := true
    completedAt := some cmd.ctx.now }

/-- `UPDATE uploads SET state = 'completed' …`; the result is the number of rows. -/
def completeUpload (cmd : CommitContent) : Stmt Nat :=
  statement .other fun db =>
    match db.upload cmd.uploadId with
    | none => .ok { result := 0 }
    | some u =>
      if u.state = .ready ∨ u.state = .completing then .ok {
        result := 1
        writes := [⟨.upload cmd.uploadId, some (cmd.uploadRow u)⟩] }
      else .ok { result := 0 }

/-- The superseded blob of an object, when there is one. -/
def supersededBlob (o : ObjectRow) (cmd : CommitContent) : Option (String × String) :=
  -- the same reference once more supersedes nothing
  o.blob.filter fun b => b.2 ≠ cmd.blobRef

/-- `ContentReady` for the first content of an object, `ContentReplaced` after. -/
def contentAction (o : ObjectRow) : ChangeAction :=
  -- a file starts with the state `none`
  match o.contentState.getD .none with
  | .none => .contentReady
  | .ready => .contentReplaced

/-- A text of the command has U+0000 in it. -/
def CommitContent.hasNul (cmd : CommitContent) : Bool :=
  !isText cmd.uploadId || !isText cmd.objectId || !isText cmd.blobBackend || !isText cmd.blobRef ||
    !isText cmd.contentType || cmd.sha256.any (!isText ·)

def commitContent (a : Adapter) (cmd : CommitContent) : Store StoredResponse :=
  transaction mapSqlx (.commitContent cmd) do
    requirePayload a cmd.hasNul
    requireText cmd.uploadId
    let upload ← Prog.orFail .uploadNotFound (← run (selectUploadForUpdate cmd.uploadId))
    require upload.state.isCompletable DomainError.uploadNotFound
    -- the command was made from this record
    require (upload.objectId = cmd.objectId ∧ upload.blobBackend = cmd.blobBackend ∧
      upload.blobRef = cmd.blobRef)
      (DomainError.internal "content commit does not match the upload record")
    let current ← lockLiveObject a cmd.objectId
    require (current.kind = .file) DomainError.notAFile
    checkIfMatchIn a current.revision cmd.ifMatch
    -- a retry of a completion that was committed
    if upload.state = .completed then
      let view ← unchangedView a cmd.objectId current
      finish cmd.ctx { object := some view, changes := [], noOp := true }
    else
      require (cmd.hasNul = false) (mapSqlx .other)
      let revision ← Prog.orFail .objectNotFound
        (← run (updateLiveObject cmd.objectId cmd.row))
      -- the superseded blob is queued only now that the pointer swap is part
      -- of the committing transaction
      enqueueBlob (supersededBlob current cmd) cmd.gcNotBefore
      require ((← run (completeUpload cmd)) = 1) DomainError.uploadNotFound
      -- a blob becoming live must not remain eligible for a stale entry
      run (dequeueBlobGc .other cmd.blobBackend cmd.blobRef)
      let changes ← appendChanges a cmd.ctx
        [.new cmd.objectId revision (contentAction current)]
      let view ← renderedView a cmd.objectId .objectNotFound
      finish cmd.ctx { object := some view, changes, noOp := false }

end AnyStore
