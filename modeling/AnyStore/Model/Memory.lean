import AnyStore.Lib.Locked
import AnyStore.Model.Idempotency
import AnyStore.Model.Listing

/-!
# The in-memory store

`InMemoryMetaStore` of the testkit, which every operation holds under one lock
from its first line to its last: the state and the object mutations. A hash map
is an association list here; where the source walks over `values()`, its answer
does not depend on the order. An operation that fails keeps what it has written
by then.
-/

namespace AnyStore.Memory

/-! ## State -/

structure IdempotencyRow where
  requestHash : String
  createdAt : Time
  completed : Bool
  ownerToken : Option String
  leaseUntil : Option Time
  response : Option StoredResponse
  expiresAt : Time

structure CursorRow where
  afterSeq : Nat
  materialized : Bool := false
  pageLimit : Option Nat := none
  pageEndSeq : Option Nat := none
  hasMore : Option Bool := none
  nextCursorId : Option CursorId := none
  expiresAt : Time

structure GcRow where
  blobBackend : String
  blobRef : String
  notBefore : Time
  attempts : Nat := 0

abbrev Objects := AList fun _ : ObjectId => ObjectRow

structure State where
  objects : Objects
  -- the record with sequence number `seq` stands at index `seq - 1`
  changes : List ChangeRecord := []
  cursors : AList fun _ : CursorId => CursorRow := ∅
  idempotency : AList fun _ : PrincipalId × String × IdempotencyKey => IdempotencyRow := ∅
  uploads : AList fun _ : UploadId => UploadRow := ∅
  gc : List GcRow := []
  purgedThroughSeq : Nat := 0

abbrev Call (α : Type) := Locked State DomainError α

def rootRow (now : Time) : ObjectRow where
  revision := Revision.initial
  kind := .folder
  name := ""
  parentId := none
  metadata := .obj .nil
  createdAt := now
  updatedAt := now

/-- `InMemoryMetaStore::new`. -/
def State.new (now : Time) : State := { objects := AList.singleton rootId (rootRow now) }

/-! ## Shared helpers -/

/-- The names on the way up from an object to one without a parent, which is
looked for in `n` rounds of the loop. -/
def segments (objects : Objects) : Nat → ObjectId → DomainResult (List String)
  | 0, _ => .error (.internal "object tree is cyclic")
  | n + 1, id =>
    match objects.lookup id with
    | none => .error .objectNotFound
    | some stored =>
      match stored.parentId with
      | none => .ok []
      | some parent => (segments objects n parent).map (stored.name :: ·)

def joinSegments (segments : List String) : String :=
  "/" ++ "/".intercalate segments.reverse

/-- Whether `subject` is met on the way up from `current`, in `n` rounds. -/
def climbsTo (objects : Objects) (subject : ObjectId) : Nat → Option ObjectId → Bool
  | 0, _ => false
  | _ + 1, none => false
  | n + 1, some id =>
    id = subject || climbsTo objects subject n ((objects.lookup id).bind (·.parentId))

namespace State

variable (s : State)

def live (id : ObjectId) : Option ObjectRow := (s.objects.lookup id).filter (·.deletedAt.isNone)

/-- The bound of the walks over parents, so that a corrupt cycle cannot hang a caller. -/
def walkBound : Nat := 1024

def renderPath (id : ObjectId) : DomainResult String :=
  (segments s.objects walkBound id).map joinSegments

def viewOf (id : ObjectId) : DomainResult ObjectView :=
  match s.live id with
  | none => .error .objectNotFound
  | some object => (s.renderPath id).map fun path => { id, object, path }

def nameTaken (parent : Option ObjectId) (name : String) (except : ObjectId) : Bool :=
  s.objects.entries.any fun e =>
    e.2.deletedAt.isNone && e.1 ≠ except && e.2.parentId = parent && e.2.name = name

def isSelfOrDescendant (candidate subject : ObjectId) : Bool :=
  climbsTo s.objects subject walkBound (some candidate)

def liveChildren (id : ObjectId) : List ObjectId :=
  (s.objects.entries.filter fun e => e.2.deletedAt.isNone && e.2.parentId = some id).map Sigma.fst

/-- The worklist of `descendants`: the frontier is popped at its end, which is
its head here. -/
def spread : Nat → List (Nat × ObjectId) → List (Nat × ObjectId) → Option (List (Nat × ObjectId))
  | _, [], result => some result
  | 0, _ :: _, _ => none
  | n + 1, (depth, id) :: frontier, result =>
    let entries := (s.liveChildren id).map fun child => (depth + 1, child)
    spread n (entries.reverse ++ frontier) (result ++ entries)

/-- Children before parents, then by id. A worklist that has been popped once
more often than there are objects meets an object again, and does not end. -/
def descendants (root : ObjectId) : Option (List (Nat × ObjectId)) :=
  (s.spread (s.objects.entries.length + 1) [(0, root)] [(0, root)]).map
    (·.insertionSort walkOrder)

def putObject (id : ObjectId) (row : ObjectRow) : State :=
  { s with objects := s.objects.insert id row }

def appendChanges (ctx : MutationContext) : List PendingChange → State → List ChangeRecord × State
  | [], s => ([], s)
  | p :: pending, s =>
    let record := p.record ctx (s.changes.length + 1)
    let rest := appendChanges ctx pending { s with changes := s.changes ++ [record] }
    (record :: rest.1, rest.2)

def enqueueGc (blobBackend blobRef : String) (notBefore : Time) : State :=
  if s.gc.any fun g => g.blobBackend = blobBackend && g.blobRef = blobRef then s
  else { s with gc := s.gc ++ [{ blobBackend, blobRef, notBefore }] }

def enqueueAll (notBefore : Time) : List (String × String) → State → State
  | [], s => s
  | (backend, blobRef) :: blobs, s => enqueueAll notBefore blobs (s.enqueueGc backend blobRef notBefore)

/-- The loop of `delete_object`: the live ones among `ids` become tombstones. -/
def bury (now : Time) : List ObjectId → State → List (ObjectId × ObjectRow) × State
  | [], s => ([], s)
  | id :: ids, s =>
    match s.live id with
    | none => bury now ids s
    | some entry =>
      let rest := bury now ids (s.putObject id (entry.tombstone now))
      ((id, entry.tombstone now) :: rest.1, rest.2)

end State

open Locked

def rowKey (ctx : IdempotencyContext) : PrincipalId × String × IdempotencyKey :=
  (ctx.principalId, ctx.operation, ctx.key)

def IdempotencyRow.finalized (row : IdempotencyRow) (response : StoredResponse) (expiresAt : Time) :
    IdempotencyRow :=
  { row with
    completed := true
    response := some response
    ownerToken := none
    leaseUntil := none
    expiresAt }

def finalizeIdempotency (ctx : MutationContext) (response : StoredResponse) : Call Unit :=
  match ctx.idempotency with
  | none => ret ()
  | some ictx => do
    let row ← read fun s => s.idempotency.lookup (rowKey ictx)
    let row ← orFail (.internal "idempotency record disappeared") row
    check (row.ownerToken = some ictx.ownerToken)
      (.internal "idempotency lease was lost during the mutation")
    write fun s => { s with
      idempotency := s.idempotency.insert (rowKey ictx)
        (row.finalized response ctx.idempotencyExpiresAt) }

def viewed : Option ObjectId → Call (Option ObjectView)
  | none => ret none
  | some id => do
    let view ← read fun s => s.viewOf id
    let view ← ofExcept view
    return some view

/-- How every mutation ends: it renders its answer and finalises the record. -/
def finish (ctx : MutationContext) (object : Option ObjectId) (changes : List ChangeRecord)
    (noOp : Bool) : Call StoredResponse := do
  let object ← viewed object
  let response ← ofExcept (ctx.render { object, changes, noOp })
  finalizeIdempotency ctx response
  return response

def checkIfMatch (current : Revision) (ifMatch : Option Revision) : Call Unit :=
  check (∀ expected ∈ ifMatch, expected = current) (.revisionConflict current)

def liveObject (id : ObjectId) : Call ObjectRow := do
  let stored ← read fun s => s.live id
  orFail .objectNotFound stored

def liveFolder (id : ObjectId) : Call Unit := do
  let stored ← liveObject id
  check (stored.kind = .folder) .notAFolder

def nameFree (parent : Option ObjectId) (name : String) (except : ObjectId) : Call Unit := do
  let taken ← read fun s => s.nameTaken parent name except
  check (taken = false) .nameConflict

/-! ## Mutations -/

def createdRow (cmd : CreateObjectCommit) : ObjectRow where
  revision := Revision.initial
  kind := cmd.kind
  name := cmd.name
  parentId := some cmd.parentId
  contentType := cmd.contentType
  contentState := match cmd.kind with
    | .file => some .none
    | .folder => none
  metadata := cmd.metadata
  createdAt := cmd.ctx.now
  updatedAt := cmd.ctx.now

def checkCreate (cmd : CreateObjectCommit) : Call Unit := do
  liveFolder cmd.parentId
  nameFree (some cmd.parentId) cmd.name cmd.id

def createObject (cmd : CreateObjectCommit) : Call StoredResponse := do
  checkCreate cmd
  write fun s => s.putObject cmd.id (createdRow cmd)
  let changes ← change (State.appendChanges cmd.ctx [.new cmd.id Revision.initial .created])
  finish cmd.ctx (some cmd.id) changes false

/-- The object to patch and what the patch makes of it. -/
def readTarget (cmd : PatchObjectCommit) : Call (ObjectRow × PatchTarget) := do
  let stored ← liveObject cmd.id
  checkIfMatch stored.revision cmd.ifMatch
  check (cmd.id = rootId → cmd.newParentId = none) (.invalidMove "Root cannot be moved.")
  check (cmd.id = rootId → cmd.newName = none) (.invalidRequest "Root cannot be renamed.")
  let target ← ofExcept (patchTarget .sqlx cmd stored)
  return (stored, target)

def checkMove (id : ObjectId) (stored : ObjectRow) (target : PatchTarget) : Call Unit := do
  let destination ← orFail (.invalidMove "Destination is required.") target.parent
  liveFolder destination
  let inside ← read fun s => s.isSelfOrDescendant destination id
  check (¬ (stored.kind = .folder ∧ inside)) invalidFolderMove

def checkTarget (id : ObjectId) (stored : ObjectRow) (target : PatchTarget) : Call Unit := do
  (if target.parentChanged stored then checkMove id stored target else ret ())
  nameFree target.parent target.name id

def patchedRow (stored : ObjectRow) (target : PatchTarget) (now : Time) : ObjectRow :=
  { stored with
    revision := stored.revision + 1
    name := target.name
    parentId := target.parent
    metadata := target.metadata
    updatedAt := now }

def patchObject (cmd : PatchObjectCommit) : Call StoredResponse := do
  let (stored, target) ← readTarget cmd
  if target.unchanged .sqlx stored then finish cmd.ctx (some cmd.id) [] true
  else
    checkTarget cmd.id stored target
    write fun s => s.putObject cmd.id (patchedRow stored target cmd.ctx.now)
    let pending := target.pending .sqlx stored cmd.id (stored.revision + 1)
    let changes ← change (State.appendChanges cmd.ctx pending)
    finish cmd.ctx (some cmd.id) changes false

def deleteTargets (cmd : DeleteObjectCommit) (stored : ObjectRow) : Call (List ObjectId) := do
  if stored.kind = .folder ∧ cmd.recursive then
    let found ← read fun s => s.descendants cmd.id
    let found ← ending found
    return found.map Prod.snd
  else
    let children ← read fun s => s.liveChildren cmd.id
    check (¬ (stored.kind = .folder ∧ children ≠ [])) .folderNotEmpty
    return [cmd.id]

def checkDelete (cmd : DeleteObjectCommit) : Call (List ObjectId) := do
  let stored ← liveObject cmd.id
  checkIfMatch stored.revision cmd.ifMatch
  check (cmd.id ≠ rootId) (.invalidRequest "Root cannot be deleted.")
  deleteTargets cmd stored

def deleteObject (cmd : DeleteObjectCommit) : Call StoredResponse := do
  let targets ← checkDelete cmd
  let buried ← change (State.bury cmd.ctx.now targets)
  write (State.enqueueAll cmd.ctx.now (buried.filterMap fun r => r.2.blob))
  let pending := buried.map fun r => PendingChange.new r.1 r.2.revision .deleted
  let changes ← change (State.appendChanges cmd.ctx pending)
  finish cmd.ctx none changes false

/-- The state of the upload and the object that the content is for. -/
def checkCommit (cmd : CommitContent) : Call (UploadState × ObjectRow) := do
  let upload ← read fun s => s.uploads.lookup cmd.uploadId
  let upload ← orFail .uploadNotFound upload
  check upload.state.isCompletable .uploadNotFound
  let stored ← liveObject cmd.objectId
  check (stored.kind = .file) .notAFile
  checkIfMatch stored.revision cmd.ifMatch
  return (upload.state, stored)

def committedRow (cmd : CommitContent) (stored : ObjectRow) : ObjectRow :=
  { stored with
    revision := stored.revision + 1
    sizeBytes := some cmd.size
    sha256 := cmd.sha256
    contentType := some cmd.contentType
    contentState := some .ready
    updatedAt := cmd.ctx.now
    blobBackend := some cmd.blobBackend
    blobRef := some cmd.blobRef }

def UploadRow.committed (upload : UploadRow) (now : Time) : UploadRow :=
  { upload with
    state := .completed
    providerCompleted := true
    completedAt := some now }

namespace State

variable (s : State)

/-- Queues the content that is replaced, if there is one. -/
def supersede (blob : Option (String × String)) (notBefore : Time) : State :=
  match blob with
  | some (backend, previous) => s.enqueueGc backend previous notBefore
  | none => s

def completeUpload (id : UploadId) (now : Time) : State :=
  match s.uploads.lookup id with
  | some upload => { s with uploads := s.uploads.insert id (UploadRow.committed upload now) }
  | none => s

def dequeueGc (backend blobRef : String) : State :=
  { s with gc := s.gc.filter fun g => g.blobBackend ≠ backend || g.blobRef ≠ blobRef }

/-- What `commit_content` writes before the Change. -/
def commit (cmd : CommitContent) (stored : ObjectRow) (s : State) : State :=
  let s := s.putObject cmd.objectId (committedRow cmd stored)
  let s := s.supersede (supersededBlob stored cmd) cmd.gcNotBefore
  let s := s.completeUpload cmd.uploadId cmd.ctx.now
  s.dequeueGc cmd.blobBackend cmd.blobRef

end State

def commitContent (cmd : CommitContent) : Call StoredResponse := do
  let (upload, stored) ← checkCommit cmd
  if upload = .completed then finish cmd.ctx (some cmd.objectId) [] true
  else
    write (State.commit cmd stored)
    let pending := [PendingChange.new cmd.objectId (stored.revision + 1) (contentAction stored)]
    let changes ← change (State.appendChanges cmd.ctx pending)
    finish cmd.ctx (some cmd.objectId) changes false

inductive Mutation
  | create (cmd : CreateObjectCommit)
  | patch (cmd : PatchObjectCommit)
  | delete (cmd : DeleteObjectCommit)
  | commit (cmd : CommitContent)

def Mutation.run : Mutation → Call StoredResponse
  | create cmd => createObject cmd
  | patch cmd => patchObject cmd
  | delete cmd => deleteObject cmd
  | commit cmd => commitContent cmd

/-! ## Idempotency records -/

def acquire (req : IdempotencyAcquire) : Call IdempotencyDecision := do
  let row ← read fun s => s.idempotency.lookup (rowKey req.context)
  match row with
  | none => do
    write fun s => { s with
      idempotency := s.idempotency.insert (rowKey req.context) {
        requestHash := req.context.requestHash
        createdAt := req.now
        completed := false
        ownerToken := some req.context.ownerToken
        leaseUntil := some req.leaseUntil
        response := none
        expiresAt := req.expiresAt } }
    return .owner (resourceToken req.now)
  | some row =>
    if row.requestHash ≠ req.context.requestHash then return .conflict
    else if row.completed then return .replay (row.response.getD .noContent)
    -- takes over a lease abandoned by a crashed attempt
    else if ∀ deadline ∈ row.leaseUntil, deadline ≤ req.now then do
      write fun s => { s with
        idempotency := s.idempotency.insert (rowKey req.context) { row with
          ownerToken := some req.context.ownerToken
          leaseUntil := some req.leaseUntil } }
      return .owner (resourceToken row.createdAt)
    else fail .rateLimited

def complete (req : IdempotencyComplete) : Call Unit := do
  let row ← read fun s => s.idempotency.lookup (rowKey req.context)
  let row ← orFail (.internal "idempotency record disappeared") row
  check (row.ownerToken = some req.context.ownerToken)
    (.internal "idempotency lease was lost during the operation")
  write fun s => { s with
    idempotency := s.idempotency.insert (rowKey req.context)
      (row.finalized req.response req.expiresAt) }

def failOrRelease (ctx : IdempotencyContext) : Call Unit :=
  write fun s =>
    match s.idempotency.lookup (rowKey ctx) with
    | none => s
    | some row =>
      if row.completed = false ∧ row.ownerToken = some ctx.ownerToken then
        { s with idempotency := s.idempotency.erase (rowKey ctx) }
      else s

/-! ## Listings -/

def sortKey (T : Texts) (view : ObjectView) (orderBy : Option OrderBy) : Option String :=
  T.sortKeyOf view orderBy

/-- What follows the item that the cursor names; the sort key in it is not read. -/
def splitOff (items : List ObjectView) : Option KeysetCursor → List ObjectView
  | none => items
  | some c =>
    match items.findIdx? fun item => item.id = c.i with
    | some index => items.drop (index + 1)
    | none => []

def paginate (T : Texts) (items : List ObjectView) (limit : Nat) (cursor : Option String)
    (orderBy : Option OrderBy) : DomainResult Page := do
  let cursor ← T.readCursor cursor
  let items := splitOff items cursor
  let hasMore := decide (limit < items.length)
  let items := items.take limit
  let nextCursor :=
    if hasMore then
      items.getLast?.map fun last => T.encodeCursor { k := sortKey T last orderBy, i := last.id }
    else none
  return { items, nextCursor, hasMore }

namespace State

variable (s : State)

def views (keep : ObjectRow → Bool) : DomainResult (List ObjectView) :=
  (s.objects.entries.filter fun e => keep e.2).mapM fun e =>
    (s.renderPath e.1).map fun path => { id := e.1, object := e.2, path }

end State

def isChild (parent : ObjectId) (o : ObjectRow) : Bool :=
  o.deletedAt.isNone && o.parentId = some parent

def listChildren (T : Texts) (q : ListChildren) (s : State) : DomainResult Page := do
  let items ← s.views (isChild q.parentId)
  let items := items.insertionSort fun a b =>
    (q.compare (a.id, a.object) (b.id, b.object)).isLE = true
  paginate T items q.limit q.cursor (some q.orderBy)

/-- `value == Some(expected)` of `serde_json`, or the presence of the key. -/
def conditionHolds (doc : Json) (key : String) : MetadataCondition → Bool
  | .eq expected => (doc.get? key).any fun x => x.normalize false = expected.normalize false
  | .present expected => (doc.get? key).isSome == expected

def isSelected (q : ObjectQuery) (o : ObjectRow) : Bool :=
  o.deletedAt.isNone && q.kind.all (fun kind => o.kind = kind) &&
    q.name.all (fun name => o.name = name) &&
      q.parentId.all (fun parent => o.parentId = some parent) &&
        q.metadata.all fun c => conditionHolds o.metadata c.1 c.2

def queryObjects (T : Texts) (q : ObjectQuery) (s : State) : DomainResult Page := do
  let items ← s.views (isSelected q)
  let items := items.insertionSort fun a b => a.id ≤ b.id
  paginate T items q.limit q.cursor none

end AnyStore.Memory
