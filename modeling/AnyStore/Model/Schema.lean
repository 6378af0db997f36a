import AnyStore.Lib.Transaction
import AnyStore.Model.Domain

/-!
# Tables and sessions

The tables of the initial migration, the unique index on the names of live
objects, and what stands outside the database: the source of ULIDs, the clock
and the blob provider.
-/

namespace AnyStore

open ReadCommitted

/-! ## Rows -/

structure CursorRow where
  afterSeq : Nat
  materialized : Bool := false
  pageLimit : Option Nat := none
  snapshotMaxSeq : Option Nat := none
  pageEndSeq : Option Nat := none
  hasMore : Option Bool := none
  nextCursorId : Option CursorId := none
  createdAt : Time
  expiresAt : Time
  deriving DecidableEq

structure GcRow where
  notBefore : Time
  attempts : Nat := 0
  lastError : Option String := none
  deriving DecidableEq

inductive IdempotencyState
  | inProgress
  | completed
  deriving DecidableEq

structure IdempotencyRow where
  requestHash : String
  state : IdempotencyState
  ownerToken : Option String
  leaseUntil : Option Time
  statusCode : Option Nat := none
  responseHeaders : Option Json := none
  responseBody : Option (List UInt8) := none
  createdAt : Time
  completedAt : Option Time := none
  expiresAt : Time
  deriving DecidableEq

/-- The rows of all tables, by primary key. -/
inductive Row
  | object (id : ObjectId)
  | upload (id : UploadId)
  | idempotency (principalId : PrincipalId) (operation : String) (key : IdempotencyKey)
  | change (seq : Nat)
  | cursor (id : CursorId)
  | retention
  | gc (blobBackend blobRef : String)
  deriving DecidableEq

@[reducible] def Row.Val : Row → Type
  | .object _ => ObjectRow
  | .upload _ => UploadRow
  | .idempotency .. => IdempotencyRow
  | .change _ => ChangeRecord
  | .cursor _ => CursorRow
  -- `purged_through_seq`
  | .retention => Nat
  | .gc .. => GcRow

abbrev Db := ReadCommitted.Db Row.Val

namespace Db

variable (db : Db)

def object (id : ObjectId) : Option ObjectRow := db.lookup (.object id)
def upload (id : UploadId) : Option UploadRow := db.lookup (.upload id)
def change (seq : Nat) : Option ChangeRecord := db.lookup (.change seq)
def cursor (id : CursorId) : Option CursorRow := db.lookup (.cursor id)
def gc (blobBackend blobRef : String) : Option GcRow := db.lookup (.gc blobBackend blobRef)
def purgedThrough : Option Nat := db.lookup .retention
def idempotency (principalId : PrincipalId) (operation : String) (key : IdempotencyKey) :
    Option IdempotencyRow :=
  db.lookup (.idempotency principalId operation key)

/-- The object, unless it is deleted. -/
def live (id : ObjectId) : Option ObjectRow := (db.object id).filter (·.deletedAt.isNone)

def objectIds : List ObjectId := db.keys.filterMap fun
  | .object id => some id
  | _ => none

def uploadIds : List UploadId := db.keys.filterMap fun
  | .upload id => some id
  | _ => none

def seqs : List Nat := db.keys.filterMap fun
  | .change seq => some seq
  | _ => none

def gcKeys : List (String × String) := db.keys.filterMap fun
  | .gc b r => some (b, r)
  | _ => none

end Db

/-- `objects_live_parent_name_uq`; a row without a parent has no key, as `NULL`
is equal to nothing. -/
def liveNameUq : (r : Row) → r.Val → Option (ObjectId × String)
  | .object _, o => if o.deletedAt.isNone then o.parentId.map (·, o.name) else none
  | _, _ => none

/-! ## Labels -/

/-- The two stores: the `sqlx` adapter and the PL/pgSQL functions behind the
PostgREST adapter. -/
inductive Adapter
  | sqlx
  | rpc
  deriving DecidableEq

/-- Names a transaction or a statement by the command it carries out. -/
inductive Label
  | createObject (cmd : CreateObjectCommit)
  | patchObject (cmd : PatchObjectCommit)
  | deleteObject (cmd : DeleteObjectCommit)
  | commitContent (cmd : CommitContent)
  | createUploadRecord (cmd : CreateUploadRecord)
  | updateUploadState (cmd : UpdateUploadState)
  | abortUploadRecord (cmd : AbortUploadRecord)
  | claimGcBatch (now : Time) (limit : Nat)
  | finishGc (entry : BlobGcEntry)
  | failGc (entry : BlobGcEntry) (error : String) (retryAt : Time)
  | claimExpiredUploads (now : Time) (limit : Nat)
  | acquire (req : IdempotencyAcquire)
  -- by an attempt that has seen this creation time
  | steal (req : IdempotencyAcquire) (createdAt : Time)
  | complete (req : IdempotencyComplete)
  | release (context : IdempotencyContext)
  | readChanges (req : ReadChanges)
  | page (afterSeq : Nat)
  | purgeChanges (olderThan : Time)
  | purgeIdempotencyRecords (now : Time)
  | purgeChangeCursors (now : Time)
  | initiateMultipart (blobRef : String)
  | other

/-! ## Outside the database -/

/-- What an owner token was drawn for. -/
structure TokenUse where
  principalId : PrincipalId
  operation : String
  key : IdempotencyKey
  requestHash : String
  deriving DecidableEq

inductive SessionStatus
  | opened
  | completed
  | aborted
  deriving DecidableEq

/-- A multipart session at the provider. -/
structure MultipartSession where
  id : String
  blobRef : String
  status : SessionStatus
  deriving DecidableEq

structure World where
  -- the ULIDs drawn so far, the owner tokens among them with their use
  ulids : List (String × Option TokenUse) := []
  multipart : List MultipartSession := []
  -- blobs that a successful delete removed
  deleted : List (String × String) := []
  -- the blob and the provider upload id of every part URL and completion request
  signedParts : List (String × String) := []
  completions : List (String × String) := []

inductive Fault
  | none
  -- the call fails without an effect
  | failed
  -- the call takes effect and its answer is lost
  | lost
  deriving DecidableEq

structure BlobStat where
  size : Nat
  sha256 : Option String

/-- What happens outside during one step. -/
structure Env where
  fresh : String := ""
  now : Time := 0
  fault : Fault := .none
  stat : Option BlobStat := none

abbrev Stmt (α : Type) := ReadCommitted.Stmt Row.Val Label α
abbrev Answer (α : Type) := ReadCommitted.Answer Row.Val α
abbrev DbState := ReadCommitted.State Row.Val Label World
abbrev Op := ReadCommitted.Cmd Row.Val Label Env World
abbrev Store (α : Type) := Prog Op DomainError α

/-- A statement whose effect depends on the rows alone. -/
def statement {α : Type} (label : Label) (f : Db → Except SqlError (Answer α)) : Stmt α where
  label := label
  run _ db := f db

def run {α : Type} (stmt : Stmt α) : Store α := query mapSqlx stmt

def outside {α : Type} (label : Label) (f : Env → World → Option (α × World)) : Store α :=
  Prog.op (.world ⟨label, f⟩)

/-- `Ulid::generate`. -/
def ulid (use : Option TokenUse) : Store String :=
  outside .other fun e w =>
    if e.fresh ≠ "" ∧ e.fresh ∉ w.ulids.map Prod.fst then
      some (e.fresh, { w with ulids := (e.fresh, use) :: w.ulids })
    else none

/-- `Utc::now`. -/
def utcNow : Store Time := outside .other fun e w => some (e.now, w)

end AnyStore
