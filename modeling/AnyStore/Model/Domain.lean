import AnyStore.Lib.ReadCommitted
import AnyStore.Model.Numbers

/-!
# Domain types

The vocabulary of the store: identifiers, objects, Change records, uploads,
errors and metadata documents, as `anystore-domain` and the command types of
`anystore-metastore` define them. Identifiers are strings, instants and
durations are microseconds, revisions and sequence numbers are natural numbers.
-/

namespace AnyStore

abbrev ObjectId := String
abbrev UploadId := String
abbrev ChangeId := String
abbrev RequestId := String
abbrev CursorId := String
abbrev PrincipalId := String
abbrev IdempotencyKey := String

/-- `DateTime<Utc>`, in microseconds since the epoch. -/
abbrev Time := Int

abbrev Revision := Nat

def Revision.initial : Revision := 1

def rootId : ObjectId := "root"

/-- `ChangeId::from_seq`: the sequence number, zero-padded to 20 digits. -/
def ChangeId.fromSeq (seq : Nat) : ChangeId :=
  "chg_" ++ String.ofList (List.leftpad 20 '0' (toString seq).toList)

/-- `lpad`; a text that is too long is cut off at its end. -/
def lpad (text : String) (length : Nat) (fill : Char) : String :=
  String.ofList ((List.leftpad length fill text.toList).take length)

/-- The id that `anystore_append_changes` renders. -/
def ChangeId.appended (seq : Nat) : ChangeId := "chg_" ++ lpad (toString seq) 20 '0'

def CursorId.pre : String := "chgcur_"

def CursorId.isWellFormed (c : CursorId) : Bool :=
  CursorId.pre.toList.isPrefixOf c.toList && decide (CursorId.pre.length < c.length)

/-! ## Errors -/

inductive DomainError
  | invalidRequest (message : String)
  | invalidName (message : String)
  | invalidMetadata (message : String)
  | objectNotFound
  | uploadNotFound
  | nameConflict
  | folderNotEmpty
  | invalidMove (message : String)
  | notAFolder
  | notAFile
  | contentNotReady
  | idempotencyKeyReused
  | changesCursorExpired
  | revisionConflict (currentRevision : Revision)
  | checksumMismatch (message : String)
  | rateLimited
  | internal (message : String)
  -- `Internal` around an error of the database driver
  | sqlx (e : ReadCommitted.SqlError)
  | storageError (message : String)
  deriving DecidableEq

abbrev DomainResult := Except DomainError

/-- `map_sqlx`; lock timeouts, deadlocks and serialization failures are for the
client to retry. -/
def mapSqlx : ReadCommitted.SqlError → DomainError
  | .uniqueIndex => .nameConflict
  | .contention => .rateLimited
  | e => .sqlx e

/-- A value that a `text` parameter can carry: PostgreSQL refuses U+0000. -/
def isText (s : String) : Bool := !s.toList.contains '\x00'

/-! ## Names -/

def maxNameBytes : Nat := 255

/-- Validates a non-root object name. -/
def validateName (name : String) : DomainResult Unit :=
  if name.isEmpty then .error (.invalidName "Name must not be empty.")
  else if maxNameBytes < name.utf8ByteSize then
    .error (.invalidName ("Name must not exceed " ++ toString maxNameBytes ++ " bytes."))
  else if '/' ∈ name.toList then .error (.invalidName "Name must not contain '/'.")
  else if '\x00' ∈ name.toList then .error (.invalidName "Name must not contain NUL.")
  else if name = "." ∨ name = ".." then .error (.invalidName "Name must not be '.' or '..'.")
  else .ok ()

/-! ## Metadata -/

mutual
inductive Json
  | null
  | bool (b : Bool)
  | int (n : Int)
  -- a double, by the decimal that it is printed as
  | float (q : Rat)
  | str (s : String)
  | arr (xs : Items)
  | obj (m : Members)
  deriving DecidableEq

inductive Items
  | nil
  | cons (x : Json) (xs : Items)
  deriving DecidableEq

inductive Members
  | nil
  | cons (key : String) (x : Json) (m : Members)
  deriving DecidableEq
end

namespace Members

/-- `Map::insert`. -/
def insert (key : String) (x : Json) : Members → Members
  | nil => cons key x nil
  | cons k y m => if k = key then cons key x m else cons k y (m.insert key x)

/-- `Map::remove`; the order of the members that stay is of no consequence. -/
def remove (key : String) : Members → Members
  | nil => nil
  | cons k y m => if k = key then m.remove key else cons k y (m.remove key)

def insertAll (set m : Members) : Members :=
  match set with
  | nil => m
  | cons k x set => set.insertAll (m.insert k x)

/-- Inserts into members sorted by key. -/
def insertSorted (key : String) (x : Json) : Members → Members
  | nil => cons key x nil
  | cons k y m =>
    if k = key then cons k x m
    else if key < k then cons key x (cons k y m)
    else cons k y (m.insertSorted key x)

end Members

mutual
/-- A document up to the order of its members. With `numeric`, numbers are
compared by value, so that `1` and `1.0` are the same, as in `jsonb`. -/
def Json.normalize (numeric : Bool) : Json → Json
  | .int n => if numeric then .float n else .int n
  | .arr xs => .arr (xs.normalize numeric)
  | .obj m => .obj (m.normalize numeric)
  | x => x

def Items.normalize (numeric : Bool) : Items → Items
  | .nil => .nil
  | .cons x xs => .cons (x.normalize numeric) (xs.normalize numeric)

def Members.normalize (numeric : Bool) : Members → Members
  | .nil => .nil
  | .cons k x m => (m.normalize numeric).insertSorted k (x.normalize numeric)
end

mutual
/-- What a `jsonb` column holds of a document. A double is printed with an
exponent from `10^16` on, and `numeric` keeps its digits without a point. -/
def Json.written : Json → Json
  | .float q => if q.den = 1 ∧ 10 ^ 16 ≤ q.num.natAbs then .int q.num else .float q
  | .arr xs => .arr xs.written
  | .obj m => .obj m.written
  | x => x

def Items.written : Items → Items
  | .nil => .nil
  | .cons x xs => .cons x.written xs.written

def Members.written : Members → Members
  | .nil => .nil
  | .cons k x m => .cons k x.written m.written
end

def ParsedNumber.json : ParsedNumber → Json
  | .integer n => .int n
  | .double q => .float q

mutual
/-- What `serde_json` reads from the text of a column, with room for so many
nested arrays and objects; `none` when the text is refused. -/
def Json.read (room : Nat) : Json → Option Json
  | .int n => (readInteger n).map ParsedNumber.json
  | .float q => (readDecimal q).map ParsedNumber.json
  | .arr xs => match room with
    | 0 => none
    | room + 1 => (xs.read room).map .arr
  | .obj m => match room with
    | 0 => none
    | room + 1 => (m.read room).map .obj
  | x => some x

def Items.read (room : Nat) : Items → Option Items
  | .nil => some .nil
  | .cons x xs => do return .cons (← x.read room) (← xs.read room)

def Members.read (room : Nat) : Members → Option Members
  | .nil => some .nil
  | .cons k x m => do return .cons k (← x.read room) (← m.read room)
end

/-- `serde_json` allows 128 levels and refuses the last one. A row of `sqlx` is
a text of its own. -/
def columnRoom : Nat := 127

mutual
/-- U+0000 stands in a string or in a key, at any depth. -/
def Json.hasNul : Json → Bool
  | .str s => s.toList.contains '\x00'
  | .arr xs => xs.hasNul
  | .obj m => m.hasNul
  | _ => false

def Items.hasNul : Items → Bool
  | .nil => false
  | .cons x xs => x.hasNul || xs.hasNul

def Members.hasNul : Members → Bool
  | .nil => false
  | .cons k x m => k.toList.contains '\x00' || x.hasNul || m.hasNul
end

/-- Input of `jsonb`, which refuses U+0000. -/
def Json.toJsonb (x : Json) : Except ReadCommitted.SqlError Json :=
  if x.hasNul then .error .other else .ok x.written

def Members.keys : Members → List String
  | .nil => []
  | .cons k _ m => k :: m.keys

structure MetadataPatch where
  set : Members := .nil
  remove : List String := []

def validateMetadataKey (key : String) : DomainResult Unit :=
  if key.isEmpty then .error (.invalidMetadata "metadata keys must not be empty.")
  else if '\x00' ∈ key.toList then .error (.invalidMetadata "metadata keys must not contain NUL.")
  else .ok ()

def validateMetadataKeys : List String → DomainResult Unit
  | [] => .ok ()
  | key :: keys => do
    validateMetadataKey key
    validateMetadataKeys keys

/-- Validates that a create-time metadata document is an object. -/
def validateMetadataDocument : Json → DomainResult Unit
  | .obj m => validateMetadataKeys m.keys
  | _ => .error (.invalidMetadata "metadata must be a JSON object.")

def validateMetadataPatch (patch : MetadataPatch) : DomainResult Unit :=
  validateMetadataKeys (patch.set.keys ++ patch.remove)

def applyMetadataPatch (current : Json) (patch : MetadataPatch) : DomainResult Json :=
  match current with
  | .obj m => .ok (.obj (patch.remove.foldl (fun m k => m.remove k) (patch.set.insertAll m)))
  | .null => .ok (.obj (patch.remove.foldl (fun m k => m.remove k) (patch.set.insertAll .nil)))
  | _ => .error (.invalidMetadata "stored metadata is not a JSON object.")

/-- `normalize` of `metadata.rs`: an absent document is the empty one. -/
def nullAsEmpty : Json → Json
  | .null => .obj .nil
  | x => x

def metadataEqual (a b : Json) : Bool :=
  (nullAsEmpty a).normalize false = (nullAsEmpty b).normalize false

/-! ## Objects -/

inductive ObjectKind
  | file
  | folder
  deriving DecidableEq

inductive ContentState
  | none
  | ready
  deriving DecidableEq

/-- A row of `objects`; its `id` names the row. -/
structure ObjectRow where
  revision : Revision
  kind : ObjectKind
  name : String
  parentId : Option ObjectId
  contentType : Option String := none
  sizeBytes : Option Nat := none
  sha256 : Option String := none
  contentState : Option ContentState := none
  blobBackend : Option String := none
  blobRef : Option String := none
  metadata : Json
  createdAt : Time
  updatedAt : Time
  deletedAt : Option Time := none

/-- The row as it is read from its text. -/
def ObjectRow.read (room : Nat) (o : ObjectRow) : Option ObjectRow :=
  (o.metadata.read room).map fun metadata => { o with metadata }

structure ObjectView where
  id : ObjectId
  object : ObjectRow
  path : String

def ObjectView.read (room : Nat) (view : ObjectView) : Option ObjectView :=
  (view.object.read room).map fun object => { view with object }

/-! ## Changes -/

inductive ChangeAction
  | created
  | metadataUpdated
  | renamed
  | moved
  | contentReady
  | contentReplaced
  | deleted
  deriving DecidableEq

def ChangeAction.emissionOrder : ChangeAction → Nat
  | .created => 0
  | .renamed => 1
  | .moved => 2
  | .metadataUpdated => 3
  | .contentReady => 4
  | .contentReplaced => 4
  | .deleted => 5

structure PendingChange where
  objectId : ObjectId
  revision : Revision
  action : ChangeAction
  tombstone : Bool

def PendingChange.new (objectId : ObjectId) (revision : Revision) (action : ChangeAction) :
    PendingChange :=
  { objectId, revision, action, tombstone := action = .deleted }

structure ChangeRecord where
  changeId : ChangeId
  objectId : ObjectId
  revision : Revision
  action : ChangeAction
  changedAt : Time
  requestId : RequestId
  idempotencyKey : Option IdempotencyKey
  tombstone : Bool
  deriving DecidableEq

/-! ## Uploads -/

inductive UploadState
  | initiating
  | ready
  | completing
  | completed
  | aborted
  | expired
  deriving DecidableEq

def UploadState.isCompletable : UploadState → Bool
  | .ready | .completing | .completed => true
  | _ => false

def UploadState.isTerminal : UploadState → Bool
  | .completed | .aborted | .expired => true
  | _ => false

inductive UploadMode
  | single
  | multipart
  deriving DecidableEq

/-- A row of `uploads`; its `id` names the row. -/
structure UploadRow where
  objectId : ObjectId
  state : UploadState
  mode : UploadMode
  blobBackend : String
  blobRef : String
  providerUploadId : Option String := none
  expectedSize : Nat
  contentType : String
  expectedSha256 : Option String
  providerCompleted : Bool := false
  createdAt : Time
  expiresAt : Time
  completedAt : Option Time := none
  abortedAt : Option Time := none
  deriving DecidableEq

structure UploadRecord where
  id : UploadId
  row : UploadRow
  deriving DecidableEq

/-- `blob_ref_for` of every provider: the blob is named after the upload, not
after the object, so that rename and move never touch storage. -/
def blobRefFor (uploadId : UploadId) : String := "blobs/" ++ uploadId

theorem blobRefFor_injective : Function.Injective blobRefFor := by
  intro a b h
  have h' : ("blobs/" ++ a).toList = ("blobs/" ++ b).toList := congrArg _ h
  rw [String.toList_append, String.toList_append] at h'
  exact String.toList_inj.mp (List.append_cancel_left h')

/-! ## Responses and idempotency -/

structure StoredResponse where
  status : Nat
  headers : List (String × String)
  body : List UInt8
  deriving DecidableEq

def StoredResponse.json (status : Nat) (body : List UInt8) : StoredResponse :=
  { status, headers := [("content-type", "application/json")], body }

def StoredResponse.noContent : StoredResponse := { status := 204, headers := [], body := [] }

structure IdempotencyContext where
  principalId : PrincipalId
  operation : String
  key : IdempotencyKey
  requestHash : String
  ownerToken : String
  resourceToken : String
  deriving DecidableEq

inductive IdempotencyDecision
  | owner (resourceToken : String)
  | replay (response : StoredResponse)
  | conflict

structure IdempotencyAcquire where
  context : IdempotencyContext
  now : Time
  leaseUntil : Time
  expiresAt : Time

structure IdempotencyComplete where
  context : IdempotencyContext
  response : StoredResponse
  now : Time
  expiresAt : Time

/-! ## Commands -/

structure MutationOutcome where
  object : Option ObjectView
  changes : List ChangeRecord
  noOp : Bool

structure MutationContext where
  now : Time
  requestId : RequestId
  idempotencyKey : Option IdempotencyKey
  idempotency : Option IdempotencyContext
  idempotencyExpiresAt : Time
  render : MutationOutcome → DomainResult StoredResponse

structure CreateObjectCommit where
  id : ObjectId
  kind : ObjectKind
  name : String
  parentId : ObjectId
  contentType : Option String
  metadata : Json
  ctx : MutationContext

structure PatchObjectCommit where
  id : ObjectId
  ifMatch : Option Revision
  newName : Option String
  newParentId : Option ObjectId
  metadataPatch : Option MetadataPatch
  ctx : MutationContext

structure DeleteObjectCommit where
  id : ObjectId
  ifMatch : Option Revision
  recursive : Bool
  ctx : MutationContext

structure CommitContent where
  uploadId : UploadId
  objectId : ObjectId
  ifMatch : Option Revision
  blobBackend : String
  blobRef : String
  size : Nat
  contentType : String
  sha256 : Option String
  gcNotBefore : Time
  ctx : MutationContext

structure CreateUploadRecord where
  id : UploadId
  objectId : ObjectId
  mode : UploadMode
  blobBackend : String
  blobRef : String
  expectedSize : Nat
  contentType : String
  expectedSha256 : Option String
  createdAt : Time
  expiresAt : Time
  -- the provider names the blob
  blobRef_eq : blobRef = blobRefFor id
  -- bookkeeping: in whose name the row is inserted; no statement reads it
  attempt : Option IdempotencyContext := none

structure UpdateUploadState where
  id : UploadId
  state : UploadState
  providerUploadId : Option String
  providerCompleted : Option Bool

structure AbortUploadRecord where
  id : UploadId
  now : Time
  gcNotBefore : Time

structure BlobGcEntry where
  blobBackend : String
  blobRef : String
  attempts : Nat

structure ReadChanges where
  cursor : Option CursorId
  limit : Nat
  now : Time
  cursorExpiresAt : Time

structure ChangePage where
  items : List ChangeRecord
  nextCursor : CursorId
  hasMore : Bool
  lag : Nat

end AnyStore
