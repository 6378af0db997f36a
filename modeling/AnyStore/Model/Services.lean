import Mathlib.Algebra.Group.Int.Defs
import AnyStore.Model.Idempotency

/-!
# Upload sessions, maintenance and the blob provider

The provider (Tencent COS) as its adapter sees it, `UploadService` and the two
passes of `MaintenanceService` that talk to it.
-/

namespace AnyStore

open ReadCommitted

/-! ## The provider -/

def providerFailed : DomainError := .storageError "COS request failed"

/-- A request to the provider. Unless it fails it takes effect, and unless
something goes wrong its answer arrives. -/
def providerCall {α : Type} (label : Label) (possible : Env → World → Bool)
    (effect : Env → World → World) (answer : Env → α) : Store α := do
  let r ← outside label fun e w =>
    match e.fault with
    | .failed => some (Except.error providerFailed, w)
    -- the request got through, and its answer did not
    | .lost => if possible e w then some (.error providerFailed, effect e w) else none
    | .none => if possible e w then some (.ok (answer e), effect e w) else none
  Prog.ofExcept r

/-- `initiate_multipart`; the provider makes up the id. -/
def initiateMultipart (blobRef : String) : Store String :=
  providerCall (.initiateMultipart blobRef)
    -- the provider never gives an id twice
    (fun e w => e.fresh ∉ w.multipart.map (·.id))
    (fun e w => { w with multipart := ⟨e.fresh, blobRef, .opened⟩ :: w.multipart })
    (fun e => e.fresh)

/-- Closes the session with this id and blob, if it is open. -/
def World.closeSession (w : World) (id blobRef : String) (status : SessionStatus) : World :=
  { w with multipart := w.multipart.map fun m =>
      -- a session that is closed stays as it is
      if m.id = id ∧ m.blobRef = blobRef ∧ m.status = .opened then { m with status } else m }

def headBlob : Store (Option BlobStat) :=
  providerCall .other (fun _ _ => true) (fun _ w => w) (fun e => e.stat)

/-- The completion request of a multipart upload; `false` when the provider
reports a failure. It may do so although the upload is complete. -/
def completeMultipart (blobRef id : String) : Store Bool := do
  let r ← outside .other fun e w =>
    -- that the request was sent is recorded whatever becomes of it
    let sent := { w with completions := (blobRef, id) :: w.completions }
    match e.fault with
    | .none => some (Except.ok true, sent.closeSession id blobRef .completed)
    | .failed => some (if e.stat.isSome then .ok false else .error providerFailed, sent)
    | .lost => some (if e.stat.isSome then .ok false else .error providerFailed,
        sent.closeSession id blobRef .completed)
  Prog.ofExcept r

structure SignedRequest where
  method : String
  url : String

structure PreparedUpload where
  blobRef : String
  mode : UploadMode
  providerUploadId : Option String
  single : Option SignedRequest
  partSize : Option Nat
  expiresAt : Time

structure SignedPart where
  partNumber : Nat
  method : String
  url : String

variable (app : AppState)

def objectPath (blobRef : String) : String := "/" ++ blobRef

def prepareUpload (uploadId : UploadId) (mode : UploadMode) : Store PreparedUpload := do
  let blobRef := blobRefFor uploadId
  let expiresAt := (← utcNow) + app.uploadUrlExpiry
  match mode with
  -- nothing is asked of the provider: the URL is signed here
  | .single => return {
      blobRef, mode, expiresAt
      providerUploadId := none
      single := some { method := "PUT", url := app.presign "PUT" (objectPath blobRef) [] app.uploadUrlExpiry }
      partSize := none }
  | .multipart =>
    let id ← initiateMultipart blobRef
    return {
      blobRef, mode, expiresAt
      providerUploadId := some id
      single := none
      partSize := some app.partSize }

/-- `sign_parts`; which upload id the URLs carry is recorded. -/
def signParts (blobRef id : String) (partNumbers : List Nat) : Store (List SignedPart) :=
  outside .other fun _ w => some (
    partNumbers.map fun n => {
      partNumber := n
      method := "PUT"
      url := app.presign "PUT" (objectPath blobRef)
        [("partNumber", toString n), ("uploadId", id)] app.uploadUrlExpiry },
    { w with signedParts := (blobRef, id) :: w.signedParts })

structure CompletedPart where
  partNumber : Nat
  etag : String

def ensureUploadCompleted (blobRef : String) (mode : UploadMode) (providerUploadId : Option String)
    (parts : List CompletedPart) : Store BlobStat := do
  match mode with
  -- the client has put the blob itself, or not
  | .single => Prog.orFail .contentNotReady (← headBlob)
  | .multipart =>
    let id ← Prog.orFail (.storageError "multipart upload has no provider id") providerUploadId
    require (parts ≠ [])
      (DomainError.invalidRequest "Multipart completion requires the uploaded parts.")
    if ← completeMultipart blobRef id then Prog.orFail .contentNotReady (← headBlob)
    else
      -- the upload may already have been finalised before a crash
      Prog.orFail (.storageError "completing multipart upload") (← headBlob)

/-- Without a provider upload id there is nothing to abort. -/
def abortProviderUpload (blobRef : String) (providerUploadId : Option String) : Store Unit :=
  match providerUploadId with
  | none => pure ()
  | some id => providerCall .other (fun _ _ => true)
      (fun _ w => w.closeSession id blobRef .aborted) (fun _ => ())

def deleteBlob (backend blobRef : String) : Store Unit :=
  providerCall .other (fun _ _ => true)
    (fun _ w => { w with deleted := (backend, blobRef) :: w.deleted }) (fun _ => ())

/-- `BlobRegistry::get`. -/
def blobStore (backend : String) : Store Unit :=
  require (backend = app.backendId)
    (DomainError.internal ("blob backend " ++ backend ++ " is not configured"))

/-! ## Requests -/

structure CreateUploadRequest where
  objectId : ObjectId
  size : Nat
  contentType : Option String
  sha256 : Option String

def validateSha256 (value : String) : DomainResult Unit :=
  if value.length = 64 ∧ value.toList.all fun c => c.isDigit || "abcdef".contains c.toLower then
    .ok ()
  else .error (.invalidRequest "sha256 must be a 64-character hexadecimal digest.")

def isTokenChar (c : Char) : Bool :=
  c.isAlphanum || "!#$%&'*+-.^_|~".toList.contains c || c.toNat = 0x60

def isToken (cs : List Char) : Bool := cs ≠ [] ∧ cs.all isTokenChar

def isSpace (c : Char) : Bool := c = ' ' || c = '\t'

def isVisible (c : Char) : Bool := 0x21 ≤ c.toNat ∧ c.toNat ≤ 0x7e

def maxContentTypeBytes : Nat := 255

def validateContentType (value : String) : DomainResult Unit :=
  let cs := value.toList
  -- what stands before the parameters, trimmed
  let essence := (((cs.takeWhile (· ≠ ';')).dropWhile isSpace).reverse.dropWhile isSpace).reverse
  if cs ≠ [] ∧ value.utf8ByteSize ≤ maxContentTypeBytes ∧
      cs.all (fun c => isVisible c || isSpace c) ∧ '/' ∈ essence ∧
      isToken (essence.takeWhile (· ≠ '/')) ∧ isToken ((essence.dropWhile (· ≠ '/')).drop 1) then
    .ok ()
  else .error (.invalidRequest
    "content_type must be a media type such as application/pdf, at most 255 bytes.")

structure CreateObjectRequest where
  kind : ObjectKind
  name : String
  parentId : Option ObjectId
  contentType : Option String
  metadata : Option Json

/-- The document of a create request; without one the object gets the empty one. -/
def CreateObjectRequest.document (req : CreateObjectRequest) : Json :=
  req.metadata.getD (.obj .nil)

/-- What `ObjectService::create` checks before an attempt claims its record. -/
def CreateObjectRequest.validate (req : CreateObjectRequest) : DomainResult Unit := do
  validateName req.name
  validateMetadataDocument req.document
  -- only files have content
  if req.kind = .folder ∧ req.contentType.isSome then
    .error (.invalidRequest "content_type is only valid for files.")
  else req.contentType.elim (.ok ()) validateContentType

/-- The command that `ObjectService::create` sends under a new id. -/
def CreateObjectRequest.commit (req : CreateObjectRequest) (id : ObjectId) (ctx : MutationContext) :
    CreateObjectCommit where
  id := id
  kind := req.kind
  name := req.name
  parentId := req.parentId.getD rootId
  contentType := req.contentType
  metadata := req.document
  ctx := ctx

/-- `derived_id`: a retry under the same record derives the same id. -/
def derivedId (pre : String) (ictx : IdempotencyContext) : String :=
  pre ++ app.sha256Hex ("\x00".intercalate
    -- no field can run into the next one
    [ictx.principalId, ictx.operation, ictx.key, ictx.requestHash, ictx.resourceToken])

/-! ## Responses -/

def uploadSessionJson (uploadId : UploadId) (objectId : ObjectId) (prepared : PreparedUpload) :
    Json :=
  .obj (.cons "id" (.str uploadId) (.cons "object_id" (.str objectId)
    (match prepared.mode with
    -- the client is told where to put the blob
    | .single => .cons "mode" (.str "single") (match prepared.single with
      | some r => .cons "upload" (.obj (.cons "method" (.str r.method)
          (.cons "url" (.str r.url) (.cons "headers" (.obj .nil) .nil)))) tail
      | none => tail)
    | .multipart => .cons "mode" (.str "multipart")
      (.cons "part_size" (match prepared.partSize with | some n => .int n | none => .null) tail))))
where
  tail : Members := .cons "expires_at" (.str (app.timestamp prepared.expiresAt)) .nil

def partsJson (parts : List SignedPart) : Json :=
  .obj (.cons "parts" (.arr (parts.foldr (fun p xs => .cons (.obj
    (.cons "part_number" (.int p.partNumber) (.cons "method" (.str p.method)
      (.cons "url" (.str p.url) .nil)))) xs) .nil)) .nil)

def uploadCompleteJson (view : ObjectView) : Json :=
  let o := view.object
  .obj (.cons "object_id" (.str view.id) (.cons "revision" (.int o.revision)
    (.cons "content_state" (match o.contentState with
      | some .none => .str "none" | some .ready => .str "ready" | none => .null)
    (.cons "size" (match o.sizeBytes with | some n => .int n | none => .null)
    (.cons "sha256" (match o.sha256 with | some h => .str h | none => .null) .nil)))))

def renderUploadComplete (outcome : MutationOutcome) : DomainResult StoredResponse :=
  match outcome.object with
  | some view => .ok (.json 200 (app.toVec (uploadCompleteJson view)))
  -- no commit of content is without its object
  | none => .error (.internal "content commit produced no object")

def mutationContext (ctx : RequestContext) (ictx : Option IdempotencyContext)
    (render : MutationOutcome → DomainResult StoredResponse) : MutationContext where
  now := ctx.now
  requestId := ctx.requestId
  idempotencyKey := ctx.idempotencyKey
  idempotency := ictx
  idempotencyExpiresAt := ctx.now + app.idempotencyRetention
  render := render

/-! ## UploadService -/

/-- What the state of the record calls for: preparing an upload at the provider
or handing out what is recorded. -/
def prepareSession (ctx : RequestContext) (upload : UploadRecord) : Store PreparedUpload :=
  match upload.row.state with
  | .initiating => do
    let prepared ← prepareUpload app upload.id upload.row.mode
    -- only now the id of the session is recorded
    updateUploadState {
      id := upload.id
      state := .ready
      providerUploadId := prepared.providerUploadId
      providerCompleted := none }
    return prepared
  | .ready | .completing =>
    match upload.row.mode with
    -- a URL may be signed as often as one likes
    | .single => prepareUpload app upload.id upload.row.mode
    -- preparing creates provider state, so the recorded id is reused
    | .multipart => return {
        blobRef := upload.row.blobRef
        mode := upload.row.mode
        providerUploadId := upload.row.providerUploadId
        single := none
        partSize := some app.partSize
        expiresAt := ctx.now + app.uploadUrlExpiry }
  | .completed | .aborted | .expired => .fail .uploadNotFound

/-- `get_object`; PL/pgSQL reads the row and the path in one statement, and what
it returns is parsed by the client. -/
def getObject (a : Adapter) (id : ObjectId) : Store (Option ObjectView) :=
  match a with
  | .sqlx => loadView id
  | .rpc => do
    requireText id
    -- one statement, one snapshot
    match ← run (select fun db => (db.live id).map fun o => ObjectView.mk id o (db.path id)) with
    | none => return none
    | some view =>
      let view ← Prog.orFail a.unparsed (view.read a.viewRoom)
      return some view

def uploadIdFor (ictx : Option IdempotencyContext) : Store UploadId :=
  match ictx with
  | some ictx => pure (derivedId app "upload_" ictx)
  -- without a key there is no retry, so the id is new
  | none => do return "upload_" ++ (← ulid none)

def createUpload (req : CreateUploadRequest) (ctx : RequestContext) : Store StoredResponse :=
  idempotencyRunWithCompletion app ctx fun ictx => do
    let target ← Prog.orFail .objectNotFound (← getObject app.adapter req.objectId)
    require (target.object.kind = .file) DomainError.notAFile
    Prog.ofExcept (req.sha256.elim (.ok ()) validateSha256)
    Prog.ofExcept (req.contentType.elim (.ok ()) validateContentType)
    let contentType := (req.contentType.or target.object.contentType).getD "application/octet-stream"
    let mode := if app.multipartThreshold < req.size then UploadMode.multipart else .single
    let uploadId ← uploadIdFor app ictx
    -- the row is written before the provider is contacted
    -- a retry finds the row of its first attempt
    let (upload, _) ← createUploadRecord {
      id := uploadId
      objectId := req.objectId
      mode
      blobBackend := app.backendId
      blobRef := blobRefFor uploadId
      blobRef_eq := rfl
      expectedSize := req.size
      contentType
      expectedSha256 := req.sha256
      createdAt := ctx.now
      expiresAt := ctx.now + app.uploadExpiry
      attempt := ictx }
    let prepared ← prepareSession app ctx upload
    return .json 201 (app.toVec (uploadSessionJson app upload.id upload.row.objectId prepared))

def maxPartNumber : Nat := 10000

def allocateParts (id : UploadId) (partNumbers : List Nat) (ctx : RequestContext) :
    Store StoredResponse :=
  idempotencyRunWithCompletion app ctx fun _ => do
    let upload ← Prog.orFail .uploadNotFound (← getUpload id)
    require (upload.row.state ≠ .aborted ∧ upload.row.state ≠ .expired) DomainError.uploadNotFound
    require (upload.row.mode = .multipart)
      (DomainError.invalidRequest "This upload session is not multipart.")
    require (partNumbers ≠ []) (DomainError.invalidRequest "part_numbers must not be empty.")
    require (partNumbers.length ≤ app.maxPartNumbers)
      (DomainError.invalidRequest "Too many part numbers requested.")
    require (∀ n ∈ partNumbers, n ≠ 0 ∧ n ≤ maxPartNumber)
      (DomainError.invalidRequest "part_numbers must be between 1 and 10000.")
    -- a session whose id was never recorded cannot be signed for
    let providerUploadId ← Prog.orFail (.internal "multipart upload has no provider id")
      upload.row.providerUploadId
    blobStore app upload.row.blobBackend
    let parts ← signParts app upload.row.blobRef providerUploadId partNumbers
    return .json 200 (app.toVec (partsJson parts))

/-- The checksum that a completed upload is stored with. -/
def checkStat (u : UploadRow) (stat : BlobStat) : Store (Option String) := do
  require (stat.size = u.expectedSize) (DomainError.checksumMismatch
    ("Uploaded size " ++ toString stat.size ++ " does not match the declared size " ++
      toString u.expectedSize ++ "."))
  require (∀ expected ∈ u.expectedSha256, ∀ actual ∈ stat.sha256, expected.toLower = actual.toLower)
    (DomainError.checksumMismatch "Uploaded content does not match the supplied SHA-256.")
  -- a provider that does not hash leaves the declared checksum
  return stat.sha256.or u.expectedSha256

def commitUpload (ctx : RequestContext) (ictx : Option IdempotencyContext) (upload : UploadRecord)
    (size : Nat) (contentType : String) (sha256 : Option String) : Store StoredResponse :=
  commitContent app.adapter {
    uploadId := upload.id
    objectId := upload.row.objectId
    ifMatch := ctx.ifMatch
    blobBackend := upload.row.blobBackend
    blobRef := upload.row.blobRef
    size
    contentType
    sha256
    gcNotBefore := ctx.now + app.gcGrace
    ctx := mutationContext app ctx ictx (renderUploadComplete app) }

def completeUploadSession (id : UploadId) (parts : List CompletedPart) (ctx : RequestContext) :
    Store StoredResponse :=
  idempotencyRun app ctx fun ictx => do
    let upload ← Prog.orFail .uploadNotFound (← getUpload id)
    require upload.row.state.isCompletable DomainError.uploadNotFound
    let target ← Prog.orFail .objectNotFound (← getObject app.adapter upload.row.objectId)
    require (target.object.kind = .file) DomainError.notAFile
    -- fail fast on a stale revision so no provider work is done
    checkIfMatch target.object.revision ctx.ifMatch
    -- the content was committed: only the answer is made again
    if upload.row.state = .completed then
      let size ← Prog.orFail (.internal "completed upload target has no size")
        target.object.sizeBytes
      let contentType ← Prog.orFail (.internal "completed upload target has no content type")
        target.object.contentType
      commitUpload app ctx ictx upload size contentType target.object.sha256
    else
      updateUploadState {
        id, state := .completing, providerUploadId := none, providerCompleted := none }
      blobStore app upload.row.blobBackend
      -- no transaction is open while the provider works
      let stat ← ensureUploadCompleted upload.row.blobRef upload.row.mode
        upload.row.providerUploadId parts
      let sha256 ← checkStat upload.row stat
      commitUpload app ctx ictx upload stat.size upload.row.contentType sha256

def abortUploadSession (id : UploadId) (ctx : RequestContext) : Store StoredResponse :=
  idempotencyRunWithCompletion app ctx fun _ => do
    let upload ← Prog.orFail .uploadNotFound (← getUpload id)
    -- the content is live and not for this call to remove
    if upload.row.state = .completed then return .noContent
    else
      blobStore app upload.row.blobBackend
      -- provider cleanup is best effort
      let _ ← ((abortProviderUpload upload.row.blobRef upload.row.providerUploadId).attempt :
        Store (Except DomainError Unit))
      -- the blob is queued, whatever the provider has said
      abortUploadRecord { id, now := ctx.now, gcNotBefore := ctx.now }
      return .noContent

/-! ## MaintenanceService -/

def abortEach : List UploadRecord → Store Unit
  | [] => pure ()
  | upload :: uploads => do
    -- the row has expired already, so a failure is left to the provider
    let _ ← ((do
      blobStore app upload.row.blobBackend
      abortProviderUpload upload.row.blobRef upload.row.providerUploadId : Store Unit).attempt :
        Store (Except DomainError Unit))
    abortEach uploads

def abortExpiredUploads (now : Time) : Store Nat := do
  let expired ← claimExpiredUploads now app.gcBatchSize
  abortEach app expired
  return expired.length

/-- Exponential backoff. -/
def backoff (attempts : Nat) : Int := 60 * 2 ^ (min attempts 10) * 1000000

/-- Deletes claimed blobs; the counts are of those deleted and those failed. -/
def collectEach (now : Time) : List BlobGcEntry → Store (Nat × Nat)
  | [] => return (0, 0)
  | entry :: batch => do
    -- an entry of another provider fails until its lease runs out
    if entry.blobBackend = app.backendId then
      match ← ((deleteBlob entry.blobBackend entry.blobRef).attempt :
          Store (Except DomainError Unit)) with
      | .ok () =>
        -- the entry goes only behind the blob
        finishGc entry
        let (deleted, failed) ← collectEach now batch
        return (deleted + 1, failed)
      | .error _ =>
        -- it is tried again later
        failGc entry "COS request failed" (now + backoff entry.attempts)
        let (deleted, failed) ← collectEach now batch
        return (deleted, failed + 1)
    else
      let (deleted, failed) ← collectEach now batch
      return (deleted, failed + 1)

def collectBlobs (now : Time) : Store (Nat × Nat) := do
  let batch ← claimGcBatch now app.gcBatchSize
  collectEach app now batch

/-! ## The system -/

/-- An object mutation, up to the idempotency context of the attempt. -/
inductive Mutation
  | create (cmd : CreateObjectCommit)
  | patch (cmd : PatchObjectCommit)
  | delete (cmd : DeleteObjectCommit)
  | commit (cmd : CommitContent)

def MutationContext.withIdempotency (ctx : MutationContext) (ictx : Option IdempotencyContext) :
    MutationContext :=
  { ctx with idempotency := ictx }

def Mutation.run (m : Mutation) (ictx : Option IdempotencyContext) : Store StoredResponse :=
  match m with
  | .create cmd => createObject app.adapter { cmd with ctx := cmd.ctx.withIdempotency ictx }
  | .patch cmd => patchObject app.adapter { cmd with ctx := cmd.ctx.withIdempotency ictx }
  | .delete cmd => deleteObject app.adapter { cmd with ctx := cmd.ctx.withIdempotency ictx }
  | .commit cmd => commitContent app.adapter { cmd with ctx := cmd.ctx.withIdempotency ictx }

inductive Request
  | mutate (ctx : RequestContext) (m : Mutation)
  | createUpload (req : CreateUploadRequest) (ctx : RequestContext)
  | allocateParts (id : UploadId) (partNumbers : List Nat) (ctx : RequestContext)
  | completeUpload (id : UploadId) (parts : List CompletedPart) (ctx : RequestContext)
  | abortUpload (id : UploadId) (ctx : RequestContext)
  | createUploadRecord (cmd : CreateUploadRecord)
  | updateUploadState (cmd : UpdateUploadState)
  | abortUploadRecord (cmd : AbortUploadRecord)
  | abortExpiredUploads (now : Time)
  | collectBlobs (now : Time)
  | readChanges (req : ReadChanges)
  | purgeChanges (olderThan : Time)
  | purgeIdempotencyRecords (now : Time)
  | purgeChangeCursors (now : Time)

inductive Response
  | stored (response : StoredResponse)
  | page (page : ChangePage)
  | done

def serve : Request → Store Response
  | .mutate ctx m => do return .stored (← idempotencyRun app ctx (m.run app))
  | .createUpload req ctx => do return .stored (← createUpload app req ctx)
  | .allocateParts id partNumbers ctx => do return .stored (← allocateParts app id partNumbers ctx)
  | .completeUpload id parts ctx => do return .stored (← completeUploadSession app id parts ctx)
  | .abortUpload id ctx => do return .stored (← abortUploadSession app id ctx)
  | .createUploadRecord cmd => do let _ ← createUploadRecord cmd; return .done
  | .updateUploadState cmd => do updateUploadState cmd; return .done
  | .abortUploadRecord cmd => do abortUploadRecord cmd; return .done
  | .abortExpiredUploads now => do let _ ← abortExpiredUploads app now; return .done
  | .collectBlobs now => do let _ ← collectBlobs app now; return .done
  | .readChanges req => do return .page (← readChanges app.adapter req)
  | .purgeChanges olderThan => do let _ ← purgeChanges olderThan; return .done
  | .purgeIdempotencyRecords now => do let _ ← purgeIdempotencyRecords now; return .done
  | .purgeChangeCursors now => do let _ ← purgeChangeCursors now; return .done

/-- The store as the first migration leaves it. -/
def initialDb (now : Time) : Db :=
  (AList.singleton (Row.object rootId) ({
      revision := Revision.initial
      kind := .folder
      name := ""
      parentId := none
      metadata := .obj .nil
      createdAt := now
      updatedAt := now } : ObjectRow)).insert .retention (0 : Nat)

def initialState (now : Time) : DbState := { db := initialDb now, world := {} }

abbrev System := Config Op DbState Request DomainError Response

/-- The machine of the store. -/
abbrev store : Machine Op (Choice Row Env) DbState := machine liveNameUq

end AnyStore
