import AnyStore.Lib.Posix
import AnyStore.Model.Transport

/-!
# Files of the local blob store

Where `anystore-blobstore-local` reads and writes: the operations of the store
and the transport as programs over paths below the root, and where such a path
leads once it is joined to the root.
-/

namespace AnyStore.LocalFs

open ReadCommitted (whenever)

/-! ## Paths -/

def underRoot (root relative : String) : String :=
  String.ofList (Posix.join root.toList relative.toList)

/-- `safe_join`, with the root. -/
def safeJoinAt (root relative : String) : DomainResult String :=
  (safeJoin relative).map (underRoot root)

/-- `Path::parent`; the root itself is the empty path. -/
def parent (path : String) : String :=
  String.ofList ((path.toList.reverse.dropWhile (· ≠ '/')).drop 1).reverse

/-- The path that an operation is about. -/
def FsOp.path : ∀ {β : Type}, FsOp β → String
  | _, .pathExists path => path
  | _, .openFile path => path
  | _, .read path => path
  | _, .write path _ => path
  | _, .removeDirAll path => path
  | _, .createDirAll path => path
  | _, .removeFile path => path

/-! ## The store -/

section Store

variable (hmac : List UInt8 → List UInt8 → List UInt8) (store : Store)

def prepareUpload (uploadId : UploadId) (mode : UploadMode) (partSize : Nat) (now : Int)
    (expiresIn : Nat) : Proc PreparedUpload := do
  let blobRef := blobRefFor uploadId
  let path ← Prog.ofExcept (safeJoin blobRef)
  orStorage "create blob dir failed" (.createDirAll (parent path))
  let expiresAt := now + expiresIn
  match mode with
  | .single => return {
      blobRef, mode, expiresAt
      providerUploadId := none
      single := some { method := "PUT", url := signedUrl hmac store "PUT" blobRef now expiresIn none }
      partSize := none }
  | .multipart =>
    let dir ← Prog.ofExcept (partsDir blobRef)
    orStorage "create parts dir failed" (.createDirAll dir)
    return {
      blobRef, mode, expiresAt
      providerUploadId := some uploadId
      single := none
      partSize := some partSize }

end Store

def abortUpload (blobRef : String) : Proc Unit := do
  let dir ← Prog.ofExcept (partsDir blobRef)
  Prog.op (.removeDirAll dir)

def deleteBlob (blobRef : String) : Proc Unit := do
  let path ← Prog.ofExcept (safeJoin blobRef)
  match ← Prog.op (.removeFile path) with
  | .ok () => return ()
  | .error e =>
    -- a missing blob counts as success, so that garbage collection converges
    if e = noSuchFile then return ()
    else .fail (.storageError ("delete blob failed: " ++ e))

/-! ## The transport -/

structure UploadResponse where
  response : Response
  etag : Option String := none

variable (hmac : List UInt8 → List UInt8 → List UInt8) (store : Store)

/-- The handler of PUT. -/
def upload (now : Int) (path : String) (query : Option String) (body : List UInt8) :
    Proc UploadResponse :=
  match checkSignature hmac store now "PUT" path query with
  | .error response => return { response }
  | .ok _ =>
    match safeJoin path with
    | .error _ => return { response := deny 400 "invalid path" }
    | .ok target => do
      match ← Prog.op (.createDirAll (parent target)) with
      | .error _ => return { response := deny 500 "cannot create directory" }
      | .ok () =>
        match ← Prog.op (.write target body) with
        | .error _ => return { response := deny 500 "cannot write blob" }
        | .ok () => return {
            response := { status := 200, body := [] }
            etag := some ("\"" ++ toString body.length ++ "\"") }

/-- What the store and the transport are asked for. -/
inductive FileRequest
  | prepareUpload (uploadId : UploadId) (mode : UploadMode) (partSize : Nat) (expiresIn : Nat)
  | ensureUploadCompleted (req : CompleteBlobUpload)
  | abortUpload (blobRef : String)
  | stat (blobRef : String)
  | deleteBlob (blobRef : String)
  -- with the path as it is decoded from the URL
  | upload (path : String) (query : Option String) (body : List UInt8)
  | download (path : String) (query : Option String)

variable (sha256 : List UInt8 → String)

/-- How each is served, but for the answer. -/
def serveFile (now : Int) : FileRequest → Proc Unit
  | .prepareUpload uploadId mode partSize expiresIn => do
    let _ ← prepareUpload hmac store uploadId mode partSize now expiresIn
    return ()
  | .ensureUploadCompleted req => do let _ ← ensureUploadCompleted sha256 req; return ()
  | .abortUpload blobRef => abortUpload blobRef
  | .stat blobRef => do let _ ← stat sha256 blobRef; return ()
  | .deleteBlob blobRef => deleteBlob blobRef
  | .upload path query body => do let _ ← upload hmac store now path query body; return ()
  | .download path query => do let _ ← download hmac store now path query; return ()

end AnyStore.LocalFs
