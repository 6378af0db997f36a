import Mathlib.Logic.Function.Basic
import AnyStore.Lib.Locked
import AnyStore.Model.Services

/-!
# Assembling multipart uploads

How the three blob stores complete an upload: the local file system, the store
that keeps everything in memory, and the request that is sent to COS.
-/

namespace AnyStore

structure CompleteBlobUpload where
  blobRef : String
  mode : UploadMode
  providerUploadId : Option String
  parts : List CompletedPart

def CompleteBlobUpload.numbers (req : CompleteBlobUpload) : List Nat :=
  req.parts.map (·.partNumber)

/-- What a store that can hash says of a blob. -/
def statOf (sha256 : List UInt8 → String) (bytes : List UInt8) : BlobStat where
  size := bytes.length
  sha256 := some (sha256 bytes)

/-! ## The local file system -/

namespace LocalFs

open ReadCommitted (require whenever)

/-- The files under the root, by their paths below it. -/
abbrev Files := String → Option (List UInt8)

inductive FsOp : Type → Type 1
  | pathExists (path : String) : FsOp Bool
  -- `File::open`
  | openFile (path : String) : FsOp (Except String Unit)
  | read (path : String) : FsOp (Except String (List UInt8))
  -- `tokio::fs::write` creates or empties the file first
  | write (path : String) (bytes : List UInt8) : FsOp (Except String Unit)
  | removeDirAll (path : String) : FsOp Unit
  | createDirAll (path : String) : FsOp (Except String Unit)
  | removeFile (path : String) : FsOp (Except String Unit)

/-- What happens during one operation. -/
structure Io where
  -- why it fails, if it does
  error : Option String := none
  -- how many bytes a failing write leaves in the file, once it is created
  written : Option Nat := none
  -- the files that a failing removal leaves
  left : String → Bool := fun _ => false

abbrev Proc (α : Type) := Prog FsOp DomainError α

def noSuchFile : String := "No such file or directory (os error 2)"

def isUnder (dir path : String) : Bool := (dir ++ "/").toList.isPrefixOf path.toList

/-- What opening or reading a file gives. -/
def Io.access (io : Io) (file : Option (List UInt8)) : Except String (List UInt8) :=
  match io.error, file with
  | none, some bytes => .ok bytes
  | none, none => .error noSuchFile
  | some e, _ => .error e

/-- What a write leaves of the file. -/
def Io.written? (io : Io) (file : Option (List UInt8)) (bytes : List UInt8) : Option (List UInt8) :=
  match io.error, io.written with
  | none, _ => some bytes
  | some _, none => file
  | some _, some n => some (bytes.take n)

def exec (io : Io) : ∀ {β : Type}, FsOp β → Files → Option (β × Files)
  -- a path that cannot be looked at does not exist
  | _, .pathExists path, files => some ((files path).isSome && io.error.isNone, files)
  | _, .openFile path, files => some ((io.access (files path)).map fun _ => (), files)
  | _, .read path, files => some (io.access (files path), files)
  | _, .write path bytes, files =>
    some (io.error.elim (.ok ()) .error,
      Function.update files path (io.written? (files path) bytes))
  | _, .removeDirAll dir, files =>
    some ((), fun path =>
      if isUnder dir path && (io.error.isNone || !io.left path) then none else files path)
  -- directories are not kept
  | _, .createDirAll _, files => some (io.error.elim (.ok ()) .error, files)
  | _, .removeFile path, files =>
    match io.access (files path) with
    | .ok _ => some (.ok (), Function.update files path none)
    | .error e => some (.error e, files)

def machine : Machine FsOp Io Files where
  exec _ io _ op files := exec io op files
  crash _ files := files

def invalidReference : DomainError := .storageError "invalid blob reference"

/-- Whether a path stays below the root. -/
def isSafe (relative : String) : Bool :=
  relative.toList ≠ [] && relative.toList.head? ≠ some '/' &&
    (relative.toList.splitOn '/').all fun segment =>
      segment ≠ [] && segment ≠ ['.'] && segment ≠ ['.', '.'] &&
        !segment.contains (Char.ofNat 0x5C) && !segment.contains (Char.ofNat 0)

/-- `safe_join`. -/
def safeJoin (relative : String) : DomainResult String :=
  if isSafe relative then .ok relative else .error invalidReference

def partsDir (blobRef : String) : DomainResult String := safeJoin (blobRef ++ ".parts")

def partPath (partsDir : String) (number : Nat) : String := partsDir ++ "/" ++ toString number

/-- Runs an operation whose error is a storage error of this kind. -/
def orStorage {α : Type} (what : String) (op : FsOp (Except String α)) : Proc α := do
  match ← Prog.op op with
  | .ok a => return a
  | .error e => .fail (.storageError (what ++ ": " ++ e))

variable (sha256 : List UInt8 → String)

/-- The chunks of the file are read through one handle. -/
def hashAndSize (path : String) : Proc BlobStat := do
  orStorage "open blob failed" (.openFile path)
  return statOf sha256 (← orStorage "read blob failed" (.read path))

def stat (blobRef : String) : Proc BlobStat := do
  let path ← Prog.ofExcept (safeJoin blobRef)
  require (← Prog.op (.pathExists path)) DomainError.contentNotReady
  hashAndSize sha256 path

def assemble (partsDir : String) : List Nat → Proc (List UInt8)
  | [] => return []
  | number :: numbers => do
    let bytes ← orStorage ("missing uploaded part " ++ toString number)
      (.read (partPath partsDir number))
    return bytes ++ (← assemble partsDir numbers)

/-- The parts become the blob, and go. -/
def assembleBlob (path partsDir : String) (numbers : List Nat) : Proc Unit := do
  let assembled ← assemble partsDir (numbers.mergeSort (· ≤ ·))
  orStorage "assemble blob failed" (.write path assembled)
  Prog.op (.removeDirAll partsDir)

/-- A blob that is finalised already is not assembled again: the process may
have crashed after the provider call but before commit. -/
def assembleMissing (req : CompleteBlobUpload) (path : String) : Proc Unit := do
  if ← Prog.op (.pathExists path) then return ()
  else
    let dir ← Prog.ofExcept (partsDir req.blobRef)
    assembleBlob path dir req.numbers

def ensureUploadCompleted (req : CompleteBlobUpload) : Proc BlobStat := do
  let path ← Prog.ofExcept (safeJoin req.blobRef)
  whenever (req.mode = .multipart) (assembleMissing req path)
  require (← Prog.op (.pathExists path)) DomainError.contentNotReady
  stat sha256 req.blobRef

end LocalFs

/-! ## In memory -/

namespace MemoryBlobs

structure State where
  blobs : String → Option (List UInt8) := fun _ => none
  -- the uploaded parts of each blob, by part number
  parts : String → Option (Nat → Option (List UInt8)) := fun _ => none

abbrev Call (α : Type) := Locked State DomainError α

def State.putPart (s : State) (blobRef : String) (number : Nat) (bytes : List UInt8) : State :=
  let parts := (s.parts blobRef).getD fun _ => none
  { s with parts := Function.update s.parts blobRef (some (Function.update parts number (some bytes))) }

/-- The loop over the parts that the client names. -/
def assemble (parts : Nat → Option (List UInt8)) : List Nat → Option (List UInt8)
  | [] => some []
  | number :: numbers => do
    let bytes ← parts number
    return bytes ++ (← assemble parts numbers)

variable (sha256 : List UInt8 → String)

def ensureUploadCompleted (req : CompleteBlobUpload) : Call BlobStat := do
  let blob ← Locked.read fun s => s.blobs req.blobRef
  -- converges when the blob was already finalised before a crash
  if blob.isNone ∧ req.mode = .multipart then
    let removed ← Locked.change fun s =>
      (s.parts req.blobRef, { s with parts := Function.update s.parts req.blobRef none })
    let parts ← Locked.orFail DomainError.contentNotReady removed
    let assembled ← Locked.orFail .contentNotReady (assemble parts req.numbers)
    Locked.write fun s => { s with blobs := Function.update s.blobs req.blobRef (some assembled) }
  let blob ← Locked.read fun s => s.blobs req.blobRef
  Locked.orFail .contentNotReady (blob.map (statOf sha256))

end MemoryBlobs

/-! ## COS -/

namespace Cos

/-- `str::replace` of one character. -/
def replaceChar (old : Char) (new : String) (value : String) : String :=
  String.ofList (value.toList.flatMap fun c => if c = old then new.toList else [c])

def escapeXml (value : String) : String :=
  replaceChar '"' "&quot;" (replaceChar '>' "&gt;" (replaceChar '<' "&lt;"
    (replaceChar '&' "&amp;" value)))

def partXml (part : CompletedPart) : String :=
  "<Part><PartNumber>" ++ toString part.partNumber ++ "</PartNumber><ETag>" ++
    escapeXml part.etag ++ "</ETag></Part>"

def completeMultipartBody (parts : List CompletedPart) : String :=
  let sorted := parts.mergeSort (·.partNumber ≤ ·.partNumber)
  (sorted.foldl (fun xml part => xml ++ partXml part) "<CompleteMultipartUpload>") ++
    "</CompleteMultipartUpload>"

end Cos

end AnyStore
