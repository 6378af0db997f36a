import AnyStore.Lib.Decimal
import AnyStore.Lib.Percent
import AnyStore.Model.BlobStores
import AnyStore.Model.Http

/-!
# Signed URLs of the local blob store

What `anystore-blobstore-local` signs, the URLs that it hands out, and what its
transport makes of the query of a request. HMAC-SHA256 is a parameter: a key and
a message give the authentication code.
-/

namespace AnyStore.LocalFs

/-! ## Signing -/

/-- The set that `encode_component` escapes; `CONTROLS` are the first 32
characters and the last one. -/
def component : Percent.AsciiSet := fun b =>
  b < 0x20 || b == 0x7F ||
    [0x20, 0x22, 0x23, 0x26, 0x2B, 0x2F, 0x3C, 0x3D, 0x3E, 0x3F, 0x25, 0x5C, 0x5E, 0x60, 0x7B, 0x7C,
      0x7D].contains b

def encodeComponent (value : String) : String := Percent.write component value

/-- What is authenticated: the method, path, expiry and file name together. -/
def macMessage (method path : String) (expires : Int) (filename : Option String) : List UInt8 :=
  Utf8.encode method ++ 0x0A :: (Utf8.encode path ++ 0x0A :: (Decimal.print expires ++
    0x0A :: Utf8.encode (filename.getD "")))

structure Store where
  baseUrl : String
  secret : List UInt8

variable (hmac : List UInt8 → List UInt8 → List UInt8) (store : Store)

def sign (method path : String) (expires : Int) (filename : Option String) : String :=
  hexEncode (hmac store.secret (macMessage method path expires filename))

/-- Compares in constant time. -/
def verify (method path : String) (expires : Int) (filename : Option String)
    (presented : String) : Bool :=
  let expected := Utf8.encode (sign hmac store method path expires filename)
  let presented := Utf8.encode presented
  if expected.length ≠ presented.length then false
  else (expected.zip presented).foldl (fun acc p => acc ||| (p.1 ^^^ p.2)) 0 == 0

/-! ## URLs -/

/-- The last second in which a URL is good; `i64` arithmetic wraps around. -/
def expiry (now : Int) (expiresIn : Nat) : Int :=
  (now + (expiresIn : Int).bmod (2 ^ 64)).bmod (2 ^ 64)

def signedQuery (method path : String) (now : Int) (expiresIn : Nat) (filename : Option String) :
    String :=
  let expires := expiry now expiresIn
  let query := "exp=" ++ toString expires ++ "&sig=" ++ sign hmac store method path expires filename
  match filename with
  | some filename => query ++ "&filename=" ++ encodeComponent filename
  | none => query

/-- The URL below the base. -/
def signedTarget (method path : String) (now : Int) (expiresIn : Nat) (filename : Option String) :
    String :=
  "/dev-blobs/" ++ path ++ "?" ++ signedQuery hmac store method path now expiresIn filename

def signedUrl (method path : String) (now : Int) (expiresIn : Nat) (filename : Option String) :
    String :=
  store.baseUrl ++ signedTarget hmac store method path now expiresIn filename

/-- Upload ids are the server's own: a ULID or a digest behind a prefix. -/
def IsUploadId (id : UploadId) : Prop :=
  ∃ tail : String, id = "upload_" ++ tail ∧ ∀ c ∈ tail.toList, c.isAlphanum = true

/-- The requests that `prepare_upload`, `sign_parts` and `sign_download` sign. -/
inductive Signs : String → String → Option String → Prop
  | blob {id : UploadId} : IsUploadId id → Signs "PUT" (blobRefFor id) none
  | part {id : UploadId} (number : Nat) : IsUploadId id →
      Signs "PUT" (partPath (blobRefFor id ++ ".parts") number) none
  | download {id : UploadId} (filename : String) : IsUploadId id →
      Signs "GET" (blobRefFor id) (some filename)

/-! ## The transport -/

/-- The path and the raw query of a request for a target. A client does not send
what follows `#`; the route matches the decoded rest of the path.

The router itself refuses two targets that are routed here: one whose decoded path is
not UTF-8, which is read with replacement characters, and one without a rest. Neither
is the target of a signed request. -/
def routed (target : String) : Option (String × Option String) :=
  let sent := (Utf8.encode target).takeWhile (· ≠ 0x23)
  let route := Utf8.encode "/dev-blobs/"
  if route.isPrefixOf sent then
    match FormUrl.splitOnce 0x3F (sent.drop route.length) with
    | some (path, query) => some (Percent.readText path, some (Utf8.fromUtf8Lossy query))
    | none => some (Percent.readText (sent.drop route.length), none)
  else none

/-- The first parameter of this name; a piece without `=` is none. -/
def param (query : Option String) (key : String) : Option String :=
  query.bind fun query =>
    ((Utf8.encode query).splitOn 0x26).findSome? fun pair =>
      (FormUrl.splitOnce 0x3D pair).bind fun (k, v) =>
        if k = Utf8.encode key then some (Percent.readText v) else none

structure Response where
  status : Nat
  body : List UInt8
  contentDisposition : Option String := none

def deny (status : Nat) (message : String) : Response := ⟨status, Utf8.encode message, none⟩

def checkSignature (now : Int) (method path : String) (query : Option String) :
    Except Response (Option String) := do
  let expires ← ((param query "exp").bind fun v => parseI64 (Utf8.encode v)).elim
    (.error (deny 403 "missing expiry")) .ok
  let signature ← (param query "sig").elim (.error (deny 403 "missing signature")) .ok
  let filename := param query "filename"
  if expires < now then .error (deny 403 "signature expired")
  else if verify hmac store method path expires filename signature then .ok filename
  else .error (deny 403 "invalid signature")

/-- The header that names a download. -/
def contentDisposition (filename : String) : String :=
  "attachment; filename*=UTF-8''" ++ encodeComponent filename

/-- The handler of GET. -/
def download (now : Int) (path : String) (query : Option String) : Prog FsOp DomainError Response :=
  match checkSignature hmac store now "GET" path query with
  | .error response => return response
  | .ok filename =>
    match safeJoin path with
    | .error _ => return deny 400 "invalid path"
    | .ok target => do
      match ← Prog.op (.read target) with
      | .error _ => return deny 404 "not found"
      | .ok bytes => return {
          status := 200
          body := bytes
          contentDisposition := filename.map contentDisposition }

end AnyStore.LocalFs
