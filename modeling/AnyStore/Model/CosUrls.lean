import Mathlib.Data.Prod.Lex
import Mathlib.Data.String.Basic
import AnyStore.Lib.Percent
import AnyStore.Model.BlobStores
import AnyStore.Model.Http

/-!
# Signed URLs of the COS store

COS v5 request signing as `anystore-blobstore-cos` does it, and the URLs that
carry the signature. HMAC-SHA1 and SHA-1 are parameters.
-/

namespace AnyStore.Cos

/-! ## Encoding -/

/-- The set that `url_encode` escapes: everything but `UNRESERVED`. -/
def reserved : Percent.AsciiSet := fun b =>
  !((0x30 ≤ b && b ≤ 0x39) || (0x41 ≤ b && b ≤ 0x5A) || (0x61 ≤ b && b ≤ 0x7A) ||
    [0x2D, 0x5F, 0x2E, 0x7E].contains b)

def urlEncode (value : String) : String := Percent.write reserved value

/-- Encodes a path, preserving `/` as the segment separator. -/
def encodePath (path : String) : String :=
  "/".intercalate ((path.toList.splitOn '/').map fun segment => urlEncode (String.ofList segment))

section Signing

variable (hmac : List UInt8 → List UInt8 → List UInt8) (sha1 : List UInt8 → List UInt8)

def sha1Hex (input : String) : String := hexEncode (sha1 (Utf8.encode input))

def hmacSha1Hex (key : List UInt8) (message : String) : String :=
  hexEncode (hmac key (Utf8.encode message))

/-- The pairs encoded and sorted. -/
def encodePairs (pairs : List (String × String)) : List (String × String) :=
  (pairs.map fun p => (urlEncode p.1.toLower, urlEncode p.2)).mergeSort
    fun p q => decide (toLex p ≤ toLex q)

/-- The key list, and the `key=value` pairs that match it. -/
def canonicalize (pairs : List (String × String)) : String × String :=
  let encoded := encodePairs pairs
  (";".intercalate (encoded.map Prod.fst), "&".intercalate (encoded.map fun p => p.1 ++ "=" ++ p.2))

/-! ## Signatures -/

structure SignatureInput where
  method : String
  path : String
  query : List (String × String)
  headers : List (String × String)
  start : Int
  stop : Int

structure Signature where
  keyTime : String
  headerList : String
  urlParamList : String
  signature : String

/-- `replace(';', "%3B")`. -/
def encodeSemicolons (s : String) : String :=
  String.ofList (s.toList.flatMap fun c => if c = ';' then "%3B".toList else [c])

/-- The value of `Authorization`, and of the signed query string. -/
def Signature.render (s : Signature) (secretId : String) (encodeSemis : Bool) : String :=
  let keyTime := if encodeSemis then encodeSemicolons s.keyTime else s.keyTime
  "q-sign-algorithm=sha1&q-ak=" ++ secretId ++ "&q-sign-time=" ++ keyTime ++ "&q-key-time=" ++
    keyTime ++ "&q-header-list=" ++ s.headerList ++ "&q-url-param-list=" ++ s.urlParamList ++
    "&q-signature=" ++ s.signature

def sign (secretKey : String) (input : SignatureInput) : Signature :=
  let keyTime := toString input.start ++ ";" ++ toString input.stop
  let signKey := hmacSha1Hex hmac (Utf8.encode secretKey) keyTime
  let (urlParamList, httpParameters) := canonicalize input.query
  let (headerList, httpHeaders) := canonicalize input.headers
  let httpString := input.method.toLower ++ "\n" ++ input.path ++ "\n" ++ httpParameters ++ "\n" ++
    httpHeaders ++ "\n"
  let stringToSign := "sha1\n" ++ keyTime ++ "\n" ++ sha1Hex sha1 httpString ++ "\n"
  let signature := hmacSha1Hex hmac (Utf8.encode signKey) stringToSign
  { keyTime, headerList, urlParamList, signature }

/-! ## URLs -/

structure Store where
  host : String
  secretId : String
  secretKey : String
  sessionToken : Option String

def signSkewSeconds : Int := 60

def renderQuery (query : List (String × String)) : String :=
  "&".intercalate (query.map fun p =>
    if p.2.isEmpty then urlEncode p.1 else urlEncode p.1 ++ "=" ++ urlEncode p.2)

variable (store : Store)

def url (path : String) (query : List (String × String)) : String :=
  let url := "https://" ++ store.host ++ encodePath path
  if query.isEmpty then url else url ++ "?" ++ renderQuery query

/-- The signature of a request at the time `now`; only `host` is signed, so
clients are free to choose their own Content-Type. -/
def signRequest (now : Int) (method path : String) (query : List (String × String))
    (validFor : Nat) : Signature :=
  sign hmac sha1 store.secretKey {
    method, path, query
    headers := [("host", store.host)]
    -- `i64` arithmetic wraps around
    start := (now - signSkewSeconds).bmod (2 ^ 64)
    stop := (now + (validFor : Int).bmod (2 ^ 64)).bmod (2 ^ 64) }

def presign (now : Int) (method path : String) (query : List (String × String))
    (expiresIn : Nat) : String :=
  let signature := signRequest hmac sha1 store now method path query expiresIn
  let url := url store path query ++ (if query.isEmpty then "?" else "&") ++
    signature.render store.secretId true
  match store.sessionToken with
  | some token => url ++ "&x-cos-security-token=" ++ urlEncode token
  | none => url

def objectPath (blobRef : String) : String := "/" ++ blobRef

/-- The value that replaces the header of the download. -/
def disposition (filename : String) : String := "attachment; filename*=UTF-8''" ++ urlEncode filename

def signDownload (now : Int) (blobRef filename : String) (expiresIn : Nat) : String :=
  presign hmac sha1 store now "GET" (objectPath blobRef)
    [("response-content-disposition", disposition filename)] expiresIn

end Signing

end AnyStore.Cos
