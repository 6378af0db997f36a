import AnyStore.Model.CosUrls

/-!
# The COS signing scheme

The service's side of a presigned URL: it reads path and query, picks the
parameters and headers that the signature names, and computes the signature by
the documented scheme. It takes the parameters in the order of the list, so it
neither sorts nor renders.
-/

namespace AnyStore.Cos

section Scheme

variable (hmac : List UInt8 → List UInt8 → List UInt8) (sha1 : List UInt8 → List UInt8)

/-- `method\npath\nparameters\nheaders\n`. -/
def httpString (method path parameters headers : String) : String :=
  method.toLower ++ "\n" ++ path ++ "\n" ++ parameters ++ "\n" ++ headers ++ "\n"

/-- `sha1\nKeyTime\nSHA1(HttpString)\n`. -/
def stringToSign (keyTime httpString : String) : String :=
  "sha1\n" ++ keyTime ++ "\n" ++ sha1Hex sha1 httpString ++ "\n"

def signatureOf (secretKey keyTime httpString : String) : String :=
  hmacSha1Hex hmac (Utf8.encode (hmacSha1Hex hmac (Utf8.encode secretKey) keyTime))
    (stringToSign sha1 keyTime httpString)

/-! ## Reading a URL -/

def pairOf (piece : List UInt8) : String × String :=
  match FormUrl.splitOnce 0x3D piece with
  | some (k, v) => (Percent.readText k, Percent.readText v)
  | none => (Percent.readText piece, "")

def readQuery (query : List UInt8) : List (String × String) := (query.splitOn 0x26).map pairOf

/-- The path and the parameters of a URL of this host. -/
def readUrl (host url : String) : Option (String × List (String × String)) :=
  let origin := Utf8.encode ("https://" ++ host)
  if origin.isPrefixOf (Utf8.encode url) then
    (FormUrl.splitOnce 0x3F ((Utf8.encode url).drop origin.length)).map fun (path, query) =>
      (Percent.readText path, readQuery query)
  else none

/-- The signature stands behind the parameters of the request. -/
def lastValue (pairs : List (String × String)) (key : String) : Option String :=
  (pairs.reverse.find? (·.1 = key)).map Prod.snd

def names (list : String) : List String := (list.toList.splitOn ';').map String.ofList

/-- The pairs that a list names, in its order. -/
def pick (list : String) (pairs : List (String × String)) : List (String × String) :=
  (names list).filterMap fun name => pairs.find? fun p => urlEncode p.1.toLower = name

def joinPairs (pairs : List (String × String)) : String :=
  "&".intercalate (pairs.map fun p => urlEncode p.1.toLower ++ "=" ++ urlEncode p.2)

/-- The signature that the service expects of a request with these headers. The
parameters of the request come first in its query, as many as are named. -/
def expectedSignature (secretKey host method : String) (headers : List (String × String))
    (url : String) : Option String := do
  let (path, pairs) ← readUrl host url
  let keyTime ← lastValue pairs "q-sign-time"
  let headerList ← lastValue pairs "q-header-list"
  let urlParamList ← lastValue pairs "q-url-param-list"
  let query := pick urlParamList (pairs.take (names urlParamList).length)
  return signatureOf hmac sha1 secretKey keyTime
    (httpString method path (joinPairs query) (joinPairs (pick headerList headers)))

end Scheme

end AnyStore.Cos
