import AnyStore.Lib.FormUrl
import AnyStore.Lib.Framing
import AnyStore.Model.Domain
import Mathlib.Data.List.DropRight

/-!
# Request plumbing

What `anystore-http` and `RequestContext` compute from the parts of a request:
the pairs of the query string and the bytes that stand for the request in its
hash. Splitting a text at an ASCII character is splitting its bytes.
-/

namespace AnyStore

/-! ## Headers that control writes -/

/-- `HeaderValue`: tabs are its only control characters. -/
structure HeaderValue where
  bytes : List UInt8
  valid : ∀ b ∈ bytes, b = 0x09 ∨ 0x20 ≤ b ∧ b ≠ 0x7F

/-- `HeaderMap`, with the names in lower case. -/
abbrev HeaderMap := List (String × HeaderValue)

def HeaderMap.get (headers : HeaderMap) (name : String) : Option HeaderValue :=
  (headers.find? fun header => header.1 = name).map Prod.snd

def isVisibleAscii (b : UInt8) : Bool := (0x20 ≤ b && b < 0x7F) || b == 0x09

def HeaderValue.toStr (value : HeaderValue) : Option (List UInt8) :=
  if value.bytes.all isVisibleAscii then some value.bytes else none

/-- `trim_matches`. -/
def trimMatches (p : UInt8 → Bool) (text : List UInt8) : List UInt8 :=
  (text.dropWhile p).rdropWhile p

/-- The white space of an ASCII text. -/
def isWhitespace (b : UInt8) : Bool := b == 0x20 || (0x09 ≤ b && b ≤ 0x0D)

def trim (text : List UInt8) : List UInt8 := trimMatches isWhitespace text

/-- A header that is present but no ASCII text is rejected, not ignored. -/
def headerValue (headers : HeaderMap) (name : String) : DomainResult (Option (List UInt8)) :=
  match headers.get name with
  | none => .ok none
  | some value =>
    match value.toStr with
    | none => .error (.invalidRequest (name ++ " must be ASCII."))
    | some text => .ok (if (trim text).isEmpty then none else some (trim text))

def ifMatchHeader : String := "if-match"

def parseIfMatch (headers : HeaderMap) : DomainResult (Option Revision) := do
  match ← headerValue headers ifMatchHeader with
  | none => return none
  | some raw =>
    -- a quoted ETag form is tolerated
    match fromStrRadix 10 (2 ^ 64) (trimMatches (· == 0x22) raw) with
    | some value => return some value
    | none => .error (.invalidRequest "If-Match must be an object revision number.")

/-! ## Query pairs -/

/-- `decode` from position `i` on: the first case is `i + 2 < bytes.len()`. -/
def decodeBytes : List UInt8 → List UInt8
  | b :: h :: l :: after =>
    if b = 0x2B then 0x20 :: decodeBytes (h :: l :: after)
    else if b = 0x25 then
      -- `from_utf8` on the two bytes, an empty text when they are none
      let hex := if Utf8.valid 0 [h, l] then [h, l] else []
      match fromStrRadix 16 256 hex with
      | some byte => UInt8.ofNat byte :: decodeBytes after
      | none => b :: decodeBytes (h :: l :: after)
    else b :: decodeBytes (h :: l :: after)
  | b :: rest => (if b = 0x2B then 0x20 else b) :: decodeBytes rest
  | [] => []

def decode (value : List UInt8) : String := Utf8.fromUtf8Lossy (decodeBytes value)

def queryPair (pair : List UInt8) : String × String :=
  match FormUrl.splitOnce 0x3D pair with
  | some (k, v) => (decode k, decode v)
  | none => (decode pair, "")

def queryPairs (raw : Option String) : List (String × String) :=
  match raw with
  | none => []
  | some raw =>
    (((Utf8.encode raw).splitOn 0x26).filter fun p => !p.isEmpty).map queryPair

/-! ## The canonical request -/

/-- The order of pairs of texts; on texts it is the order of their bytes. -/
def pairLe (a b : String × String) : Bool :=
  decide (a.1 < b.1) || (a.1 == b.1 && decide (a.2 ≤ b.2))

/-- The last field of the canonical request. -/
def revisionField (ifMatch : Option Revision) : List UInt8 :=
  match ifMatch with
  | some rev => Utf8.encode (toString rev)
  | none => []

/-- The bytes that `canonical_request_hash` hands to SHA-256. -/
def canonicalRequest (principal : PrincipalId) (method route target : String)
    (query : List (String × String)) (body : List UInt8) (ifMatch : Option Revision) :
    List UInt8 :=
  let sorted := query.mergeSort pairLe
  Framing.field (Utf8.encode principal) ++
  Framing.field (Utf8.encode method) ++
  Framing.field (Utf8.encode route) ++
  Framing.field (Utf8.encode target) ++
  Framing.field (Framing.bigEndian 8 (sorted.length % 2 ^ 64)) ++
  sorted.flatMap (fun pair =>
    Framing.field (Utf8.encode pair.1) ++ Framing.field (Utf8.encode pair.2)) ++
  Framing.field body ++
  Framing.field (revisionField ifMatch)

/-- `hex::encode`. -/
def hexEncode (bytes : List UInt8) : String :=
  String.ofList (bytes.flatMap fun b =>
    [Nat.digitChar (b.toNat / 16), Nat.digitChar (b.toNat % 16)])

def canonicalRequestHash (sha256 : List UInt8 → List UInt8) (principal : PrincipalId)
    (method route target : String) (query : List (String × String)) (body : List UInt8)
    (ifMatch : Option Revision) : String :=
  hexEncode (sha256 (canonicalRequest principal method route target query body ifMatch))

end AnyStore
