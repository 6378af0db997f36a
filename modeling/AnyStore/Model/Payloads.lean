import AnyStore.Lib.Base64
import AnyStore.Model.Idempotency
import AnyStore.Model.Listing

/-!
# Payloads of the procedures

What the RPC store and the procedures in the database send to each other:
readers for the fields of a payload, and the responses that are kept in
idempotency records.
-/

namespace AnyStore

open ReadCommitted (SqlError)

/-! ## Fields -/

def missing (field : String) : DomainError :=
  .internal ("rpc payload is missing \"" ++ field ++ "\"")

def Json.asText : Json → Option String
  | .str s => some s
  | _ => none

/-- `Value::as_u64`. -/
def Json.asInteger : Json → Option Nat
  | .int n => if 0 ≤ n ∧ n < 18446744073709551616 then some n.toNat else none
  | _ => none

def Json.asArray : Json → Option Items
  | .arr xs => some xs
  | _ => none

def text (value : Json) (field : String) : DomainResult String :=
  match (value.get? field).bind Json.asText with
  | some s => .ok s
  | none => .error (missing field)

def integer (value : Json) (field : String) : DomainResult Nat :=
  match (value.get? field).bind Json.asInteger with
  | some n => .ok n
  | none => .error (missing field)

def array (value : Json) (field : String) : DomainResult Items :=
  match (value.get? field).bind Json.asArray with
  | some xs => .ok xs
  | none => .error (missing field)

/-! ## Responses in the store -/

def storedHeader : Json → DomainResult (String × String)
  | .arr (.cons name (.cons value .nil)) =>
    match name.asText, value.asText with
    | some name, some value => .ok (name, value)
    | none, _ => .error (.internal "rpc response header name is malformed")
    | some _, none => .error (.internal "rpc response header value is malformed")
  | _ => .error (.internal "rpc response header is malformed")

def storedHeaders : Items → DomainResult (List (String × String))
  | .nil => .ok []
  | .cons pair pairs => do return (← storedHeader pair) :: (← storedHeaders pairs)

/-- `char::is_ascii_whitespace`. -/
def isAsciiWhitespace (c : Char) : Bool :=
  c == ' ' || c == '\t' || c == '\n' || c == '\x0C' || c == '\r'

/-- PostgreSQL's `encode(.., 'base64')` wraps lines, so line breaks are stripped
before decoding. -/
def base64Bytes (raw : String) : DomainResult (List UInt8) :=
  match Base64.decode (raw.toList.filter fun c => !isAsciiWhitespace c) with
  | some bytes => .ok bytes
  | none => .error (.internal "rpc response body is not valid base64")

def storedResponse (value : Json) : DomainResult StoredResponse := do
  let status ← integer value "status"
  let status ← if status < 65536 then .ok status
    else .error (.internal "rpc response status is out of range")
  let headers ← storedHeaders (← array value "headers")
  return { status, headers, body := ← base64Bytes (← text value "body_b64") }

def encodeResponse (response : StoredResponse) : Json :=
  .obj (.cons "status" (.int response.status)
    (.cons "headers" (encodeHeaders response.headers)
      (.cons "body_b64" (.str (String.ofList (Base64.encode response.body))) .nil)))

/-! ## Responses in the database -/

/-- The columns of a record that hold its response. -/
structure ResponseColumns where
  statusCode : Option Int
  responseHeaders : Option Json
  responseBody : Option (List UInt8)

/-- `(p->>field)::int`. -/
def intField (p : Json) (field : String) : Except SqlError (Option Int) :=
  match p.get? field with
  | none | some .null => .ok none
  | some (.int n) => if -2147483648 ≤ n ∧ n < 2147483648 then .ok (some n) else .error .other
  -- the payloads have numbers here, and no text is cast
  | some _ => .error .other

/-- `decode(p->>field, 'base64')`. -/
def bytesField (p : Json) (field : String) : Except SqlError (Option (List UInt8)) :=
  match p.get? field with
  | none | some .null => .ok none
  | some (.str s) =>
    match Base64.loose 0 0 3 s.toList with
    | some bytes => .ok (some bytes)
    | none => .error .other
  | some _ => .error .other

/-- What `anystore_finalize_idempotency` writes. -/
def finalizeIdempotency (pResponse : Json) : Except SqlError ResponseColumns := do
  let statusCode ← intField pResponse "status"
  let responseBody ← bytesField pResponse "body_b64"
  return { statusCode, responseHeaders := pResponse.get? "headers", responseBody }

/-- The response that `anystore_op_idempotency_acquire` builds from a record. -/
def ResponseColumns.replay (r : ResponseColumns) : Json :=
  .obj (.cons "status" (.int (r.statusCode.getD 200))
    (.cons "headers" (r.responseHeaders.getD (.arr .nil))
      (.cons "body_b64" (.str (String.ofList (Base64.lines 0 (r.responseBody.getD [])))) .nil)))

end AnyStore
