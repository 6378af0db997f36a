import AnyStore.Model.Changes

/-!
# Idempotency

The idempotency records of the SQL stores, and `idempotency::run` and
`idempotency::run_with_completion` of the application on top of them.
-/

namespace AnyStore

open ReadCommitted

/-! ## The store -/

/-- How long to wait for a concurrent owner before giving up. -/
def contentionPolls : Nat := 10

/-- `timestamp_micros().to_string()`. -/
def resourceToken (t : Time) : String := toString t

def IdempotencyAcquire.row (req : IdempotencyAcquire) : IdempotencyRow where
  requestHash := req.context.requestHash
  state := .inProgress
  ownerToken := some req.context.ownerToken
  leaseUntil := some req.leaseUntil
  createdAt := req.now
  expiresAt := req.expiresAt

/-- `INSERT_CLAIM`; `ON CONFLICT DO NOTHING`. -/
def insertClaim (req : IdempotencyAcquire) : Stmt Bool :=
  let ctx := req.context
  statement (.acquire req) fun db =>
    match db.idempotency ctx.principalId ctx.operation ctx.key with
    -- the attempt that holds the row is waited for
    | some _ => .ok {
        result := false
        waits := [.idempotency ctx.principalId ctx.operation ctx.key] }
    | none => .ok {
        result := true
        writes := [⟨.idempotency ctx.principalId ctx.operation ctx.key, some req.row⟩] }

def selectRecord (ctx : IdempotencyContext) : Stmt (Option IdempotencyRow) :=
  select fun db => db.idempotency ctx.principalId ctx.operation ctx.key

def IdempotencyRow.stolen (r : IdempotencyRow) (req : IdempotencyAcquire) : IdempotencyRow :=
  { r with
    ownerToken := some req.context.ownerToken
    leaseUntil := some req.leaseUntil
    requestHash := req.context.requestHash }

/-- `STEAL_LEASE`: takes over a record whose owner's lease has expired. -/
def stealLease (req : IdempotencyAcquire) (createdAt now : Time) : Stmt Bool :=
  let ctx := req.context
  statement (.steal req createdAt) fun db =>
    match (db.idempotency ctx.principalId ctx.operation ctx.key).filter
      (fun r => r.state = .inProgress ∧ r.leaseUntil.any (· ≤ now)) with
    | none => .ok { result := false }
    | some r => .ok {
        result := true
        writes := [⟨.idempotency ctx.principalId ctx.operation ctx.key, some (r.stolen req)⟩] }

/-- `decode_headers`: what is not a pair of strings is skipped. -/
def decodeHeaders : Option Json → List (String × String)
  | some (.arr xs) => pairs xs
  | _ => []
where
  pairs : Items → List (String × String)
    | .nil => []
    | .cons (.arr (.cons (.str k) (.cons (.str v) .nil))) xs => (k, v) :: pairs xs
    | .cons _ xs => pairs xs

/-- `decode_stored_response`. -/
def IdempotencyRow.response (r : IdempotencyRow) : StoredResponse where
  status := r.statusCode.getD 200
  headers := decodeHeaders r.responseHeaders
  body := r.responseBody.getD []

theorem decodeHeaders_encodeHeaders (headers : List (String × String)) :
    decodeHeaders (some (encodeHeaders headers)) = headers := by
  rw [encodeHeaders, decodeHeaders]
  induction headers with
  | nil => rfl
  | cons h headers ih =>
    rw [List.foldr_cons, decodeHeaders.pairs, ih]

/-- A completed record answers with the response that it was completed with. -/
theorem IdempotencyRow.response_completed (r : IdempotencyRow) (response : StoredResponse)
    (now expiresAt : Time) :
    (r.completed response (encodeHeaders response.headers) now expiresAt).response = response := by
  rw [IdempotencyRow.response, IdempotencyRow.completed, decodeHeaders_encodeHeaders]
  rfl

/-- What one poll finds: a decision, or nothing yet. -/
def pollRecord (req : IdempotencyAcquire) (clock : Store Time) : Store (Option IdempotencyDecision) := do
  if ← run (insertClaim req) then return some (.owner (resourceToken req.now))
  else
    match ← run (selectRecord req.context) with
    -- the record vanished between the insert and the read
    | none => return none
    | some r =>
      -- the same key for another request
      if r.requestHash ≠ req.context.requestHash then return some .conflict
      else if r.state = .completed then return some (.replay r.response)
      else
        let now ← clock
        -- the owner may have died
        if r.leaseUntil.all (· ≤ now) then
          if ← run (stealLease req r.createdAt (← clock)) then
            return some (.owner (resourceToken r.createdAt))
          else return none
        else return none

/-- One request of the polling loop; PL/pgSQL runs it in one transaction, whose
`now()` does not advance. -/
def poll (a : Adapter) (req : IdempotencyAcquire) : Store (Option IdempotencyDecision) :=
  match a with
  | .sqlx => pollRecord req utcNow
  | .rpc => do
    -- the time at which the transaction starts
    let now ← utcNow
    transaction mapSqlx (.acquire req) (pollRecord req (pure now))

def acquireWithin (a : Adapter) (req : IdempotencyAcquire) : Nat → Store IdempotencyDecision
  -- another attempt is still running
  | 0 => .fail .rateLimited
  | n + 1 => do
    match ← poll a req with
    | some decision => return decision
    | none => acquireWithin a req n

def acquire (a : Adapter) (req : IdempotencyAcquire) : Store IdempotencyDecision :=
  acquireWithin a req contentionPolls

/-- `complete` finalises the record outside any transaction. -/
def complete (req : IdempotencyComplete) : Store Unit := do
  let rows ← run { finalize req.context req.response req.now req.expiresAt with
    label := .complete req }
  -- the lease was taken over in the meantime
  require (rows = 1) (DomainError.internal "idempotency lease was lost during the mutation")

def releaseClaim (ctx : IdempotencyContext) : Stmt Unit :=
  statement (.release ctx) fun db =>
    match (db.idempotency ctx.principalId ctx.operation ctx.key).filter
      -- only its owner gives a claim back
      (fun r => r.state = .inProgress ∧ r.ownerToken = some ctx.ownerToken) with
    | none => .ok { result := () }
    | some _ => .ok {
        result := ()
        writes := [⟨.idempotency ctx.principalId ctx.operation ctx.key, none⟩] }

def failOrRelease (ctx : IdempotencyContext) : Store Unit := run (releaseClaim ctx)

/-! ## The application -/

structure RequestContext where
  requestId : RequestId
  principalId : PrincipalId
  operation : String
  idempotencyKey : Option IdempotencyKey
  requestHash : String
  ifMatch : Option Revision
  now : Time

/-- The settings of `AppConfig` that the services below read, and what they
take from other crates: the provider's name, the serialisation of responses,
the first half of SHA-256, and the URLs that the provider signs. -/
structure AppState where
  adapter : Adapter
  idempotencyRetention : Int
  idempotencyLease : Int
  changesRetention : Int
  changesCursorTtl : Int
  uploadExpiry : Int
  uploadUrlExpiry : Int
  multipartThreshold : Nat
  partSize : Nat
  maxPartNumbers : Nat
  gcGrace : Int
  gcBatchSize : Nat
  backendId : String
  toVec : Json → List UInt8
  timestamp : Time → String
  sha256Hex : String → String
  presign : String → String → List (String × String) → Int → String

/-- The `IdempotencyContext` of an attempt: its owner token is a fresh ULID. -/
def idempotencyContext (ctx : RequestContext) : Store (Option IdempotencyContext) :=
  match ctx.idempotencyKey with
  -- without a key nothing is recorded
  | none => return none
  | some key => do
    let ownerToken ← ulid (some {
      principalId := ctx.principalId, operation := ctx.operation, key
      requestHash := ctx.requestHash })
    return some {
      principalId := ctx.principalId
      operation := ctx.operation
      key
      requestHash := ctx.requestHash
      ownerToken
      resourceToken := resourceToken ctx.now }

inductive Claim
  | proceed (ictx : Option IdempotencyContext)
  | replay (response : StoredResponse)

variable (app : AppState)

def claim (ctx : RequestContext) : Store Claim := do
  match ← idempotencyContext ctx with
  | none => return .proceed none
  | some ictx =>
    match ← acquire app.adapter {
      context := ictx
      now := ctx.now
      leaseUntil := ctx.now + app.idempotencyLease
      expiresAt := ctx.now + app.idempotencyRetention } with
    -- the resources of all attempts are named after the first
    | .owner resourceToken => return .proceed (some { ictx with resourceToken })
    | .replay response => return .replay response
    | .conflict => .fail .idempotencyKeyReused

/-- Releasing the claim lets the caller retry the same key. -/
def releaseAndFail {α : Type} (ictx : Option IdempotencyContext) (error : DomainError) : Store α :=
  match ictx with
  | none => .fail error
  | some ictx => do
    -- whether that worked or not, the error is the answer
    let _ ← ((failOrRelease ictx).attempt : Store (Except DomainError Unit))
    .fail error

/-- `idempotency::run`: the operation finalises its own record. -/
def idempotencyRun (ctx : RequestContext)
    (operation : Option IdempotencyContext → Store StoredResponse) : Store StoredResponse := do
  match ← claim app ctx with
  | .replay response => return response
  | .proceed ictx =>
    match ← ((operation ictx).attempt : Store (Except DomainError StoredResponse)) with
    | .ok response => return response
    | .error error => releaseAndFail ictx error

/-- `idempotency::run_with_completion`: the record is finalised separately. -/
def idempotencyRunWithCompletion (ctx : RequestContext)
    (operation : Option IdempotencyContext → Store StoredResponse) : Store StoredResponse := do
  match ← claim app ctx with
  | .replay response => return response
  | .proceed ictx =>
    match ← ((operation ictx).attempt : Store (Except DomainError StoredResponse)) with
    | .ok response =>
      match ictx with
      | none => return response
      | some ictx =>
        -- a crash before this leaves the record in progress
        complete {
          context := ictx
          response
          now := ctx.now
          expiresAt := ctx.now + app.idempotencyRetention }
        return response
    | .error error => releaseAndFail ictx error

end AnyStore
