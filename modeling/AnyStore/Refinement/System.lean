import AnyStore.Refinement.Services

/-!
# Every interleaving

`Contract.sound` for the store: in every configuration that a run of any number
of requests reaches, the journal is serial, and every reply given so far says
of the journal what `Setting.Answers` says.
-/

namespace AnyStore

open ReadCommitted

variable {S : Setting} {t : Nat} {s s' : DbState} {c : System}

/-- The configurations that runs of the setting reach. -/
abbrev Setting.Runs (S : Setting) (c : System) : Prop :=
  Reachable store (serve S.app) S.regime (initialState S.migratedAt) c

def Request.context : Request → Option RequestContext
  | .mutate ctx _ => some ctx
  | .createUpload _ ctx => some ctx
  | .allocateParts _ _ ctx => some ctx
  | .completeUpload _ _ ctx => some ctx
  | .abortUpload _ ctx => some ctx
  | _ => none

/-- What the answer of process `t` to a request says of the journals when the
request came in and when it was answered. -/
structure Setting.Answers (S : Setting) (t : Nat) (req : Request) (born : DbState)
    (result : Except DomainError Response) (s : DbState) : Prop where
  later : Later born s
  attempt : ∀ ctx, req.context = some ctx → ∃ r : Except DomainError StoredResponse,
    result = r.map Response.stored ∧ Replied S t born.wal ctx r s
  page : ∀ read, req = .readChanges read → ∃ r : Except DomainError ChangePage,
    result = r.map Response.page ∧ ReadResult S t born.wal read r s

theorem Replied.mono {wal₀ : Journal} {ctx : RequestContext}
    {r : Except DomainError StoredResponse} (h : Replied S t wal₀ ctx r s) (hl : Later s s') :
    Replied S t wal₀ ctx r s' :=
  fun key hkey => (h key hkey).mono hl.wal fun hfailed => hl.failed hfailed

theorem Setting.Answers.mono {req : Request} {born : DbState}
    {result : Except DomainError Response} (h : S.Answers t req born result s) (hl : Later s s') :
    S.Answers t req born result s' where
  later := h.later.trans hl
  attempt ctx hctx := by
    obtain ⟨r, hr, hreplied⟩ := h.attempt ctx hctx
    exact ⟨r, hr, hreplied.mono hl⟩
  page read hread := by
    obtain ⟨r, hr, hpage⟩ := h.page read hread
    exact ⟨r, hr, hpage.mono hl⟩

/-! ## Serving -/

/-- An attempt that is answered with a stored response. -/
theorem answers_of_ends {p : Store StoredResponse} {req : Request} {ctx : RequestContext}
    (hctx : req.context = some ctx)
    (h : Ends S t p (fun r s' => Replied S t s.wal ctx r s') s) :
    Ends S t (p >>= fun response => pure (Response.stored response))
      (fun r s' => S.Answers t req s r s') s := by
  have hanswers : ∀ (r : Except DomainError StoredResponse) s₁, Later s s₁ →
      Replied S t s.wal ctx r s₁ →
      S.Answers t req s (r.map Response.stored) s₁ := fun r s₁ hl hr => by
    refine ⟨hl, fun ctx' hctx' => ⟨r, rfl, ?_⟩, fun read hread => ?_⟩
    · obtain rfl := Option.some.inj (hctx.symm.trans hctx')
      exact hr
    · rw [hread] at hctx
      cases hctx
  refine ends_seq (h.mono fun r s₁ hs₁ hl hr => ?_)
  cases r with
  | ok response => exact ends_ret hs₁ (hanswers (.ok response) s₁ hl hr)
  | error e => exact hanswers (.error e) s₁ hl hr

/-- An operation that answers without a response. -/
theorem answers_of_serves {α : Type} {p : Store α} {req : Request} {P : α → DbState → Prop}
    (hctx : req.context = none) (hread : ∀ read, req ≠ .readChanges read)
    (h : Serves S t p P s) :
    Ends S t (p >>= fun _ => pure Response.done) (fun r s' => S.Answers t req s r s') s := by
  have hanswers : ∀ (r : Except DomainError Response) s₁, Later s s₁ → S.Answers t req s r s₁ :=
    fun r s₁ hl => by
      refine ⟨hl, fun ctx hctx' => ?_, fun read hreq => absurd hreq (hread read)⟩
      rw [hctx] at hctx'
      cases hctx'
  refine ends_seq (h.ended.mono fun r s₁ hs₁ hl _ => ?_)
  cases r with
  | ok a => exact ends_ret hs₁ (hanswers _ s₁ hl)
  | error e => exact hanswers _ s₁ hl

theorem answers_readChanges {req : ReadChanges} {a : Adapter} (hs : s.session t = none) :
    Ends S t (readChanges a req >>= fun page => pure (Response.page page))
      (fun r s' => S.Answers t (.readChanges req) s r s') s := by
  refine ends_seq ((ends_readChanges hs).mono fun r s₁ hs₁ hl hr => ?_)
  have hanswers : S.Answers t (.readChanges req) s (r.map Response.page) s₁ := by
    refine ⟨hl, fun ctx hctx => (nomatch hctx), fun read hreq => ?_⟩
    obtain rfl := Request.readChanges.inj hreq
    exact ⟨r, rfl, hr⟩
  cases r with
  | ok page => exact ends_ret hs₁ hanswers
  | error e => exact hanswers

/-- **Every request** keeps the contract. -/
theorem ends_serve {req : Request} (hs : s.session t = none) (hadmits : S.admits req) :
    Ends S t (serve S.app req) (fun r s' => S.Answers t req s r s') s := by
  cases req with
  | mutate ctx m => exact answers_of_ends rfl ((ends_mutate hs).mono fun _ _ _ _ h => h.1)
  | createUpload req ctx => exact answers_of_ends rfl (ends_createUpload hs)
  | allocateParts id partNumbers ctx => exact answers_of_ends rfl (ends_allocateParts hs)
  | completeUpload id parts ctx =>
    exact answers_of_ends rfl ((ends_completeUploadSession hs).mono fun _ _ _ _ h => h.1)
  | abortUpload id ctx => exact answers_of_ends rfl (ends_abortUploadSession hs)
  | createUploadRecord cmd =>
    exact answers_of_serves rfl (fun _ h => nomatch h) (serves_createUploadRecord hs (.client hadmits))
  | updateUploadState cmd => exact answers_of_serves rfl (fun _ h => nomatch h) (serves_updateUploadState hs (.inl hadmits))
  | abortUploadRecord cmd => exact answers_of_serves rfl (fun _ h => nomatch h) (serves_abortUploadRecord hs)
  | abortExpiredUploads now => exact answers_of_serves rfl (fun _ h => nomatch h) (serves_abortExpiredUploads hs)
  | collectBlobs now => exact answers_of_serves rfl (fun _ h => nomatch h) (serves_collectBlobs hs)
  | readChanges req => exact answers_readChanges hs
  | purgeChanges olderThan => exact answers_of_serves rfl (fun _ h => nomatch h) (serves_purgeChanges hs)
  | purgeIdempotencyRecords now => exact answers_of_serves rfl (fun _ h => nomatch h) (serves_purgeIdempotencyRecords hs)
  | purgeChangeCursors now => exact answers_of_serves rfl (fun _ h => nomatch h) (serves_purgeChangeCursors hs)

/-! ## Runs -/

theorem keyOf_initialDb (now : Time) (r : Row) : keyOf liveNameUq r (initialDb now) = none := by
  cases r with
  | object id =>
    have hrow := object_initialDb now id
    rw [keyOf]
    rw [Db.object] at hrow
    rw [hrow]
    split <;> rfl
  | _ => exact Option.bind_eq_none_iff.mpr fun _ _ => rfl

theorem storeInv_initialState (S : Setting) : StoreInv S (initialState S.migratedAt) where
  engine := by
    refine ⟨fun t sess hs => (nomatch hs), fun t u st su _ hs => (nomatch hs), fun r r' _ => ?_⟩
    exact .inl (keyOf_initialDb _ r)
  db := rfl
  serial := .nil
  seq _ h := absurd h List.not_mem_nil
  world := ⟨List.nodup_nil, fun _ h => absurd h List.not_mem_nil, fun _ h => absurd h List.not_mem_nil,
    fun _ h => absurd h List.not_mem_nil⟩
  ledger := ⟨.nil, fun _ h => absurd h List.not_mem_nil⟩
  cursors id hid := by
    have hnone : Db.cursor (initialDb S.migratedAt) id = none :=
      lookup_initialDb _ (by simp) (by simp)
    have hid : (Db.cursor (initialDb S.migratedAt) id).isSome := hid
    rw [hnone] at hid
    cases hid

theorem Setting.Runs.meets (h : S.Runs c) :
    (contract S).Meets (fun t s => s.session t = none)
      (fun t req born r s => s.session t = none ∧ S.Answers t req born r s) c := by
  refine Contract.sound (contract_lawful S) (fun _ _ _ _ h => h)
    (fun t s s' (hr : Since t s s') hs => hr.session.trans hs)
    (fun t req born r s s' (hr : Since t s s') ⟨hs, ha⟩ => ⟨hr.session.trans hs, ha.mono hr.later⟩)
    (fun t req s hadmits _ hs => ?_) (storeInv_initialState S) (fun t => rfl) h
  exact wp_mono (ends_serve hs hadmits) fun _ _ h => ⟨h.1, h.2.2⟩

theorem Setting.Runs.storeInv (h : S.Runs c) : StoreInv S c.state := h.meets.inv

theorem Setting.Runs.answers (h : S.Runs c) {r : Reply DbState Request DomainError Response}
    (hr : r ∈ c.replies) : S.Answers r.thread r.req r.born r.result c.state :=
  (h.meets.replied r hr).2.2

/-! ## Sample runs -/

/-- A setting without restrictions. -/
def Setting.free (app : AppState) (migratedAt : Time) : Setting where
  app := app
  migratedAt := migratedAt

/-- Checks the requests and the labelled statements of a run. -/
def checkMove (request : Request → Bool) (label : Label → Db → Bool)
    (m : Move Request (Choice Row Env)) (c : System) : Bool :=
  match m with
  | .spawn _ req => request req
  | .exec t _ =>
    match c.threads t with
    | .running _ _ (.call (.sql stmt) _) => label stmt.label c.state.db
    | _ => true
  | _ => true

/-- What can be read off the end of a concrete run within a setting. -/
theorem Setting.checked_runs {α : Type} (S : Setting) (request : Request → Bool)
    (label : Label → Db → Bool) (hrequest : ∀ req, request req = true → S.admits req)
    (hlabel : ∀ l db, label l db = true → S.rule l db)
    (moves : List (Move Request (Choice Row Env))) (f : System → α) {a : α}
    (h : (runIf? store (serve S.app) (checkMove request label) moves
      (.initial (initialState S.migratedAt))).map f = some a) : ∃ c, S.Runs c ∧ f c = a := by
  obtain ⟨c, hc, hf⟩ := Option.map_eq_some_iff.mp h
  refine ⟨c, Reachable.of_run (fun m d hm => ?_) .init hc, hf⟩
  cases m with
  | spawn t req => exact hrequest req hm
  | exec t ch =>
    simp only [checkMove] at hm
    simp only [Regime.allows]
    split
    · next req born β op k ht =>
      rw [ht] at hm
      cases op with
      | sql stmt => exact hlabel _ _ hm
      | _ => trivial
    · trivial
  | finish t => trivial
  | crash t => trivial

/-- What can be read off the end of a concrete run. -/
theorem Setting.free_runs {α : Type} (app : AppState) (migratedAt : Time)
    (moves : List (Move Request (Choice Row Env))) (f : System → α) {a : α}
    (h : (run? store (serve app) moves (.initial (initialState migratedAt))).map f = some a) :
    ∃ c, (Setting.free app migratedAt).Runs c ∧ f c = a := by
  refine Setting.checked_runs _ (fun _ => true) (fun _ _ => true) (fun _ _ => trivial)
    (fun _ _ _ => trivial) moves f ?_
  have hcheck : checkMove (fun _ => true) (fun _ _ => true) = fun _ _ => true := by
    funext m d
    cases m with
    | exec t ch =>
      rw [checkMove]
      split <;> rfl
    | _ => rfl
  rw [hcheck, runIf?_true]
  exact h

def sampleApp (adapter : Adapter) : AppState where
  adapter := adapter
  idempotencyRetention := 1000
  idempotencyLease := 10
  changesRetention := 1000
  changesCursorTtl := 100
  uploadExpiry := 100
  uploadUrlExpiry := 10
  multipartThreshold := 5
  partSize := 5
  maxPartNumbers := 100
  gcGrace := 10
  gcBatchSize := 10
  backendId := "tencent-cos"
  toVec _ := []
  timestamp _ := "1970-01-01T00:00:00Z"
  sha256Hex s := s
  presign method url _ _ := method ++ url

def sampleContext (key : Option IdempotencyKey) (now : Time) : RequestContext where
  requestId := "request"
  principalId := "owner"
  operation := "POST /objects"
  idempotencyKey := key
  requestHash := "hash"
  ifMatch := none
  now := now

def sampleMutation (now : Time) : MutationContext where
  now := now
  requestId := "request"
  idempotencyKey := none
  idempotency := none
  idempotencyExpiresAt := 0
  render _ := .ok .noContent

def sampleCreate (key : Option IdempotencyKey) (id : ObjectId) (kind : ObjectKind) (name : String)
    (now : Time) : Request :=
  .mutate (sampleContext key now) (.create {
    id, kind, name
    parentId := rootId
    contentType := none
    metadata := .obj .nil
    ctx := sampleMutation now })

def samplePatch (id : ObjectId) (ifMatch : Option Revision) (name : Option String) (now : Time) :
    Request :=
  .mutate (sampleContext none now) (.patch {
    id, ifMatch
    newName := name
    newParentId := none
    metadataPatch := some { set := .cons "k" (.int 1) .nil }
    ctx := sampleMutation now })

def sampleDelete (id : ObjectId) (ifMatch : Option Revision) (recursive : Bool) (now : Time) :
    Request :=
  .mutate (sampleContext none now) (.delete { id, ifMatch, recursive, ctx := sampleMutation now })

/-- The size decides between a single and a multipart upload. -/
def sampleUpload (key : Option IdempotencyKey) (objectId : ObjectId) (size : Nat) (now : Time) :
    Request :=
  .createUpload { objectId, size, contentType := none, sha256 := none } (sampleContext key now)

def sampleComplete (id : UploadId) (now : Time) : Request :=
  .completeUpload id [] (sampleContext none now)

/-- What happens outside while content of size 3 is uploaded. -/
def uploading : Env := { fresh := "u", stat := some { size := 3, sha256 := none } }

/-- `n` operations of process `t`. -/
def steps (t n : Nat) (e : Env) : List (Move Request (Choice Row Env)) :=
  List.replicate n (.exec t { outcome := .ok, rank := fun _ => 0, world := e })

/-- Process `t` serves a request in `n` operations, all by itself. -/
def alone (t : Nat) (req : Request) (n : Nat) (e : Env) : List (Move Request (Choice Row Env)) :=
  .spawn t req :: (steps t n e ++ [.finish t])

end AnyStore
