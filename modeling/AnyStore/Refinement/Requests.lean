import AnyStore.Refinement.System
import AnyStore.Refinement.Texts

/-!
# What a request may commit

`Request.Utters` lists the labels of the transactions and statements in the
program of a request, and `follows_serve` says that every program follows the
discipline with these labels. In a run, the label of every commit is therefore
one of the request that was served (`Setting.Signed.uttered`).
-/

namespace AnyStore

open ReadCommitted

variable {S : Setting} {α : Type} {L : Label → Prop} {app : AppState} {ctx : RequestContext}
  {c : System}

/-! ## Labels -/

/-- The statements by which an attempt claims and releases its record. -/
def RequestContext.Claims (ctx : RequestContext) (label : Label) : Prop :=
  ∃ i, Attempt ctx i ∧ (label = .release i ∨ ∃ req : IdempotencyAcquire, req.context = i ∧
    (label = .acquire req ∨ ∃ createdAt, label = .steal req createdAt))

/-- What an attempt hands to its operation. -/
structure RequestContext.Carries (ctx : RequestContext) (ictx : Option IdempotencyContext) :
    Prop where
  keyless : ictx = none → ctx.idempotencyKey = none
  attempt : ∀ i ∈ ictx, Attempt ctx i

/-- The attempt finalises its record with a response that satisfies `P`. -/
def RequestContext.Completes (ctx : RequestContext) (P : IdempotencyContext → StoredResponse → Prop)
    (label : Label) : Prop :=
  ∃ req : IdempotencyComplete, Attempt ctx req.context ∧ P req.context req.response ∧
    label = .complete req

def Mutation.label (m : Mutation) (ictx : Option IdempotencyContext) : Label :=
  match m with
  | .create cmd => .createObject { cmd with ctx := cmd.ctx.withIdempotency ictx }
  | .patch cmd => .patchObject { cmd with ctx := cmd.ctx.withIdempotency ictx }
  | .delete cmd => .deleteObject { cmd with ctx := cmd.ctx.withIdempotency ictx }
  | .commit cmd => .commitContent { cmd with ctx := cmd.ctx.withIdempotency ictx }

/-- The response to a create-upload request. -/
def sessionResponse (app : AppState) (id : UploadId) (objectId : ObjectId)
    (prepared : PreparedUpload) : StoredResponse :=
  .json 201 (app.toVec (uploadSessionJson app id objectId prepared))

/-- The response names the upload of the attempt. -/
def NamesUpload (app : AppState) (i : IdempotencyContext) (response : StoredResponse) : Prop :=
  ∃ objectId prepared, response = sessionResponse app (derivedId app "upload_" i) objectId prepared

/-- The labels in the program of a request. -/
def Request.Utters (app : AppState) (req : Request) (label : Label) : Prop :=
  label = .other ∨ match req with
  | .mutate ctx m => ctx.Claims label ∨ ∃ ictx, ctx.Carries ictx ∧ label = m.label ictx
  | .createUpload _ ctx => ctx.Claims label ∨
      (∃ cmd : CreateUploadRecord, ctx.Carries cmd.attempt ∧
        (∀ i ∈ cmd.attempt, cmd.id = derivedId app "upload_" i) ∧
        label = .createUploadRecord cmd) ∨
      (∃ cmd : UpdateUploadState, cmd.state = .ready ∧ label = .updateUploadState cmd) ∨
      ctx.Completes (NamesUpload app) label
  | .allocateParts _ _ ctx => ctx.Claims label ∨ ctx.Completes (fun _ _ => True) label
  | .completeUpload id _ ctx => ctx.Claims label ∨
      (∃ cmd : UpdateUploadState, cmd.state = .completing ∧ label = .updateUploadState cmd) ∨
      ∃ cmd : CommitContent, ctx.Carries cmd.ctx.idempotency ∧ cmd.uploadId = id ∧
        cmd.ifMatch = ctx.ifMatch ∧ label = .commitContent cmd
  | .abortUpload id ctx => ctx.Claims label ∨ ctx.Completes (fun _ _ => True) label ∨
      ∃ cmd : AbortUploadRecord, cmd.id = id ∧ label = .abortUploadRecord cmd
  | .createUploadRecord cmd => label = .createUploadRecord cmd
  | .updateUploadState cmd => label = .updateUploadState cmd
  | .abortUploadRecord cmd => label = .abortUploadRecord cmd
  | .abortExpiredUploads now => ∃ limit, label = .claimExpiredUploads now limit
  | .collectBlobs now => (∃ limit, label = .claimGcBatch now limit) ∨
      (∃ entry, label = .finishGc entry) ∨ ∃ entry error retryAt, label = .failGc entry error retryAt
  | .readChanges req => label = .readChanges req ∨ ∃ after, label = .page after
  | .purgeChanges olderThan => label = .purgeChanges olderThan
  | .purgeIdempotencyRecords now => label = .purgeIdempotencyRecords now
  | .purgeChangeCursors now => label = .purgeChangeCursors now

/-! ## The world outside -/

/-- A step that leaves the provider's sessions alone. -/
theorem opens_of_same {f : Env → World → Option (α × World)}
    (h : ∀ e w a w', f e w = some (a, w') → w'.multipart = w.multipart) : Opens f := by
  intro e w a w' hf m hm
  rw [h e w a w' hf] at hm
  exact .inr (List.mem_map.mpr ⟨m, hm, rfl⟩)

theorem opens_closeSession {w w₁ : World} {id blobRef : String} {status : SessionStatus}
    (hw : w₁.multipart = w.multipart) :
    ∀ m ∈ (w₁.closeSession id blobRef status).multipart, m.status = .opened ∨
      m.id ∈ w.multipart.map (·.id) := by
  intro m hm
  refine .inr ?_
  rw [← hw, ← closeSession_ids w₁ id blobRef status]
  exact List.mem_map.mpr ⟨m, hm, rfl⟩

theorem stays_ulid (use : Option TokenUse) {x : Phase} (hx : x = .idle ∨ ∃ label, x = .opened label) :
    Stays L x (ulid use) (fun _ => True) := by
  refine stays_outside (opens_of_same fun e w a w' hf => ?_) hx
  split at hf <;> cases hf
  rfl

theorem stays_utcNow : Stays L .idle utcNow (fun _ => True) :=
  stays_outside (opens_of_same fun _ _ _ _ hf => by cases hf; rfl) (.inl rfl)

theorem stays_providerCall {label : Label} {possible : Env → World → Bool}
    {effect : Env → World → World} {answer : Env → α}
    (h : ∀ e w, ∀ m ∈ (effect e w).multipart, m.status = .opened ∨ m.id ∈ w.multipart.map (·.id)) :
    Stays L .idle (providerCall label possible effect answer) (fun _ => True) := by
  have hsame : ∀ w : World, ∀ m ∈ w.multipart, m.status = .opened ∨ m.id ∈ w.multipart.map (·.id) :=
    fun w m hm => .inr (List.mem_map.mpr ⟨m, hm, rfl⟩)
  refine stays_seq (stays_outside (fun e w a w' hf => ?_) (.inl rfl)) fun r _ =>
    (stays_ofExcept r).mono fun _ _ => trivial
  split at hf
  · cases hf
    exact hsame w
  · split at hf <;> cases hf
    exact h e w
  · split at hf <;> cases hf
    exact h e w

theorem stays_initiateMultipart (blobRef : String) :
    Stays L .idle (initiateMultipart blobRef) (fun _ => True) := by
  refine stays_providerCall fun _ _ m hm => ?_
  rcases List.mem_cons.mp hm with rfl | hm
  · exact .inl rfl
  · exact .inr (List.mem_map.mpr ⟨m, hm, rfl⟩)

theorem stays_abortProviderUpload (blobRef : String) (id : Option String) :
    Stays L .idle (abortProviderUpload blobRef id) (fun _ => True) := by
  cases id with
  | none => exact stays_ret trivial
  | some id => exact stays_providerCall fun _ _ => opens_closeSession rfl

theorem stays_deleteBlob (backend blobRef : String) :
    Stays L .idle (deleteBlob backend blobRef) (fun _ => True) :=
  stays_providerCall fun _ _ m hm => .inr (List.mem_map.mpr ⟨m, hm, rfl⟩)

theorem stays_headBlob : Stays L .idle headBlob (fun _ => True) :=
  stays_providerCall fun _ _ m hm => .inr (List.mem_map.mpr ⟨m, hm, rfl⟩)

theorem stays_signParts (blobRef id : String) (partNumbers : List Nat) :
    Stays L .idle (signParts app blobRef id partNumbers) (fun _ => True) :=
  stays_outside (opens_of_same fun _ _ _ _ hf => by cases hf; rfl) (.inl rfl)

theorem stays_completeMultipart (blobRef id : String) :
    Stays L .idle (completeMultipart blobRef id) (fun _ => True) := by
  refine stays_seq (stays_outside (fun e w a w' hf => ?_) (.inl rfl)) fun r _ =>
    (stays_ofExcept r).mono fun _ _ => trivial
  split at hf <;> cases hf
  · exact opens_closeSession rfl
  · exact fun m hm => .inr (List.mem_map.mpr ⟨m, hm, rfl⟩)
  · exact opens_closeSession rfl

/-! ## Attempts -/

/-- The labels that an attempt uses for its claim. -/
structure Claimable (L : Label → Prop) (ctx : RequestContext) : Prop where
  other : L .other
  claims : ∀ label, ctx.Claims label → L label

theorem stays_pollRecord {req : IdempotencyAcquire} (hother : L .other) (hacquire : L (.acquire req))
    (hsteal : ∀ createdAt, L (.steal req createdAt)) :
    Stays L .idle (pollRecord req utcNow) (fun _ => True) := by
  refine stays_seq (stays_run hacquire) fun claimed _ => ?_
  split
  · exact stays_ret trivial
  refine stays_seq (stays_run hother) fun r _ => ?_
  split
  · exact stays_ret trivial
  split
  · exact stays_ret trivial
  split
  · exact stays_ret trivial
  refine stays_seq stays_utcNow fun now _ => ?_
  split
  · refine stays_seq stays_utcNow fun now' _ => stays_seq (stays_run (hsteal _)) fun stolen _ => ?_
    split <;> exact stays_ret trivial
  · exact stays_ret trivial

theorem stays_pollRecord_tx {req : IdempotencyAcquire} {now : Time} :
    Stays L (.opened (.acquire req)) (pollRecord req (pure now)) (fun _ => True) := by
  have hk : Label.keepsRecords (.acquire req) = true := rfl
  refine stays_seq (stays_on_records (takesOn_insertClaim req) hk) fun claimed _ => ?_
  split
  · exact stays_ret trivial
  refine stays_seq (stays_select (.inl rfl)) fun r _ => ?_
  split
  · exact stays_ret trivial
  split
  · exact stays_ret trivial
  split
  · exact stays_ret trivial
  refine stays_seq (stays_ret (R := fun _ => True) trivial) fun now _ => ?_
  split
  · refine stays_seq (stays_ret (R := fun _ => True) trivial) fun now' _ => ?_
    refine stays_seq (stays_on_records (takesOn_stealLease _ _ _) hk) fun stolen _ => ?_
    split <;> exact stays_ret trivial
  · exact stays_ret trivial

theorem stays_acquire {a : Adapter} {req : IdempotencyAcquire} (hother : L .other)
    (hacquire : L (.acquire req)) (hsteal : ∀ createdAt, L (.steal req createdAt)) :
    Stays L .idle (acquire a req) (fun _ => True) := by
  have hpoll : Stays L .idle (poll a req) (fun _ => True) := by
    cases a with
    | sqlx => exact stays_pollRecord hother hacquire hsteal
    | rpc =>
      exact stays_seq stays_utcNow fun now _ => stays_transaction hacquire rfl stays_pollRecord_tx
  have hwithin : ∀ n, Stays L .idle (acquireWithin a req n) (fun _ => True) := by
    intro n
    induction n with
    | zero => exact stays_fail
    | succ n ih =>
      refine stays_seq hpoll fun d _ => ?_
      split
      · exact stays_ret trivial
      · exact ih
  exact hwithin _

theorem stays_claim (hL : Claimable L ctx) : Stays L .idle (claim app ctx)
    (fun r => ∀ ictx, r = .proceed ictx → ctx.Carries ictx) := by
  have hcontext : Stays L .idle (idempotencyContext ctx) ctx.Carries := by
    unfold idempotencyContext
    cases hkey : ctx.idempotencyKey with
    | none => exact stays_ret ⟨fun _ => hkey, fun i hi => nomatch hi⟩
    | some key =>
      refine stays_seq (stays_ulid _ (.inl rfl)) fun token _ => stays_ret ⟨nofun, fun i hi => ?_⟩
      obtain rfl := Option.some.inj hi
      exact ⟨rfl, rfl, hkey, rfl⟩
  refine stays_seq hcontext fun ictx hcarries => ?_
  cases ictx with
  | none =>
    refine stays_ret fun ictx h => ?_
    obtain rfl := Claim.proceed.inj h
    exact hcarries
  | some i =>
    have hattempt := hcarries.attempt i rfl
    refine stays_seq (stays_acquire hL.other (hL.claims _ ⟨i, hattempt, .inr ⟨_, rfl, .inl rfl⟩⟩)
      fun createdAt => hL.claims _ ⟨i, hattempt, .inr ⟨_, rfl, .inr ⟨createdAt, rfl⟩⟩⟩)
      fun d _ => ?_
    cases d with
    | owner resourceToken =>
      refine stays_ret fun ictx h => ?_
      obtain rfl := Claim.proceed.inj h
      refine ⟨nofun, fun i' hi' => ?_⟩
      obtain rfl := Option.some.inj hi'
      exact ⟨hattempt.principalId, hattempt.operation, hattempt.key, hattempt.requestHash⟩
    | replay response => exact stays_ret fun ictx h => nomatch h
    | conflict => exact stays_fail

theorem stays_releaseAndFail {ictx : Option IdempotencyContext} {error : DomainError}
    (hL : Claimable L ctx) (hcarries : ctx.Carries ictx) {R : α → Prop} :
    Stays L .idle (releaseAndFail ictx error) R := by
  cases ictx with
  | none => exact stays_fail
  | some i =>
    have hrelease : L (.release i) := hL.claims _ ⟨i, hcarries.attempt i rfl, .inl rfl⟩
    exact stays_seq (stays_attempt (stays_run hrelease)) fun _ _ => stays_fail

/-- An attempt ends idle, or in a mutation that was committed. -/
def Concludes (r : Except DomainError α) (y : Phase) : Prop := y = .idle ∨ y = .done ∧ ∃ a, r = .ok a

theorem follows_idempotencyRun {operation : Option IdempotencyContext → Store StoredResponse}
    (hL : Claimable L ctx) (hop : ∀ ictx, ctx.Carries ictx → Follows L (operation ictx)
      (fun r y => match r with
        | .ok _ => y = .idle ∨ y = .done
        | .error _ => y = .idle) .idle) :
    Follows L (idempotencyRun app ctx operation) Concludes .idle := by
  refine follows_seq (stays_claim hL) (fun r hr => ?_) fun _ => .inl rfl
  cases r with
  | replay response => exact .inl rfl
  | proceed ictx =>
    have hcarries := hr ictx rfl
    refine Prog.obeys_bind.mpr (Prog.obeys_attempt.mpr ((hop ictx hcarries).mono fun r y hy => ?_))
    cases r with
    | ok response => exact hy.imp_right fun hy => ⟨hy, response, rfl⟩
    | error e =>
      obtain rfl : y = .idle := hy
      exact Prog.Obeys.mono (stays_releaseAndFail (R := fun _ => True) hL hcarries)
        fun _ _ h => .inl h.1

theorem follows_idempotencyRunWithCompletion
    {operation : Option IdempotencyContext → Store StoredResponse} {P : IdempotencyContext → StoredResponse → Prop}
    (hL : Claimable L ctx) (hcompletes : ∀ label, ctx.Completes P label → L label)
    (hop : ∀ ictx, ctx.Carries ictx → Stays L .idle (operation ictx)
      (fun response => ∀ i ∈ ictx, P i response)) :
    Follows L (idempotencyRunWithCompletion app ctx operation) Concludes .idle := by
  refine follows_seq (stays_claim hL) (fun r hr => ?_) fun _ => .inl rfl
  cases r with
  | replay response => exact .inl rfl
  | proceed ictx =>
    have hcarries := hr ictx rfl
    refine follows_seq (stays_attempt (hop ictx hcarries)) (fun r hresponse => ?_) fun _ => .inl rfl
    cases r with
    | error e =>
      exact Prog.Obeys.mono (stays_releaseAndFail (R := fun _ => True) hL hcarries)
        fun _ _ h => .inl h.1
    | ok response =>
      cases ictx with
      | none => exact .inl rfl
      | some i =>
        refine follows_seq (R := fun _ => True) ?_ (fun _ _ => .inl rfl) fun _ => .inl rfl
        refine stays_seq (stays_run (hcompletes _ ⟨_, hcarries.attempt i rfl, ?_, rfl⟩))
          fun rows _ => stays_require.mono fun _ _ => trivial
        exact hresponse response rfl i rfl

/-! ## Services -/

theorem stays_createUploadRecord {cmd : CreateUploadRecord} (hL : L (.createUploadRecord cmd)) :
    Stays L .idle (createUploadRecord cmd) (fun r => r.1.id = cmd.id) := by
  refine stays_transaction hL rfl (stays_seq (stays_off (offRecords_insertUpload cmd) rfl)
    fun created _ => ?_)
  refine stays_seq (stays_select (.inl rfl)) fun row _ => ?_
  exact stays_seq (stays_orFail row) fun row _ => stays_ret rfl

theorem stays_updateUploadState {cmd : UpdateUploadState} (hL : L (.updateUploadState cmd)) :
    Stays L .idle (updateUploadState cmd) (fun _ => True) :=
  stays_seq (stays_run hL) fun _ _ => stays_require.mono fun _ _ => trivial

theorem stays_abortUploadRecord {cmd : AbortUploadRecord} (hL : L (.abortUploadRecord cmd)) :
    Stays L .idle (abortUploadRecord cmd) (fun _ => True) := by
  refine stays_transaction hL rfl (stays_seq (stays_off ((takesOn_abortUpload cmd).offRecords
    (by decide)) rfl) fun row _ => ?_)
  exact stays_enqueueBlob _ _ rfl

theorem stays_getUpload (hother : L .other) (id : UploadId) :
    Stays L .idle (getUpload id) (fun _ => True) :=
  stays_seq (stays_run hother) fun _ _ => stays_ret trivial

theorem stays_getObject (hother : L .other) (a : Adapter) (id : ObjectId) :
    Stays L .idle (getObject a id) (fun _ => True) := by
  cases a with
  | sqlx =>
    refine stays_seq stays_require fun _ _ => stays_seq (stays_run hother) fun o _ => ?_
    cases o with
    | none => exact stays_ret trivial
    | some object =>
      refine stays_seq (stays_orFail (object.read columnRoom)) fun object _ => ?_
      refine stays_seq (stays_run hother) fun path _ => ?_
      exact stays_seq (stays_orFail path) fun _ _ => stays_ret trivial
  | rpc =>
    refine stays_seq stays_require fun _ _ => stays_seq (stays_run hother) fun view _ => ?_
    cases view with
    | none => exact stays_ret trivial
    | some view =>
      exact stays_seq (stays_orFail (view.read Adapter.rpc.viewRoom)) fun _ _ => stays_ret trivial

theorem stays_prepareUpload (id : UploadId) (mode : UploadMode) :
    Stays L .idle (prepareUpload app id mode) (fun _ => True) := by
  refine stays_seq stays_utcNow fun now _ => ?_
  cases mode with
  | single => exact stays_ret trivial
  | multipart => exact stays_seq (stays_initiateMultipart _) fun _ _ => stays_ret trivial

theorem stays_prepareSession {upload : UploadRecord}
    (hL : ∀ cmd : UpdateUploadState, cmd.state = .ready → L (.updateUploadState cmd)) :
    Stays L .idle (prepareSession app ctx upload) (fun _ => True) := by
  unfold prepareSession
  split
  · refine stays_seq (stays_prepareUpload _ _) fun prepared _ => ?_
    exact stays_seq (stays_updateUploadState (hL _ rfl)) fun _ _ => stays_ret trivial
  · split
    · exact stays_prepareUpload _ _
    · exact stays_ret trivial
  · split
    · exact stays_prepareUpload _ _
    · exact stays_ret trivial
  · exact stays_fail
  · exact stays_fail
  · exact stays_fail

theorem stays_uploadIdFor (ictx : Option IdempotencyContext) :
    Stays L .idle (uploadIdFor app ictx) (fun id => ∀ i ∈ ictx, id = derivedId app "upload_" i) := by
  cases ictx with
  | some i =>
    refine stays_ret fun i' hi' => ?_
    rw [Option.some.inj hi']
  | none => exact stays_seq (stays_ulid none (.inl rfl)) fun _ _ => stays_ret fun _ hi => nomatch hi

theorem stays_createUpload_operation {req : CreateUploadRequest} {ictx : Option IdempotencyContext}
    (hL : ∀ label, (Request.createUpload req ctx).Utters app label → L label)
    (hcarries : ctx.Carries ictx) :
    Stays L .idle (do
      let target ← Prog.orFail .objectNotFound (← getObject app.adapter req.objectId)
      require (target.object.kind = .file) DomainError.notAFile
      Prog.ofExcept (req.sha256.elim (.ok ()) validateSha256)
      Prog.ofExcept (req.contentType.elim (.ok ()) validateContentType)
      let contentType := (req.contentType.or target.object.contentType).getD "application/octet-stream"
      let mode := if app.multipartThreshold < req.size then UploadMode.multipart else .single
      let uploadId ← uploadIdFor app ictx
      let (upload, _) ← createUploadRecord {
        id := uploadId
        objectId := req.objectId
        mode
        blobBackend := app.backendId
        blobRef := blobRefFor uploadId
        blobRef_eq := rfl
        expectedSize := req.size
        contentType
        expectedSha256 := req.sha256
        createdAt := ctx.now
        expiresAt := ctx.now + app.uploadExpiry
        attempt := ictx }
      let prepared ← prepareSession app ctx upload
      return .json 201 (app.toVec (uploadSessionJson app upload.id upload.row.objectId prepared)))
      (fun response => ∀ i ∈ ictx, NamesUpload app i response) := by
  refine stays_seq (stays_getObject (hL _ (.inl rfl)) _ _) fun target _ => ?_
  refine stays_seq (stays_orFail target) fun target _ => ?_
  refine stays_seq stays_require fun _ _ => stays_seq (stays_ofExcept _) fun _ _ => ?_
  refine stays_seq (stays_ofExcept _) fun _ _ => stays_seq (stays_uploadIdFor ictx) fun id hid => ?_
  refine stays_seq (stays_createUploadRecord
    (hL _ (.inr (.inr (.inl ⟨_, hcarries, hid, rfl⟩))))) fun r hr => ?_
  refine stays_seq (stays_prepareSession fun cmd hcmd =>
    hL _ (.inr (.inr (.inr (.inl ⟨cmd, hcmd, rfl⟩))))) fun prepared _ => ?_
  refine stays_ret fun i hi => ⟨r.1.row.objectId, prepared, ?_⟩
  rw [sessionResponse, hr, hid i hi]

theorem follows_createUpload {req : CreateUploadRequest}
    (hL : ∀ label, (Request.createUpload req ctx).Utters app label → L label) :
    Follows L (createUpload app req ctx) Concludes .idle :=
  follows_idempotencyRunWithCompletion ⟨hL _ (.inl rfl), fun _ h => hL _ (.inr (.inl h))⟩
    (fun _ h => hL _ (.inr (.inr (.inr (.inr h))))) fun _ hcarries =>
      stays_createUpload_operation hL hcarries

theorem follows_allocateParts {id : UploadId} {partNumbers : List Nat}
    (hL : ∀ label, (Request.allocateParts id partNumbers ctx).Utters app label → L label) :
    Follows L (allocateParts app id partNumbers ctx) Concludes .idle := by
  refine follows_idempotencyRunWithCompletion ⟨hL _ (.inl rfl), fun _ h => hL _ (.inr (.inl h))⟩
    (fun _ h => hL _ (.inr (.inr h))) fun ictx _ => ?_
  refine stays_seq (stays_getUpload (hL _ (.inl rfl)) id) fun upload _ => ?_
  refine stays_seq (stays_orFail upload) fun upload _ => stays_seq stays_require fun _ _ => ?_
  refine stays_seq stays_require fun _ _ => stays_seq stays_require fun _ _ => ?_
  refine stays_seq stays_require fun _ _ => stays_seq stays_require fun _ _ => ?_
  refine stays_seq (stays_orFail _) fun p _ => stays_seq stays_require fun _ _ => ?_
  exact stays_seq (stays_signParts _ _ _) fun _ _ => stays_ret fun _ _ => trivial

theorem follows_abortUploadSession {id : UploadId}
    (hL : ∀ label, (Request.abortUpload id ctx).Utters app label → L label) :
    Follows L (abortUploadSession app id ctx) Concludes .idle := by
  refine follows_idempotencyRunWithCompletion ⟨hL _ (.inl rfl), fun _ h => hL _ (.inr (.inl h))⟩
    (fun _ h => hL _ (.inr (.inr (.inl h)))) fun ictx _ => ?_
  refine stays_seq (stays_getUpload (hL _ (.inl rfl)) id) fun upload _ => ?_
  refine stays_seq (stays_orFail upload) fun upload _ => ?_
  split
  · exact stays_ret fun _ _ => trivial
  refine stays_seq stays_require fun _ _ => ?_
  refine stays_seq (stays_attempt (stays_abortProviderUpload _ _)) fun _ _ => ?_
  refine stays_seq (stays_abortUploadRecord (hL _ (.inr (.inr (.inr ⟨_, rfl, rfl⟩)))))
    fun _ _ => stays_ret fun _ _ => trivial

theorem stays_ensureUploadCompleted (blobRef : String) (mode : UploadMode)
    (providerUploadId : Option String) (parts : List CompletedPart) :
    Stays L .idle (ensureUploadCompleted blobRef mode providerUploadId parts) (fun _ => True) := by
  have hhead : ∀ e, Stays L .idle (headBlob >>= fun stat => Prog.orFail e stat) (fun _ => True) :=
    fun e => stays_seq stays_headBlob fun stat _ => (stays_orFail stat).mono fun _ _ => trivial
  cases mode with
  | single => exact hhead _
  | multipart =>
    refine stays_seq (stays_orFail _) fun id _ => stays_seq stays_require fun _ _ => ?_
    refine stays_seq (stays_completeMultipart _ _) fun closed _ => ?_
    split <;> exact hhead _

theorem follows_completeUploadSession {id : UploadId} {parts : List CompletedPart}
    (hL : ∀ label, (Request.completeUpload id parts ctx).Utters app label → L label) :
    Follows L (completeUploadSession app id parts ctx) Concludes .idle := by
  refine follows_idempotencyRun ⟨hL _ (.inl rfl), fun _ h => hL _ (.inr (.inl h))⟩
    fun ictx hcarries => ?_
  have hother : L .other := hL _ (.inl rfl)
  have hcommit : ∀ (upload : UploadRecord) size contentType sha256, upload.id = id →
      Follows L (commitUpload app ctx ictx upload size contentType sha256) (fun r y => match r with
        | .ok _ => y = .idle ∨ y = .done
        | .error _ => y = .idle) .idle := by
    intro upload size contentType sha256 hid
    refine (follows_commitContent app.adapter _ (hL _ (.inr (.inr (.inr
      ⟨_, hcarries, hid, rfl, rfl⟩))))).mono fun r y h => ?_
    cases r with
    | ok response => exact .inr h
    | error e => exact h
  have hget : Stays L .idle (getUpload id) (fun r => ∀ upload ∈ r, upload.id = id) := by
    refine stays_seq (stays_run hother) fun row _ => stays_ret fun upload h => ?_
    obtain ⟨row, _, rfl⟩ := Option.map_eq_some_iff.mp h
    rfl
  refine follows_seq hget (fun upload hupload => ?_) fun _ => rfl
  refine follows_seq (stays_orFail upload) (fun upload hsome => ?_) fun _ => rfl
  have hid := hupload upload hsome
  refine follows_seq stays_require (fun _ _ => ?_) fun _ => rfl
  refine follows_seq (stays_getObject hother _ _) (fun target _ => ?_) fun _ => rfl
  refine follows_seq (stays_orFail target) (fun target _ => ?_) fun _ => rfl
  refine follows_seq stays_require (fun _ _ => ?_) fun _ => rfl
  refine follows_seq stays_require (fun _ _ => ?_) fun _ => rfl
  split
  · refine follows_seq (stays_orFail _) (fun size _ => ?_) fun _ => rfl
    refine follows_seq (stays_orFail _) (fun contentType _ => ?_) fun _ => rfl
    exact hcommit _ _ _ _ hid
  · refine follows_seq (stays_updateUploadState (hL _ (.inr (.inr (.inl ⟨_, rfl, rfl⟩)))))
      (fun _ _ => ?_) fun _ => rfl
    refine follows_seq stays_require (fun _ _ => ?_) fun _ => rfl
    refine follows_seq (stays_ensureUploadCompleted _ _ _ _) (fun stat _ => ?_) fun _ => rfl
    have hstat : Stays L .idle (checkStat upload.row stat) (fun _ => True) :=
      stays_seq stays_require fun _ _ => stays_seq stays_require fun _ _ => stays_ret trivial
    exact follows_seq hstat (fun sha256 _ => hcommit _ _ _ _ hid) fun _ => rfl

theorem follows_mutation {m : Mutation} (hL : ∀ label, (Request.mutate ctx m).Utters app label → L label) :
    Follows L (idempotencyRun app ctx (m.run app)) Concludes .idle := by
  refine follows_idempotencyRun ⟨hL _ (.inl rfl), fun _ h => hL _ (.inr (.inl h))⟩
    fun ictx hcarries => ?_
  have hlabel : L (m.label ictx) := hL _ (.inr (.inr ⟨ictx, hcarries, rfl⟩))
  have hdone : ∀ {p : Store StoredResponse}, Follows L p (fun r y => match r with
      | .ok _ => y = .done
      | .error _ => y = .idle) .idle → Follows L p (fun r y => match r with
      | .ok _ => y = .idle ∨ y = .done
      | .error _ => y = .idle) .idle := by
    intro p hp
    refine Prog.Obeys.mono hp fun r y h => ?_
    cases r with
    | ok response => exact .inr h
    | error e => exact h
  cases m with
  | create cmd => exact hdone (follows_createObject _ _ hlabel)
  | patch cmd => exact hdone (follows_patchObject _ _ hlabel)
  | delete cmd => exact hdone (follows_deleteObject _ _ hlabel)
  | commit cmd => exact hdone (follows_commitContent _ _ hlabel)

/-! ## Maintenance -/

theorem stays_claimEach {κ : Type} {label : Label} {claim : κ → Stmt (Option α)}
    (h : ∀ k, OffRecords (claim k)) (hlabel : label.keepsRecords = false) (n : Nat) (ks : List κ) :
    Stays L (.opened label) (claimEach claim n ks) (fun _ => True) := by
  induction ks generalizing n with
  | nil => cases n <;> exact stays_ret trivial
  | cons k ks ih =>
    cases n with
    | zero => exact stays_ret trivial
    | succ n =>
      refine stays_seq (stays_off (h k) hlabel) fun o _ => ?_
      cases o with
      | none => exact ih (n + 1)
      | some a => exact stays_seq (ih n) fun _ _ => stays_ret trivial

/-- Rows of one table are deleted one after the other. -/
theorem stays_deleteEach {κ : Type} {x : Phase} {delete : κ → Stmt Bool}
    (h : ∀ k, Stays L x (run (delete k)) (fun _ => True)) (ks : List κ) :
    Stays L x (deleteEach delete ks) (fun _ => True) := by
  induction ks with
  | nil => exact stays_ret trivial
  | cons k ks ih =>
    refine stays_seq (h k) fun deleted _ => ?_
    split
    · exact stays_seq ih fun _ _ => stays_ret trivial
    · exact ih

theorem stays_abortEach (uploads : List UploadRecord) :
    Stays L .idle (abortEach app uploads) (fun _ => True) := by
  induction uploads with
  | nil => exact stays_ret trivial
  | cons upload uploads ih =>
    refine stays_seq (stays_attempt (R := fun _ => True) ?_) fun _ _ => ih
    exact stays_seq stays_require fun _ _ => stays_abortProviderUpload _ _

theorem stays_collectEach {now : Time} (batch : List BlobGcEntry)
    (hfinish : ∀ entry, L (.finishGc entry))
    (hfail : ∀ entry error retryAt, L (.failGc entry error retryAt)) :
    Stays L .idle (collectEach app now batch) (fun _ => True) := by
  induction batch with
  | nil => exact stays_ret trivial
  | cons entry batch ih =>
    rw [collectEach]
    split
    · refine stays_seq (stays_attempt (stays_deleteBlob _ _)) fun r _ => ?_
      cases r with
      | ok u =>
        refine stays_seq (stays_run (hfinish entry)) fun _ _ => ?_
        exact stays_seq ih fun _ _ => stays_ret trivial
      | error e =>
        refine stays_seq (stays_run (hfail entry _ _)) fun _ _ => ?_
        exact stays_seq ih fun _ _ => stays_ret trivial
    · exact stays_seq ih fun _ _ => stays_ret trivial

theorem stays_readPage {a : Adapter} {req : ReadChanges} {given : Option CursorId}
    (hL : L (.readChanges req)) : Stays L .idle (readPage a req given) (fun _ => True) := by
  have hoff : ∀ {β : Type} {stmt : Stmt β}, OffRecords stmt →
      Stays L (.opened (.readChanges req)) (run stmt) (fun _ => True) := fun h => stays_off h rfl
  have hbuild : ∀ after, Stays L (.opened (.readChanges req)) (a.buildPage after req.limit)
      (fun _ => True) := by
    intro after
    cases a with
    | sqlx =>
      refine stays_seq (stays_select (.inl rfl)) fun snapshot _ => ?_
      refine stays_seq (hoff (takesNone_selectPage _ _ _).offRecords) fun items _ => ?_
      refine stays_seq (stays_select (.inl rfl)) fun more _ => ?_
      exact stays_seq (stays_select (.inl rfl)) fun lag _ => stays_ret trivial
    | rpc => exact hoff (takesNone_buildPageAtOnce _ _).offRecords
  have hfresh : ∀ after, Stays L (.opened (.readChanges req)) (freshPage a req given after)
      (fun _ => True) := by
    intro after
    refine stays_seq (hbuild after) fun built _ => ?_
    have hcursor : Stays L (.opened (.readChanges req)) (cursorId given) (fun _ => True) := by
      cases given with
      | some id => exact stays_ret trivial
      | none =>
        exact stays_seq (stays_ulid none (.inr ⟨_, rfl⟩)) fun _ _ => stays_ret trivial
    refine stays_seq hcursor fun next _ => ?_
    exact stays_seq (hoff ((takesOn_insertCursor _ _).offRecords (by decide))) fun _ _ =>
      stays_ret trivial
  refine stays_transaction hL rfl (stays_seq (stays_select (.inl rfl)) fun mark _ => ?_)
  refine stays_seq (stays_orFail mark) fun watermark _ => ?_
  cases req.cursor with
  | none => exact stays_seq (hfresh watermark) fun _ _ => stays_ret trivial
  | some cursor =>
    refine stays_seq stays_require fun _ _ => stays_seq stays_require fun _ _ => ?_
    refine stays_seq (hoff ((takesOn_selectCursorForUpdate cursor).offRecords (by decide)))
      fun row _ => ?_
    refine stays_seq (stays_orFail row) fun row _ => stays_seq stays_require fun _ _ => ?_
    split
    · refine stays_seq stays_require fun _ _ => stays_seq (stays_orFail _) fun pageEndSeq _ => ?_
      refine stays_seq (stays_orFail _) fun hasMore _ => stays_seq (stays_orFail _) fun next _ => ?_
      refine stays_seq (hoff (takesNone_selectMaterializedPage _ _).offRecords) fun items _ => ?_
      exact stays_seq (stays_select (.inl rfl)) fun lag _ => stays_ret trivial
    · refine stays_seq (hfresh _) fun built _ => ?_
      exact stays_seq (hoff ((takesOn_materializeCursor _ _ _ _).offRecords (by decide)))
        fun _ _ => stays_ret trivial

theorem stays_readChanges {a : Adapter} {req : ReadChanges} (hL : L (.readChanges req)) :
    Stays L .idle (readChanges a req) (fun _ => True) := by
  cases a with
  | sqlx => exact stays_readPage hL
  | rpc =>
    refine stays_seq stays_require fun _ _ => ?_
    refine stays_seq (stays_seq (stays_ulid none (.inl rfl)) fun _ _ => stays_ret trivial)
      fun next (_ : True) => ?_
    exact stays_readPage hL

/-! ## The system -/

theorem follows_done {p : Store α} (h : Stays L .idle p (fun _ => True)) :
    Follows L (p >>= fun _ => pure Response.done) Concludes .idle :=
  follows_seq h (fun _ _ => .inl rfl) fun _ => .inl rfl

theorem follows_stored {p : Store StoredResponse} (h : Follows L p Concludes .idle) :
    Follows L (p >>= fun response => pure (Response.stored response)) Concludes .idle := by
  refine Prog.obeys_bind.mpr (Prog.Obeys.mono h fun r y hy => ?_)
  cases r with
  | ok response => exact hy.imp_right fun hy => ⟨hy.1, _, rfl⟩
  | error e => exact hy.imp_right fun ⟨_, _, h⟩ => nomatch h

/-- **Every program** follows the discipline. -/
theorem follows_serve (req : Request) :
    Follows (req.Utters app) (serve app req) Concludes .idle := by
  have hL : ∀ label, req.Utters app label → req.Utters app label := fun _ h => h
  cases req with
  | mutate ctx m => exact follows_stored (follows_mutation hL)
  | createUpload req ctx => exact follows_stored (follows_createUpload hL)
  | allocateParts id partNumbers ctx => exact follows_stored (follows_allocateParts hL)
  | completeUpload id parts ctx => exact follows_stored (follows_completeUploadSession hL)
  | abortUpload id ctx => exact follows_stored (follows_abortUploadSession hL)
  | createUploadRecord cmd => exact follows_done ((stays_createUploadRecord (.inr rfl)).mono fun _ _ => trivial)
  | updateUploadState cmd => exact follows_done (stays_updateUploadState (.inr rfl))
  | abortUploadRecord cmd => exact follows_done (stays_abortUploadRecord (.inr rfl))
  | abortExpiredUploads now =>
    refine follows_done (stays_seq (stays_transaction (R := fun _ => True) (.inr ⟨_, rfl⟩) rfl ?_)
      fun uploads _ => stays_seq (stays_abortEach uploads) fun _ _ => stays_ret trivial)
    refine stays_seq (stays_off (takesNone_dueUploads now).offRecords rfl) fun due _ => ?_
    refine stays_seq (stays_claimEach (fun id => (takesOn_expireUpload now id).offRecords (by decide))
      rfl _ due) fun uploads _ => ?_
    exact stays_seq (stays_enqueueBlobs _ _ rfl) fun _ _ => stays_ret trivial
  | collectBlobs now =>
    refine follows_done (stays_seq (stays_transaction (R := fun _ => True)
      (.inr (.inl ⟨_, rfl⟩)) rfl ?_) fun batch _ => stays_collectEach batch
        (fun entry => .inr (.inr (.inl ⟨entry, rfl⟩)))
        fun entry error retryAt => .inr (.inr (.inr ⟨entry, error, retryAt, rfl⟩)))
    refine stays_seq (stays_off (takesNone_dueGc now).offRecords rfl) fun due _ => ?_
    exact stays_claimEach (fun k => (takesOn_claimGc now k).offRecords (by decide)) rfl _ due
  | readChanges req =>
    exact follows_seq (stays_readChanges (.inr (.inl rfl))) (fun _ _ => .inl rfl) fun _ => .inl rfl
  | purgeChanges olderThan =>
    refine follows_done (stays_transaction (.inr rfl) rfl ?_)
    refine stays_seq (stays_off (takesNone_dueChanges olderThan).offRecords rfl) fun due _ => ?_
    refine stays_seq (stays_deleteEach (fun seq => stays_off ((takesOn_deleteRow (T := .changes) rfl
      _).offRecords (by decide)) rfl) due) fun deleted _ => ?_
    refine stays_seq ?_ fun _ (_ : True) => stays_ret trivial
    rw [whenever]
    split
    · exact stays_off ((takesOn_raiseWatermark _).offRecords (by decide)) rfl
    · exact stays_ret trivial
  | purgeIdempotencyRecords now =>
    refine follows_done (stays_transaction (.inr rfl) rfl ?_)
    refine stays_seq (stays_select (.inl rfl)) fun due _ => ?_
    exact stays_seq (stays_deleteEach (fun k => stays_on_records (takesOn_deleteRow (T := .idempotency) rfl _)
      rfl) due)
      fun _ _ => stays_ret trivial
  | purgeChangeCursors now =>
    refine follows_done (stays_transaction (.inr rfl) rfl ?_)
    refine stays_seq (stays_select (.inl rfl)) fun due _ => ?_
    exact stays_seq (stays_deleteEach (fun id => stays_off ((takesOn_deleteRow (T := .cursors) rfl
      _).offRecords (by decide)) rfl) due) fun _ _ => stays_ret trivial

/-! ## Runs -/

/-- Every process is in some phase of its discipline. -/
theorem Setting.Runs.kept (h : S.Runs c) :
    Typestate.Kept (fun req => discipline (req.Utters S.app))
      (fun t req x s => x.Shows (req.Utters S.app) t s) (fun t s => s.session t = none) S.regime
      (fun _ => Concludes) c :=
  Reachable.obeys (discipline_tracks fun req => req.Utters S.app)
    (fun req _ => follows_serve req) (fun _ => rfl) h

/-- What one step of a run adds to the journal. -/
theorem Setting.Runs.adds (h : S.Runs c) {m : Move Request (Choice Row Env)} {c' : System}
    (hs : step? store (serve S.app) m c = some c') :
    (c'.state.db = c.state.db ∧ c'.state.wal = c.state.wal) ∨
      ∃ t ch req born p x, m = .exec t ch ∧ c'.threads t = .running req born p ∧ S.admits req ∧
        p.Obeys (discipline (req.Utters S.app)) Concludes x ∧
        Adds (req.Utters S.app) c.state c'.state ch x := by
  obtain ⟨t, req, rfl, ht, rfl⟩ | ⟨t, ch, req, born, β, op, k, b, s, rfl, ht, he, rfl⟩ |
    ⟨t, req, born, r, rfl, ht, rfl⟩ | ⟨t, req, born, p, rfl, ht, rfl⟩ := step?_cases hs
  · exact .inl ⟨rfl, rfl⟩
  · obtain ⟨hadmits, x, hx, hallows, hk⟩ := h.kept.running t req born _ ht
    refine .inr ⟨t, ch, req, born, k b, _, rfl, Function.update_self .., hadmits, hk b, ?_⟩
    exact Phase.Shows.adds hx hallows he
  · exact .inl ⟨rfl, rfl⟩
  · exact .inl ⟨rfl, rfl⟩

/-- A session that is not open after a step was known before. -/
theorem Setting.Runs.opens (h : S.Runs c) {m : Move Request (Choice Row Env)} {c' : System}
    (hs : step? store (serve S.app) m c = some c') :
    ∀ m ∈ c'.state.world.multipart, m.status = .opened ∨
      m.id ∈ c.state.world.multipart.map (·.id) := by
  obtain ⟨t, req, rfl, ht, rfl⟩ | ⟨t, ch, req, born, β, op, k, b, s, rfl, ht, he, rfl⟩ |
    ⟨t, req, born, r, rfl, ht, rfl⟩ | ⟨t, req, born, p, rfl, ht, rfl⟩ := step?_cases hs
  · exact fun m hm => .inr (List.mem_map.mpr ⟨m, hm, rfl⟩)
  · obtain ⟨_, x, _, hallows, _⟩ := h.kept.running t req born _ ht
    exact Phase.Shows.opens hallows he
  · exact fun m hm => .inr (List.mem_map.mpr ⟨m, hm, rfl⟩)
  · exact fun m hm => .inr (List.mem_map.mpr ⟨m, hm, rfl⟩)

/-- What one step of a run does to the store. -/
theorem Setting.Runs.guar (h : S.Runs c) {m : Move Request (Choice Row Env)} {c' : System}
    (hG : S.regime.allows m c) (hs : step? store (serve S.app) m c = some c') :
    c'.state = c.state ∨ (∃ t, Guar S t c.state c'.state) ∨
      ∃ t, c'.state = c.state.close t := by
  refine (Contract.Meets.step (K := contract S) (contract_lawful S) (fun _ _ _ _ h => h)
    (fun t s s' (hr : Since t s s') hs => hr.session.trans hs)
    (fun t req born r s s' (hr : Since t s s') ⟨hs, ha⟩ => ⟨hr.session.trans hs, ha.mono hr.later⟩)
    (fun t req s hadmits _ hs => ?_) h.meets hG hs).2
  exact wp_mono (ends_serve hs hadmits) fun _ _ h => ⟨h.1, h.2.2⟩

/-! ## Who has committed what -/

/-- A run, and its journal with the requests that were served. -/
inductive Setting.Signed (S : Setting) : System → List (Request × Label × List Write) → Prop
  | init : S.Signed (.initial (initialState S.migratedAt)) []
  | exec {c c' : System} {log} {t : Nat} {req : Request} {born : DbState}
      {p : Prog Op DomainError Response} (ch : Choice Row Env) (h : S.Signed c log)
      (ht : c.threads t = .running req born p) (hG : S.regime.allows (.exec t ch) c)
      (hs : step? store (serve S.app) (.exec t ch) c = some c') :
      S.Signed c' (log ++ (c'.state.wal.drop c.state.wal.length).map (req, ·))
  | other {c c' : System} {log} (m : Move Request (Choice Row Env)) (hm : ∀ t ch, m ≠ .exec t ch)
      (h : S.Signed c log) (hG : S.regime.allows m c)
      (hs : step? store (serve S.app) m c = some c') : S.Signed c' log

theorem Setting.Signed.runs {log} (h : S.Signed c log) : S.Runs c := by
  induction h with
  | init => exact .init
  | exec ch _ _ hG hs ih => exact .step _ ih hG hs
  | other m _ _ hG hs ih => exact .step m ih hG hs

/-- Every run can be signed. -/
theorem Setting.Runs.signed (h : S.Runs c) : ∃ log, S.Signed c log := by
  induction h with
  | init => exact ⟨[], .init⟩
  | @step c c' m hc hG hs ih =>
    obtain ⟨log, hlog⟩ := ih
    rcases step?_cases hs with ⟨t, req, rfl, _⟩ | ⟨t, ch, req, born, β, op, k, b, s, rfl, ht, _⟩ |
      ⟨t, req, born, r, rfl, _⟩ | ⟨t, req, born, p, rfl, _⟩
    · exact ⟨log, .other _ (fun _ _ h => by cases h) hlog hG hs⟩
    · exact ⟨_, .exec ch hlog ht hG hs⟩
    · exact ⟨log, .other _ (fun _ _ h => by cases h) hlog hG hs⟩
    · exact ⟨log, .other _ (fun _ _ h => by cases h) hlog hG hs⟩

/-- **Run.** A commit carries a label of the request that it is signed with. -/
theorem Setting.Signed.uttered {log} (h : S.Signed c log) :
    log.map (·.2) = c.state.wal ∧ ∀ e ∈ log, S.admits e.1 ∧ e.1.Utters S.app e.2.1 := by
  induction h with
  | init => exact ⟨rfl, fun e he => absurd he List.not_mem_nil⟩
  | @exec c c' log t req born p ch h ht hG hs ih =>
    obtain ⟨hlog, hutters⟩ := ih
    rcases Setting.Runs.adds h.runs hs with ⟨_, hwal⟩ |
      ⟨u, ch', req', born', p', x, hm, ht', hadmits, _, hadds⟩
    · rw [hwal, List.drop_length, List.map_nil, List.append_nil]
      exact ⟨hlog, hutters⟩
    · obtain ⟨rfl, rfl⟩ := Move.exec.inj hm
      -- the process still serves the same request
      obtain ⟨p'', ht''⟩ := step?_exec_running ht hs
      obtain ⟨rfl, _, _⟩ := Thread.running.inj (ht''.symm.trans ht')
      cases hadds with
      | nothing _ hwal =>
        rw [hwal, List.drop_length, List.map_nil, List.append_nil]
        exact ⟨hlog, hutters⟩
      | commit label ws hwal hlabel =>
        rw [hwal, List.drop_left, List.map_append, hlog]
        refine ⟨rfl, fun e he => ?_⟩
        rcases List.mem_append.mp he with he | he
        · exact hutters e he
        · obtain rfl := List.mem_singleton.mp he
          exact ⟨hadmits, hlabel⟩
  | @other c c' log m hm h hG hs ih =>
    rcases Setting.Runs.adds h.runs hs with ⟨_, hwal⟩ | ⟨t, ch, _, _, _, _, hexec, _⟩
    · rw [hwal]
      exact ih
    · exact absurd hexec (hm t ch)

/-- Only a create request speaks of a new object. -/
theorem Request.Utters.createObject {req : Request} {cmd : CreateObjectCommit}
    (h : req.Utters app (.createObject cmd)) : ∃ ctx cmd' ictx, req = .mutate ctx (.create cmd') ∧
      cmd = { cmd' with ctx := cmd'.ctx.withIdempotency ictx } := by
  rcases h with h | h
  · cases h
  cases req with
  | mutate ctx m =>
    rcases h with ⟨_, _, h | ⟨_, _, h | ⟨_, h⟩⟩⟩ | ⟨ictx, _, hlabel⟩
    · cases h
    · cases h
    · cases h
    · cases m with
      | create cmd' => exact ⟨ctx, cmd', ictx, rfl, Label.createObject.inj hlabel⟩
      | _ => cases hlabel
  | _ => simp [RequestContext.Claims, RequestContext.Completes] at h

/-- Only a request to create an upload speaks of a new one, in the name of its
attempt, or a client of the store. -/
theorem Request.Utters.createUploadRecord {req : Request} {cmd : CreateUploadRecord}
    (h : req.Utters app (.createUploadRecord cmd)) : req = .createUploadRecord cmd ∨
      ∃ body ctx, req = .createUpload body ctx ∧ ctx.Carries cmd.attempt := by
  rcases h with h | h
  · cases h
  cases req with
  | createUpload body ctx =>
    rcases h with ⟨_, _, h | ⟨_, _, h | ⟨_, h⟩⟩⟩ | ⟨cmd', hcarries, _, hlabel⟩ | ⟨_, _, h⟩ |
      ⟨_, _, _, h⟩
    · cases h
    · cases h
    · cases h
    · obtain rfl := Label.createUploadRecord.inj hlabel
      exact .inr ⟨body, ctx, rfl, hcarries⟩
    · cases h
    · cases h
  | createUploadRecord cmd' =>
    obtain rfl := Label.createUploadRecord.inj h
    exact .inl rfl
  | mutate ctx m =>
    rcases h with ⟨_, _, h | ⟨_, _, h | ⟨_, h⟩⟩⟩ | ⟨ictx, _, hlabel⟩
    · cases h
    · cases h
    · cases h
    · cases m <;> cases hlabel
  | _ => simp [RequestContext.Claims, RequestContext.Completes] at h

/-- What every answer to a request says of the state it was given in. -/
theorem Setting.Runs.replied {P : Request → DbState → Except DomainError Response → DbState → Prop}
    (hserve : ∀ t req s, S.admits req → s.session t = none →
      Ends S t (serve S.app req) (fun r s' => P req s r s') s)
    (hP : ∀ req born r s s', Later s s' → P req born r s → P req born r s')
    (h : S.Runs c) {r : Reply DbState Request DomainError Response} (hr : r ∈ c.replies) :
    P r.req r.born r.result c.state := by
  have hmeets : (contract S).Meets (fun t s => s.session t = none)
      (fun t req born r s => s.session t = none ∧ P req born r s) c := by
    refine Contract.sound (contract_lawful S) (fun _ _ _ _ h => h)
      (fun t s s' (hr : Since t s s') hs => hr.session.trans hs)
      (fun t req born r s s' (hr : Since t s s') ⟨hs, hp⟩ =>
        ⟨hr.session.trans hs, hP req born r s s' hr.later hp⟩)
      (fun t req s hadmits _ hs => ?_) (storeInv_initialState S) (fun t => rfl) h
    exact wp_mono (hserve t req s hadmits hs) fun _ _ h => ⟨h.1, h.2.2⟩
  exact (hmeets.replied r hr).2.2

end AnyStore
