import AnyStore.Refinement.Deletes
import AnyStore.Refinement.Idempotency
import AnyStore.Refinement.Maintenance
import AnyStore.Refinement.Uploads
import AnyStore.Spec.History

/-!
# Services

The operations of `UploadService` and `MaintenanceService` keep the contract of
the store: what they ask of the blob provider is recorded in an upload row, or
claimed, before they ask.
-/

namespace AnyStore

open ReadCommitted

variable {S : Setting} {t : Nat} {s s' : DbState} {α : Type} {app : AppState}

/-! ## The provider -/

/-- **Call.** The call may fail with the effect made or not made. -/
theorem serves_providerCall {label : Label} {possible : Env → World → Bool}
    {effect : Env → World → World} {answer : Env → α} {P : α → DbState → Prop}
    (hs : s.session t = none)
    (h : ∀ s₁ e, Later s s₁ → StoreInv S s₁ → s₁.session t = none → possible e s₁.world = true →
      s₁.world.Grows (effect e s₁.world) ∧ WorldInv S s₁.wal (effect e s₁.world) ∧
      P (answer e) (s₁.move t (effect e s₁.world))) :
    Serves S t (providerCall label possible effect answer) P s := by
  refine serves_seq ((serves_outside (P := fun r s' => ∀ a, r = .ok a → P a s') hs
    fun s₁ e r w hl hi hs₁ hf => ?_).mono fun r s₁ hs₁ _ h => serves_ofExcept hs₁ h)
  -- the provider refuses, answers, or its answer is lost
  split at hf
  · cases hf
    exact ⟨.refl _, hi.world, fun _ h => nomatch h⟩
  · split at hf
    · next hpossible =>
      cases hf
      obtain ⟨hgrows, hw, _⟩ := h s₁ e hl hi hs₁ hpossible
      exact ⟨hgrows, hw, fun _ h => nomatch h⟩
    · cases hf
  · split at hf
    · next hpossible =>
      cases hf
      obtain ⟨hgrows, hw, hp⟩ := h s₁ e hl hi hs₁ hpossible
      refine ⟨hgrows, hw, fun a ha => ?_⟩
      obtain rfl := Except.ok.inj ha
      exact hp
    · cases hf

/-- Closing a session forgets no id, -/
theorem closeSession_ids (w : World) (id blobRef : String) (status : SessionStatus) :
    (w.closeSession id blobRef status).multipart.map (·.id) = w.multipart.map (·.id) := by
  rw [World.closeSession, List.map_map]
  refine List.map_congr_left fun m _ => ?_
  rw [Function.comp_apply]
  split <;> rfl

/-- so the world has all that it had. -/
theorem closeSession_grows (w : World) (id blobRef : String) (status : SessionStatus) :
    w.Grows (w.closeSession id blobRef status) := by
  refine ⟨fun _ h => h, fun _ h => h, fun x hx => ?_⟩
  rw [closeSession_ids]
  exact hx

/-- A session is opened under a new id. -/
theorem serves_initiateMultipart {blobRef : String} (hs : s.session t = none) :
    Serves S t (initiateMultipart blobRef) (fun id s' => id ∈ s'.world.multipart.map (·.id)) s := by
  refine serves_providerCall hs fun s₁ e _ hi _ _ => ?_
  refine ⟨⟨fun _ h => h, fun _ h => h, fun id hid => List.mem_cons_of_mem _ hid⟩, ?_,
    List.mem_cons_self ..⟩
  exact ⟨hi.world.ulids, hi.world.deleted, hi.world.signed, hi.world.completions⟩

/-- A session is closed, or there is none. -/
theorem serves_abortProviderUpload {blobRef : String} {id : Option String}
    (hs : s.session t = none) :
    Serves S t (abortProviderUpload blobRef id) (fun _ _ => True) s := by
  cases id with
  | none => exact serves_ret hs trivial
  | some id =>
    refine serves_providerCall hs fun s₁ e _ hi _ _ => ⟨closeSession_grows .., ?_, trivial⟩
    exact ⟨hi.world.ulids, hi.world.deleted, hi.world.signed, hi.world.completions⟩

/-- Only what was claimed is deleted. -/
theorem serves_deleteBlob {backend blobRef : String} (hs : s.session t = none)
    (hclaimed : Claimed s.wal (backend, blobRef)) :
    Serves S t (deleteBlob backend blobRef)
      (fun _ s' => (backend, blobRef) ∈ s'.world.deleted) s := by
  refine serves_providerCall hs fun s₁ e hl hi _ _ => ?_
  refine ⟨⟨fun _ h => h, fun b hb => List.mem_cons_of_mem _ hb, fun _ h => h⟩, ?_,
    List.mem_cons_self ..⟩
  exact ⟨hi.world.ulids, List.forall_mem_cons.mpr ⟨hclaimed.mono hl.wal, hi.world.deleted⟩,
    hi.world.signed, hi.world.completions⟩

/-- Looking at a blob changes nothing. -/
theorem serves_headBlob (hs : s.session t = none) : Serves S t headBlob (fun _ _ => True) s :=
  serves_providerCall hs fun _ _ _ hi _ _ => ⟨.refl _, hi.world, trivial⟩

/-- Only recorded sessions are signed for, -/
theorem serves_signParts {blobRef id : String} {partNumbers : List Nat} (hs : s.session t = none)
    (hrecorded : Recorded S s.wal blobRef id) :
    Serves S t (signParts app blobRef id partNumbers) (fun _ _ => True) s := by
  refine serves_outside hs fun s₁ e parts w hl hi _ hf => ?_
  cases hf
  exact ⟨⟨fun _ h => h, fun _ h => h, fun _ h => h⟩, ⟨hi.world.ulids, hi.world.deleted,
    List.forall_mem_cons.mpr ⟨hrecorded.mono hl.wal, hi.world.signed⟩, hi.world.completions⟩,
    trivial⟩

/-- and completed. -/
theorem serves_completeMultipart {blobRef id : String} (hs : s.session t = none)
    (hrecorded : Recorded S s.wal blobRef id) :
    Serves S t (completeMultipart blobRef id) (fun _ _ => True) s := by
  refine serves_seq ((serves_outside (P := fun _ _ => True) hs
    fun s₁ e r w hl hi _ hf => ?_).mono fun r s₁ hs₁ _ _ => serves_ofExcept hs₁ fun _ _ => trivial)
  have hsent : WorldInv S s₁.wal
      { s₁.world with completions := (blobRef, id) :: s₁.world.completions } :=
    ⟨hi.world.ulids, hi.world.deleted, hi.world.signed,
      List.forall_mem_cons.mpr ⟨hrecorded.mono hl.wal, hi.world.completions⟩⟩
  -- the session is closed or not, and the request was sent
  have hgrows : s₁.world.Grows
      { s₁.world with completions := (blobRef, id) :: s₁.world.completions } :=
    ⟨fun _ h => h, fun _ h => h, fun _ h => h⟩
  have hclosed : ∀ w', WorldInv S s₁.wal w' → ∀ status,
      WorldInv S s₁.wal (w'.closeSession id blobRef status) := fun w' h status =>
    ⟨h.ulids, h.deleted, h.signed, h.completions⟩
  split at hf <;> cases hf
  · exact ⟨hgrows.trans (closeSession_grows ..), hclosed _ hsent _, trivial⟩
  · exact ⟨hgrows, hsent, trivial⟩
  · exact ⟨hgrows.trans (closeSession_grows ..), hclosed _ hsent _, trivial⟩

/-! ## Uploads -/

/-- What is read was committed some time during the call. -/
theorem serves_getUpload {id : UploadId} (hs : s.session t = none) :
    Serves S t (getUpload id) (fun r s' => ∀ upload, r = some upload → upload.id = id ∧
      ∃ wal₁, s.wal <+: wal₁ ∧ wal₁ <+: s'.wal ∧ (S.rows wal₁).upload id = some upload.row) s := by
  refine serves_seq (serves_select hs fun s₁ hl hi hs₁ => serves_ret hs₁ fun upload h => ?_)
  obtain ⟨row, hrow, rfl⟩ := Option.map_eq_some_iff.mp h
  exact ⟨rfl, s₁.wal, hl.wal, List.prefix_rfl, by rw [← hi.db]; exact hrow⟩

/-- What is found was live, and its metadata is returned as it is parsed. -/
theorem serves_getObject {a : Adapter} {id : ObjectId} (hs : s.session t = none) :
    Serves S t (getObject a id) (fun r s' => ∀ view, r = some view → ∃ wal₁ stored,
      s.wal <+: wal₁ ∧ wal₁ <+: s'.wal ∧ (S.rows wal₁).live id = some stored ∧
        stored.read a.viewRoom = some view.object) s := by
  -- the driver reads the row and the path in two statements, the procedure in one
  cases a with
  | sqlx =>
    refine serves_seq (serves_require hs fun _ => ?_)
    refine serves_seq (serves_select hs fun s₁ hl₁ hi₁ hs₁ => ?_)
    split
    · exact serves_ret hs₁ fun _ h => nomatch h
    · next stored hstored =>
      refine serves_seq (serves_orFail hs₁ fun object hread => ?_)
      refine serves_seq (serves_select hs₁ fun s₂ hl₂ _ hs₂ => ?_)
      refine serves_seq (serves_orFail hs₂ fun path _ => serves_ret hs₂ fun view h => ?_)
      obtain rfl := Option.some.inj h
      refine ⟨s₁.wal, stored, hl₁.wal, hl₂.wal, ?_, hread⟩
      rw [← hi₁.db]
      exact hstored
  | rpc =>
    refine serves_seq (serves_require hs fun _ => ?_)
    refine serves_seq (serves_select hs fun s₁ hl₁ hi₁ hs₁ => ?_)
    split
    · exact serves_ret hs₁ fun _ h => nomatch h
    · next found hfound =>
      obtain ⟨stored, hstored, rfl⟩ := Option.map_eq_some_iff.mp hfound
      refine serves_seq (serves_orFail hs₁ fun parsed hparsed => serves_ret hs₁ fun view h => ?_)
      obtain rfl := Option.some.inj h
      obtain ⟨object, hread, rfl⟩ := Option.map_eq_some_iff.mp hparsed
      refine ⟨s₁.wal, stored, hl₁.wal, List.prefix_rfl, ?_, hread⟩
      rw [← hi₁.db]
      exact hstored

/-- Preparing opens a session for a multipart upload. -/
theorem serves_prepareUpload {id : UploadId} {mode : UploadMode} (hs : s.session t = none) :
    Serves S t (prepareUpload app id mode) (fun prepared s' =>
      ∀ p ∈ prepared.providerUploadId, p ∈ s'.world.multipart.map (·.id)) s := by
  refine serves_seq (serves_utcNow hs fun now s₁ _ hs₁ => ?_)
  cases mode with
  | single => exact serves_ret hs₁ fun _ h => nomatch h
  | multipart =>
    refine serves_seq ((serves_initiateMultipart hs₁).mono fun id s₂ hs₂ _ hid => ?_)
    refine serves_ret hs₂ fun p hp => ?_
    obtain rfl := Option.some.inj hp
    exact hid

/-- The session is recorded before it is answered with. -/
theorem serves_prepareSession {ctx : RequestContext} {upload : UploadRecord}
    (hs : s.session t = none) : Serves S t (prepareSession app ctx upload) (fun _ _ => True) s := by
  unfold prepareSession
  split
  · refine serves_seq ((serves_prepareUpload hs).mono fun prepared s₁ hs₁ _ hid => ?_)
    exact serves_seq ((serves_updateUploadState hs₁ (.inr hid)).mono fun _ _ hs₂ _ _ =>
      serves_ret hs₂ trivial)
  · split
    · exact (serves_prepareUpload hs).mono fun _ _ _ _ _ => trivial
    · exact serves_ret hs trivial
  · split
    · exact (serves_prepareUpload hs).mono fun _ _ _ _ _ => trivial
    · exact serves_ret hs trivial
  · exact serves_fail hs
  · exact serves_fail hs
  · exact serves_fail hs

/-- The id of an upload is the client's, a fresh one or that of its record. -/
theorem serves_uploadIdFor {ctx : RequestContext} {ictx : Option IdempotencyContext}
    (hs : s.session t = none) (hproceeds : Proceeds S ctx ictx s) :
    Serves S t (uploadIdFor S.app ictx) (fun id s' => ∀ cmd : CreateUploadRecord, cmd.id = id →
      cmd.attempt = ictx → Origin S s'.world s'.wal cmd) s := by
  cases ictx with
  | some i =>
    refine serves_ret hs fun cmd hid hattempt => ?_
    exact .derived i hattempt (hproceeds.2 i rfl).2 hid
  | none =>
    refine serves_seq (serves_ulid hs fun id s₁ _ hs₁ hdrawn _ => ?_)
    exact serves_ret hs₁ fun cmd hid hattempt => .fresh hattempt id hdrawn hid

/-! ## Requests -/

/-- Nothing is said about the result. -/
theorem Serves.ended {p : Store α} {P : α → DbState → Prop} (h : Serves S t p P s) :
    Ends S t p (fun _ _ => True) s :=
  wp_mono h fun _ _ h => ⟨h.1, h.2.1, trivial⟩

/-- An attempt that may go on may do so later. -/
theorem Proceeds.later {ctx : RequestContext} {ictx : Option IdempotencyContext}
    (h : Proceeds S ctx ictx s) (hl : Later s s') : Proceeds S ctx ictx s' :=
  ⟨h.1, fun i hi => ⟨(h.2 i hi).1, ((h.2 i hi).2.mono hl.world).later hl.wal⟩⟩

/-- **Create.** The reply is that of an attempt. -/
theorem ends_createUpload {req : CreateUploadRequest} {ctx : RequestContext}
    (hs : s.session t = none) :
    Ends S t (createUpload S.app req ctx)
      (fun r s' => Replied S t s.wal ctx r s') s := by
  refine ends_idempotencyRunWithCompletion hs fun ictx s₁ _ hs₁ hproceeds => ?_
  refine Serves.ended (P := fun _ _ => True) ?_
  refine serves_seq ((serves_getObject hs₁).mono fun target s₂ hs₂ hl₂ _ => ?_)
  refine serves_seq (serves_orFail hs₂ fun target _ => ?_)
  refine serves_seq (serves_require hs₂ fun _ => ?_)
  refine serves_seq (serves_ofExcept hs₂ fun _ _ => serves_seq (serves_ofExcept hs₂ fun _ _ => ?_))
  refine serves_seq ((serves_uploadIdFor hs₂ (hproceeds.later hl₂)).mono
    fun id s₃ hs₃ _ horigin => ?_)
  refine serves_seq ((serves_createUploadRecord hs₃ (horigin _ rfl rfl)).mono fun r s₄ hs₄ _ _ => ?_)
  exact serves_seq ((serves_prepareSession hs₄).mono fun _ _ hs₅ _ _ => serves_ret hs₅ trivial)

/-- **Parts.** The same. -/
theorem ends_allocateParts {id : UploadId} {partNumbers : List Nat} {ctx : RequestContext}
    (hs : s.session t = none) :
    Ends S t (allocateParts app id partNumbers ctx)
      (fun r s' => Replied S t s.wal ctx r s') s := by
  refine ends_idempotencyRunWithCompletion hs fun ictx s₁ _ hs₁ _ => ?_
  refine Serves.ended (P := fun _ _ => True) ?_
  refine serves_seq ((serves_getUpload hs₁).mono fun r s₂ hs₂ _ hr => ?_)
  refine serves_seq (serves_orFail hs₂ fun upload hupload => ?_)
  obtain ⟨_, wal₁, _, hwal, hrow⟩ := hr upload hupload
  refine serves_seq (serves_require hs₂ fun _ => serves_seq (serves_require hs₂ fun _ => ?_))
  refine serves_seq (serves_require hs₂ fun _ => serves_seq (serves_require hs₂ fun _ => ?_))
  refine serves_seq (serves_require hs₂ fun _ => serves_seq (serves_orFail hs₂ fun p hp => ?_))
  refine serves_seq (serves_require hs₂ fun _ => ?_)
  refine serves_seq ((serves_signParts hs₂ ⟨wal₁, id, upload.row, hwal, hrow, rfl, hp⟩).mono
    fun parts s₃ hs₃ _ _ => serves_ret hs₃ trivial)

/-- **Abort.** The same. -/
theorem ends_abortUploadSession {id : UploadId} {ctx : RequestContext} (hs : s.session t = none) :
    Ends S t (abortUploadSession app id ctx)
      (fun r s' => Replied S t s.wal ctx r s') s := by
  refine ends_idempotencyRunWithCompletion hs fun ictx s₁ _ hs₁ _ => ?_
  refine Serves.ended (P := fun _ _ => True) ?_
  refine serves_seq ((serves_getUpload hs₁).mono fun r s₂ hs₂ _ _ => ?_)
  refine serves_seq (serves_orFail hs₂ fun upload _ => ?_)
  split
  · exact serves_ret hs₂ trivial
  refine serves_seq (serves_require hs₂ fun _ => ?_)
  refine serves_seq (serves_attempt (Q := fun _ _ => True) (serves_abortProviderUpload hs₂)
    (fun _ _ _ _ _ => trivial) (fun _ _ _ _ => trivial) |>.mono fun _ s₃ hs₃ _ _ => ?_)
  exact serves_seq ((serves_abortUploadRecord hs₃).mono fun _ _ hs₄ _ _ => serves_ret hs₄ trivial)

/-- A check of size and checksum. -/
theorem serves_checkStat {u : UploadRow} {stat : BlobStat} (hs : s.session t = none)
    {P : Option String → DbState → Prop} (h : ∀ sha256, P sha256 s) :
    Serves S t (checkStat u stat) P s :=
  serves_seq (serves_require hs fun _ => serves_seq (serves_require hs fun _ =>
    serves_ret hs (h _)))

/-- The provider is asked for sessions that are recorded. -/
theorem serves_ensureUploadCompleted {blobRef : String} {mode : UploadMode}
    {providerUploadId : Option String} {parts : List CompletedPart} (hs : s.session t = none)
    (hrecorded : ∀ id, providerUploadId = some id → Recorded S s.wal blobRef id) :
    Serves S t (ensureUploadCompleted blobRef mode providerUploadId parts) (fun _ _ => True) s := by
  have hhead : ∀ s₁ e, s₁.session t = none → Serves S t
      (headBlob >>= fun stat => Prog.orFail e stat) (fun _ _ => True) s₁ := fun s₁ e hs₁ =>
    serves_seq ((serves_headBlob hs₁).mono fun _ _ hs₂ _ _ => serves_orFail hs₂ fun _ _ => trivial)
  cases mode with
  | single => exact hhead s _ hs
  | multipart =>
    refine serves_seq (serves_orFail hs fun id hid => serves_seq (serves_require hs fun _ => ?_))
    refine serves_seq ((serves_completeMultipart hs (hrecorded id hid)).mono
      fun closed s₁ hs₁ _ _ => ?_)
    split
    · exact hhead s₁ _ hs₁
    · exact hhead s₁ _ hs₁

/-- The commit finalises the record of its attempt. -/
theorem serves_commitUpload {ctx : RequestContext} {ictx : Option IdempotencyContext}
    {upload : UploadRecord} {size : Nat} {contentType : String} {sha256 : Option String}
    (hs : s.session t = none) (hproceeds : Proceeds S ctx ictx s) :
    Serves S t (commitUpload app ctx ictx upload size contentType sha256)
      (fun response s' => (∀ i ∈ ictx, Answered S s'.wal i response) ∧
        Matched S s.wal s'.wal upload.row.objectId ctx.ifMatch) s :=
  serves_commitContent hs fun i hi => (hproceeds.2 i hi).2.minted

/-- The object that a mutation acts on and the revision that it expects. -/
def Mutation.subject : Mutation → Option (ObjectId × Option Revision)
  | .create _ => none
  | .patch cmd => some (cmd.id, cmd.ifMatch)
  | .delete cmd => some (cmd.id, cmd.ifMatch)
  | .commit cmd => some (cmd.objectId, cmd.ifMatch)

/-- So does a mutation. -/
theorem serves_mutation {ctx : RequestContext} {ictx : Option IdempotencyContext} {m : Mutation}
    (hs : s.session t = none) (hproceeds : Proceeds S ctx ictx s) :
    Serves S t (m.run S.app ictx) (fun response s' => (∀ i ∈ ictx, Answered S s'.wal i response) ∧
      ∀ id ifMatch, m.subject = some (id, ifMatch) → Matched S s.wal s'.wal id ifMatch) s := by
  have hminted : ∀ i ∈ ictx, Minted s.world i := fun i hi => (hproceeds.2 i hi).2.minted
  cases m with
  | create cmd =>
    refine (serves_createObject hs hminted).mono fun _ s' _ _ h => ⟨h, fun id ifMatch he => ?_⟩
    cases he
  | patch cmd =>
    refine (serves_patchObject hs hminted).mono fun _ s' _ _ h => ⟨h.1, fun id ifMatch he => ?_⟩
    cases he
    exact h.2
  | delete cmd =>
    refine (serves_deleteObject hs hminted).mono fun _ s' _ _ h => ⟨h.1, fun id ifMatch he => ?_⟩
    cases he
    exact h.2
  | commit cmd =>
    refine (serves_commitContent hs hminted).mono fun _ s' _ _ h => ⟨h.1, fun id ifMatch he => ?_⟩
    cases he
    exact h.2

/-- **Mutation.** The reply is that of an attempt, and a response belongs to a commit. -/
theorem ends_mutate {ctx : RequestContext} {m : Mutation} (hs : s.session t = none) :
    Ends S t (idempotencyRun S.app ctx (m.run S.app)) (fun r s' =>
      Replied S t s.wal ctx r s' ∧ Settled S s.wal ctx (fun _ wal =>
        ∀ id ifMatch, m.subject = some (id, ifMatch) → Matched S s.wal wal id ifMatch) r s') s :=
  ends_idempotencyRun hs fun _ _ hl₁ hs₁ hproceeds =>
    (serves_mutation hs₁ hproceeds).mono fun _ _ _ _ h =>
      ⟨h.1, fun id ifMatch he => (h.2 id ifMatch he).since hl₁.wal⟩

/-- **Complete.** The reply is that of an attempt. -/
theorem ends_completeUploadSession {id : UploadId} {parts : List CompletedPart}
    {ctx : RequestContext} (hs : s.session t = none) :
    Ends S t (completeUploadSession app id parts ctx)
      (fun r s' => Replied S t s.wal ctx r s' ∧ Settled S s.wal ctx (fun _ wal =>
        ∃ wal₁ u, wal₁ <+: wal ∧ (S.rows wal₁).upload id = some u ∧
          Matched S s.wal wal u.objectId ctx.ifMatch) r s') s := by
  refine ends_idempotencyRun hs fun ictx s₁ hl₁ hs₁ hproceeds => ?_
  refine serves_seq ((serves_getUpload hs₁).mono fun r s₂ hs₂ hl₂ hr => ?_)
  refine serves_seq (serves_orFail hs₂ fun upload hupload => ?_)
  obtain ⟨_, wal₁, _, hwal, hrow⟩ := hr upload hupload
  refine serves_seq (serves_require hs₂ fun _ => ?_)
  refine serves_seq ((serves_getObject hs₂).mono fun target s₃ hs₃ hl₃ _ => ?_)
  refine serves_seq (serves_orFail hs₃ fun target _ => serves_seq (serves_require hs₃ fun _ => ?_))
  refine serves_seq (serves_require hs₃ fun _ => ?_)
  have hproceeds₃ := hproceeds.later (hl₂.trans hl₃)
  split
  · refine serves_seq (serves_orFail hs₃ fun size _ => serves_seq (serves_orFail hs₃ fun _ _ => ?_))
    refine (serves_commitUpload hs₃ hproceeds₃).mono fun _ s₄ _ hl₄ h => ⟨h.1, ?_⟩
    exact ⟨wal₁, upload.row, hwal.trans (hl₃.trans hl₄).wal, hrow,
      h.2.since (hl₁.trans (hl₂.trans hl₃)).wal⟩
  · refine serves_seq ((serves_updateUploadState hs₃ (.inr ?_)).mono
      fun _ s₄ hs₄ hl₄ _ => serves_seq (serves_require hs₄ fun _ => ?_))
    · exact fun _ h => nomatch h
    refine serves_seq ((serves_ensureUploadCompleted hs₄ fun p hp => ?_).mono
      fun stat s₅ hs₅ hl₅ _ => serves_seq (serves_checkStat hs₅ fun sha256 => ?_))
    · exact ⟨wal₁, id, upload.row, hwal.trans (hl₃.trans hl₄).wal, hrow, rfl, hp⟩
    · have hl₃₅ := hl₃.trans (hl₄.trans hl₅)
      refine (serves_commitUpload hs₅ (hproceeds₃.later (hl₄.trans hl₅))).mono
        fun _ s₆ _ hl₆ h => ⟨h.1, ?_⟩
      exact ⟨wal₁, upload.row, hwal.trans (hl₃₅.trans hl₆).wal, hrow,
        h.2.since (hl₁.trans (hl₂.trans hl₃₅)).wal⟩

/-! ## Maintenance -/

/-- The sessions of expired uploads are closed one by one. -/
theorem serves_abortEach (uploads : List UploadRecord) (hs : s.session t = none) :
    Serves S t (abortEach app uploads) (fun _ _ => True) s := by
  induction uploads generalizing s with
  | nil => exact serves_ret hs trivial
  | cons upload uploads ih =>
    refine serves_seq (serves_attempt (Q := fun _ _ => True) (P := fun _ _ => True) ?_
      (fun _ _ _ _ _ => trivial) (fun _ _ _ _ => trivial) |>.mono fun _ s₁ hs₁ _ _ => ih hs₁)
    exact serves_seq (serves_require hs fun _ => serves_abortProviderUpload hs)

/-- The uploads are marked before. -/
theorem serves_abortExpiredUploads {now : Time} (hs : s.session t = none) :
    Serves S t (abortExpiredUploads app now) (fun _ _ => True) s := by
  refine serves_seq ((serves_claimExpiredUploads hs).mono fun expired s₁ hs₁ _ _ => ?_)
  exact serves_seq ((serves_abortEach expired hs₁).mono fun _ _ hs₂ _ _ => serves_ret hs₂ trivial)

/-- Only claimed blobs are deleted, and only deleted blobs leave the queue. -/
theorem serves_collectEach {now : Time} (batch : List BlobGcEntry) (hs : s.session t = none)
    (hclaimed : ∀ e ∈ batch, Claimed s.wal e.blob) :
    Serves S t (collectEach app now batch) (fun _ _ => True) s := by
  induction batch generalizing s with
  | nil => exact serves_ret hs trivial
  | cons entry batch ih =>
    obtain ⟨hentry, hbatch⟩ := List.forall_mem_cons.mp hclaimed
    have hrest : ∀ s₁, s₁.session t = none → Later s s₁ →
        Serves S t (collectEach app now batch) (fun _ _ => True) s₁ := fun s₁ hs₁ hl₁ =>
      ih hs₁ fun e he => (hbatch e he).mono hl₁.wal
    rw [collectEach]
    split
    · refine serves_seq (serves_attempt (Q := fun r s' => r = .ok () →
        entry.blob ∈ s'.world.deleted) (serves_deleteBlob hs hentry) (fun _ _ _ _ h _ => h)
        (fun _ _ _ _ h => nomatch h) |>.mono fun r s₁ hs₁ hl₁ hr => ?_)
      cases r with
      | ok u =>
        refine serves_seq ((serves_finishGc hs₁ (hr rfl)).mono fun _ s₂ hs₂ hl₂ _ => ?_)
        exact serves_seq ((hrest s₂ hs₂ (hl₁.trans hl₂)).mono fun _ _ hs₃ _ _ =>
          serves_ret hs₃ trivial)
      | error e =>
        refine serves_seq ((serves_failGc hs₁).mono fun _ s₂ hs₂ hl₂ _ => ?_)
        exact serves_seq ((hrest s₂ hs₂ (hl₁.trans hl₂)).mono fun _ _ hs₃ _ _ =>
          serves_ret hs₃ trivial)
    · exact serves_seq ((hrest s hs (.refl s)).mono fun _ _ hs₁ _ _ => serves_ret hs₁ trivial)

/-- **Collection.** Entries are claimed before their blobs are deleted. -/
theorem serves_collectBlobs {now : Time} (hs : s.session t = none) :
    Serves S t (collectBlobs app now) (fun _ _ => True) s :=
  serves_seq ((serves_claimGcBatch hs).mono fun batch _ hs₁ _ hclaimed =>
    serves_collectEach batch hs₁ hclaimed)

end AnyStore
