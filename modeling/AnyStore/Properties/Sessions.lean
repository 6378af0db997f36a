import AnyStore.Properties.Blobs
import AnyStore.Refinement.Requests
import AnyStore.Spec.Uploads

/-!
# Provider sessions

When one upload keeps one provider session, and when every open session can be
found in the store.

## Results

* `one_session`: what is sent to the provider for an upload carries one session,
  an answered create has its session recorded, and the record keeps it. Every run
  in which an update that stores a session finds the record as it was made.
* `not_one_session`: two attempts under one key, of which the first stores its
  session after the second one has answered.
* `no_session_orphaned`: every session that is open at the provider is named by a
  record in every state of a run, exactly if the run opens none. The session is
  opened before its id is stored.
* `session_orphaned`: a process dies between the two.

## Assumptions

`no_session_orphaned` speaks of runs in which clients do not update upload records
directly (`Setting.managed`); the service does.
-/

namespace AnyStore

open ReadCommitted

variable {S : Setting} {w : World} {wal₀ wal wal' : Journal} {c : System} {t : Nat}
  {s s' : DbState}

/-! ## One session for an upload -/

/-- An update that stores a provider session finds the record as it was made. -/
def Setting.unopened (app : AppState) (migratedAt : Time) : Setting where
  app := app
  migratedAt := migratedAt
  rule
    | .updateUploadState cmd, db => cmd.providerUploadId.isSome → ∀ u ∈ db.upload cmd.id,
        cmd.allows u = true → u.state = .initiating
    | _, _ => True

/-- A session response for an upload whose record was prepared by then. -/
def Prepared (S : Setting) (wal : Journal) (response : StoredResponse) : Prop :=
  ∃ wal₁ id u objectId prepared, wal₁ <+: wal ∧ (S.rows wal₁).upload id = some u ∧
    u.state ≠ .initiating ∧ response = sessionResponse S.app id objectId prepared

/-- What is sent to the provider for one upload carries one session, and once
a response was given the record keeps its session. -/
structure OneSession (S : Setting) (c : System) : Prop where
  sent : ∀ e ∈ c.state.world.signedParts ++ c.state.world.completions,
    ∀ e' ∈ c.state.world.signedParts ++ c.state.world.completions, e.1 = e'.1 → e.2 = e'.2
  answered : ∀ r ∈ c.replies, ∀ req ctx response, r.req = .createUpload req ctx →
    r.result = .ok (.stored response) → Prepared S c.state.wal response ∨
      ∃ key, ctx.idempotencyKey = some key ∧
        Replays S r.born.wal c.state.wal (ctx.recordKey key) ctx.requestHash response
  stored : ∀ wal wal' id u, wal <+: wal' → wal' <+: c.state.wal →
    (S.rows wal).upload id = some u → u.state ≠ .initiating →
    ∃ u', (S.rows wal').upload id = some u' ∧ u'.providerUploadId = u.providerUploadId

theorem Prepared.mono {response : StoredResponse} (h : Prepared S wal response)
    (hp : wal <+: wal') : Prepared S wal' response := by
  obtain ⟨wal₁, id, u, objectId, prepared, hwal, h⟩ := h
  exact ⟨wal₁, id, u, objectId, prepared, hwal.trans hp, h⟩

/-- Preparing a session answers for a record that is no longer as it was made. -/
theorem serves_prepareSession_prepared {app : AppState} {ctx : RequestContext}
    {upload : UploadRecord} (hs : s.session t = none) (hfound : Found S s.wal upload) :
    Serves S t (prepareSession app ctx upload) (fun _ s' => ∃ wal₁ u, wal₁ <+: s'.wal ∧
      (S.rows wal₁).upload upload.id = some u ∧ u.state ≠ .initiating) s := by
  have hthere : upload.row.state ≠ .initiating → ∀ s', Later s s' → ∃ wal₁ u, wal₁ <+: s'.wal ∧
      (S.rows wal₁).upload upload.id = some u ∧ u.state ≠ .initiating := by
    intro hstate s' hl
    obtain ⟨wal₁, hwal, hrow⟩ := hfound
    exact ⟨wal₁, upload.row, hwal.trans hl.wal, hrow, hstate⟩
  unfold prepareSession
  split
  · -- a record as it was made: a session is opened and stored
    refine serves_seq ((serves_prepareUpload hs).mono fun prepared s₁ hs₁ _ hid => ?_)
    refine serves_seq ((serves_updateUploadState hs₁ (.inr hid)).mono fun _ s₂ hs₂ _ h => ?_)
    obtain ⟨wal₁, u, hwal, hrow, hstate⟩ := h
    refine serves_ret hs₂ ⟨wal₁, u, hwal, hrow, ?_⟩
    rw [hstate]
    show UploadState.ready ≠ .initiating
    decide
  · -- a record with a session: its URL is prepared again
    next hstate =>
    have hne : upload.row.state ≠ .initiating := by rw [hstate]; decide
    split
    · exact (serves_prepareUpload hs).mono fun _ s₁ _ hl _ => hthere hne s₁ hl
    · exact serves_ret hs (hthere hne s (.refl s))
  · next hstate =>
    have hne : upload.row.state ≠ .initiating := by rw [hstate]; decide
    split
    · exact (serves_prepareUpload hs).mono fun _ s₁ _ hl _ => hthere hne s₁ hl
    · exact serves_ret hs (hthere hne s (.refl s))
  · exact serves_fail hs
  · exact serves_fail hs
  · exact serves_fail hs

/-- What a create-upload answers with was recorded, or is replayed. -/
theorem ends_createUpload_prepared {req : CreateUploadRequest} {ctx : RequestContext}
    (hs : s.session t = none) :
    Ends S t (createUpload S.app req ctx) (fun r s' => ∀ response, r = .ok response →
      Prepared S s'.wal response ∨ ∃ key, ctx.idempotencyKey = some key ∧
        Replays S s.wal s'.wal (ctx.recordKey key) ctx.requestHash response) s := by
  refine ends_idempotencyRunWithCompletion_settled (P := fun response wal => Prepared S wal response)
    (fun _ _ _ hp h => h.mono hp) hs fun ictx s₁ _ hs₁ hproceeds => ?_
  -- the checks of the target come first, then the record, then the session
  refine serves_seq ((serves_getObject hs₁).mono fun target s₂ hs₂ hl₂ _ => ?_)
  refine serves_seq (serves_orFail hs₂ fun target _ => ?_)
  refine serves_seq (serves_require hs₂ fun _ => ?_)
  refine serves_seq (serves_ofExcept hs₂ fun _ _ => serves_seq (serves_ofExcept hs₂ fun _ _ => ?_))
  refine serves_seq ((serves_uploadIdFor hs₂ (hproceeds.later hl₂)).mono
    fun id s₃ hs₃ _ horigin => ?_)
  refine serves_seq ((serves_createUploadRecord hs₃ (horigin _ rfl rfl)).mono
    fun r s₄ hs₄ _ ⟨_, hfound⟩ => ?_)
  refine serves_seq ((serves_prepareSession_prepared hs₄ hfound).mono
    fun prepared s₅ hs₅ _ h => serves_ret hs₅ ?_)
  obtain ⟨wal₁, u, hwal, hrow, hstate⟩ := h
  exact ⟨wal₁, r.1.id, u, r.1.row.objectId, prepared, hwal, hrow, hstate, rfl⟩

/-- The same for the replies of a run. -/
theorem Setting.Runs.prepared (h : S.Runs c) {r : Reply DbState Request DomainError Response}
    (hr : r ∈ c.replies) {req : CreateUploadRequest} {ctx : RequestContext}
    {response : StoredResponse} (hreq : r.req = .createUpload req ctx)
    (hresult : r.result = .ok (.stored response)) :
    Prepared S c.state.wal response ∨ ∃ key, ctx.idempotencyKey = some key ∧
      Replays S r.born.wal c.state.wal (ctx.recordKey key) ctx.requestHash response := by
  refine h.replied (P := fun req born result s => ∀ up ctx response, req = .createUpload up ctx →
    result = .ok (.stored response) → Prepared S s.wal response ∨ ∃ key,
      ctx.idempotencyKey = some key ∧
        Replays S born.wal s.wal (ctx.recordKey key) ctx.requestHash response)
    (fun t req s hadmits hs => ?_) (fun req born result s s' hl hp up ctx response hreq hres => ?_)
    hr req ctx response hreq hresult
  · -- the request runs from its start to its reply
    cases req with
    | createUpload up ctx =>
      refine ends_seq ((ends_createUpload_prepared hs).mono fun r s₁ hs₁ _ hr => ?_)
      cases r with
      | error e => exact fun _ _ _ _ h => nomatch h
      | ok response =>
        refine ends_ret hs₁ fun up' ctx' response' hreq hresponse => ?_
        obtain ⟨rfl, rfl⟩ := Request.createUpload.inj hreq
        obtain rfl := Response.stored.inj (Except.ok.inj hresponse)
        exact hr response rfl
    | _ => exact wp_mono (ends_serve hs hadmits) fun _ _ h =>
        ⟨h.1, h.2.1, fun _ _ _ hreq => nomatch hreq⟩
  · -- and the reply stays true
    rcases hp up ctx response hreq hres with h | ⟨key, hkey, h⟩
    · exact .inl (h.mono hl.wal)
    · exact .inr ⟨key, hkey, h.mono hl.wal⟩

/-- A prepared record that no update reopens keeps its session. -/
theorem UploadStep.provider {db : Db} {label : Label} {id : UploadId} {u : UploadRow}
    {o : Option UploadRow} (h : UploadStep S w wal db id label (some u) o)
    (hdb : db.upload id = some u) (hu : u.state ≠ .initiating)
    (hrule : ∀ cmd, S.rule (.updateUploadState cmd) db → cmd.providerUploadId.isSome →
      ∀ u ∈ db.upload cmd.id, cmd.allows u = true → u.state = .initiating) :
    ∃ u', o = some u' ∧ u'.providerUploadId = u.providerUploadId := by
  cases h with
  | same => exact ⟨u, rfl, rfl⟩
  | updated cmd hid hallows hr =>
    subst hid
    refine ⟨cmd.row u, rfl, ?_⟩
    show cmd.providerUploadId.or u.providerUploadId = u.providerUploadId
    cases hp : cmd.providerUploadId with
    | none => rfl
    -- only an update that stores a session changes it, and that one is for a record as it was
    -- made
    | some p =>
      have hinitiating := hrule cmd hr (by rw [hp]; rfl) u hdb hallows
      exact absurd hinitiating hu
  | aborted cmd => exact ⟨cmd.row u, rfl, rfl⟩
  | expired => exact ⟨u.expired, rfl, rfl⟩
  | completed cmd => exact ⟨cmd.uploadRow u, rfl, rfl⟩

/-- **Run.** A record with a session keeps it. -/
theorem Serial.provider (h : Serial S w wal') (hp : wal <+: wal') {id : UploadId} {u : UploadRow}
    (hu : (S.rows wal).upload id = some u) (hstate : u.state ≠ .initiating)
    (hrule : ∀ cmd db, S.rule (.updateUploadState cmd) db → cmd.providerUploadId.isSome →
      ∀ u ∈ db.upload cmd.id, cmd.allows u = true → u.state = .initiating) :
    ∃ u', (S.rows wal').upload id = some u' ∧ u'.state ≠ .initiating ∧
      u'.providerUploadId = u.providerUploadId := by
  induction h with
  | nil => exact ⟨u, List.prefix_nil.mp hp ▸ hu, hstate, rfl⟩
  | snoc _ hc ih =>
    rcases List.prefix_concat_iff.mp hp with rfl | hp
    · exact ⟨u, hu, hstate, rfl⟩
    · -- by induction on the commits behind the first point
      obtain ⟨v, hv, hvstate, hprovider⟩ := ih hp
      have hstep := hc.uploadStep id
      rw [hv] at hstep
      rw [Setting.rows_snoc]
      obtain ⟨v', hv', hprovider'⟩ := hstep.provider hv hvstate fun cmd hr => hrule cmd _ hr
      rw [hv'] at hstep
      exact ⟨v', hv', hstep.prepared hvstate, hprovider'.trans hprovider⟩

/-- **One session.** Every run under `Setting.unopened`. -/
theorem one_session {app : AppState} {migratedAt : Time}
    (h : (Setting.unopened app migratedAt).Runs c) : OneSession (.unopened app migratedAt) c where
  -- what was signed or completed was recorded at that time
  sent := by
    intro e he e' he' heq
    have hserial := h.storeInv.serial
    have hworld := h.storeInv.world
    have hrecorded : ∀ e ∈ c.state.world.signedParts ++ c.state.world.completions,
        Recorded (.unopened app migratedAt) c.state.wal e.1 e.2 := fun e he =>
      (List.mem_append.mp he).elim (hworld.signed e) (hworld.completions e)
    -- the record that comes first keeps its session until the other one
    have hkeeps : ∀ {wal₁ wal₂ : Journal} {i j : UploadId} {u v : UploadRow}, wal₁ <+: wal₂ →
        wal₂ <+: c.state.wal → ((Setting.unopened app migratedAt).rows wal₁).upload i = some u →
        ((Setting.unopened app migratedAt).rows wal₂).upload j = some v →
        u.blobRef = v.blobRef → u.providerUploadId.isSome → v.providerUploadId = u.providerUploadId := by
      intro wal₁ wal₂ i j u v h₁ h₂ hu hv hblob hsome
      have hs₂ := hserial.of_prefix h₂
      have hsessioned := (hs₂.of_prefix h₁).sessioned hu hsome
      obtain ⟨u', hu', _, hprovider⟩ := hs₂.provider h₁ hu hsessioned fun cmd db hrule => hrule
      obtain ⟨v', hv', hblob', _⟩ := hs₂.upload_mono h₁ hu
      obtain rfl : v' = u' := Option.some.inj (hv'.symm.trans hu')
      -- uploads do not share blobs, so both are one record
      have hsame := hs₂.blobInv.upload_unique hu' hv ((congrArg Prod.snd hblob').trans hblob)
      rw [← hsame.2]
      exact hprovider
    obtain ⟨wal₁, i, u, h₁, hu, hblob, hid⟩ := hrecorded e he
    obtain ⟨wal₂, j, v, h₂, hv, hblob', hid'⟩ := hrecorded e' he'
    have hblobs : u.blobRef = v.blobRef := by rw [hblob, hblob', heq]
    have hprovider : v.providerUploadId = u.providerUploadId := by
      -- whichever of the two came first
      rcases List.prefix_or_prefix_of_prefix h₁ h₂ with hp | hp
      · exact hkeeps hp h₂ hu hv hblobs (by rw [hid]; rfl)
      · exact (hkeeps hp h₁ hv hu hblobs.symm (by rw [hid']; rfl)).symm
    rw [hid, hid'] at hprovider
    exact (Option.some.inj hprovider).symm
  answered _ hr _ _ _ hreq hresult := h.prepared hr hreq hresult
  stored wal wal' id u hp hp' hu hstate := by
    obtain ⟨u', hu', _, hprovider⟩ := (h.storeInv.serial.of_prefix hp').provider hp hu hstate
      fun cmd db hrule => hrule
    exact ⟨u', hu', hprovider⟩

/-- A request for the URL of the first part. -/
def sampleParts (id : UploadId) (now : Time) : Request :=
  .allocateParts id [1] (sampleContext none now)

/-- A multipart upload is created, and part URLs are signed twice. -/
def signedTwice : List (Move Request (Choice Row Env)) :=
  alone 0 (sampleCreate none "a" .file "A" 1) 9 {} ++ alone 1 (sampleUpload none "a" 6 2) 10 uploading ++
    alone 2 (sampleParts "upload_u" 3) 2 {} ++ alone 3 (sampleParts "upload_u" 4) 2 {}

/-- Both calls in `signedTwice` sign for the one session. -/
theorem one_session_signedTwice : ∃ c, (Setting.unopened (sampleApp .sqlx) 0).Runs c ∧
    c.state.world.signedParts = [("blobs/upload_u", "u"), ("blobs/upload_u", "u")] ∧
    OneSession (.unopened (sampleApp .sqlx) 0) c := by
  obtain ⟨c, hc, hsigned⟩ := Setting.checked_runs (Setting.unopened (sampleApp .sqlx) 0)
    (fun _ => true) (fun label db => match label with
      | .updateUploadState cmd => decide (cmd.providerUploadId.isSome → ∀ u ∈ db.upload cmd.id,
          cmd.allows u = true → u.state = .initiating)
      | _ => true) (fun _ _ => trivial)
    (fun label db h => by
      cases label with
      | updateUploadState cmd =>
        show cmd.providerUploadId.isSome → ∀ u ∈ db.upload cmd.id, cmd.allows u = true →
          u.state = .initiating
        exact of_decide_eq_true h
      | _ => trivial)
    signedTwice (fun c => c.state.world.signedParts)
    (a := [("blobs/upload_u", "u"), ("blobs/upload_u", "u")]) (by decide)
  exact ⟨c, hc, hsigned, one_session hc⟩

/-- An attempt under a key, up to the session that it opens at the provider. -/
def openedSession (t : Nat) (token session : String) (polls : Nat) (now : Time) :
    List (Move Request (Choice Row Env)) :=
  .spawn t (sampleUpload (some "key") "a" 6 now) :: (steps t 1 { fresh := token } ++
    steps t (polls + 7) { now } ++ steps t 1 { fresh := session })

/-- The upload of the attempts under the key. -/
def sampleUploadId : UploadId :=
  derivedId (sampleApp .sqlx) "upload_"
    ⟨"owner", "POST /objects", "key", "hash", "t", resourceToken 2⟩

/-- The lease of an attempt expires before it has stored its session. The next
one stores its own and is done; parts are signed; then the first one stores. -/
def storedTwice : List (Move Request (Choice Row Env)) :=
  alone 0 (sampleCreate none "a" .file "A" 1) 9 {} ++ openedSession 1 "t" "p" 1 2 ++
    openedSession 2 "u" "q" 5 20 ++ steps 2 2 {} ++ [.finish 2] ++
    alone 3 (sampleParts sampleUploadId 21) 2 {} ++ steps 1 1 {} ++
    alone 4 (sampleParts sampleUploadId 22) 2 {}

/-- Without the condition: `storedTwice` signs for two sessions. -/
theorem not_one_session : ∃ c, (Setting.free (sampleApp .sqlx) 0).Runs c ∧
    ¬ OneSession (.free (sampleApp .sqlx) 0) c := by
  obtain ⟨c, hc, hsigned⟩ := Setting.free_runs (sampleApp .sqlx) 0 storedTwice
    (fun c => c.state.world.signedParts)
    (a := [(blobRefFor sampleUploadId, "p"), (blobRefFor sampleUploadId, "q")])
    (by decide +kernel)
  refine ⟨c, hc, fun h => ?_⟩
  have hsame := h.sent (blobRefFor sampleUploadId, "p") (by rw [hsigned]; simp)
    (blobRefFor sampleUploadId, "q") (by rw [hsigned]; simp) rfl
  simp at hsame

/-! ## Orphaned sessions -/

/-- Every open provider session is named by an upload record. -/
def NoOrphan (c : System) : Prop :=
  ∀ m ∈ c.state.world.multipart, m.status = .opened → ∃ id u,
    Db.upload c.state.db id = some u ∧ u.providerUploadId = some m.id

/-- Clients do not update upload records directly. -/
def Setting.managed (app : AppState) (migratedAt : Time) : Setting where
  app := app
  migratedAt := migratedAt
  admits
    | .updateUploadState _ => False
    | _ => True

/-- The sessions that records name were opened at the provider. -/
theorem Serial.provided (h : Serial S w wal) (hadmits : ∀ cmd, ¬ S.admits (.updateUploadState cmd))
    {id : UploadId} {u : UploadRow} (hu : (S.rows wal).upload id = some u) :
    ∀ p ∈ u.providerUploadId, p ∈ w.multipart.map (·.id) := by
  induction h generalizing u with
  | nil =>
    rw [Setting.rows_nil, Db.upload, lookup_initialDb _ (by simp) (by simp)] at hu
    cases hu
  | snoc _ hc ih =>
    have hstep := hc.uploadStep id
    rw [Setting.rows_snoc] at hu
    rw [hu] at hstep
    generalize hold : Db.upload _ id = old at hstep
    cases hstep with
    | same => exact ih hold
    | created cmd =>
      intro p hp
      cases hp
    -- the one commit that stores a session has it from the provider
    | updated cmd hid hallows hrule horigin =>
      intro p hp
      rcases Option.or_eq_some_iff.mp hp with hp | ⟨_, hp⟩
      · exact horigin.resolve_left (hadmits cmd) p hp
      · exact ih hold p hp
    | aborted cmd => exact fun p hp => ih hold p hp
    | expired => exact fun p hp => ih hold p hp
    | completed cmd => exact fun p hp => ih hold p hp

/-- Provider sessions are never forgotten. -/
theorem Setting.Runs.no_multipart {S : Setting} (h : S.Runs c) {m : Move Request (Choice Row Env)}
    {c' : System} (hG : S.regime.allows m c) (hs : step? store (serve S.app) m c = some c')
    (hnone : c'.state.world.multipart = []) : c.state.world.multipart = [] := by
  -- a step leaves the world alone, or lets it grow
  rcases h.guar hG hs with heq | ⟨t, hguar⟩ | ⟨t, heq⟩
  · rwa [heq] at hnone
  · cases hmultipart : c.state.world.multipart with
    | nil => rfl
    | cons m ms =>
      have hgrows := hguar.later.world.multipart m.id (by rw [hmultipart]; exact List.mem_cons_self ..)
      rw [hnone] at hgrows
      cases hgrows
  · rwa [heq] at hnone

/-- A session that was just opened is in no record. -/
theorem orphan_of_open (hS : ∀ cmd, ¬ S.admits (.updateUploadState cmd)) (h : S.Runs c)
    {m : Move Request (Choice Row Env)} {c' : System} (hG : S.regime.allows m c)
    (hs : step? store (serve S.app) m c = some c') (hnone : c.state.world.multipart = [])
    (horphan : NoOrphan c') : c'.state.world.multipart = [] := by
  by_contra hne
  obtain ⟨m', hm'⟩ := List.exists_mem_of_ne_nil _ hne
  -- the step has opened a session, as none was there
  have hopened : m'.status = .opened := by
    rcases h.opens hs m' hm' with hopened | hknown
    · exact hopened
    · rw [hnone] at hknown
      cases hknown
  obtain ⟨id, u, hu, hp⟩ := horphan m' hm' hopened
  -- only a move of the world can do that, and it leaves the rows alone
  rcases h.guar hG hs with heq | ⟨t, hguar⟩ | ⟨t, heq⟩
  · rw [heq, hnone] at hm'
    cases hm'
  · cases hguar with
    | silent hsilent =>
      rw [hsilent.world, hnone] at hm'
      cases hm'
    | published label ws hpublished =>
      rw [hpublished.world, hnone] at hm'
      cases hm'
    | world w hgrows heq =>
      -- the rows are those of before, when no session was known
      have hdb : c'.state.db = c.state.db := by
        rw [heq]
        rfl
      rw [hdb, h.storeInv.db] at hu
      have hknown := h.storeInv.serial.provided hS hu m'.id (by rw [hp]; rfl)
      rw [hnone] at hknown
      cases hknown
  · rw [heq] at hm'
    have hm' : m' ∈ c.state.world.multipart := hm'
    rw [hnone] at hm'
    cases hm'

/-- **Orphans.** No session is ever orphaned if and only if none is opened. -/
theorem no_session_orphaned (app : AppState) (migratedAt : Time) (c : System) :
    Throughout store (serve app) (Setting.managed app migratedAt).regime (initialState migratedAt)
      NoOrphan c ↔
    (Setting.managed app migratedAt).Runs c ∧ c.state.world.multipart = [] := by
  have hS : ∀ cmd, ¬ (Setting.managed app migratedAt).admits (.updateUploadState cmd) :=
    fun cmd h => h
  constructor
  · -- the first session that is opened is in no record right after it was
    intro h
    refine ⟨h.reachable, ?_⟩
    induction h with
    | init => rfl
    | step m hc hG hs horphan ih => exact orphan_of_open hS hc.reachable hG hs ih horphan
  · -- sessions are never forgotten, so none was open before
    rintro ⟨h, hnone⟩
    have hnotOrphan : ∀ c : System, c.state.world.multipart = [] → NoOrphan c := by
      intro c hnone m hm
      rw [hnone] at hm
      cases hm
    induction h with
    | init => exact .init (hnotOrphan _ rfl)
    | step m hc hG hs ih =>
      exact .step m (ih (Setting.Runs.no_multipart hc hG hs hnone)) hG hs (hnotOrphan _ hnone)

/-- The process dies when the provider has opened the session, and the sweep
finds a record that does not name it. -/
def crashedAfterOpening : List (Move Request (Choice Row Env)) :=
  alone 0 (sampleCreate none "a" .file "A" 1) 9 {} ++
    .spawn 1 (sampleUpload none "a" 6 2) :: (steps 1 9 uploading ++ [.crash 1] ++
      alone 2 (.abortExpiredUploads 200) 5 {})

/-- The sessions and whether they are open, and the records: whether they are
expired, and their sessions. -/
def sessionsAndRecords (c : System) : List (String × Bool) × List (Option (Bool × Option String)) :=
  (c.state.world.multipart.map fun m => (m.id, decide (m.status = .opened)),
    (Db.uploadIds c.state.db).map fun id => (Db.upload c.state.db id).map fun u =>
      (decide (u.state = .expired), u.providerUploadId))

/-- The run of `crashedAfterOpening` leaves an open session behind. -/
theorem session_orphaned : ∃ c, (Setting.managed (sampleApp .sqlx) 0).Runs c ∧ ¬ NoOrphan c := by
  obtain ⟨c, hc, hend⟩ := Setting.checked_runs (Setting.managed (sampleApp .sqlx) 0)
    (fun req => match req with
      | .updateUploadState _ => false
      | _ => true) (fun _ _ => true)
    (fun req h => by
      cases req with
      | updateUploadState cmd => cases h
      | _ => trivial) (fun _ _ _ => trivial)
    crashedAfterOpening sessionsAndRecords
    (a := ([("u", true)], [some (true, none)])) (by decide)
  obtain ⟨hsessions, hrows⟩ := Prod.mk.inj hend
  refine ⟨c, hc, fun h => ?_⟩
  have hmem : ("u", true) ∈ c.state.world.multipart.map fun m =>
      (m.id, decide (m.status = .opened)) := by
    rw [hsessions]
    exact List.mem_singleton_self _
  obtain ⟨m, hm, heq⟩ := List.mem_map.mp hmem
  obtain ⟨_, hopened⟩ := Prod.mk.inj heq
  obtain ⟨id, u, hu, hp⟩ := h m hm (of_decide_eq_true hopened)
  have hrow : some (decide (u.state = .expired), u.providerUploadId) ∈
      (Db.uploadIds c.state.db).map fun id => (Db.upload c.state.db id).map fun u =>
        (decide (u.state = .expired), u.providerUploadId) := by
    refine List.mem_map.mpr ⟨id, Db.mem_uploadIds.mpr (by rw [hu]; rfl), ?_⟩
    rw [hu]
    rfl
  rw [hrows, List.mem_singleton] at hrow
  have hnone := (Prod.mk.inj (Option.some.inj hrow)).2
  rw [hp] at hnone
  cases hnone

end AnyStore
