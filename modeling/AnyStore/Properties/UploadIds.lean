import AnyStore.Lib.Framing
import AnyStore.Properties.Sessions
import AnyStore.Refinement.Requests
import AnyStore.Spec.Records

/-!
# Which upload an attempt creates

A retry under the same idempotency record derives the same upload id, whoever
owns the record by then, and other requests derive other ids. So the attempts
under one record create at most one upload.

## Assumptions

- Uploads are created by the upload service, never through the store directly, and
  a lease is taken over from the record that was read (`Setting.takenAsRead`).
- Other ids only: the hash has no collision on the two preimages, and the parts of
  the preimages that come from the request hold no U+0000.

## Results

- `Serial.created_once` — an upload id is used by one commit.
- `Setting.Signed.made` — every commit is the one of a request to create an upload:
  without a key its id is drawn, with a key it is derived from the record that the
  attempt owns.
- `upload_ids` — both, in every run, and what follows for the attempts under one record.
-/

namespace AnyStore

open ReadCommitted

variable {S : Setting} {c : System} {w : World} {wal wal₁ wal₂ : Journal} {i i' : IdempotencyContext}

/-- Uploads are created by the upload service, and a lease is taken over from
the record that was read. -/
def Setting.takenAsRead (app : AppState) (migratedAt : Time) : Setting where
  app := app
  migratedAt := migratedAt
  admits
    | .createUploadRecord _ => False
    | _ => True
  rule
    | .steal req createdAt, db => ∀ r ∈ db.record req.context.recordKey, r.createdAt = createdAt
    | _, _ => True

/-- The attempt owns the record of its key, and its token names that record. -/
def OwnsAt (S : Setting) (w : World) (wal : Journal) (i : IdempotencyContext) : Prop :=
  ∃ r, Held w (S.rows wal) i r ∧ r.requestHash = i.requestHash ∧
    i.resourceToken = resourceToken r.createdAt

/-- Two attempts with one request that own the same record, one after the other. -/
structure OneRecord (S : Setting) (c : System) (i i' : IdempotencyContext) : Prop where
  key : i'.recordKey = i.recordKey
  hash : i'.requestHash = i.requestHash
  -- the record has not been released or purged in between
  life : ∃ wal₁ wal₂, wal₁ <+: wal₂ ∧ wal₂ <+: c.state.wal ∧ OwnsAt S c.state.world wal₁ i ∧
    OwnsAt S c.state.world wal₂ i' ∧
    ∀ wal', wal₁ <+: wal' → wal' <+: wal₂ → (S.rows wal').record i.recordKey ≠ none

/-- What is hashed for the id of an upload. -/
def IdempotencyContext.preimage (i : IdempotencyContext) : String :=
  "\x00".intercalate [i.principalId, i.operation, i.key, i.requestHash, i.resourceToken]

/-- The parts that the HTTP layer lets through. -/
structure IdempotencyContext.NulFree (i : IdempotencyContext) : Prop where
  principalId : '\x00' ∉ i.principalId.toList
  operation : '\x00' ∉ i.operation.toList
  key : '\x00' ∉ i.key.toList
  requestHash : '\x00' ∉ i.requestHash.toList

/-- What a request to create an upload has inserted: with a key, the row of the
attempt that owned the record, and without one a row of its own. -/
inductive Made (S : Setting) (w : World) (wal : Journal) (ctx : RequestContext)
    (cmd : CreateUploadRecord) : Prop
  | keyless (hkey : ctx.idempotencyKey = none) (hattempt : cmd.attempt = none) (id : String)
      (hdrawn : (id, none) ∈ w.ulids) (hid : cmd.id = "upload_" ++ id)
  | keyed (i : IdempotencyContext) (hattempt : cmd.attempt = some i) (hctx : Attempt ctx i)
      (howns : ∃ wal₁, wal₁ <+: wal ∧ OwnsAt S w wal₁ i)
      (hid : cmd.id = derivedId S.app "upload_" i)

/-- Where the ids of uploads come from, and how often they are used. -/
structure UploadIds (S : Setting) (c : System) : Prop where
  -- an id is used by one commit
  once : ∀ wal₁ wal₂ cmd cmd' ws ws', wal₁ ++ [(.createUploadRecord cmd, ws)] <+: c.state.wal →
    wal₂ ++ [(.createUploadRecord cmd', ws')] <+: c.state.wal → cmd.id = cmd'.id → wal₁ = wal₂
  -- the requests in whose service the journal was written are known
  signed : ∃ log, S.Signed c log
  made : ∀ log, S.Signed c log → ∀ log₁ req cmd ws,
    log₁ ++ [(req, .createUploadRecord cmd, ws)] <+: log → ∃ body ctx,
      req = .createUpload body ctx ∧ Made S c.state.world (log₁.map (·.2)) ctx cmd
  retried : ∀ i i', OneRecord S c i i' → derivedId S.app "upload_" i' = derivedId S.app "upload_" i
  -- so the attempts under one record create one upload
  one : ∀ i i' wal₁ wal₂ cmd cmd' ws ws', OneRecord S c i i' →
    wal₁ ++ [(.createUploadRecord cmd, ws)] <+: c.state.wal →
    wal₂ ++ [(.createUploadRecord cmd', ws')] <+: c.state.wal →
      cmd.attempt = some i → cmd'.attempt = some i' → wal₁ = wal₂
  distinct : ∀ i i', i.NulFree → i'.NulFree →
    (S.app.sha256Hex i.preimage = S.app.sha256Hex i'.preimage → i.preimage = i'.preimage) →
      derivedId S.app "upload_" i = derivedId S.app "upload_" i' → i'.recordKey = i.recordKey ∧
        i'.requestHash = i.requestHash ∧ i'.resourceToken = i.resourceToken

/-! ## Texts -/

/-- The preimage, character by character. -/
theorem preimage_toList (i : IdempotencyContext) : i.preimage.toList =
    i.principalId.toList ++ '\x00' :: (i.operation.toList ++ '\x00' :: (i.key.toList ++ '\x00' ::
      (i.requestHash.toList ++ '\x00' :: i.resourceToken.toList))) := by
  unfold IdempotencyContext.preimage
  simp [String.intercalate_cons_cons]

/-- The separators cut the text in one way. -/
theorem preimage_inj (h : i.NulFree) (h' : i'.NulFree) (heq : i.preimage = i'.preimage) :
    i'.recordKey = i.recordKey ∧ i'.requestHash = i.requestHash ∧
      i'.resourceToken = i.resourceToken := by
  have hlist := congrArg String.toList heq
  rw [preimage_toList, preimage_toList] at hlist
  obtain ⟨hprincipal, h₁⟩ := Framing.separated_inj' h.principalId h'.principalId hlist
  obtain ⟨hoperation, h₂⟩ := Framing.separated_inj' h'.operation h.operation h₁
  obtain ⟨hkey, h₃⟩ := Framing.separated_inj' h.key h'.key h₂
  obtain ⟨hhash, htoken⟩ := Framing.separated_inj' h'.requestHash h.requestHash h₃
  refine ⟨?_, String.toList_inj.mp hhash.symm, String.toList_inj.mp htoken.symm⟩
  unfold IdempotencyContext.recordKey
  rw [String.toList_inj.mp hprincipal, String.toList_inj.mp hoperation.symm,
    String.toList_inj.mp hkey]

/-- The id is a prefix and a hash. -/
theorem derivedId_eq (app : AppState) (i : IdempotencyContext) :
    derivedId app "upload_" i = "upload_" ++ app.sha256Hex i.preimage := rfl

/-! ## Records -/

/-- A lease that is taken over keeps the token of the record. -/
theorem Names.token (hrule : ∀ req createdAt db, S.rule (.steal req createdAt) db →
      ∀ r ∈ db.record req.context.recordKey, r.createdAt = createdAt) {r : IdempotencyRow}
    (h : Names S i r) : i.resourceToken = resourceToken r.createdAt := by
  rcases h with h | ⟨req, createdAt, db, r₀, hsteal, hp, ho, hk, hrow, hcreated, htoken⟩
  · exact h
  · -- the record that was taken over had been read
    have hkey : db.record req.context.recordKey = some r₀ := by
      unfold Db.record IdempotencyContext.recordKey
      rw [hp, ho, hk]
      exact hrow
    rw [htoken, ← hrule req createdAt db hsteal r₀ hkey, hcreated]

/-- As long as a record is there, its creation time stays. -/
theorem Serial.createdAt_kept (h : Serial S w wal) (key : RecordKey) {r : IdempotencyRow}
    (hp : wal₁ <+: wal) (hr : (S.rows wal₁).record key = some r)
    (hlife : ∀ wal', wal₁ <+: wal' → wal' <+: wal → (S.rows wal').record key ≠ none) :
    ∃ r', (S.rows wal).record key = some r' ∧ r'.createdAt = r.createdAt := by
  induction h with
  | nil =>
    obtain rfl := List.prefix_nil.mp hp
    exact ⟨r, hr, rfl⟩
  | @snoc wal label ws hserial hc ih =>
    rcases List.prefix_concat_iff.mp hp with rfl | hp
    · exact ⟨r, hr, rfl⟩
    · obtain ⟨r₁, hr₁, hcreated⟩ := ih hp fun wal' h₁ h₂ =>
        hlife wal' h₁ (h₂.trans (List.prefix_append _ _))
      have hpresent := hlife _ (hp.trans (List.prefix_append _ _)) List.prefix_rfl
      have hstep := hc.recordStep key
      rw [hr₁] at hstep
      rw [Setting.rows_snoc] at hpresent ⊢
      generalize hnew : Db.record (replay ws (S.rows wal)) key = new at hstep hpresent
      -- a record that is there all the time is never made anew
      cases hstep with
      | same => exact ⟨r₁, rfl, hcreated⟩
      | stolen _ _ hkept _ => exact ⟨_, rfl, hkept.trans hcreated⟩
      | completed => exact ⟨_, rfl, hcreated⟩
      | released => exact absurd rfl hpresent
      | purged => exact absurd rfl hpresent

/-! ## Uploads -/

/-- An upload is never removed. -/
theorem UploadStep.kept {label : Label} {db : Db} {id : UploadId} {u : UploadRow}
    {o : Option UploadRow} (h : UploadStep S w wal db id label (some u) o) : o.isSome := by
  cases h <;> rfl

/-- An upload row is never removed. -/
theorem Serial.upload_kept (h : Serial S w wal) {id : UploadId} (hp : wal₁ <+: wal)
    (hu : ((S.rows wal₁).upload id).isSome) : ((S.rows wal).upload id).isSome := by
  induction h with
  | nil =>
    obtain rfl := List.prefix_nil.mp hp
    exact hu
  | @snoc wal label ws hserial hc ih =>
    rcases List.prefix_concat_iff.mp hp with rfl | hp
    · exact hu
    · obtain ⟨u, hu⟩ := Option.isSome_iff_exists.mp (ih hp)
      have hstep := hc.uploadStep id
      rw [hu] at hstep
      rw [Setting.rows_snoc]
      exact hstep.kept

/-- Two commits that create an upload with one id are the same commit. -/
theorem Serial.created_once (h : Serial S w wal) {cmd cmd' : CreateUploadRecord}
    {ws ws' : List Write} (h₁ : wal₁ ++ [(.createUploadRecord cmd, ws)] <+: wal)
    (h₂ : wal₂ ++ [(.createUploadRecord cmd', ws')] <+: wal) (hid : cmd.id = cmd'.id) :
    wal₂.length ≤ wal₁.length := by
  by_contra hlt
  -- the first row is still there at the second commit
  have hlength : (wal₁ ++ [(Label.createUploadRecord cmd, ws)]).length ≤ wal₂.length := by
    rw [List.length_append, List.length_singleton]
    omega
  have hp := List.prefix_of_prefix_length_le h₁ ((List.prefix_append _ _).trans h₂) hlength
  have hserial := h.of_prefix ((List.prefix_append _ _).trans h₂)
  have hcommit := h.commits h₁
  have hcommit' := h.commits h₂
  have hthere : ((S.rows (wal₁ ++ [(Label.createUploadRecord cmd, ws)])).upload cmd.id).isSome := by
    rw [Setting.rows_snoc]
    generalize hlabel : Label.createUploadRecord cmd = label at hcommit
    cases hcommit with
    | createUploadRecord cmd₁ =>
      obtain rfl := Label.createUploadRecord.inj hlabel
      rw [upload_replay, written_cons_self]
      rfl
    | @steal req label createdAt r hsteal =>
      subst hlabel
      rcases hsteal with hsteal | hsteal <;> cases hsteal
    | _ => cases hlabel
  have hkept := hserial.upload_kept hp hthere
  generalize hlabel : Label.createUploadRecord cmd' = label at hcommit'
  cases hcommit' with
  | createUploadRecord cmd₁ hfresh =>
    obtain rfl := Label.createUploadRecord.inj hlabel
    rw [hid, hfresh] at hkept
    cases hkept
  | @steal req label createdAt r hsteal =>
    subst hlabel
    rcases hsteal with hsteal | hsteal <;> cases hsteal
  | _ => cases hlabel

/-- The commit of an upload says where its id comes from. -/
theorem Commits.origin {db : Db} {cmd : CreateUploadRecord} {ws : List Write}
    (h : Commits S w wal db (.createUploadRecord cmd) ws) : Origin S w wal cmd := by
  generalize hlabel : Label.createUploadRecord cmd = label at h
  cases h with
  | createUploadRecord cmd₁ hfresh horigin =>
    obtain rfl := Label.createUploadRecord.inj hlabel
    exact horigin
  | @steal req label createdAt r hsteal =>
    subst hlabel
    rcases hsteal with hsteal | hsteal <;> cases hsteal
  | _ => cases hlabel

/-- One id, one commit. -/
theorem created_eq (h : S.Runs c) {cmd cmd' : CreateUploadRecord} {ws ws' : List Write}
    (h₁ : wal₁ ++ [(.createUploadRecord cmd, ws)] <+: c.state.wal)
    (h₂ : wal₂ ++ [(.createUploadRecord cmd', ws')] <+: c.state.wal) (hid : cmd.id = cmd'.id) :
    wal₁ = wal₂ := by
  have hserial := h.storeInv.serial
  have hle := hserial.created_once h₁ h₂ hid
  have hle' := hserial.created_once h₂ h₁ hid.symm
  exact (List.prefix_of_prefix_length_le ((List.prefix_append _ _).trans h₁)
    ((List.prefix_append _ _).trans h₂) hle').eq_of_length (Nat.le_antisymm hle' hle)

/-- The id is made of what the owners of one record have in common. -/
theorem OneRecord.derivedId_eq (h : S.Runs c) (hone : OneRecord S c i i') :
    derivedId S.app "upload_" i' = derivedId S.app "upload_" i := by
  obtain ⟨hkey, hhash, wal₁, wal₂, hp, hwal, ⟨r, hheld, _, htoken⟩, ⟨r', hheld', _, htoken'⟩,
    hlife⟩ := hone
  have hserial := h.storeInv.serial.of_prefix hwal
  obtain ⟨r₂, hr₂, hcreated⟩ := hserial.createdAt_kept i.recordKey hp hheld.2.1 hlife
  have hr' : (S.rows wal₂).record i'.recordKey = some r' := hheld'.2.1
  rw [hkey] at hr'
  obtain rfl := Option.some.inj (hr₂.symm.trans hr')
  obtain ⟨hprincipal, hrest⟩ := Prod.mk.inj hkey
  obtain ⟨hoperation, hkey⟩ := Prod.mk.inj hrest
  unfold derivedId
  rw [hprincipal, hoperation, hkey, hhash, htoken', htoken, hcreated]

/-- The id of a row that was inserted in the name of an attempt is derived from it. -/
theorem Origin.derivedId_eq {cmd : CreateUploadRecord} (h : Origin S w wal cmd)
    (hadmits : ¬ S.admits (.createUploadRecord cmd)) (hattempt : cmd.attempt = some i) :
    cmd.id = derivedId S.app "upload_" i := by
  cases h with
  | client h => exact absurd h hadmits
  | fresh hnone =>
    rw [hattempt] at hnone
    cases hnone
  | derived i' hsome _ hid =>
    obtain rfl := Option.some.inj (hattempt.symm.trans hsome)
    exact hid

section takenAsRead

variable {app : AppState} {migratedAt : Time}

/-- An owner has seen its record as it is. -/
theorem Owner.ownsAt (h : Owner (Setting.takenAsRead app migratedAt) w wal i) :
    ∃ wal₁, wal₁ <+: wal ∧ OwnsAt (Setting.takenAsRead app migratedAt) w wal₁ i := by
  obtain ⟨wal₁, r, hp, hheld, hhash, hnames⟩ := h
  exact ⟨wal₁, hp, r, hheld, hhash, hnames.token fun _ _ _ hrule => hrule⟩

/-- **Commit.** The journal is signed by the requests that inserted the rows. -/
theorem Setting.Signed.made {log log₁ : List (Request × Label × List Write)} {req : Request}
    {cmd : CreateUploadRecord} {ws : List Write}
    (h : (Setting.takenAsRead app migratedAt).Signed c log)
    (hp : log₁ ++ [(req, .createUploadRecord cmd, ws)] <+: log) : ∃ body ctx,
      req = .createUpload body ctx ∧
        Made (Setting.takenAsRead app migratedAt) c.state.world (log₁.map (·.2)) ctx cmd := by
  obtain ⟨hlog, hutters⟩ := h.uttered
  have hmem : (req, Label.createUploadRecord cmd, ws) ∈ log :=
    hp.subset (List.mem_append_right _ (List.mem_singleton_self _))
  obtain ⟨hadmits, hutters⟩ := hutters _ hmem
  have hwal : log₁.map (·.2) ++ [(Label.createUploadRecord cmd, ws)] <+: c.state.wal := by
    rw [← hlog]
    have hmap := hp.map (·.2)
    rw [List.map_append] at hmap
    exact hmap
  have horigin := (h.runs.storeInv.serial.commits hwal).origin
  -- what the program of the request says of the attempt, and the commit of the id
  obtain rfl | ⟨body, ctx, rfl, hcarries⟩ := hutters.createUploadRecord
  · cases hadmits
  · refine ⟨body, ctx, rfl, ?_⟩
    cases horigin with
    | client h => cases h
    | fresh hattempt id hdrawn hid => exact .keyless (hcarries.keyless hattempt) hattempt id hdrawn hid
    | derived i hattempt howner hid =>
      exact .keyed i hattempt (hcarries.attempt i hattempt) howner.ownsAt hid

/-- **Upload ids.** In every run of the setting. -/
theorem upload_ids (h : (Setting.takenAsRead app migratedAt).Runs c) :
    UploadIds (Setting.takenAsRead app migratedAt) c where
  once wal₁ wal₂ cmd cmd' ws ws' h₁ h₂ hid := created_eq h h₁ h₂ hid
  signed := h.signed
  made log hlog log₁ req cmd ws hp := hlog.made hp
  retried i i' hone := hone.derivedId_eq h
  one i i' wal₁ wal₂ cmd cmd' ws ws' hone h₁ h₂ hattempt hattempt' := by
    have hid := (h.storeInv.serial.commits h₁).origin.derivedId_eq id hattempt
    have hid' := (h.storeInv.serial.commits h₂).origin.derivedId_eq id hattempt'
    refine created_eq h h₁ h₂ ?_
    rw [hid, hid', hone.derivedId_eq h]
  distinct i i' hfree hfree' hcollision heq := by
    refine preimage_inj hfree hfree' (hcollision ?_)
    rw [AnyStore.derivedId_eq, AnyStore.derivedId_eq] at heq
    have hlist := congrArg String.toList heq
    rw [String.toList_append, String.toList_append] at hlist
    exact String.toList_inj.mp (List.append_cancel_left hlist)

end takenAsRead

/-- The lease of an attempt expires, and the next one goes on with its upload. -/
def resumedUpload : List (Move Request (Choice Row Env)) :=
  alone 0 (sampleCreate none "a" .file "A" 1) 9 {} ++ openedSession 1 "t" "p" 1 2 ++
    openedSession 2 "u" "q" 5 20 ++ steps 2 2 {} ++ [.finish 2]

/-- The upload that is created. -/
def Label.createsUpload : Label → Option UploadId
  | .createUploadRecord cmd => some cmd.id
  | _ => none

/-- An attempt dies behind its create, and the retry creates no other upload. -/
theorem upload_ids_resumed : ∃ c, (Setting.takenAsRead (sampleApp .sqlx) 0).Runs c ∧
    c.state.wal.filterMap (fun e => e.1.createsUpload) = [sampleUploadId] ∧
    UploadIds (Setting.takenAsRead (sampleApp .sqlx) 0) c := by
  obtain ⟨c, hc, hcreated⟩ := Setting.checked_runs (Setting.takenAsRead (sampleApp .sqlx) 0)
    (fun
      | .createUploadRecord _ => false
      | _ => true)
    (fun label db => match label with
      | .steal req createdAt => decide (∀ r ∈ db.record req.context.recordKey, r.createdAt = createdAt)
      | _ => true)
    (fun req h => by
      cases req with
      | createUploadRecord cmd => cases h
      | _ => trivial)
    (fun label db h => by
      cases label with
      | steal req createdAt =>
        show ∀ r ∈ db.record req.context.recordKey, r.createdAt = createdAt
        exact of_decide_eq_true h
      | _ => trivial)
    resumedUpload (fun c => c.state.wal.filterMap fun e => e.1.createsUpload)
    (a := [sampleUploadId]) (by decide)
  exact ⟨c, hc, hcreated, upload_ids hc⟩

end AnyStore
