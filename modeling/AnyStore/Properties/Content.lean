import AnyStore.Lib.Locked
import AnyStore.Properties.Blobs
import AnyStore.Refinement.Requests
import AnyStore.Spec.Rows
import AnyStore.Spec.Uploads

/-!
# Content of files

In every committed state a file has all of its content or none, a folder has
none, and a completed upload has made the content of its target. It does so at
most once, however often it is completed.

## Assumptions

- Objects are created through the application, which refuses a content type for a
  folder (`CreateObjectCommit.Sent`); the database itself would store one.

## Results

- `RowWrite.wellFormed` — one commit keeps every row well formed.
- `Commits.contributed` — a completion changes nothing, or gives exactly its target
  one new revision and says so in one Change.
- `content_kept` — both, and that an upload contributes at most once, in every state
  of every run.
-/

namespace AnyStore

open ReadCommitted

variable {S : Setting} {w : World} {wal wal₁ : Journal} {c : System} {db db' : Db}
  {label : Label} {ws : List Write}

/-- No blob, and nothing of what is known of one. A content type may be there
already: the one that the file was announced with. -/
structure ObjectRow.Blank (o : ObjectRow) : Prop where
  size : o.sizeBytes = none
  sha256 : o.sha256 = none
  backend : o.blobBackend = none
  ref : o.blobRef = none

inductive ObjectRow.WellFormed (o : ObjectRow) : Prop
  | folder (hkind : o.kind = .folder) (hstate : o.contentState = none) (htype : o.contentType = none)
      (hblank : o.Blank)
  | empty (hkind : o.kind = .file) (hstate : o.contentState = some .none) (hblank : o.Blank)
  | ready (hkind : o.kind = .file) (hstate : o.contentState = some .ready)
      (hsize : o.sizeBytes.isSome) (htype : o.contentType.isSome)
      (hbackend : o.blobBackend.isSome) (href : o.blobRef.isSome)

/-- The application has checked the request that this command is made of. -/
def CreateObjectCommit.Sent (cmd : CreateObjectCommit) : Prop :=
  ∃ req : CreateObjectRequest, req.validate = .ok () ∧ cmd = req.commit cmd.id cmd.ctx

def Label.Sent : Label → Prop
  | .createObject cmd => cmd.Sent
  | _ => True

/-- A command that completes an upload. -/
def Label.completes (id : UploadId) : Label → Bool
  | .commitContent cmd => cmd.uploadId = id
  | _ => false

/-- The commits of an upload that say something. -/
def contributions (wal : Journal) (id : UploadId) : Journal :=
  wal.filter fun e => e.1.completes id && !(feedOf e.2).isEmpty

/-- A completion that changed its target, or one that found it done. -/
inductive Contributed (cmd : CommitContent) (db db' : Db) (said : List PendingChange) : Prop
  | noOp (hsaid : said = []) (hsame : ∀ x, db'.object x = db.object x)
  | content {o : ObjectRow} (hlive : db.live cmd.objectId = some o)
      (hnew : db'.object cmd.objectId = some (cmd.row o))
      (hsame : ∀ x, x ≠ cmd.objectId → db'.object x = db.object x)
      (hsaid : said = [.new cmd.objectId (o.revision + 1) (contentAction o)])

structure ContentKept (S : Setting) (c : System) : Prop where
  rows : ∀ id o, Db.object c.state.db id = some o → o.WellFormed
  completed : ∀ id u, Db.upload c.state.db id = some u → u.state = .completed →
    ∃ o, Db.object c.state.db u.objectId = some o ∧ o.contentState = some .ready
  once : ∀ id, (contributions c.state.wal id).length ≤ 1
  commits : ∀ wal₁ cmd ws, wal₁ ++ [(.commitContent cmd, ws)] <+: c.state.wal →
    Contributed cmd (S.rows wal₁) (S.rows (wal₁ ++ [(.commitContent cmd, ws)]))
      ((feedOf ws).map fun r => r.2.pending)

/-! ## Rows -/

/-- `ObjectService::create` lets no content type through for a folder. -/
theorem CreateObjectCommit.Sent.contentType {cmd : CreateObjectCommit} (h : cmd.Sent)
    (hkind : cmd.kind = .folder) : cmd.contentType = none := by
  obtain ⟨req, hvalid, hcmd⟩ := h
  have hfolder : req.kind = .folder := by
    rw [hcmd] at hkind
    exact hkind
  obtain ⟨_, _, hvalid⟩ := Except.exists_of_bind_ok hvalid
  obtain ⟨_, _, hvalid⟩ := Except.exists_of_bind_ok hvalid
  rw [hcmd]
  show req.contentType = none
  cases htype : req.contentType with
  | none => rfl
  | some value =>
    rw [htype, if_pos ⟨hfolder, rfl⟩] at hvalid
    cases hvalid

/-- **Step.** A commit keeps every row well formed. -/
theorem RowWrite.wellFormed {a : Adapter} {x : ObjectId} {o' : ObjectRow}
    (h : RowWrite a label db x o') (hsent : label.Sent)
    (hdb : ∀ o, db.object x = some o → o.WellFormed) : o'.WellFormed := by
  -- a write that leaves the kind and the content alone
  have hkeep : ∀ {o : ObjectRow}, db.object x = some o → o'.kind = o.kind →
      o'.contentState = o.contentState → o'.sizeBytes = o.sizeBytes → o'.sha256 = o.sha256 →
      o'.blobBackend = o.blobBackend → o'.blobRef = o.blobRef → o'.contentType = o.contentType →
      o'.WellFormed := by
    intro o ho hkind hstate hsize hsha hbackend href htype
    cases hdb o ho with
    | folder hk hs ht hb =>
      exact .folder (hkind.trans hk) (hstate.trans hs) (htype.trans ht) ⟨hsize.trans hb.size, hsha.trans hb.sha256,
        hbackend.trans hb.backend, href.trans hb.ref⟩
    | empty hk hs hb =>
      exact .empty (hkind.trans hk) (hstate.trans hs) ⟨hsize.trans hb.size, hsha.trans hb.sha256,
        hbackend.trans hb.backend, href.trans hb.ref⟩
    | ready hk hs hz ht hb hr =>
      exact .ready (hkind.trans hk) (hstate.trans hs) (hsize ▸ hz) (htype ▸ ht) (hbackend ▸ hb)
        (href ▸ hr)
  cases h with
  | same ho => exact hdb _ ho
  | created cmd hlabel =>
    have hblank : cmd.row.Blank := ⟨rfl, rfl, rfl, rfl⟩
    -- a new object has no content, and a new folder no content type
    cases hkind : cmd.kind with
    | folder =>
      have hcmd : (Label.createObject cmd).Sent := hlabel ▸ hsent
      refine .folder hkind ?_ (CreateObjectCommit.Sent.contentType hcmd hkind) hblank
      unfold CreateObjectCommit.row
      rw [hkind]
    | file =>
      refine .empty hkind ?_ hblank
      unfold CreateObjectCommit.row
      rw [hkind]
  | patched cmd hlabel hid ho => exact hkeep ho rfl rfl rfl rfl rfl rfl rfl
  | content cmd hlabel hid ho hfile => exact .ready hfile rfl rfl rfl rfl rfl
  | deleted now ho => exact hkeep ho rfl rfl rfl rfl rfl rfl rfl

/-- **Run.** Every row of every journal is well formed. -/
theorem Serial.wellFormed (h : Serial S w wal) (hsent : ∀ e ∈ wal, e.1.Sent) {id : ObjectId}
    {o : ObjectRow} (ho : (S.rows wal).object id = some o) : o.WellFormed := by
  refine Serial.rows_induction (Q := Label.Sent) (P := fun _ o => o.WellFormed) ?_ ?_ h hsent ho
  · intro o ho
    -- the root is the only row from the start
    rw [object_initialDb, if_pos rfl, Option.some.injEq] at ho
    rw [← ho]
    exact .folder rfl rfl rfl ⟨rfl, rfl, rfl, rfl⟩
  · intro label db x o' hlabel hdb hwrite
    exact hwrite.wellFormed hlabel hdb

/-- Content that is ready stays so, also in a deleted object. -/
theorem RowWrite.ready {a : Adapter} {x : ObjectId} {o o' : ObjectRow}
    (h : RowWrite a label db x o') (ho : db.object x = some o) (hready : o.contentState = some .ready) :
    o'.contentState = some .ready := by
  cases h with
  | same ho' =>
    obtain rfl := Option.some.inj (ho.symm.trans ho')
    exact hready
  | created cmd hlabel hid hfresh =>
    rw [hfresh] at ho
    cases ho
  | patched cmd hlabel hid ho' | deleted now ho' =>
    obtain rfl := Option.some.inj (ho.symm.trans ho')
    exact hready
  | content cmd => rfl

/-- Content that is there is never taken away, only replaced. -/
theorem Commits.ready_kept (h : Commits S w wal db label ws) {x : ObjectId} {o : ObjectRow}
    (ho : db.object x = some o) (hready : o.contentState = some .ready) :
    ∃ o', Db.object (replay ws db) x = some o' ∧ o'.contentState = some .ready := by
  have hne := h.objectStep.ne_none x
  unfold objectWrites at hne
  have hobj := object_replay ws db x
  cases hv : written ws (.object x) with
  | none =>
    rw [hv, Option.getD_none, ho] at hobj
    exact ⟨o, hobj, hready⟩
  | some v =>
    cases v with
    | none => exact absurd hv hne
    | some o' =>
      rw [hv, Option.getD_some] at hobj
      exact ⟨o', hobj, (h.rowWrite hobj).ready ho hready⟩

/-! ## Completed uploads -/

/-- What a committed completion does. -/
theorem Commits.contributed {cmd : CommitContent}
    (h : Commits S w wal db (.commitContent cmd) ws) :
    (∃ u, db.upload cmd.uploadId = some u ∧ u.state = .completed ∧ feedOf ws = [] ∧
      ∀ x, Db.object (replay ws db) x = db.object x) ∨
    ∃ u o, db.upload cmd.uploadId = some u ∧ u.state ≠ .completed ∧ u.objectId = cmd.objectId ∧
      db.live cmd.objectId = some o ∧
      (∀ x, Db.object (replay ws db) x =
        if x = cmd.objectId then some (cmd.row o) else db.object x) ∧
      (feedOf ws).map (fun r => r.2.pending) =
        [.new cmd.objectId (o.revision + 1) (contentAction o)] ∧
      ∃ u', Db.upload (replay ws db) cmd.uploadId = some u' ∧ u'.state = .completed := by
  generalize hlabel : Label.commitContent cmd = label at h
  cases h with
  | @commitContent cmd' upload current records fin hupload hstate htarget hblob hlive hfile hmatch
      hrecords hfin =>
    obtain rfl := Label.commitContent.inj hlabel
    refine .inr ⟨upload, current, hupload, ?_, htarget, hlive, ?_, ?_,
      cmd.uploadRow upload, ?_, rfl⟩
    · rcases hstate with hstate | hstate <;> rw [hstate] <;> decide
    · -- of the objects only the target is written
      intro x
      have hrest : written (enqueues (supersededBlob current cmd).toList cmd.gcNotBefore ++
          (⟨.upload cmd.uploadId, some (cmd.uploadRow upload)⟩ :: (changeWrites records ++ fin)))
          (.object x) = none := by
        rw [written_append, written_cons_ne (by simp),
          written_rest hfin.onTable (by simp) (by simp), (onTable_enqueues _ _).written (by simp)]
        rfl
      rw [object_replay]
      by_cases hx : x = cmd.objectId
      · rw [if_pos hx, hx, written_cons_self]
        rw [hx] at hrest
        rw [hrest]
        rfl
      · have hne : Row.object cmd.objectId ≠ Row.object x := fun he => hx (Row.object.inj he).symm
        rw [if_neg hx, written_cons_ne hne, hrest]
        rfl
    · rw [feedOf_cons_object, feedOf_append, feedOf_cons_upload, feedOf_rest hfin.onTable,
        (onTable_enqueues _ _).feedOf (by decide), List.nil_append]
      exact hrecords.entries_eq
    · rw [upload_replay, written_cons_ne (by simp), written_append, written_cons_self,
        written_rest hfin.onTable (by simp) (by simp)]
      rfl
  -- the upload was completed before: nothing but the record of the attempt is written
  | @uncommitted cmd' upload current fin hupload hstate htarget hblob hlive hfile hmatch hfin =>
    obtain rfl := Label.commitContent.inj hlabel
    refine .inl ⟨upload, hupload, hstate, hfin.onTable.feedOf (by decide), ?_⟩
    intro x
    rw [object_replay, hfin.onTable.written (by simp)]
    rfl
  | @steal req label createdAt r hsteal =>
    subst hlabel
    rcases hsteal with hsteal | hsteal <;> cases hsteal
  | _ => cases hlabel

/-- An upload that is completed by a commit is completed by its own. -/
theorem Commits.newly_completed (h : Commits S w wal db label ws) {id : UploadId} {u' : UploadRow}
    (hu' : Db.upload (replay ws db) id = some u') (hcompleted : u'.state = .completed) :
    (∃ u, db.upload id = some u ∧ u.state = .completed ∧ u'.objectId = u.objectId) ∨
      ∃ cmd, label = .commitContent cmd ∧ cmd.uploadId = id ∧ u'.objectId = cmd.objectId ∧
        ∃ u, db.upload id = some u ∧ u.state ≠ .completed := by
  have hstep := h.uploadStep id
  rw [hu'] at hstep
  generalize hu : db.upload id = u at hstep
  -- an upload is completed by a commit of its content, and by nothing else
  cases hstep with
  | same => exact .inl ⟨u', rfl, hcompleted, rfl⟩
  | created cmd =>
    have hne : UploadState.initiating = .completed := hcompleted
    cases hne
  | updated cmd hid hallows =>
    have hstate : cmd.state = .completed := hcompleted
    rcases UpdateUploadState.allows_iff.mp hallows with ⟨h, _⟩ | ⟨h, _⟩ <;>
      (rw [h] at hstate; cases hstate)
  | aborted cmd =>
    have hne : UploadState.aborted = .completed := hcompleted
    cases hne
  | expired =>
    have hne : UploadState.expired = .completed := hcompleted
    cases hne
  | @completed cmd u hid hstate htarget =>
    refine .inr ⟨cmd, rfl, hid, htarget, u, rfl, ?_⟩
    rcases hstate with hstate | hstate <;> rw [hstate] <;> decide

/-- A completed upload stays completed. -/
theorem UploadStep.completed_kept {id : UploadId} {u : UploadRow} {v : Option UploadRow}
    (h : UploadStep S w wal db id label (some u) v) (hu : u.state = .completed) :
    ∃ u', v = some u' ∧ u'.state = .completed := by
  cases h with
  | same => exact ⟨u, rfl, hu⟩
  | updated cmd hid hallows =>
    rcases UpdateUploadState.allows_iff.mp hallows with ⟨_, h | h⟩ | ⟨_, h | h⟩ <;>
      (rw [h] at hu; cases hu)
  | aborted cmd hid hstate => exact absurd hu hstate
  | expired now limit hexpires =>
    unfold UploadRow.expires at hexpires
    rw [hu] at hexpires
    simp at hexpires
  | completed cmd => exact ⟨_, rfl, rfl⟩

/-- **Run.** The target of a completed upload has content. -/
theorem Serial.upload_completed (h : Serial S w wal) {id : UploadId} {u : UploadRow}
    (hu : (S.rows wal).upload id = some u) (hcompleted : u.state = .completed) :
    ∃ o, (S.rows wal).object u.objectId = some o ∧ o.contentState = some .ready := by
  induction h generalizing u with
  | nil =>
    rw [Setting.rows_nil, Db.upload, lookup_initialDb _ (by simp) (by simp)] at hu
    cases hu
  | @snoc wal label ws hserial hc ih =>
    rw [Setting.rows_snoc] at hu ⊢
    rcases hc.newly_completed hu hcompleted with
      ⟨v, hv, hstate, htarget⟩ | ⟨cmd, rfl, rfl, htarget, v, hv, hstate⟩
    · obtain ⟨o, ho, hready⟩ := ih hv hstate
      rw [htarget]
      exact hc.ready_kept ho hready
    · rcases hc.contributed with ⟨v', hv', hdone, _⟩ | ⟨_, o, _, _, _, _, hobj, _⟩
      · -- the upload was not completed before
        obtain rfl := Option.some.inj (hv.symm.trans hv')
        exact absurd hdone hstate
      · exact ⟨cmd.row o, by rw [hobj, if_pos htarget], rfl⟩

/-- **Run.** An upload contributes once at most, and is completed then. -/
theorem Serial.contributes_once (h : Serial S w wal) (id : UploadId) :
    contributions wal id = [] ∨ (contributions wal id).length = 1 ∧
      ∃ u, (S.rows wal).upload id = some u ∧ u.state = .completed := by
  induction h with
  | nil => exact .inl rfl
  | @snoc wal label ws hserial hc ih =>
    have hsnoc : contributions (wal ++ [(label, ws)]) id = contributions wal id ++
        if label.completes id && !(feedOf ws).isEmpty then [(label, ws)] else [] := by
      unfold contributions
      rw [List.filter_append, List.filter_cons]
      rfl
    have hkept : (∃ u, (S.rows wal).upload id = some u ∧ u.state = .completed) →
        ∃ u, (S.rows (wal ++ [(label, ws)])).upload id = some u ∧ u.state = .completed := by
      rintro ⟨u, hu, hcompleted⟩
      have hstep := hc.uploadStep id
      rw [hu] at hstep
      rw [Setting.rows_snoc]
      exact hstep.completed_kept hcompleted
    rw [hsnoc]
    by_cases hsays : (label.completes id && !(feedOf ws).isEmpty) = true
    · rw [if_pos hsays]
      obtain ⟨hlabel, hsaid⟩ := Bool.and_eq_true_iff.mp hsays
      obtain ⟨cmd, rfl, rfl⟩ : ∃ cmd, label = .commitContent cmd ∧ cmd.uploadId = id := by
        unfold Label.completes at hlabel
        cases label with
        | commitContent cmd => exact ⟨cmd, rfl, of_decide_eq_true hlabel⟩
        | _ => cases hlabel
      rcases hc.contributed with ⟨_, _, _, hnil, _⟩ | ⟨u, o, hu, hstate, _, _, _, _, hnew⟩
      · rw [hnil] at hsaid
        cases hsaid
      · -- nothing has completed the upload before
        rcases ih with hnone | ⟨_, u', hu', hdone⟩
        · rw [hnone, List.nil_append, Setting.rows_snoc]
          exact .inr ⟨rfl, hnew⟩
        · obtain rfl := Option.some.inj (hu.symm.trans hu')
          exact absurd hdone hstate
    · rw [if_neg hsays, List.append_nil]
      rcases ih with hnone | ⟨hone, hdone⟩
      · exact .inl hnone
      · exact .inr ⟨hone, hkept hdone⟩

/-! ## Runs -/

/-- A command in the journal is the one of a request. -/
theorem Setting.Runs.sent (h : S.Runs c)
    (hsent : ∀ ctx cmd, S.admits (.mutate ctx (.create cmd)) → cmd.Sent) :
    ∀ e ∈ c.state.wal, e.1.Sent := by
  -- every commit was made for a request that was admitted
  obtain ⟨log, hsigned⟩ := h.signed
  obtain ⟨hlog, hutters⟩ := hsigned.uttered
  rw [← hlog]
  intro e he
  obtain ⟨⟨req, entry⟩, hentry, rfl⟩ := List.mem_map.mp he
  obtain ⟨hadmits, hutters⟩ := hutters _ hentry
  cases hlabel : entry.1 with
  | createObject cmd =>
    have hcreate : req.Utters S.app (.createObject cmd) := hlabel ▸ hutters
    obtain ⟨ctx, cmd', ictx, hreq, hcmd⟩ := hcreate.createObject
    obtain ⟨sent, hvalid, hfrom⟩ := hsent ctx cmd' (hreq ▸ hadmits)
    refine ⟨sent, hvalid, ?_⟩
    rw [hcmd, hfrom]
    rfl
  | _ => exact trivial

/-- **Content.** From the run lemmas, and by one commit for the last clause. -/
theorem content_kept (h : S.Runs c)
    (hsent : ∀ ctx cmd, S.admits (.mutate ctx (.create cmd)) → cmd.Sent) : ContentKept S c where
  rows id o ho := by
    rw [h.storeInv.db] at ho
    exact h.storeInv.serial.wellFormed (h.sent hsent) ho
  completed id u hu hcompleted := by
    rw [h.storeInv.db] at hu ⊢
    exact h.storeInv.serial.upload_completed hu hcompleted
  once id := by
    rcases h.storeInv.serial.contributes_once id with hnone | ⟨hone, _⟩
    · rw [hnone]
      exact Nat.zero_le _
    · rw [hone]
  commits wal₁ cmd ws hp := by
    have hcommit := h.storeInv.serial.commits hp
    rw [Setting.rows_snoc]
    rcases hcommit.contributed with ⟨_, _, _, hnil, hsame⟩ | ⟨_, o, _, _, _, hlive, hobj, hsaid, _⟩
    · exact .noOp (by rw [hnil]; rfl) hsame
    · refine .content hlive ?_ ?_ hsaid
      · rw [hobj, if_pos rfl]
      · intro x hx
        rw [hobj, if_neg hx]

/-- Objects are created through the application. -/
def Setting.throughApplication (app : AppState) (migratedAt : Time) : Setting where
  app := app
  migratedAt := migratedAt
  admits
    | .mutate _ (.create cmd) => cmd.Sent
    | _ => True

/-- A command without a content type and without metadata. -/
def CreateObjectCommit.bare (cmd : CreateObjectCommit) : Bool :=
  validateName cmd.name = .ok () ∧ cmd.contentType = none ∧ cmd.metadata = .obj .nil

/-- A create without content type is one that the application sends. -/
theorem CreateObjectCommit.sent_of_bare {cmd : CreateObjectCommit} (h : cmd.bare = true) :
    cmd.Sent := by
  obtain ⟨hname, htype, hmetadata⟩ := of_decide_eq_true h
  refine ⟨⟨cmd.kind, cmd.name, some cmd.parentId, none, none⟩, ?_, ?_⟩
  · unfold CreateObjectRequest.validate
    rw [hname]
    show (if _ ∧ false = true then _ else _) = _
    rw [if_neg (fun h => by cases h.2)]
    rfl
  · unfold CreateObjectRequest.commit
    rw [← htype]
    show cmd = { cmd with metadata := .obj .nil }
    rw [← hmetadata]

/-- A folder and a file in it are created, the file gets content, and its upload is
completed once more. -/
def completedTwice : List (Move Request (Choice Row Env)) :=
  alone 0 (sampleCreate none "f" .folder "F" 1) 9 {} ++ alone 1 (sampleCreate none "a" .file "A" 1) 9 {} ++
    alone 2 (sampleUpload none "a" 3 2) 9 uploading ++
    alone 3 (sampleComplete "upload_u" 3) 17 uploading ++ alone 4 (sampleComplete "upload_u" 4) 9 {}

/-- An upload that is completed twice: the second time nothing is said. -/
theorem content_kept_completedTwice : ∃ c, (Setting.throughApplication (sampleApp .sqlx) 0).Runs c ∧
    c.state.wal.map (fun e => (e.1.completes "upload_u", (feedOf e.2).length)) =
      [(false, 1), (false, 1), (false, 0), (false, 0), (false, 0), (true, 1)] ∧
    ContentKept (Setting.throughApplication (sampleApp .sqlx) 0) c := by
  obtain ⟨c, hc, hend⟩ := Setting.checked_runs (Setting.throughApplication (sampleApp .sqlx) 0)
    (fun
      | .mutate _ (.create cmd) => cmd.bare
      | _ => true)
    (fun _ _ => true)
    (fun req h => by
      cases req with
      | mutate ctx m =>
        cases m with
        | create cmd => exact CreateObjectCommit.sent_of_bare h
        | _ => trivial
      | _ => trivial)
    (fun _ _ _ => trivial)
    completedTwice (fun c => c.state.wal.map fun e => (e.1.completes "upload_u", (feedOf e.2).length))
    (a := [(false, 1), (false, 1), (false, 0), (false, 0), (false, 0), (true, 1)])
    (by decide +kernel)
  exact ⟨c, hc, hend, content_kept hc fun _ _ h => h⟩

end AnyStore
