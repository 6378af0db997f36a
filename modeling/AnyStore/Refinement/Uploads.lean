import AnyStore.Refinement.Deletes

/-!
# Uploads

The transactions that move an upload through its states. A commit holds the
upload row from the start, so the upload is still open when the commit is
published: its blob is not queued, and dequeuing it writes nothing.
-/

namespace AnyStore

open ReadCommitted

variable {S : Setting} {t : Nat} {s s₁ s₂ s₃ : DbState} {sess : Session Row.Val Label}

/-! ## Committing content -/

theorem txp_selectUploadForUpdate {id : UploadId} {P : Option UploadRow → DbState → Prop}
    (hs : s.session t = some sess) (hlog : sess.log = [])
    (h : ∀ sess₂ s₂, Reaches S t sess s [] sess₂ s₂ →
      (∀ u, Db.upload s₂.db id = some u → (Row.upload id, .update) ∈ sess₂.locks) →
      P (Db.upload s₂.db id) s₂) :
    txp (contract S) t (run (selectUploadForUpdate id)) P s := by
  refine txp_run hs fun s₂ scan ans hr _ ha => ?_
  obtain rfl := Except.ok.inj ha
  rw [hlog, replay_nil] at hr ⊢
  refine h _ s₂ hr fun u hu => ?_
  rw [if_pos (by rw [hu]; rfl)]
  exact List.mem_append_right _ (List.mem_singleton_self _)

/-- The blob of an upload that goes on is not queued. -/
theorem StoreInv.not_queued_upload (hi : StoreInv S s) {id : UploadId} {u : UploadRow}
    (hu : Db.upload s.db id = some u) (hstate : u.state.isTerminal = false) :
    ¬ Db.Queued s.db u.blob := by
  intro hq
  obtain ⟨⟨id', u', hu', hb, ht⟩, _⟩ := hi.blobInv.queued _ hq
  obtain ⟨_, rfl⟩ := hi.blobInv.upload_unique hu hu' (congrArg Prod.snd hb.symm)
  rw [hstate] at ht
  cases ht

theorem txp_completeUpload {cmd : CommitContent} {upload : UploadRow} {P : Nat → DbState → Prop}
    (hs : s.session t = some sess) (hlog : written sess.log (.upload cmd.uploadId) = none)
    (hupload : ∀ s', Onward t s s' → Db.upload s'.db cmd.uploadId = some upload)
    (hstate : upload.state = .ready ∨ upload.state = .completing)
    (h : ∀ sess₂ s₂, Reaches S t sess s [⟨.upload cmd.uploadId, some (cmd.uploadRow upload)⟩]
      sess₂ s₂ → P 1 s₂) : txp (contract S) t (run (completeUpload cmd)) P s := by
  refine txp_run hs fun s₂ scan ans hr _ ha => ?_
  have hrow : Db.upload (replay sess.log s₂.db) cmd.uploadId = some upload := by
    rw [upload_replay, hlog]
    exact hupload s₂ hr.onward
  simp only [completeUpload, statement, hrow, if_pos hstate] at ha
  obtain rfl := Except.ok.inj ha
  exact h _ s₂ hr

/-- There is nothing to dequeue. -/
theorem txp_dequeueBlobGc {backend blobRef : String} {P : Unit → DbState → Prop}
    (hs : s.session t = some sess) (hlog : written sess.log (.gc backend blobRef) = none)
    (hfree : ∀ s', Onward t s s' → StoreInv S s' → ¬ Db.Queued s'.db (backend, blobRef))
    (h : ∀ s₂, Reaches S t sess s [] sess s₂ → P () s₂) :
    txp (contract S) t (run (dequeueBlobGc .other backend blobRef)) P s := by
  refine txp_run hs fun s₂ scan ans hr _ ha => ?_
  have hnone : Db.gc (replay sess.log s₂.db) backend blobRef = none := by
    rw [gc_replay, hlog]
    exact Option.not_isSome_iff_eq_none.mp (hfree s₂ hr.onward hr.inv)
  simp only [dequeueBlobGc, statement, hnone] at ha
  obtain rfl := Except.ok.inj ha
  rw [Session.extend_read rfl rfl] at hr
  exact h s₂ hr

theorem serves_commitContent {cmd : CommitContent} {a : Adapter} (hs : s.session t = none)
    (hminted : ∀ ictx ∈ cmd.ctx.idempotency, Minted s.world ictx) :
    Serves S t (commitContent a cmd) (fun response s' =>
      (∀ ictx ∈ cmd.ctx.idempotency, Answered S s'.wal ictx response) ∧
        Matched S s.wal s'.wal cmd.objectId cmd.ifMatch) s := by
  refine serves_transaction hs fun s₁ hl hi hs₁ => ?_
  refine txp_seq (txp_requirePayload hs₁ ?_)
  refine txp_seq (txp_require hs₁ fun _ => ?_)
  refine txp_seq (txp_selectUploadForUpdate hs₁ rfl fun sess₂ s₂ hr₂ hulock => ?_)
  have hlog₂ : sess₂.log = [] := hr₂.log
  refine txp_seq (txp_orFail hr₂.session fun upload hupload => ?_)
  refine txp_seq (txp_require hr₂.session fun hcompletable => ?_)
  refine txp_seq (txp_require hr₂.session fun hmatch => ?_)
  obtain ⟨htarget, hbackend, hblobRef⟩ := hmatch
  have hblob : upload.blob = (cmd.blobBackend, cmd.blobRef) := Prod.ext hbackend hblobRef
  refine txp_seq (txp_lockLiveObject hr₂.session (hlog₂ ▸ noObjects_nil)
    fun current held sess₃ s₃ hr₃ hlock hlive hheld => ?_)
  have hlog₃ : sess₃.log = [] := (hr₂.trans hr₃).log
  -- what is held differs from the row in its metadata only, which is not looked at
  obtain ⟨metadata, rfl⟩ : ∃ metadata, held = { current with metadata } :=
    ⟨_, Adapter.held_eq hheld⟩
  have hsuperseded : supersededBlob { current with metadata } cmd = supersededBlob current cmd := rfl
  have haction : contentAction { current with metadata } = contentAction current := rfl
  rw [hsuperseded, haction]
  refine txp_seq (txp_require hr₃.session fun hfile => ?_)
  refine txp_seq (txp_checkIfMatchIn hr₃.session fun hmatch => ?_)
  replace hmatch : ∀ expected ∈ cmd.ifMatch, expected = current.revision := hmatch
  replace hfile : current.kind = .file := hfile
  split
  · next hcompleted =>
    refine txp_seq (txp_unchangedView hr₃.session fun view s₄ hr₄ => ?_)
    have hr := (hr₂.trans hr₃).trans hr₄
    refine txp_finish hr₄.session hr₄.inv (hlog₃ ▸ noRecords_nil)
      (fun ictx h => (hminted ictx h).mono (hl.world.trans hr.onward.later.world))
      fun response fin sess₅ s₅ hr₅ hfin => ?_
    have hon : Onward t s₃ s₅ := hr₄.onward.trans hr₅.onward
    refine .and (committable_of_noop hr₅.session (hr₅.label.trans hr.label)
      (by rw [hr₅.log, hlog₃, List.nil_append]) hfin fun s₆ hon₆ h =>
        .uncommitted cmd ?_ hcompleted htarget hblob ?_ hfile hmatch h) fun s₆ hl₆ => ?_
    · exact (((hr₃.onward.trans hon).trans hon₆).lookup hr₂.session (hulock _ hupload)
        (by decide)).trans hupload
    · exact ((hon.trans hon₆).live hr₃.session hlock (by decide)).trans hlive
    · exact .of_live hr₃.inv hlive hmatch (hl.trans (hr₂.onward.trans hr₃.onward).later)
        (hon.later.trans hl₆)
  next hopen =>
  have hstate : upload.state = .ready ∨ upload.state = .completing := by
    cases hst : upload.state <;> simp_all [UploadState.isCompletable]
  have hnot : upload.state.isTerminal = false := by
    rcases hstate with h | h <;> rw [h] <;> rfl
  have hupload' : ∀ s', Onward t s₂ s' → Db.upload s'.db cmd.uploadId = some upload := fun s' hon =>
    (hon.lookup hr₂.session (hulock _ hupload) (by decide)).trans hupload
  refine txp_seq (txp_require hr₃.session fun _ => ?_)
  refine txp_seq (txp_run hr₃.session fun s₄ scan ans hr₄ _ ha => ?_)
  simp only [updateLiveObject, statement, hlog₃, replay_nil] at ha
  rw [hr₄.onward.live hr₃.session hlock (by decide), hlive] at ha
  obtain rfl := Except.ok.inj ha
  refine txp_seq (txp_orFail hr₄.session fun revision hrevision => ?_)
  obtain rfl : current.revision + 1 = revision := Option.some.inj hrevision
  have hlog₄ : (sess₃.extend (_ : Answer (Option Revision))).log = [⟨.object cmd.objectId,
      some (cmd.row current)⟩] := ((hr₂.trans hr₃).trans hr₄).log
  -- the superseded blob is content until the commit
  refine txp_seq (txp_enqueueBlob hr₄.session hr₄.inv (fun b hb => ⟨?_, fun s' hon hi' => ?_⟩)
    fun sess₅ s₅ hr₅ => ?_)
  · rw [hlog₄, written_cons_ne (by simp)]
    rfl
  · have hlive' : Db.live s'.db cmd.objectId = some current :=
      ((hr₄.onward.trans hon).live hr₃.session hlock (by decide)).trans hlive
    exact hi'.not_queued hlive' (Option.filter_eq_some_iff.mp hb).1
  have hon₂₅ : Onward t s₂ s₅ := (hr₃.onward.trans hr₄.onward).trans hr₅.onward
  refine txp_seq (txp_completeUpload hr₅.session ?_ (fun s' hon => hupload' s' (hon₂₅.trans hon))
    hstate fun sess₆ s₆ hr₆ => ?_)
  · rw [hr₅.log, hlog₄, written_append, (onTable_enqueues _ _).written (by simp),
      written_cons_ne (by simp)]
    rfl
  refine txp_seq (txp_require hr₆.session fun _ => ?_)
  have hon₂₆ : Onward t s₂ s₆ := hon₂₅.trans hr₆.onward
  refine txp_seq (txp_dequeueBlobGc hr₆.session ?_ (fun s' hon hi' => ?_) fun s₇ hr₇ => ?_)
  · -- the superseded blob is another one
    rw [hr₆.log, hr₅.log, hlog₄, written_append, written_append, written_cons_ne (by simp),
      written_enqueues (supersededBlob current cmd).toList _ (cmd.blobBackend, cmd.blobRef), if_neg,
      written_cons_ne (by simp)]
    · rfl
    · rw [Option.mem_toList]
      intro hmem
      have hne := (Option.filter_eq_some_iff.mp hmem).2
      simp at hne
  · have := hi'.not_queued_upload (hupload' s' (hon₂₆.trans hon)) hnot
    rwa [hblob] at this
  refine txp_seq (txp_appendChanges hr₇.session (by simp)
    fun answer records sess₈ s₈ hr₈ hadv hnumbered => ?_)
  refine txp_seq (txp_renderedView hr₈.session fun view s₉ hr₉ => ?_)
  have hr := (((((((hr₂.trans hr₃).trans hr₄).trans hr₅).trans hr₆).trans hr₇).trans hr₈).trans hr₉)
  have hlog : sess₈.log = [⟨.object cmd.objectId, some (cmd.row current)⟩] ++
      (enqueues (supersededBlob current cmd).toList cmd.gcNotBefore ++
        ([⟨.upload cmd.uploadId, some (cmd.uploadRow upload)⟩] ++ changeWrites records)) := by
    simpa using hr.log
  have hfront : NoRecords ([⟨.object cmd.objectId, some (cmd.row current)⟩] ++
      (enqueues (supersededBlob current cmd).toList cmd.gcNotBefore ++
        ([⟨.upload cmd.uploadId, some (cmd.uploadRow upload)⟩] ++ changeWrites records))) := by
    have hobject : OnTable .objects [(⟨.object cmd.objectId, some (cmd.row current)⟩ : Write)] :=
      List.forall_mem_singleton.mpr rfl
    have hupload : OnTable .uploads
        [(⟨.upload cmd.uploadId, some (cmd.uploadRow upload)⟩ : Write)] :=
      List.forall_mem_singleton.mpr rfl
    exact (hobject.noRecords (by decide)).append (((onTable_enqueues _ _).noRecords
      (by decide)).append ((hupload.noRecords (by decide)).append
      ((onTable_changeWrites records).noRecords (by decide))))
  refine txp_finish hr₉.session hr₉.inv (hlog ▸ hfront)
    (fun ictx h => (hminted ictx h).mono (hl.world.trans hr.onward.later.world))
    fun response fin sess' s' hr' hfin => ?_
  have hon₃' : Onward t s₃ s' := ((((((hr₄.onward.trans hr₅.onward).trans hr₆.onward).trans
    hr₇.onward).trans hr₈.onward).trans hr₉.onward).trans hr'.onward)
  refine .and (committable_of_finalizes hr'.session (hr'.label.trans hr.label)
    (by rw [hr'.log, hlog]) hfront hfin fun s'' hsince hi'' hfin'' _ => ?_) fun s'' hl'' =>
      .of_live hr₃.inv hlive hmatch (hl.trans (hr₂.onward.trans hr₃.onward).later)
        (hon₃'.later.trans hl'')
  -- what the locks have kept
  have hon₈ : Onward t s₈ s'' := (hr₉.onward.trans hr'.onward).trans hsince.onward
  have hon₆ : Onward t s₆ s'' := (hr₇.onward.trans hr₈.onward).trans hon₈
  have hlive'' : Db.live s''.db cmd.objectId = some current :=
    (((hr₄.onward.trans hr₅.onward).trans (hr₆.onward.trans hon₆)).live hr₃.session hlock
      (by decide)).trans hlive
  obtain ⟨hnum, hbound⟩ := hnumbered s'' hon₈
  have hcommit := Commits.commitContent (S := S) cmd (hupload' s'' (hon₂₆.trans hon₆)) hstate htarget
    hblob hlive'' hfile hmatch hnum hfin''
  have hfinTable := hfin''.onTable
  have hrest : ∀ x, written (enqueues (supersededBlob current cmd).toList cmd.gcNotBefore ++
      (⟨.upload cmd.uploadId, some (cmd.uploadRow upload)⟩ :: (changeWrites records ++ fin)))
      (.object x) = none := fun x => by
    rw [written_append, written_cons_ne (by simp), written_rest hfinTable (by simp) (by simp),
      (onTable_enqueues _ _).written (by simp)]
    rfl
  simp only [List.append_assoc, List.cons_append, List.nil_append]
  refine ⟨hcommit, .of_single (hon₈.ordered hr₈.session hadv) (objectWrites_cons hrest)
    (fun p hp _ => .inl ⟨current, hlive'', hp⟩) ?_, ?_⟩
  · refine .cons_object (.append (.of_tables ((onTable_enqueues _ _).ne (by decide))) fun x => ?_)
    rw [written_cons_ne (by simp)]
    exact NoCursors.of_rest hfinTable x
  rw [feedOf_cons_object, feedOf_append, feedOf_cons_upload, feedOf_rest hfinTable,
    (onTable_enqueues _ _).feedOf (by decide)]
  exact hbound

/-! ## Upload records -/

/-- The record as it was at some point of the journal. -/
def Found (S : Setting) (wal : Journal) (upload : UploadRecord) : Prop :=
  ∃ wal₁, wal₁ <+: wal ∧ (S.rows wal₁).upload upload.id = some upload.row

theorem serves_createUploadRecord {cmd : CreateUploadRecord} (hs : s.session t = none)
    (horigin : Origin S s.world s.wal cmd) :
    Serves S t (createUploadRecord cmd) (fun r s' => r.1.id = cmd.id ∧ Found S s'.wal r.1) s := by
  refine serves_transaction hs fun s₁ hl hi hs₁ => ?_
  refine txp_seq (txp_run hs₁ fun s₂ scan ans hr _ ha => ?_)
  refine txp_seq (txp_select hr.session fun s₃ hr₃ => ?_)
  refine txp_seq (txp_orFail hr₃.session fun row hrow => ?_)
  have hlabel := (hr.trans hr₃).label
  simp only [insertUpload, statement, replay_nil] at ha
  split at ha
  · -- the row was there
    obtain rfl := Except.ok.inj ha
    refine txp_ret (committable_of_quiet hr₃.session hlabel (by simp [Session.extend]) rfl
      (fun _ _ _ hne => absurd rfl hne) fun s₄ s₅ hsince _ _ hl₅ _ => ⟨rfl, s₃.wal, ?_, ?_⟩)
    · exact hsince.later.wal.trans hl₅.wal
    · rw [← hr₃.inv.db]
      exact hrow
  next hfresh =>
  split at ha
  · obtain rfl := Except.ok.inj ha
    have hrow : row = cmd.row := by
      rw [Session.extend, List.nil_append, upload_replay, written_cons_self] at hrow
      exact (Option.some.inj hrow).symm
    subst hrow
    refine txp_ret (committable_of_quiet hr₃.session hlabel (by simp [Session.extend]) rfl
      (fun s₄ hsince _ _ => .createUploadRecord cmd ?_ ?_)
      fun s₄ s₅ _ _ _ _ hwal => ⟨rfl, s₅.wal, List.prefix_rfl, ?_⟩)
    · have hlocked : Db.upload s₄.db cmd.id = Db.upload s₂.db cmd.id :=
        (hr₃.onward.trans hsince.onward).lookup hr.session (m := .noKeyUpdate)
          (List.mem_append_right _ (List.mem_append_right _ (List.mem_singleton_self _)))
          (by decide)
      rw [hlocked]
      simpa using hfresh
    · have hlater := hl.trans ((hr.onward.trans hr₃.onward).trans hsince.onward).later
      exact (horigin.mono hlater.world).later hlater.wal
    · rw [hwal, entry, Session.extend, List.nil_append, if_neg (by simp), Setting.rows_snoc,
        upload_replay, written_cons_self]
      rfl
  · cases ha

theorem serves_updateUploadState {cmd : UpdateUploadState} (hs : s.session t = none)
    (horigin : S.admits (.updateUploadState cmd) ∨
      ∀ id ∈ cmd.providerUploadId, id ∈ s.world.multipart.map (·.id)) :
    Serves S t (updateUploadState cmd) (fun _ s' => ∃ wal₁ u, wal₁ <+: s'.wal ∧
      (S.rows wal₁).upload cmd.id = some u ∧ u.state = cmd.state) s := by
  refine serves_seq (serves_quiet (P := fun rows s' => rows ≠ 0 → ∃ wal₁ u, wal₁ <+: s'.wal ∧
    (S.rows wal₁).upload cmd.id = some u ∧ u.state = cmd.state) hs ?_ |>.mono ?_)
  · intro s₁ scan ans hr hi hrule ha
    simp only [updateUpload, statement] at ha
    split at ha
    · obtain rfl := Except.ok.inj ha
      exact ⟨by simp, rfl, fun hne => absurd rfl hne, fun _ _ _ _ h => absurd rfl h⟩
    next u hu =>
    split at ha
    · next hallows =>
      obtain rfl := Except.ok.inj ha
      refine ⟨by simp, rfl, fun _ => .updateUploadState cmd hu hallows hrule
        (horigin.imp_right fun h id hid => hr.later.world.multipart id (h id hid)),
        fun s₂ _ _ hwal _ => ⟨s₂.wal, cmd.row u, List.prefix_rfl, ?_, rfl⟩⟩
      rw [hwal, entry, if_neg (by simp), Setting.rows_snoc, upload_replay, written_cons_self]
      rfl
    · obtain rfl := Except.ok.inj ha
      exact ⟨by simp, rfl, fun hne => absurd rfl hne, fun _ _ _ _ h => absurd rfl h⟩
  · intro rows s' hs' _ h
    exact serves_require hs' h

theorem serves_abortUploadRecord {cmd : AbortUploadRecord} (hs : s.session t = none) :
    Serves S t (abortUploadRecord cmd) (fun _ _ => True) s := by
  refine serves_transaction hs fun s₁ _ hi hs₁ => ?_
  refine txp_seq (txp_run hs₁ fun s₂ scan ans hr _ ha => ?_)
  simp only [abortUpload, statement, replay_nil] at ha
  split at ha
  · obtain rfl := Except.ok.inj ha
    exact txp_ret (a := ()) (committable_of_quiet hr.session hr.label (by simp [Session.extend]) rfl
      (fun _ _ _ hne => absurd rfl hne) fun _ _ _ _ _ _ _ => trivial)
  next u hu =>
  obtain ⟨hu, hstate⟩ := Option.filter_eq_some_iff.mp hu
  have hstate : u.state ≠ .completed := by simpa using hstate
  obtain rfl := Except.ok.inj ha
  have hupload : ∀ s', Onward t s₂ s' → Db.upload s'.db cmd.id = some u := fun s' hon =>
    (hon.lookup hr.session (m := .noKeyUpdate)
      (List.mem_append_right _ (List.mem_append_right _ (List.mem_singleton_self _)))
      (by decide)).trans hu
  -- the blob of an upload that failed before may be queued already
  refine txp_enqueueBlobGc (b := u.blob) hr.session ?_ fun gcs sess₃ s₃ hr₃ hgcs => ?_
  · rw [hr.log, List.nil_append, written_cons_ne (by simp)]
    rfl
  have hlog : sess₃.log = ⟨.upload cmd.id, some (cmd.row u)⟩ :: gcs := (hr.trans hr₃).log
  have hgcs' : gcs = enqueues [u.blob] cmd.gcNotBefore ∨ gcs = [] ∧ u.state.isTerminal = true := by
    refine hgcs.imp_right fun h => ⟨h.1, ?_⟩
    by_contra hne
    exact hr₃.inv.not_queued_upload (hupload s₃ hr₃.onward) (by simpa using hne) h.2
  have htable : OnTable .gc gcs := by
    rcases hgcs with rfl | ⟨rfl, _⟩
    · exact onTable_enqueues _ _
    · exact fun w hw => absurd hw List.not_mem_nil
  refine committable_of_quiet hr₃.session ((hr.trans hr₃).label) ?_ ?_ (fun s₄ hsince _ _ => ?_)
    fun _ _ _ _ _ _ _ => trivial
  · rw [hlog]
    exact quietTables_cons.mpr ⟨by simp, htable.quiet (by decide)⟩
  · rw [hlog, feedOf_cons_upload, htable.feedOf (by decide)]
  · rw [hlog]
    exact .abortUploadRecord cmd (hupload s₄ (hr₃.onward.trans hsince.onward)) hstate hgcs'

end AnyStore
