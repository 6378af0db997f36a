import AnyStore.Spec.History

/-!
# The life of an upload

What one commit does to an upload record (`UploadStep`). A record starts as
`initiating` without a provider session, never goes back there, and ends as
completed, aborted or expired.
-/

namespace AnyStore

open ReadCommitted

/-- What a commit does to an upload record. -/
inductive UploadStep (S : Setting) (w : World) (wal : Journal) (db : Db) (id : UploadId) :
    Label → Option UploadRow → Option UploadRow → Prop
  | same {label : Label} (u) : UploadStep S w wal db id label u u
  | created (cmd : CreateUploadRecord) (hid : cmd.id = id) (horigin : Origin S w wal cmd) :
      UploadStep S w wal db id (.createUploadRecord cmd) none (some cmd.row)
  | updated (cmd : UpdateUploadState) {u : UploadRow} (hid : cmd.id = id)
      (hallows : cmd.allows u = true) (hrule : S.rule (.updateUploadState cmd) db)
      (horigin : S.admits (.updateUploadState cmd) ∨
        ∀ p ∈ cmd.providerUploadId, p ∈ w.multipart.map (·.id)) :
      UploadStep S w wal db id (.updateUploadState cmd) (some u) (some (cmd.row u))
  | aborted (cmd : AbortUploadRecord) {u : UploadRow} (hid : cmd.id = id)
      (hstate : u.state ≠ .completed) :
      UploadStep S w wal db id (.abortUploadRecord cmd) (some u) (some (cmd.row u))
  | expired (now : Time) (limit : Nat) {u : UploadRow} (hexpires : u.expires now = true) :
      UploadStep S w wal db id (.claimExpiredUploads now limit) (some u) (some u.expired)
  | completed (cmd : CommitContent) {u : UploadRow} (hid : cmd.uploadId = id)
      (hstate : u.state = .ready ∨ u.state = .completing) (htarget : u.objectId = cmd.objectId) :
      UploadStep S w wal db id (.commitContent cmd) (some u) (some (cmd.uploadRow u))

variable {S : Setting} {w : World} {wal wal' : Journal} {db : Db} {label : Label}
  {id : UploadId}

theorem Db.mem_uploadIds : id ∈ db.uploadIds ↔ (db.upload id).isSome := by
  rw [Db.uploadIds, List.mem_filterMap, Db.upload, AList.lookup_isSome, AList.mem_keys]
  constructor
  · rintro ⟨r, hr, he⟩
    cases r with
    | upload id' => rw [Option.some.injEq] at he; exact he ▸ hr
    | _ => cases he
  · exact fun h => ⟨_, h, rfl⟩

/-- A write set whose writes to the upload are all steps of it. -/
theorem UploadStep.of_writes {ws : List Write}
    (h : ∀ v, ⟨.upload id, v⟩ ∈ ws → UploadStep S w wal db id label (db.upload id) v) :
    UploadStep S w wal db id label (db.upload id) (Db.upload (replay ws db) id) := by
  rw [upload_replay]
  cases hv : written ws (.upload id) with
  | none => exact .same _
  | some v => exact h v (mem_of_written hv)

theorem UploadStep.of_ne {ws : List Write} (h : ∀ w ∈ ws, w.1.table ≠ .uploads) :
    UploadStep S w wal db id label (db.upload id) (Db.upload (replay ws db) id) :=
  .of_writes fun _ hv => absurd rfl (h _ hv)

theorem OnTable.uploadStep {T : Table} {ws : List Write} (h : OnTable T ws) (hT : T ≠ .uploads) :
    UploadStep S w wal db id label (db.upload id) (Db.upload (replay ws db) id) :=
  .of_ne (h.ne hT)

/-- The one write to an upload in a write set. -/
theorem UploadStep.of_write {id' : UploadId} {u : UploadRow} (front : List Write)
    {rest : List Write} (hfront : ∀ w ∈ front, w.1.table ≠ .uploads)
    (hrest : ∀ w ∈ rest, w.1.table ≠ .uploads) (h : id' = id → UploadStep S w wal db id label (db.upload id) (some u)) :
    UploadStep S w wal db id label (db.upload id)
      (Db.upload (replay (front ++ ⟨.upload id', some u⟩ :: rest) db) id) := by
  refine .of_writes fun v hv => ?_
  rcases List.mem_append.mp hv with hv | hv
  · exact absurd rfl (hfront _ hv)
  · rcases List.mem_cons.mp hv with hv | hv
    · obtain ⟨hrow, hval⟩ := Sigma.mk.inj hv
      obtain rfl := Row.upload.inj hrow
      rw [eq_of_heq hval]
      exact h rfl
    · exact absurd rfl (hrest _ hv)

/-- **Step.** -/
theorem Commits.uploadStep {ws : List Write} (h : Commits S w wal db label ws) (id : UploadId) :
    UploadStep S w wal db id label (db.upload id) (Db.upload (replay ws db) id) := by
  have hrecords : ∀ {fin : List Write}, OnTable .idempotency fin → ∀ {records},
      ∀ w ∈ changeWrites records ++ fin, w.1.table ≠ .uploads := fun h _ =>
    List.forall_mem_append.mpr ⟨(onTable_changeWrites _).ne (by decide), h.ne (by decide)⟩
  have hgcs : ∀ blobs notBefore, ∀ w ∈ enqueues blobs notBefore, w.1.table ≠ .uploads :=
    fun blobs notBefore => (onTable_enqueues blobs notBefore).ne (by decide)
  have hnil : ∀ w ∈ ([] : List Write), w.1.table ≠ .uploads := fun w hw => absurd hw List.not_mem_nil
  cases h with
  | createObject cmd hfresh hparent hfolder hrec hfin =>
    exact .of_ne (List.forall_mem_cons.mpr ⟨by simp, hrecords hfin.onTable⟩)
  | patchObject cmd hlive hheld hmatch hroot htarget hchanged hdestination hwalk hrec hfin =>
    exact .of_ne (List.forall_mem_cons.mpr ⟨by simp, hrecords hfin.onTable⟩)
  | deleteObject cmd hlive hmatch hself hroot hnodup hclosed hbelow hordered hrows hdistinct hrec
      hfin =>
    exact .of_ne (List.forall_mem_append.mpr ⟨(onTable_objects _ _ _).ne (by decide),
      List.forall_mem_append.mpr ⟨hgcs _ _, hrecords hfin.onTable⟩⟩)
  | @commitContent cmd upload current records fin hupload hstate htarget hblob hlive hfile hmatch
      hrec hfin =>
    rw [← List.cons_append]
    refine .of_write _ (List.forall_mem_cons.mpr ⟨by simp, hgcs _ _⟩) (hrecords hfin.onTable)
      fun hid => ?_
    subst hid
    rw [hupload]
    exact .completed cmd rfl hstate htarget
  | unpatched cmd _ _ hfin | uncommitted cmd _ _ _ _ _ _ _ hfin => exact hfin.onTable.uploadStep (by decide)
  | complete req hfin => exact hfin.onTable.uploadStep (by decide)
  | createUploadRecord cmd hfresh horigin =>
    refine .of_write [] hnil hnil fun hid => ?_
    subst hid
    rw [hfresh]
    exact .created cmd rfl horigin
  | updateUploadState cmd hupload hallows hrule horigin =>
    refine .of_write [] hnil hnil fun hid => ?_
    subst hid
    rw [hupload]
    exact .updated cmd rfl hallows hrule horigin
  | abortUploadRecord cmd hupload hstate hgc =>
    refine .of_write [] hnil ?_ fun hid => ?_
    · rcases hgc with rfl | ⟨rfl, _⟩
      · exact hgcs _ _
      · exact hnil
    · subst hid
      rw [hupload]
      exact .aborted cmd rfl hstate
  | @claimExpiredUploads now limit uploads huploads hdistinct =>
    refine .of_writes fun v hv => ?_
    rcases List.mem_append.mp hv with hv | hv
    · obtain ⟨e, he, heq⟩ := List.mem_map.mp hv
      obtain ⟨hrow, hval⟩ := Sigma.mk.inj heq
      obtain rfl := Row.upload.inj hrow
      obtain ⟨hupload, hexpires⟩ := huploads e he
      rw [hupload, ← eq_of_heq hval]
      exact .expired now limit hexpires
    · exact absurd rfl (hgcs _ _ _ hv)
  | firstRead | nextRead | claim | steal | release | finishGc | failGc =>
    exact .of_ne (by simp [gcWrite, idempotencyWrite])
  | @claimGcBatch now limit entries hentries =>
    exact (OnTable.map entries (fun e => .gc e.1.1 e.1.2) (fun e => some e.2)
      fun _ => rfl).uploadStep (by decide)
  | purgeChanges olderThan => exact .of_ne (purge_table_ne (by decide) (by decide))
  | @purgeIdempotencyRecords now keys =>
    exact (OnTable.map keys (fun k => .idempotency k.1 k.2.1 k.2.2) (fun _ => none)
      fun _ => rfl).uploadStep (by decide)
  | @purgeChangeCursors now ids =>
    exact (OnTable.map ids (fun id => .cursor id) (fun _ => none) fun _ => rfl).uploadStep
      (by decide)

/-! ## States -/

theorem UpdateUploadState.allows_iff {cmd : UpdateUploadState} {u : UploadRow} :
    cmd.allows u = true ↔ (cmd.state = .ready ∧ (u.state = .initiating ∨ u.state = .ready)) ∨
      (cmd.state = .completing ∧ (u.state = .ready ∨ u.state = .completing)) := by
  simp [UpdateUploadState.allows]

/-- An upload that was prepared stays so. -/
theorem UploadStep.prepared {u u' : UploadRow}
    (h : UploadStep S w wal db id label (some u) (some u')) (hu : u.state ≠ .initiating) :
    u'.state ≠ .initiating := by
  cases h with
  | same => exact hu
  | updated cmd hid hallows =>
    show cmd.state ≠ .initiating
    rcases UpdateUploadState.allows_iff.mp hallows with ⟨h, _⟩ | ⟨h, _⟩ <;> rw [h] <;> decide
  | aborted cmd =>
    show UploadState.aborted ≠ .initiating
    decide
  | expired =>
    show UploadState.expired ≠ .initiating
    decide
  | completed cmd =>
    show UploadState.completed ≠ .initiating
    decide

/-- A record names a session only once it is prepared. -/
def Sessioned (u : UploadRow) : Prop := u.providerUploadId.isSome → u.state ≠ .initiating

theorem UploadStep.sessioned {o : Option UploadRow} {u' : UploadRow}
    (h : UploadStep S w wal db id label o (some u')) (hu : ∀ u ∈ o, Sessioned u) :
    Sessioned u' := by
  intro hp
  cases h with
  | same => exact hu u' rfl hp
  | created cmd => cases hp
  | updated cmd hid hallows =>
    show cmd.state ≠ .initiating
    rcases UpdateUploadState.allows_iff.mp hallows with ⟨h, _⟩ | ⟨h, _⟩ <;> rw [h] <;> decide
  | aborted cmd =>
    show UploadState.aborted ≠ .initiating
    decide
  | expired =>
    show UploadState.expired ≠ .initiating
    decide
  | completed cmd =>
    show UploadState.completed ≠ .initiating
    decide

/-- **Run.** -/
theorem Serial.sessioned (h : Serial S w wal) {u : UploadRow}
    (hu : (S.rows wal).upload id = some u) : Sessioned u := by
  induction h generalizing u with
  | nil =>
    rw [Setting.rows_nil, Db.upload, lookup_initialDb _ (by simp) (by simp)] at hu
    cases hu
  | snoc _ hc ih =>
    have hstep := hc.uploadStep id
    rw [Setting.rows_snoc] at hu
    rw [hu] at hstep
    exact hstep.sessioned fun v hv => ih hv

end AnyStore
