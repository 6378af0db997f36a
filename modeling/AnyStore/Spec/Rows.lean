import AnyStore.Spec.Writes
import AnyStore.Spec.Tree

/-!
# Where a row comes from

`RowWrite` — the row of an object after a commit, from the row before it and the
command that was carried out.
-/

namespace AnyStore

open ReadCommitted

variable {S : Setting} {w : World} {wal : Journal} {db db' : Db} {label : Label} {ws : List Write}

/-- A row that a commit leaves. -/
inductive RowWrite (a : Adapter) (label : Label) (db : Db) (x : ObjectId) : ObjectRow → Prop
  | same {o : ObjectRow} (ho : db.object x = some o) : RowWrite a label db x o
  | created (cmd : CreateObjectCommit) (hlabel : label = .createObject cmd) (hid : x = cmd.id)
      (hfresh : db.object x = none) : RowWrite a label db x cmd.row
  | patched (cmd : PatchObjectCommit) {target : PatchTarget} {o held : ObjectRow}
      (hlabel : label = .patchObject cmd) (hid : x = cmd.id) (ho : db.object x = some o)
      (hheld : a.held o = some held)
      (hroot : cmd.id = rootId → cmd.newParentId = none ∧ cmd.newName = none)
      (htarget : patchTarget a cmd held = .ok target) : RowWrite a label db x (target.row cmd.ctx.now o)
  | content (cmd : CommitContent) {o : ObjectRow} (hlabel : label = .commitContent cmd)
      (hid : x = cmd.objectId) (ho : db.object x = some o) (hfile : o.kind = .file) :
      RowWrite a label db x (cmd.row o)
  | deleted (now : Time) {o : ObjectRow} (ho : db.object x = some o) :
      RowWrite a label db x (o.tombstone now)

variable {a : Adapter} {x : ObjectId} {o o' : ObjectRow}

theorem RowWrite.of_ne (h : ∀ w ∈ ws, w.1.table ≠ .objects)
    (ho : Db.object (replay ws db) x = some o') : RowWrite a label db x o' := by
  have hnone : written ws (.object x) = none := by
    rw [written_eq_none_iff, List.mem_map]
    rintro ⟨w, hw, he⟩
    exact h w hw (by rw [he]; rfl)
  rw [object_replay, hnone] at ho
  exact .same ho

theorem RowWrite.of_single {id : ObjectId} {new : ObjectRow} {rest : List Write}
    (hrest : ∀ x, written rest (.object x) = none)
    (ho : Db.object (replay (⟨.object id, some new⟩ :: rest) db) x = some o')
    (hnew : x = id → RowWrite a label db x new) : RowWrite a label db x o' := by
  have hwrites := congrFun (@objectWrites_cons id new rest hrest) x
  unfold objectWrites single at hwrites
  rw [object_replay, hwrites] at ho
  by_cases hx : x = id
  · rw [if_pos hx, Option.getD_some, Option.some.injEq] at ho
    exact ho ▸ hnew hx
  · rw [if_neg hx, Option.getD_none] at ho
    exact .same ho

/-- **Step.** -/
theorem Commits.rowWrite (h : Commits S w wal db label ws)
    (ho : Db.object (replay ws db) x = some o') : RowWrite S.app.adapter label db x o' := by
  cases h with
  | createObject cmd hfresh hparent hfolder hrecords hfin =>
    refine .of_single (fun x => written_rest hfin.onTable (by simp) (by simp)) ho ?_
    rintro rfl
    exact .created cmd rfl rfl hfresh
  | patchObject cmd hlive hheld hmatch hroot htarget hchanged hdestination hwalk hrecords hfin =>
    refine .of_single (fun x => written_rest hfin.onTable (by simp) (by simp)) ho ?_
    rintro rfl
    exact .patched cmd rfl rfl (Db.live_eq_some.mp hlive).1 hheld hroot htarget
  | @commitContent cmd upload current records fin hupload hstate htarget hblob hlive hfile hmatch
      hrecords hfin =>
    refine .of_single (fun x => ?_) ho ?_
    · rw [written_append, written_cons_ne (by simp),
        written_rest hfin.onTable (by simp) (by simp), (onTable_enqueues _ _).written (by simp)]
      rfl
    · rintro rfl
      exact .content cmd rfl rfl (Db.live_eq_some.mp hlive).1 hfile
  | @deleteObject cmd current targets rows records fin hlive hmatch hself hroot hnodup hclosed
      hbelow hordered hrows hdistinct hrecords hfin =>
    have hrest : ∀ x, written (enqueues (rows.filterMap fun r => r.2.blob) cmd.ctx.now ++
        (changeWrites records ++ fin)) (.object x) = none := by
      intro x
      rw [written_append, written_rest hfin.onTable (by simp) (by simp),
        (onTable_enqueues _ _).written (by simp)]
      rfl
    have hwrites := congrFun (objectWrites_deleted hrows hdistinct hrest) x
    unfold objectWrites at hwrites
    rw [object_replay, hwrites] at ho
    by_cases hx : x ∈ targets
    · rw [if_pos hx] at ho
      cases hold : db.live x with
      | none =>
        rw [hold] at ho
        exact .same ho
      | some o =>
        rw [hold] at ho
        obtain rfl := Option.some.inj ho
        exact .deleted _ (Db.live_eq_some.mp hold).1
    · rw [if_neg hx] at ho
      exact .same ho
  | unpatched cmd _ _ hfin | uncommitted cmd _ _ _ _ _ _ _ hfin =>
    exact .of_ne (hfin.onTable.ne (by decide)) ho
  | complete req hfin => exact .of_ne (hfin.onTable.ne (by decide)) ho
  | createUploadRecord | updateUploadState | finishGc | failGc | claim | steal | release |
    firstRead | nextRead =>
    exact .of_ne (by simp [gcWrite, idempotencyWrite]) ho
  | abortUploadRecord cmd hupload hstate hgc =>
    rcases hgc with rfl | ⟨rfl, _⟩
    · exact .of_ne (by simp [enqueues, gcWrite]) ho
    · exact .of_ne (by simp) ho
  | @claimGcBatch now limit entries hentries =>
    exact .of_ne ((OnTable.map entries (fun e => .gc e.1.1 e.1.2) (fun e => some e.2)
      fun _ => rfl).ne (by decide)) ho
  | @claimExpiredUploads now limit uploads huploads hdistinct =>
    have hup := OnTable.map uploads (fun e => .upload e.1) (fun e => some e.2.expired) fun _ => rfl
    have hgc := onTable_enqueues (uploads.map fun e => e.2.blob) now
    exact .of_ne (List.forall_mem_append.mpr ⟨hup.ne (by decide), hgc.ne (by decide)⟩) ho
  | @purgeChangeCursors now ids =>
    exact .of_ne ((OnTable.map ids (fun id => .cursor id) (fun _ => none) fun _ => rfl).ne
      (by decide)) ho
  | @purgeIdempotencyRecords now keys =>
    exact .of_ne ((OnTable.map keys (fun k => .idempotency k.1 k.2.1 k.2.2) (fun _ => none)
      fun _ => rfl).ne (by decide)) ho
  | purgeChanges olderThan => exact .of_ne (purge_table_ne (by decide) (by decide)) ho

/-- **Run.** What holds of the root and of new rows, and is kept by every command
that `Q` admits, holds of every row. -/
theorem Serial.rows_induction {Q : Label → Prop} {P : ObjectId → ObjectRow → Prop}
    (hinit : ∀ o, (initialDb S.migratedAt).object rootId = some o → P rootId o)
    (hstep : ∀ label db x o', Q label → (∀ o, db.object x = some o → P x o) →
      RowWrite S.app.adapter label db x o' → P x o')
    (h : Serial S w wal) (hwal : ∀ e ∈ wal, Q e.1) (ho : (S.rows wal).object x = some o) :
    P x o := by
  induction h generalizing o with
  | nil =>
    rw [Setting.rows_nil] at ho
    have hid : x = rootId := by
      rw [object_initialDb] at ho
      by_contra hid
      rw [if_neg hid] at ho
      cases ho
    subst hid
    exact hinit o ho
  | snoc _ hc ih =>
    rw [Setting.rows_snoc] at ho
    have hrest := fun o ho => ih (o := o) (fun e he => hwal e (List.mem_append_left _ he)) ho
    exact hstep _ _ x o (hwal _ (List.mem_append_right _ (List.mem_singleton_self _))) hrest
      (hc.rowWrite ho)

end AnyStore
