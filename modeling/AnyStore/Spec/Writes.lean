import AnyStore.Spec.Serial

/-!
# What a write set changes

Write sets seen table by table. `Commits.objectStep` says what a commit does to
the objects and the feed: it leaves them alone, or it is one of the four object
mutations.
-/

namespace AnyStore

open ReadCommitted

inductive Table
  | objects
  | uploads
  | idempotency
  | changes
  | cursors
  | retention
  | gc
  deriving DecidableEq

@[simp] def Row.table : Row → Table
  | .object _ => .objects
  | .upload _ => .uploads
  | .idempotency .. => .idempotency
  | .change _ => .changes
  | .cursor _ => .cursors
  | .retention => .retention
  | .gc .. => .gc

/-- All writes are to one table. -/
def OnTable (T : Table) (ws : List Write) : Prop := ∀ w ∈ ws, w.1.table = T

theorem OnTable.written {T : Table} {ws : List Write} (h : OnTable T ws) {r : Row}
    (hr : r.table ≠ T) : written ws r = none := by
  rw [written_eq_none_iff, List.mem_map]
  rintro ⟨w, hw, rfl⟩
  exact hr (h w hw)

theorem OnTable.ne {T T' : Table} {ws : List Write} (h : OnTable T ws) (hT : T ≠ T') :
    ∀ w ∈ ws, w.1.table ≠ T' := fun w hw => by rwa [h w hw]

theorem OnTable.map {ι : Type} {T : Table} (l : List ι) (row : ι → Row)
    (val : (i : ι) → Option (row i).Val) (h : ∀ i, (row i).table = T) :
    OnTable T (l.map fun i => (⟨row i, val i⟩ : Write)) := by
  intro w hw
  obtain ⟨i, _, rfl⟩ := List.mem_map.mp hw
  exact h i

theorem onTable_objects {ι : Type} (l : List ι) (id : ι → ObjectId) (o : ι → Option ObjectRow) :
    OnTable .objects (l.map fun i => (⟨.object (id i), o i⟩ : Write)) :=
  OnTable.map l (fun i => .object (id i)) o fun _ => rfl

theorem onTable_changeWrites (records : List (Nat × ChangeRecord)) :
    OnTable .changes (changeWrites records) :=
  OnTable.map records (fun r => .change r.1) (fun r => some r.2) fun _ => rfl

theorem onTable_enqueues (blobs : List (String × String)) (notBefore : Time) :
    OnTable .gc (enqueues blobs notBefore) :=
  OnTable.map blobs (fun b => .gc b.1 b.2) (fun _ => some { notBefore }) fun _ => rfl

theorem onTable_idempotencyWrite (ictx : IdempotencyContext) (r : Option IdempotencyRow) :
    OnTable .idempotency [idempotencyWrite ictx r] := List.forall_mem_singleton.mpr rfl

theorem onTable_cursors {ι : Type} (l : List ι) (id : ι → CursorId) (c : ι → Option CursorRow) :
    OnTable .cursors (l.map fun i => (⟨.cursor (id i), c i⟩ : Write)) :=
  OnTable.map l (fun i => .cursor (id i)) c fun _ => rfl

theorem Finalizes.onTable {w : World} {db : Db} {context : Option IdempotencyContext}
    {response : StoredResponse} {now expiresAt : Time} {fin : List Write}
    (h : Finalizes w db context response now expiresAt fin) : OnTable .idempotency fin := by
  cases context with
  | none =>
    rw [Finalizes] at h
    subst h
    intro w hw
    cases hw
  | some ictx =>
    obtain ⟨r, _, rfl⟩ := h
    intro w hw
    obtain rfl := List.mem_singleton.mp hw
    rfl

theorem MutationContext.Finalizes.onTable {ctx : MutationContext} {w : World} {db : Db}
    {fin : List Write} (h : ctx.Finalizes w db fin) : OnTable .idempotency fin :=
  have ⟨_, h⟩ := h
  AnyStore.Finalizes.onTable h

/-! ## Rows after a write set -/

section Lookup

variable (ws : List Write) (db : Db)

theorem object_replay (id : ObjectId) :
    Db.object (replay ws db) id = (written ws (.object id)).getD (db.object id) :=
  lookup_replay ws db _

theorem upload_replay (id : UploadId) :
    Db.upload (replay ws db) id = (written ws (.upload id)).getD (db.upload id) :=
  lookup_replay ws db _

theorem change_replay (seq : Nat) :
    Db.change (replay ws db) seq = (written ws (.change seq)).getD (db.change seq) :=
  lookup_replay ws db _

theorem cursor_replay (id : CursorId) :
    Db.cursor (replay ws db) id = (written ws (.cursor id)).getD (db.cursor id) :=
  lookup_replay ws db _

theorem gc_replay (backend blobRef : String) :
    Db.gc (replay ws db) backend blobRef =
      (written ws (.gc backend blobRef)).getD (db.gc backend blobRef) :=
  lookup_replay ws db _

theorem purgedThrough_replay :
    Db.purgedThrough (replay ws db) = (written ws .retention).getD db.purgedThrough :=
  lookup_replay ws db _

end Lookup

/-- The migration leaves the root and the watermark. -/
theorem lookup_initialDb (now : Time) {r : Row} (h : r.table ≠ .objects)
    (h' : r.table ≠ .retention) : (initialDb now).lookup r = none := by
  have hr : r ≠ .retention := fun he => h' (by rw [he]; rfl)
  have hr' : r ≠ .object rootId := fun he => h (by rw [he]; rfl)
  rw [initialDb, AList.lookup_insert_ne hr]
  exact (AList.lookup_insert_ne (s := ∅) hr').trans rfl

/-! ## The feed of a write set -/

theorem feedOf_append (ws ws' : List Write) : feedOf (ws ++ ws') = feedOf ws ++ feedOf ws' :=
  List.filterMap_append ..

theorem OnTable.feedOf {T : Table} {ws : List Write} (h : OnTable T ws) (hT : T ≠ .changes) :
    feedOf ws = [] := by
  rw [AnyStore.feedOf, List.filterMap_eq_nil_iff]
  rintro ⟨r, v⟩ hw
  have := h _ hw
  cases r with
  | change seq => exact absurd this.symm hT
  | _ => rfl

@[simp] theorem feedOf_changeWrites (records : List (Nat × ChangeRecord)) :
    feedOf (changeWrites records) = records := by
  induction records with
  | nil => rfl
  | cons r records ih =>
    rw [changeWrites, List.map_cons, feedOf, List.filterMap_cons]
    exact congrArg (r :: ·) ih

theorem feed_snoc (wal : Journal) (label : Label) (ws : List Write) :
    feed (wal ++ [(label, ws)]) = feed wal ++ feedOf ws := by
  simp [feed]

/-- A write set that mentions no Change. -/
theorem feedOf_eq_nil {ws : List Write} (h : ∀ w ∈ ws, w.1.table ≠ .changes) : feedOf ws = [] := by
  rw [feedOf, List.filterMap_eq_nil_iff]
  rintro ⟨r, v⟩ hw
  have := h _ hw
  cases r with
  | change seq => exact absurd rfl this
  | _ => rfl

theorem feedOf_cons_object (id : ObjectId) (o : Option ObjectRow) (ws : List Write) :
    feedOf (⟨.object id, o⟩ :: ws) = feedOf ws := rfl

theorem feedOf_cons_upload (id : UploadId) (u : Option UploadRow) (ws : List Write) :
    feedOf (⟨.upload id, u⟩ :: ws) = feedOf ws := rfl

/-! ## Objects and the feed -/

/-- The object rows that a write set writes. -/
def objectWrites (ws : List Write) : ObjectId → Option (Option ObjectRow) :=
  fun id => written ws (.object id)

def single (id : ObjectId) (o : ObjectRow) : ObjectId → Option (Option ObjectRow) :=
  fun x => if x = id then some (some o) else none

/-- The write set of one object row, some records and no other object. -/
theorem objectWrites_cons {id : ObjectId} {o : ObjectRow} {rest : List Write}
    (h : ∀ x, written rest (.object x) = none) :
    objectWrites (⟨.object id, some o⟩ :: rest) = single id o := by
  funext x
  rw [objectWrites, single]
  by_cases hx : x = id
  · subst hx
    rw [written_cons_self, h, if_pos rfl, Option.none_or]
  · have hne : Row.object id ≠ Row.object x := fun he => hx (Row.object.inj he).symm
    rw [written_cons_ne hne, h, if_neg hx]

/-- Nothing but the metadata of a row is parsed. -/
theorem Adapter.held_eq {a : Adapter} {o held : ObjectRow} (h : a.held o = some held) :
    held = { o with metadata := held.metadata } := by
  cases a with
  | sqlx =>
    obtain ⟨metadata, _, rfl⟩ := Option.map_eq_some_iff.mp h
    rfl
  | rpc =>
    obtain rfl := Option.some.inj h
    rfl

/-- What one commit does to the objects and to the feed. -/
inductive ObjectStep (S : Setting) (wal : Journal) (db : Db) :
    (ObjectId → Option (Option ObjectRow)) → List (Nat × ChangeRecord) → Prop
  | quiet : ObjectStep S wal db (fun _ => none) []
  | created (cmd : CreateObjectCommit) {parent : ObjectRow} {records}
      (hfresh : db.object cmd.id = none)
      (hparent : db.live cmd.parentId = some parent) (hfolder : parent.kind = .folder)
      (hrecords : Numbered wal cmd.ctx [.new cmd.id Revision.initial .created] records) :
      ObjectStep S wal db (single cmd.id cmd.row) records
  | patched (cmd : PatchObjectCommit) {current held : ObjectRow} {target records}
      (hlive : db.live cmd.id = some current)
      (hheld : S.app.adapter.held current = some held)
      (hroot : cmd.id = rootId → cmd.newParentId = none ∧ cmd.newName = none)
      (htarget : patchTarget S.app.adapter cmd held = .ok target)
      (hchanged : target.unchanged S.app.adapter held = false)
      (hdestination : target.parentChanged current = true → ∃ d folder,
        target.parent = some d ∧ db.live d = some folder ∧ folder.kind = .folder)
      (hwalk : target.parentChanged current = true → current.kind = .folder →
        ∀ d ∈ target.parent, ¬ Relation.ReflTransGen
          (Db.Parent (replay [⟨.object cmd.id, some (target.row cmd.ctx.now current)⟩] db)) d cmd.id)
      (hrecords : Numbered wal cmd.ctx
        (target.pending S.app.adapter held cmd.id (current.revision + 1)) records) :
      ObjectStep S wal db (single cmd.id (target.row cmd.ctx.now current)) records
  | deleted (ctx : MutationContext) {targets rows records}
      (hroot : rootId ∉ targets) (hnodup : targets.Nodup)
      (hclosed : ∀ c o p, db.live c = some o → o.parentId = some p → p ∈ targets → c ∈ targets)
      (hrows : ∀ id o', (id, o') ∈ rows ↔
        id ∈ targets ∧ ∃ o, db.live id = some o ∧ o' = o.tombstone ctx.now)
      (hdistinct : (rows.map Prod.fst).Nodup)
      (hrecords : Numbered wal ctx (tombstones targets rows) records) :
      ObjectStep S wal db (fun id => if id ∈ targets then
        (db.live id).map fun o => some (o.tombstone ctx.now) else none) records
  | content (cmd : CommitContent) {current : ObjectRow} {records}
      (hlive : db.live cmd.objectId = some current) (hfile : current.kind = .file)
      (hrecords : Numbered wal cmd.ctx
        [.new cmd.objectId (current.revision + 1) (contentAction current)] records) :
      ObjectStep S wal db (single cmd.objectId (cmd.row current)) records

theorem ObjectStep.of_onTable {S : Setting} {wal : Journal} {db : Db} {ws : List Write}
    (hobjects : ∀ w ∈ ws, w.1.table ≠ .objects) (hchanges : ∀ w ∈ ws, w.1.table ≠ .changes) :
    ObjectStep S wal db (objectWrites ws) (feedOf ws) := by
  have hnone : objectWrites ws = fun _ => none := by
    funext id
    rw [objectWrites, written_eq_none_iff, List.mem_map]
    rintro ⟨w, hw, he⟩
    exact hobjects w hw (by rw [he]; rfl)
  rw [hnone, feedOf_eq_nil hchanges]
  exact .quiet

section

variable {records : List (Nat × ChangeRecord)} {fin gcs : List Write}

theorem written_rest (hfin : OnTable .idempotency fin) {r : Row} (hr : r.table ≠ .changes)
    (hr' : r.table ≠ .idempotency) : written (changeWrites records ++ fin) r = none := by
  rw [written_append, hfin.written hr', (onTable_changeWrites records).written hr]
  rfl

theorem feedOf_rest (hfin : OnTable .idempotency fin) :
    feedOf (changeWrites records ++ fin) = records := by
  rw [feedOf_append, hfin.feedOf (by decide), feedOf_changeWrites, List.append_nil]

end

/-- The write set of a deletion, object by object. -/
theorem objectWrites_deleted {db : Db} {now : Time} {targets : List ObjectId}
    {rows : List (ObjectId × ObjectRow)} {rest : List Write}
    (hrows : ∀ id o', (id, o') ∈ rows ↔
      id ∈ targets ∧ ∃ o, db.live id = some o ∧ o' = o.tombstone now)
    (hdistinct : (rows.map Prod.fst).Nodup) (hrest : ∀ x, written rest (.object x) = none) :
    objectWrites (rows.map (fun r => (⟨.object r.1, some r.2⟩ : Write)) ++ rest) =
      fun id => if id ∈ targets then (db.live id).map fun o => some (o.tombstone now) else none := by
  funext id
  rw [objectWrites, written_append, hrest, Option.none_or]
  have hnodup : (rows.map fun r => Row.object r.1).Nodup := by
    have := hdistinct.map (f := Row.object) fun a b h => Row.object.inj h
    rwa [List.map_map] at this
  by_cases hid : ∃ o', (id, o') ∈ rows
  · obtain ⟨o', ho'⟩ := hid
    obtain ⟨hmem, o, ho, rfl⟩ := (hrows id o').mp ho'
    rw [if_pos hmem, ho]
    exact @written_map _ _ Row.Val _ _ (fun r : ObjectId × ObjectRow => Row.object r.1)
      (fun r => some r.2) hnodup _ ho'
  · have hnone : written (rows.map fun r => (⟨.object r.1, some r.2⟩ : Write)) (.object id) = none := by
      rw [written_eq_none_iff, List.map_map, List.mem_map]
      rintro ⟨r, hr, he⟩
      obtain rfl := Row.object.inj he
      exact hid ⟨r.2, hr⟩
    rw [hnone]
    split
    · next hmem =>
      cases ho : db.live id with
      | none => rfl
      | some o => exact absurd ⟨_, (hrows id _).mpr ⟨hmem, o, ho, rfl⟩⟩ hid
    · rfl

theorem purge_table_ne {seqs : List Nat} {watermark : Nat} {T : Table} (hT : T ≠ .changes)
    (hT' : T ≠ .retention) : ∀ w ∈ seqs.map (fun seq => (⟨.change seq, none⟩ : Write)) ++
      [⟨.retention, some watermark⟩], w.1.table ≠ T := by
  refine List.forall_mem_append.mpr ⟨?_, List.forall_mem_singleton.mpr (Ne.symm hT')⟩
  exact (OnTable.map seqs (fun seq => .change seq) (fun _ => none) fun _ => rfl).ne (Ne.symm hT)

theorem objectWrites_purge (seqs : List Nat) (watermark : Nat) :
    objectWrites (seqs.map (fun seq => (⟨.change seq, none⟩ : Write)) ++
      [⟨.retention, some watermark⟩]) = fun _ => none := by
  funext id
  rw [objectWrites, written_eq_none_iff]
  simp

theorem feedOf_purge (seqs : List Nat) (watermark : Nat) :
    feedOf (seqs.map (fun seq => (⟨.change seq, none⟩ : Write)) ++
      [⟨.retention, some watermark⟩]) = [] := by
  rw [feedOf, List.filterMap_eq_nil_iff]
  intro w hw
  rcases List.mem_append.mp hw with hw | hw
  · obtain ⟨seq, _, rfl⟩ := List.mem_map.mp hw
    rfl
  · obtain rfl := List.mem_singleton.mp hw
    rfl

/-- What one commit does to the objects and to the feed. -/
theorem Commits.objectStep {S : Setting} {w : World} {wal : Journal} {db : Db} {label : Label}
    {ws : List Write} (h : Commits S w wal db label ws) :
    ObjectStep S wal db (objectWrites ws) (feedOf ws) := by
  cases h with
  | createObject cmd hfresh hparent hfolder hrecords hfin =>
    rw [objectWrites_cons fun x => written_rest hfin.onTable (by simp) (by simp),
      feedOf_cons_object, feedOf_rest hfin.onTable]
    exact .created cmd hfresh hparent hfolder hrecords
  | patchObject cmd hlive hheld hmatch hroot htarget hchanged hdestination hwalk hrecords hfin =>
    rw [objectWrites_cons fun x => written_rest hfin.onTable (by simp) (by simp),
      feedOf_cons_object, feedOf_rest hfin.onTable]
    exact .patched cmd hlive hheld hroot htarget hchanged hdestination hwalk hrecords
  | @deleteObject cmd current targets rows records fin hlive hmatch hself hroot hnodup hclosed
      hbelow hordered hrows hdistinct hrecords hfin =>
    have hrest : ∀ x, written (enqueues (rows.filterMap fun r => r.2.blob) cmd.ctx.now ++
        (changeWrites records ++ fin)) (.object x) = none := fun x => by
      rw [written_append, written_rest hfin.onTable (by simp) (by simp),
        (onTable_enqueues _ _).written (by simp)]
      rfl
    rw [objectWrites_deleted hrows hdistinct hrest, feedOf_append, feedOf_append,
      feedOf_rest hfin.onTable, (onTable_enqueues _ _).feedOf (by decide)]
    rw [(onTable_objects _ _ _).feedOf (by decide)]
    exact .deleted cmd.ctx hroot hnodup hclosed hrows hdistinct hrecords
  | @commitContent cmd upload current records fin hupload hstate htarget hblob hlive hfile
      hmatch hrecords hfin =>
    have hrest : ∀ (gcs : List (String × String)) (u : UploadRow) (x : ObjectId),
        written (enqueues gcs cmd.gcNotBefore ++ (⟨.upload cmd.uploadId, some u⟩ ::
          (changeWrites records ++ fin))) (.object x) = none := fun gcs u x => by
      rw [written_append, written_cons_ne (by simp),
        written_rest hfin.onTable (by simp) (by simp), (onTable_enqueues _ _).written (by simp)]
      rfl
    rw [objectWrites_cons (hrest _ _), feedOf_cons_object, feedOf_append, feedOf_cons_upload,
      feedOf_rest hfin.onTable, (onTable_enqueues _ _).feedOf (by decide)]
    exact .content cmd hlive hfile hrecords
  | unpatched cmd _ _ hfin | uncommitted cmd _ _ _ _ _ _ _ hfin =>
    exact .of_onTable (hfin.onTable.ne (by decide)) (hfin.onTable.ne (by decide))
  | complete req hfin =>
    exact .of_onTable (hfin.onTable.ne (by decide)) (hfin.onTable.ne (by decide))
  | createUploadRecord | updateUploadState | finishGc | failGc | claim | steal | release |
    firstRead | nextRead =>
    exact .of_onTable (by simp [gcWrite, idempotencyWrite]) (by simp [gcWrite, idempotencyWrite])
  | abortUploadRecord cmd hupload hstate hgc =>
    rcases hgc with rfl | ⟨rfl, _⟩ <;>
      exact .of_onTable (by simp [enqueues, gcWrite]) (by simp [enqueues, gcWrite])
  | @claimGcBatch now limit entries hentries =>
    have hgc := OnTable.map entries (fun e => .gc e.1.1 e.1.2) (fun e => some e.2) fun _ => rfl
    exact .of_onTable (hgc.ne (by decide)) (hgc.ne (by decide))
  | @claimExpiredUploads now limit uploads huploads hdistinct =>
    have hup := OnTable.map uploads (fun e => .upload e.1)
      (fun e => some e.2.expired) fun _ => rfl
    have hgc := onTable_enqueues (uploads.map fun e => e.2.blob) now
    exact .of_onTable (List.forall_mem_append.mpr ⟨hup.ne (by decide), hgc.ne (by decide)⟩)
      (List.forall_mem_append.mpr ⟨hup.ne (by decide), hgc.ne (by decide)⟩)
  | @purgeChangeCursors now ids =>
    have hids := OnTable.map ids (fun id => .cursor id) (fun _ => none) fun _ => rfl
    exact .of_onTable (hids.ne (by decide)) (hids.ne (by decide))
  | @purgeIdempotencyRecords now keys =>
    have hkeys := OnTable.map keys (fun k => .idempotency k.1 k.2.1 k.2.2) (fun _ => none)
      fun _ => rfl
    exact .of_onTable (hkeys.ne (by decide)) (hkeys.ne (by decide))
  | purgeChanges olderThan =>
    rw [objectWrites_purge, feedOf_purge]
    exact .quiet

end AnyStore
