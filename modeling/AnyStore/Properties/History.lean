import AnyStore.Lib.Locked
import AnyStore.Properties.Retention
import AnyStore.Spec.Documents
import AnyStore.Spec.History

/-!
# The feed tells the history of the objects

While nothing is purged, the Changes of an object are its revisions, one after
the other, from its creation to its deletion, and those of a patch are what the
patch has really changed.

## Results

* `feed_agrees` — feed and objects agree in every run in which patches meet
  documents of which sqlx makes what they say.
* `feed_not_agrees` — a run in which they do not: a number that is set twice.

## Assumptions

Nothing is purged (`Unpruned`), and over sqlx every committed patch either asks
for what is there already or meets `PatchObjectCommit.Faithful`: what it leaves
alone is read from the column with the value that it has, and what it sets is
spelled as what is there if it has the same value. Which values are the same is
said by `SameDocument`, without a look at how the adapters decide it.
-/

namespace AnyStore

open ReadCommitted

variable {S : Setting} {w : World} {wal wal₁ : Journal} {c : System}

/-- The stored Changes of an object, in the order of the feed. -/
def Db.history (db : Db) (id : ObjectId) : List PendingChange :=
  entries id (db.changesBetween 0 (db.snapshotMaxSeq 0))

/-- The same keys with the same values, numbers by what they are and not by how
they are spelled; no document is the empty one. -/
def SameDocument (x y : Json) : Prop :=
  (nullAsEmpty x).normalize true = (nullAsEmpty y).normalize true

instance (x y : Json) : Decidable (SameDocument x y) := inferInstanceAs (Decidable (_ = _))

/-- What really changed from one row to the next, in the order of emission. -/
def changedKinds (o o' : ObjectRow) : List ChangeAction :=
  (if o'.name ≠ o.name then [.renamed] else []) ++
    (if o'.parentId ≠ o.parentId then [.moved] else []) ++
    (if SameDocument o'.metadata o.metadata then [] else [.metadataUpdated])

/-- The patch asks for what sqlx finds there already. -/
structure PatchObjectCommit.Repeats (cmd : PatchObjectCommit) (read : ObjectRow) : Prop where
  name : ∀ name ∈ cmd.newName, name = read.name
  parent : ∀ p ∈ cmd.newParentId, read.parentId = some p
  removed : ∀ patch ∈ cmd.metadataPatch, ∀ key ∈ patch.remove, read.metadata.get? key = none
  set : ∀ patch ∈ cmd.metadataPatch, ∀ key x, key ∉ patch.remove →
    patch.set.asMap.get? key = some x →
      (read.metadata.get? key).map (·.normalize false) = some (x.normalize false)

/-- No value changes by being read, and none by being spelled in another way:
`o` is the row as it is stored, `read` as sqlx reads it. -/
structure PatchObjectCommit.Faithful (cmd : PatchObjectCommit) (o read : ObjectRow) : Prop where
  kept : ∀ key, (∀ patch ∈ cmd.metadataPatch,
      key ∉ patch.remove ∧ patch.set.asMap.get? key = none) →
    (read.metadata.get? key).map (·.normalize true) = (o.metadata.get? key).map (·.normalize true)
  set : ∀ patch ∈ cmd.metadataPatch, ∀ key x, key ∉ patch.remove →
    patch.set.asMap.get? key = some x →
      ((o.metadata.get? key).map (·.normalize true) = some (x.normalize true) ↔
        (read.metadata.get? key).map (·.normalize false) = some (x.normalize false))
  other : (∀ m, o.metadata ≠ .obj m) → read.metadata.normalize true = o.metadata.normalize true

/-- Over sqlx, every committed patch repeats what is there or is faithful to it. -/
def DocumentsKept (S : Setting) (wal : Journal) : Prop :=
  S.app.adapter = .sqlx → ∀ wal₁ cmd ws o read, wal₁ ++ [(.patchObject cmd, ws)] <+: wal →
    (S.rows wal₁).live cmd.id = some o → o.read columnRoom = some read →
      cmd.Repeats read ∨ cmd.Faithful o read

/-- What a committed patch did to its object and said about it. -/
inductive Patched (id : ObjectId) (db db' : Db) (said : List PendingChange) : Prop
  | noOp (hsaid : said = []) (hsame : ∀ x, db'.object x = db.object x)
  | changed {o o' : ObjectRow} (hold : db.live id = some o) (hnew : db'.live id = some o')
      (hrevision : o'.revision = o.revision + 1) (hne : changedKinds o o' ≠ [])
      (hsaid : said = (changedKinds o o').map (PendingChange.new id o'.revision))

/-- Feed and objects agree. -/
structure FeedAgrees (S : Setting) (c : System) : Prop where
  -- only what is committed changes a row
  committed : c.state.db = S.rows c.state.wal
  history : ∀ id, id ≠ rootId → Histories (Db.object c.state.db id) (Db.history c.state.db id)
  patches : ∀ wal₁ cmd ws, wal₁ ++ [(.patchObject cmd, ws)] <+: c.state.wal →
    Patched cmd.id (S.rows wal₁) (S.rows (wal₁ ++ [(.patchObject cmd, ws)]))
      ((feedOf ws).map fun r => r.2.pending)
  -- a commit that says nothing of an object leaves it at its revision
  rows : ∀ wal₁ e id, wal₁ ++ [e] <+: c.state.wal → RowStep id ((S.rows wal₁).object id)
    ((S.rows (wal₁ ++ [e])).object id) (entries id (feedOf e.2))

/-- Nothing is purged, so the stored Changes are all that were ever made. -/
theorem Serial.history_eq (h : Serial S w wal) (hpurge : Unpruned wal) (id : ObjectId) :
    (S.rows wal).history id = entries id (feed wal) := by
  have hinv := h.feedInv
  have hmark := h.purgedThrough_zero hpurge
  have hself : window 0 ((S.rows wal).snapshotMaxSeq 0) (feed wal) = feed wal := by
    refine List.filter_eq_self.mpr fun r hr => ?_
    have hpos := hinv.positive r hr
    have hle := Db.le_snapshotMaxSeq (hinv.change_eq hmark hr hpos) 0
    simp only [decide_eq_true_eq]
    omega
  rw [Db.history, hinv.changesBetween_eq hmark le_rfl, hself]

/-! ## What becomes of a document -/

section Documents

variable {cmd : PatchObjectCommit} {o read : ObjectRow} {target : PatchTarget}

/-- No document has no keys. -/
theorem nullAsEmpty_get? (x : Json) (key : String) : (nullAsEmpty x).get? key = x.get? key := by
  cases x <;> rfl

/-- Equal documents are the same. -/
theorem sameDocument_of_normalize {x y : Json} (h : x.normalize true = y.normalize true) :
    SameDocument x y := by
  have hnull : ∀ {z : Json}, z.normalize true = .null → z = .null := by
    intro z hz
    cases z <;> cases hz
    rfl
  unfold SameDocument
  cases x with
  | null => rw [hnull h.symm]
  | bool | int | float | str | arr | obj =>
    cases y with
    | null => cases hnull h
    | bool | int | float | str | arr | obj => exact h

/-- Writing changes the spelling only. -/
theorem sameDocument_written {x y : Json} : SameDocument x.written y ↔ SameDocument x y := by
  unfold SameDocument
  rw [nullAsEmpty_written, Json.normalize_true_written]

/-- What sqlx patches is an object, or nothing yet. -/
theorem sqlx_target {patch : MetadataPatch} (hpatch : cmd.metadataPatch = some patch)
    (htarget : patchTarget .sqlx cmd read = .ok target) : ∃ n,
      nullAsEmpty read.metadata = .obj n ∧ target.metadata = .obj (patch.applied n) := by
  unfold patchTarget at htarget
  rw [hpatch] at htarget
  cases hm : read.metadata with
  | obj n =>
    rw [hm] at htarget
    obtain rfl := Except.ok.inj htarget
    exact ⟨n, rfl, rfl⟩
  | null =>
    rw [hm] at htarget
    obtain rfl := Except.ok.inj htarget
    exact ⟨.nil, rfl, rfl⟩
  | bool | int | float | str | arr =>
    rw [hm] at htarget
    cases htarget

/-- Without a metadata patch they stay. -/
theorem target_metadata_none {a : Adapter} (hpatch : cmd.metadataPatch = none)
    (htarget : patchTarget a cmd read = .ok target) : target.metadata = read.metadata := by
  unfold patchTarget at htarget
  rw [hpatch] at htarget
  obtain rfl := Except.ok.inj htarget
  rfl

/-- An object that is read comes from an object with the same keys. -/
theorem stored_obj {n : Members} (hread : o.read columnRoom = some read)
    (hn : nullAsEmpty read.metadata = .obj n) : ∃ m, nullAsEmpty o.metadata = .obj m ∧
      ∀ key, (n.get? key).isSome = (m.get? key).isSome := by
  obtain ⟨metadata, hmetadata, rfl⟩ := Option.map_eq_some_iff.mp hread
  replace hn : nullAsEmpty metadata = .obj n := hn
  -- an object is read as an object, `null` as `null`, and nothing else becomes one
  cases hm : o.metadata with
  | obj m =>
    rw [hm] at hmetadata
    obtain ⟨n', hn', rfl⟩ := Option.map_eq_some_iff.mp hmetadata
    obtain rfl := Json.obj.inj hn
    exact ⟨m, rfl, fun key => Members.isSome_get?_read hn'⟩
  | null =>
    rw [hm] at hmetadata
    obtain rfl := Option.some.inj hmetadata
    obtain rfl := Json.obj.inj hn
    exact ⟨.nil, rfl, fun key => rfl⟩
  | bool | str =>
    rw [hm] at hmetadata
    obtain rfl := Option.some.inj hmetadata
    cases hn
  | int | float =>
    rw [hm] at hmetadata
    obtain ⟨number, -, rfl⟩ := Option.map_eq_some_iff.mp hmetadata
    cases number <;> cases hn
  | arr xs =>
    rw [hm] at hmetadata
    obtain ⟨ys, -, rfl⟩ := Option.map_eq_some_iff.mp hmetadata
    cases hn

/-- Where the patch is faithful, sqlx finds a change if and only if the stored
document becomes another one. -/
theorem sqlx_metadataChanged (hread : o.read columnRoom = some read) (h : cmd.Faithful o read)
    (htarget : patchTarget .sqlx cmd read = .ok target) :
    target.metadataChanged .sqlx read = false ↔ SameDocument target.metadata o.metadata := by
  have hequal : target.metadataChanged .sqlx read = false ↔
      (nullAsEmpty target.metadata).normalize false =
        (nullAsEmpty read.metadata).normalize false := by
    unfold PatchTarget.metadataChanged
    rw [Bool.not_eq_false']
    exact decide_eq_true_iff
  rw [hequal]
  cases hpatch : cmd.metadataPatch with
  | none =>
    rw [target_metadata_none hpatch htarget]
    refine iff_of_true rfl ?_
    have hkept : ∀ key, (read.metadata.get? key).map (·.normalize true) =
        (o.metadata.get? key).map (·.normalize true) := by
      intro key
      refine h.kept key ?_
      intro patch hsome
      rw [hpatch] at hsome
      cases hsome
    by_cases hobj : ∃ m, o.metadata = .obj m
    · obtain ⟨m, hm⟩ := hobj
      obtain ⟨n, hn⟩ := Adapter.held_obj (a := .sqlx) hread ⟨m, hm⟩
      rw [hm, hn] at hkept ⊢
      exact (Json.normalize_obj true).mpr hkept
    · exact sameDocument_of_normalize (h.other fun m hm => hobj ⟨m, hm⟩)
  | some patch =>
    obtain ⟨n, hn, hmetadata⟩ := sqlx_target hpatch htarget
    obtain ⟨m, hm, hkeys⟩ := stored_obj hread hn
    have hget : ∀ key, read.metadata.get? key = n.get? key := by
      intro key
      rw [← nullAsEmpty_get?, hn]
      rfl
    have hget' : ∀ key, o.metadata.get? key = m.get? key := by
      intro key
      rw [← nullAsEmpty_get?, hm]
      rfl
    unfold SameDocument
    rw [hmetadata, hn, hm]
    show (Json.obj _).normalize false = _ ↔ (Json.obj _).normalize true = _
    rw [Json.normalize_obj, Json.normalize_obj]
    refine forall_congr' fun key => ?_
    rw [MetadataPatch.get?_applied]
    unfold MetadataPatch.lookup
    by_cases hremoved : key ∈ patch.remove
    · -- a key that is removed was there in both or in neither
      rw [if_pos hremoved]
      have hsome := hkeys key
      cases hkn : n.get? key <;> cases hkm : m.get? key <;> simp [hkn, hkm] at hsome ⊢
    · rw [if_neg hremoved]
      cases hset : patch.set.asMap.get? key with
      | some x =>
        have hx := h.set patch hpatch key x hremoved hset
        rw [hget, hget'] at hx
        rw [Option.some_or, Option.map_some, Option.map_some]
        exact eq_comm.trans (hx.symm.trans eq_comm)
      | none =>
        have hkept := h.kept key fun patch' hpatch' => by
          obtain rfl := Option.some.inj (hpatch.symm.trans hpatch')
          exact ⟨hremoved, hset⟩
        rw [hget, hget'] at hkept
        rw [Option.none_or]
        exact iff_of_true rfl hkept

/-- What is there already is no change. -/
theorem sqlx_repeats (h : cmd.Repeats read) (htarget : patchTarget .sqlx cmd read = .ok target) :
    target.unchanged .sqlx read = true := by
  have hnames : target.name = cmd.newName.getD read.name ∧
      target.parent = cmd.newParentId.or read.parentId := by
    unfold patchTarget at htarget
    cases hpatch : cmd.metadataPatch with
    | none =>
      rw [hpatch] at htarget
      obtain rfl := Except.ok.inj htarget
      exact ⟨rfl, rfl⟩
    | some patch =>
      rw [hpatch] at htarget
      obtain ⟨metadata, -, htarget⟩ := Except.exists_of_bind_ok htarget
      obtain rfl := Except.ok.inj htarget
      exact ⟨rfl, rfl⟩
  -- the name, the place and the metadata that are asked for are there
  have hname : target.nameChanged read = false := by
    unfold PatchTarget.nameChanged
    refine decide_eq_false (not_not.mpr ?_)
    rw [hnames.1]
    cases hname : cmd.newName with
    | none => rfl
    | some name => exact h.name name hname
  have hparent : target.parentChanged read = false := by
    unfold PatchTarget.parentChanged
    refine decide_eq_false (not_not.mpr ?_)
    rw [hnames.2]
    cases hp : cmd.newParentId with
    | none => rfl
    | some p => exact (h.parent p hp).symm
  have hmetadata : target.metadataChanged .sqlx read = false := by
    unfold PatchTarget.metadataChanged
    rw [Bool.not_eq_false']
    refine decide_eq_true ?_
    cases hpatch : cmd.metadataPatch with
    | none => rw [target_metadata_none hpatch htarget]
    | some patch =>
      obtain ⟨n, hn, hmetadata⟩ := sqlx_target hpatch htarget
      have hget : ∀ key, read.metadata.get? key = n.get? key := by
        intro key
        rw [← nullAsEmpty_get?, hn]
        rfl
      rw [hmetadata, hn]
      refine (MetadataPatch.applied_eq_iff false ?_).mpr ?_
      · intro key hkey
        rw [← hget]
        exact h.removed patch hpatch key hkey
      · intro key x hkept hset
        rw [← hget]
        exact h.set patch hpatch key x hkept hset
  unfold PatchTarget.unchanged
  rw [hname, hparent, hmetadata]
  rfl

/-- Keys are deleted from an array as its elements are. -/
theorem foldl_deleteKey_arr (remove : List String) (xs : Items) :
    ∃ ys, remove.foldl Json.deleteKey (.arr xs) = .arr ys := by
  induction remove generalizing xs with
  | nil => exact ⟨xs, rfl⟩
  | cons key remove ih => exact ih (xs.removeStr key)

/-- `jsonb` tells documents apart by their values. -/
theorem rpc_metadataChanged (htarget : patchTarget .rpc cmd o = .ok target) :
    target.metadataChanged .rpc o = false ↔ SameDocument target.metadata o.metadata := by
  have hequal : target.metadataChanged .rpc o = false ↔
      target.metadata.normalize true = o.metadata.normalize true := by
    unfold PatchTarget.metadataChanged
    rw [Bool.not_eq_false']
    exact decide_eq_true_iff
  rw [hequal]
  refine ⟨sameDocument_of_normalize, ?_⟩
  intro hsame
  cases hpatch : cmd.metadataPatch with
  | none => rw [target_metadata_none hpatch htarget]
  | some patch =>
    have hmetadata : target.metadata =
        patch.remove.foldl Json.deleteKey (o.metadata.concat patch.set.written) := by
      unfold patchTarget at htarget
      rw [hpatch] at htarget
      obtain rfl := Except.ok.inj htarget
      rfl
    cases hm : o.metadata with
    | obj m =>
      have hobj := hmetadata
      rw [hm] at hobj
      rw [hobj.trans (foldl_deleteKey patch.remove (patch.set.written.insertAll m)), hm] at hsame
      rw [hobj.trans (foldl_deleteKey patch.remove (patch.set.written.insertAll m))]
      exact hsame
    | null =>
      -- an array is no empty document
      obtain ⟨ys, hys⟩ := foldl_deleteKey_arr patch.remove
        (.cons .null (.cons (.obj patch.set.written) .nil))
      rw [hm] at hmetadata hsame
      rw [hmetadata.trans hys] at hsame
      cases hsame
    | arr xs =>
      obtain ⟨ys, hys⟩ := foldl_deleteKey_arr patch.remove (xs.snoc (.obj patch.set.written))
      rw [hm] at hmetadata hsame
      rw [hmetadata.trans hys] at hsame ⊢
      exact hsame
    | bool | int | float | str =>
      obtain ⟨ys, hys⟩ := foldl_deleteKey_arr patch.remove
        (.cons o.metadata (.cons (.obj patch.set.written) .nil))
      rw [hm] at hmetadata hsame hys
      rw [hmetadata.trans hys] at hsame ⊢
      exact hsame

end Documents

/-- **Step.** A committed patch has the Changes of what it has changed. -/
theorem Serial.patched (h : Serial S w wal) (hkept : DocumentsKept S wal)
    {cmd : PatchObjectCommit} {ws : List Write}
    (hp : wal₁ ++ [(.patchObject cmd, ws)] <+: wal) :
    Patched cmd.id (S.rows wal₁) (S.rows (wal₁ ++ [(.patchObject cmd, ws)]))
      ((feedOf ws).map fun r => r.2.pending) := by
  have hcommit := h.commits hp
  rw [Setting.rows_snoc]
  generalize hlabel : Label.patchObject cmd = label at hcommit
  cases hcommit with
  | @patchObject cmd' current held target records fin hlive hheld hmatch hroot htarget hchanged
      hdestination hwalk hrecords hfin =>
    obtain rfl := Label.patchObject.inj hlabel
    rw [feedOf_cons_object, feedOf_rest hfin.onTable, hrecords.entries_eq, PatchTarget.pending_eq]
    -- what the adapter takes for a change is one
    have hmetadata : target.metadataChanged S.app.adapter held = false ↔
        SameDocument target.metadata current.metadata := by
      cases hadapter : S.app.adapter with
      | sqlx =>
        rw [hadapter] at hheld htarget hchanged
        rcases hkept hadapter wal₁ cmd _ current held hp hlive hheld with hrepeats | hfaithful
        · rw [sqlx_repeats hrepeats htarget] at hchanged
          cases hchanged
        · exact sqlx_metadataChanged hheld hfaithful htarget
      | rpc =>
        rw [hadapter] at hheld htarget
        obtain rfl := Option.some.inj hheld
        exact rpc_metadataChanged htarget
    -- so the actions are those of the difference between the rows
    have hkinds : target.actions S.app.adapter held =
        changedKinds current (target.row cmd.ctx.now current) := by
      have heq := Adapter.held_eq hheld
      have hname : target.nameChanged held = target.nameChanged current := by rw [heq]; rfl
      have hparent : target.parentChanged held = target.parentChanged current := by rw [heq]; rfl
      have hsame : SameDocument (target.row cmd.ctx.now current).metadata current.metadata ↔
          SameDocument target.metadata current.metadata := sameDocument_written
      unfold PatchTarget.actions changedKinds
      rw [hname, hparent]
      simp only [hsame, ← hmetadata, PatchTarget.nameChanged, PatchTarget.parentChanged,
        decide_eq_true_eq]
      cases target.metadataChanged S.app.adapter held <;> rfl
    -- the patch writes the row, and nothing else in the transaction does
    have hnew : Db.object (replay (⟨.object cmd.id, some (target.row cmd.ctx.now current)⟩ ::
        (changeWrites records ++ fin)) (S.rows wal₁)) cmd.id =
        some (target.row cmd.ctx.now current) := by
      rw [object_replay, written_cons_self, written_rest hfin.onTable (by simp) (by simp)]
      rfl
    have hnone := (Db.live_eq_some.mp hlive).2
    refine .changed hlive (Db.live_eq_some.mpr ⟨hnew, hnone⟩) rfl ?_ (by rw [hkinds]; rfl)
    rw [← hkinds]
    exact PatchTarget.actions_ne_nil hchanged
  | @unpatched cmd' current fin hlive hmatch hfin =>
    refine .noOp ?_ fun x => ?_
    · rw [hfin.onTable.feedOf (by decide)]
      rfl
    · rw [object_replay, hfin.onTable.written (by simp)]
      rfl
  | @steal req label createdAt r hsteal =>
    subst hlabel
    rcases hsteal with hsteal | hsteal <;> cases hsteal
  | _ => cases hlabel

/-- As long as nothing is purged and every patch keeps its documents, feed and
objects agree. -/
theorem feed_agrees (h : S.Runs c) (hpurge : Unpruned c.state.wal)
    (hkept : DocumentsKept S c.state.wal) : FeedAgrees S c where
  committed := h.storeInv.db
  history id hid := by
    have hserial := h.storeInv.serial
    rw [h.storeInv.db, hserial.history_eq hpurge]
    exact hserial.histories hid
  patches _ _ _ hp := h.storeInv.serial.patched hkept hp
  rows _ _ id hp := h.storeInv.serial.rowStep hp id

/-! ## A whole life -/

/-- `p` holds of every member. -/
def Members.holds (p : String → Json → Bool) : Members → Bool
  | .nil => true
  | .cons k x m => p k x && m.holds p

/-- What holds of all members holds of each. -/
theorem Members.holds_get? {p : String → Json → Bool} {m : Members} (h : m.holds p = true)
    {key : String} {x : Json} (hx : m.get? key = some x) : p key x = true := by
  induction m using Members.ind with
  | nil => cases hx
  | cons k y m ih =>
    obtain ⟨hy, hm⟩ := Bool.and_eq_true_iff.mp h
    rw [Members.get?_cons] at hx
    by_cases hk : k = key
    · rw [if_pos hk] at hx
      obtain rfl := Option.some.inj hx
      exact hk ▸ hy
    · rw [if_neg hk] at hx
      exact ih hm hx

/-- The document is read as it stands, and no value that the patch sets is the
one that is there in another spelling. -/
def PatchObjectCommit.isFaithful (cmd : PatchObjectCommit) (o : ObjectRow) : Bool :=
  decide (o.metadata.read columnRoom = some o.metadata) &&
    cmd.metadataPatch.all fun patch => patch.set.asMap.holds fun key x =>
      decide ((o.metadata.get? key).map (·.normalize true) = some (x.normalize true)) ==
        decide ((o.metadata.get? key).map (·.normalize false) = some (x.normalize false))

/-- The check decides what sqlx makes of a patch. -/
theorem PatchObjectCommit.faithful_of_check {cmd : PatchObjectCommit} {o read : ObjectRow}
    (h : cmd.isFaithful o = true) (hread : o.read columnRoom = some read) :
    cmd.Faithful o read := by
  obtain ⟨hback, hset⟩ := Bool.and_eq_true_iff.mp h
  have hback := of_decide_eq_true hback
  obtain rfl : read = o := by
    unfold ObjectRow.read at hread
    rw [hback] at hread
    exact (Option.some.inj hread).symm
  refine ⟨fun _ _ => rfl, ?_, fun _ => rfl⟩
  intro patch hpatch key x _ hx
  rw [Option.mem_def.mp hpatch] at hset
  exact decide_eq_decide.mp (beq_iff_eq.mp (Members.holds_get? hset hx))

/-- Every patch of the journal meets its object so. -/
def Setting.patchesFaithful (S : Setting) (wal : Journal) : Bool :=
  (List.range wal.length).all fun n =>
    match (wal.drop n).head? with
    | some (.patchObject cmd, _) => ((S.rows (wal.take n)).live cmd.id).all cmd.isFaithful
    | _ => true

/-- The same for all patches of a run. -/
theorem documentsKept_of_check {S : Setting} {wal : Journal} (h : S.patchesFaithful wal = true) :
    DocumentsKept S wal := by
  rintro - wal₁ cmd ws o read ⟨rest, rfl⟩ ho hread
  have hn : wal₁.length ∈ List.range (wal₁ ++ [(Label.patchObject cmd, ws)] ++ rest).length := by
    rw [List.mem_range]
    simp
  have hcheck := List.all_eq_true.mp h _ hn
  simp only [List.append_assoc, List.drop_left, List.take_left, List.singleton_append,
    List.head?_cons] at hcheck
  rw [ho] at hcheck
  exact .inr (PatchObjectCommit.faithful_of_check hcheck hread)

/-- A folder is created, patched, patched to what it is already, and deleted. -/
def wholeLife : List (Move Request (Choice Row Env)) :=
  alone 0 (sampleCreate none "a" .folder "A" 1) 9 {} ++
    alone 1 (samplePatch "a" (some 1) (some "B") 2) 9 {} ++
    alone 2 (samplePatch "a" none (some "B") 3) 5 {} ++ alone 3 (sampleDelete "a" none false 4) 8 {}

/-- The object of `wholeLife` is created, renamed and documented at once, and deleted. -/
theorem feed_agrees_wholeLife : ∃ c, (Setting.free (sampleApp .sqlx) 0).Runs c ∧
    (Db.history c.state.db "a").map (fun p => (p.revision, p.action)) =
      [(1, .created), (2, .renamed), (2, .metadataUpdated), (3, .deleted)] ∧
    FeedAgrees (Setting.free (sampleApp .sqlx) 0) c := by
  obtain ⟨c, hc, hend⟩ := Setting.free_runs (sampleApp .sqlx) 0 wholeLife
    (fun c => ((Db.history c.state.db "a").map (fun p => (p.revision, p.action)),
      c.state.wal.any fun e => e.1.prunes,
      (Setting.free (sampleApp .sqlx) 0).patchesFaithful c.state.wal))
    (a := ([(1, .created), (2, .renamed), (2, .metadataUpdated), (3, .deleted)], false, true))
    (by decide +kernel)
  simp only [Prod.mk.injEq] at hend
  obtain ⟨hhistory, hpurge, hfaithful⟩ := hend
  refine ⟨c, hc, hhistory, feed_agrees hc ?_ (documentsKept_of_check hfaithful)⟩
  intro e he olderThan hlabel
  have hprunes := List.any_eq_false.mp hpurge e he
  rw [hlabel] at hprunes
  exact hprunes rfl

/-! ## A number that is set twice -/

/-- A key is set to the double 1e18. -/
def setDouble (now : Time) : Request :=
  .mutate (sampleContext none now) (.patch {
    id := "a"
    ifMatch := none
    newName := none
    newParentId := none
    metadataPatch := some { set := .cons "k" (.float 1000000000000000000) .nil }
    ctx := sampleMutation now })

/-- A folder is created, and its key `k` is set to `1e18` twice. -/
def setTwice : List (Move Request (Choice Row Env)) :=
  alone 0 (sampleCreate none "a" .folder "A" 1) 9 {} ++ alone 1 (setDouble 2) 9 {} ++
    alone 2 (setDouble 3) 9 {}

/-- The object that is patched. -/
def Label.patched : Label → Option ObjectId
  | .patchObject cmd => some cmd.id
  | _ => none

/-- The live row of `a` after a journal. -/
def rowOfA (wal : Journal) : Option ObjectRow :=
  ((Setting.free (sampleApp .sqlx) 0).rows wal).live "a"

/-- Whether something was purged, whether the third commit is a patch of `a` that
says something, and whether it has changed nothing. -/
def setTwiceEnd (c : System) : Bool × List Bool × Option Bool :=
  (c.state.wal.any fun e => e.1.prunes,
    (c.state.wal.drop 2).map fun e => decide (e.1.patched = some "a") && !(feedOf e.2).isEmpty,
    (rowOfA (c.state.wal.take 2)).bind fun o =>
      (rowOfA c.state.wal).map fun o' => (changedKinds o o').isEmpty)

/-- The second patch says that the document has changed, and it has not. -/
theorem feed_not_agrees : ∃ c, (Setting.free (sampleApp .sqlx) 0).Runs c ∧
    Unpruned c.state.wal ∧ ¬ FeedAgrees (Setting.free (sampleApp .sqlx) 0) c := by
  obtain ⟨c, hc, hend⟩ := Setting.free_runs (sampleApp .sqlx) 0 setTwice setTwiceEnd
    (a := (false, [true], some true)) (by decide +kernel)
  unfold setTwiceEnd at hend
  simp only [Prod.mk.injEq] at hend
  obtain ⟨hpurge, hlast, hkinds⟩ := hend
  refine ⟨c, hc, ?_, ?_⟩
  · intro e he olderThan hlabel
    have hprunes := List.any_eq_false.mp hpurge e he
    rw [hlabel] at hprunes
    exact hprunes rfl
  intro h
  -- the last commit is the second patch
  obtain ⟨⟨label, ws⟩, hdrop, hboth⟩ := List.map_eq_singleton_iff.mp hlast
  obtain ⟨hlabel, hsaid⟩ := Bool.and_eq_true_iff.mp hboth
  have hlabel := of_decide_eq_true hlabel
  obtain ⟨cmd, rfl, hid⟩ : ∃ cmd, label = .patchObject cmd ∧ cmd.id = "a" := by
    unfold Label.patched at hlabel
    cases label with
    | patchObject cmd => exact ⟨cmd, rfl, Option.some.inj hlabel⟩
    | _ => cases hlabel
  have hwal : c.state.wal.take 2 ++ [(.patchObject cmd, ws)] = c.state.wal := by
    rw [← hdrop, List.take_append_drop]
  have hp : c.state.wal.take 2 ++ [(.patchObject cmd, ws)] <+: c.state.wal := by rw [hwal]
  -- it has said something although nothing has changed
  cases h.patches _ cmd ws hp with
  | noOp hnone =>
    rw [List.map_eq_nil_iff] at hnone
    rw [hnone] at hsaid
    cases hsaid
  | changed hold hnew _ hne =>
    rw [hwal, hid] at hnew
    rw [hid] at hold
    have hsome : rowOfA (c.state.wal.take 2) = some _ := hold
    have hsome' : rowOfA c.state.wal = some _ := hnew
    rw [hsome, Option.bind_some, hsome', Option.map_some, Option.some.injEq] at hkinds
    exact hne (List.isEmpty_iff.mp hkinds)

end AnyStore
