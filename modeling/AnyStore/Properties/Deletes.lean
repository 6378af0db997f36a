import AnyStore.Refinement.System

/-!
# Deleted subtrees

Whatever is created, moved, renamed and deleted at the same time, a deletion that
commits takes the live subtree of its target along, and nothing else: each object
once, below before above, with its content in the queue.

## Results

* `deleted_subtree` — what a committed deletion did to the objects, and what it said
  about them in the feed (`SubtreeDeleted`).
-/

namespace AnyStore

open ReadCommitted Relation

variable {S : Setting} {w : World} {wal wal₁ : Journal} {c : System} {db db' : Db}

/-- `x` is live and is `id` or lies below it. -/
def Db.Within (db : Db) (id x : ObjectId) : Prop :=
  (db.live x).isSome ∧ ReflTransGen db.LiveChild x id

/-- What a committed deletion did to the objects and said about them. -/
structure SubtreeDeleted (cmd : DeleteObjectCommit) (db db' : Db)
    (records : List (Nat × ChangeRecord)) : Prop where
  target : (db.live cmd.id).isSome ∧ cmd.id ≠ rootId
  deleted : ∀ x o, db.Within cmd.id x → db.live x = some o →
    db'.object x = some (o.tombstone cmd.ctx.now)
  kept : ∀ x, ¬ db.Within cmd.id x → db'.object x = db.object x
  -- one record for each deleted object, under its last revision
  said : ∀ x o, db.Within cmd.id x → db.live x = some o →
    entries x records = [.new x (o.revision + 1) .deleted]
  silent : ∀ x, ¬ db.Within cmd.id x → entries x records = []
  -- what lies below comes first
  ordered : ∀ r ∈ records, ∀ r' ∈ records,
    TransGen db.LiveChild r.2.objectId r'.2.objectId → r.1 < r'.1
  closed : ∀ x o p, db'.live x = some o → o.parentId = some p → (db'.live p).isSome
  queued : ∀ x o b, db.Within cmd.id x → db.live x = some o → o.blob = some b → db'.Queued b

/-! ## The targets -/

/-- A live child is a child. -/
theorem Db.LiveChild.parent {a b : ObjectId} (h : db.LiveChild a b) : db.Parent a b := by
  obtain ⟨o, ho, hb⟩ := h
  exact ⟨o, (Db.live_eq_some.mp ho).1, hb⟩

section

variable {targets : List ObjectId} {id : ObjectId}
  (hclosed : ∀ c o p, db.live c = some o → o.parentId = some p → p ∈ targets → c ∈ targets)
  (hbelow : ∀ x ∈ targets, x = id ∨ ∃ p ∈ targets, db.LiveChild x p)

include hclosed in
/-- What hangs below a target is one. -/
theorem mem_targets_of_within (hself : id ∈ targets) {x : ObjectId}
    (h : ReflTransGen db.LiveChild x id) : x ∈ targets := by
  induction h using ReflTransGen.head_induction_on with
  | refl => exact hself
  | @head a b hab _ ih =>
    obtain ⟨o, ho, hparent⟩ := hab
    exact hclosed a o b ho hparent ih

include hbelow in
/-- Every target is in the subtree. -/
theorem within_of_mem_targets (hinv : TreeInv db) (hlive : (db.live id).isSome) {x : ObjectId}
    (hx : x ∈ targets) : db.Within id x := by
  have hacyclic : Acyclic db.LiveChild := hinv.acyclic.mono fun a b hab => hab.parent
  -- every target but `id` has its parent among the targets
  have hreach := hacyclic.reaches (s := {a | a ∈ targets}) (List.finite_toSet targets) hbelow x hx
  refine ⟨?_, hreach⟩
  rcases hbelow x hx with rfl | ⟨p, _, o, ho, _⟩
  · exact hlive
  · rw [ho]
    rfl

include hclosed hbelow in
/-- The targets of a deletion are the subtree of its object. -/
theorem mem_targets_iff (hinv : TreeInv db) (hlive : (db.live id).isSome) (hself : id ∈ targets)
    (x : ObjectId) : x ∈ targets ↔ db.Within id x := by
  constructor
  · exact within_of_mem_targets hbelow hinv hlive
  · intro h
    exact mem_targets_of_within hclosed hself h.2

end

/-! ## The records -/

/-- The records stand in the order of the targets. -/
theorem tombstones_ordered {targets : List ObjectId} {rows : List (ObjectId × ObjectRow)}
    (hordered : targets.Pairwise fun a b => ¬ db.LiveChild b a) :
    (tombstones targets rows).Pairwise fun p q => ¬ db.LiveChild q.objectId p.objectId := by
  unfold tombstones
  rw [List.pairwise_filterMap]
  refine hordered.imp ?_
  intro a b hab p hp q hq
  obtain ⟨r, _, rfl⟩ := Option.map_eq_some_iff.mp hp
  obtain ⟨r', _, rfl⟩ := Option.map_eq_some_iff.mp hq
  exact hab

/-- Records are numbered in the order in which they are listed. -/
theorem Numbered.pairwise {ctx : MutationContext} {pending : List PendingChange}
    {records : List (Nat × ChangeRecord)} (h : Numbered wal ctx pending records)
    {R : PendingChange → PendingChange → Prop} (hR : pending.Pairwise R) :
    records.Pairwise fun r r' => r.1 < r'.1 ∧ R r.2.pending r'.2.pending := by
  have hentries := h.entries_eq
  obtain ⟨seqs, hlen, rfl, hseqs, hfresh⟩ := h
  -- the numbers are those that were drawn
  have hfst : (List.zipWith (fun p seq => (seq, p.record ctx seq)) pending seqs).map Prod.fst =
      seqs := by
    clear hseqs hfresh hentries hR
    induction pending generalizing seqs with
    | nil =>
      rw [List.length_nil] at hlen
      rw [List.length_eq_zero_iff.mp hlen]
      rfl
    | cons p pending ih =>
      obtain ⟨seq, seqs, rfl⟩ := List.exists_cons_of_length_eq_add_one hlen
      rw [List.zipWith_cons_cons, List.map_cons, ih seqs (by simpa using hlen)]
  have hlt := hseqs
  rw [← hfst, List.pairwise_map] at hlt
  rw [← hentries, List.pairwise_map] at hR
  exact hlt.and hR

/-- A child is reported before its parent. -/
theorem child_before {records : List (Nat × ChangeRecord)} (hinv : TreeInv db)
    (hordered : records.Pairwise fun r r' =>
      r.1 < r'.1 ∧ ¬ db.LiveChild r'.2.pending.objectId r.2.pending.objectId)
    {r r' : Nat × ChangeRecord} (hr : r ∈ records) (hr' : r' ∈ records)
    (hchild : db.LiveChild r.2.objectId r'.2.objectId) : r.1 < r'.1 := by
  obtain ⟨i, hi, rfl⟩ := List.getElem_of_mem hr
  obtain ⟨j, hj, rfl⟩ := List.getElem_of_mem hr'
  rw [List.pairwise_iff_getElem] at hordered
  rcases Nat.lt_trichotomy i j with hij | rfl | hij
  · exact (hordered i j hi hj hij).1
  · -- nothing is its own child
    exact absurd (TransGen.single hchild.parent) (hinv.acyclic _)
  · exact absurd hchild (hordered j i hj hi hij).2

/-- Every target has a record. -/
theorem exists_record {cmd : DeleteObjectCommit} {targets : List ObjectId}
    {rows : List (ObjectId × ObjectRow)} {records : List (Nat × ChangeRecord)}
    (hrows : ∀ id o', (id, o') ∈ rows ↔
      id ∈ targets ∧ ∃ o, db.live id = some o ∧ o' = o.tombstone cmd.ctx.now)
    (hnodup : targets.Nodup) (hrecords : Numbered wal cmd.ctx (tombstones targets rows) records)
    {x : ObjectId} {o : ObjectRow} (hx : x ∈ targets) (ho : db.live x = some o) :
    entries x records = [.new x (o.revision + 1) .deleted] := by
  have hfind := find_tombstone hrows hx
  rw [ho] at hfind
  obtain ⟨r, hr, hrow⟩ := Option.map_eq_some_iff.mp hfind
  unfold entries
  rw [hrecords.entries_eq, entries_tombstones hnodup, if_pos hx, hr, Option.map_some,
    Option.toList_some, hrow]
  rfl

/-- An entry for an object is a record about it. -/
theorem mem_entries {x : ObjectId} {records : List (Nat × ChangeRecord)} {p : PendingChange}
    (h : p ∈ entries x records) : ∃ r ∈ records, r.2.objectId = x := by
  unfold entries at h
  obtain ⟨hp, hx⟩ := List.mem_filter.mp h
  obtain ⟨r, hr, rfl⟩ := List.mem_map.mp hp
  exact ⟨r, hr, of_decide_eq_true hx⟩

/-! ## Deletions -/

/-- **Deletion.** One clause after the other, by what the transaction has written. -/
theorem Serial.subtreeDeleted (h : Serial S w wal) {cmd : DeleteObjectCommit} {ws : List Write}
    (hp : wal₁ ++ [(.deleteObject cmd, ws)] <+: wal) :
    SubtreeDeleted cmd (S.rows wal₁) (S.rows (wal₁ ++ [(.deleteObject cmd, ws)])) (feedOf ws) := by
  have hcommit := h.commits hp
  have hinv := (h.of_prefix ((List.prefix_append _ _).trans hp)).treeInv
  have hinv' := (h.of_prefix hp).treeInv
  rw [Setting.rows_snoc] at hinv' ⊢
  generalize hlabel : Label.deleteObject cmd = label at hcommit
  cases hcommit with
  | @deleteObject cmd' current targets rows records fin hlive hmatch hself hroot hnodup hclosed
      hbelow hordered hrows hdistinct hrecords hfin =>
    obtain rfl := Label.deleteObject.inj hlabel
    have hsome : ((S.rows wal₁).live cmd.id).isSome := by
      rw [hlive]
      rfl
    have hmem := mem_targets_iff hclosed hbelow hinv hsome hself
    have hrest : ∀ x, written (enqueues (rows.filterMap fun r => r.2.blob) cmd.ctx.now ++
        (changeWrites records ++ fin)) (.object x) = none := by
      intro x
      rw [written_append, written_rest hfin.onTable (by simp) (by simp),
        (onTable_enqueues _ _).written (by simp)]
      rfl
    have hwrites := objectWrites_deleted hrows hdistinct hrest
    have hobj : ∀ x, Db.object (replay (rows.map (fun r => (⟨.object r.1, some r.2⟩ : Write)) ++
        (enqueues (rows.filterMap fun r => r.2.blob) cmd.ctx.now ++ (changeWrites records ++ fin)))
        (S.rows wal₁)) x = (if x ∈ targets then
          ((S.rows wal₁).live x).map fun o => some (o.tombstone cmd.ctx.now) else none).getD
            ((S.rows wal₁).object x) := by
      intro x
      rw [object_replay, ← congrFun hwrites x]
      rfl
    have hfeed : feedOf (rows.map (fun r => (⟨.object r.1, some r.2⟩ : Write)) ++
        (enqueues (rows.filterMap fun r => r.2.blob) cmd.ctx.now ++
          (changeWrites records ++ fin))) = records := by
      rw [feedOf_append, feedOf_append, feedOf_rest hfin.onTable,
        (onTable_enqueues _ _).feedOf (by decide), (onTable_objects _ _ _).feedOf (by decide)]
      rfl
    have hsilent : ∀ x, ¬ (S.rows wal₁).Within cmd.id x → entries x records = [] := by
      intro x hx
      unfold entries
      rw [hrecords.entries_eq, entries_tombstones hnodup, if_neg fun ht => hx ((hmem x).mp ht)]
    rw [List.append_eq] at hinv' ⊢
    rw [hfeed]
    refine ⟨⟨hsome, fun he => hroot (he ▸ hself)⟩, ?_, ?_, ?_, hsilent, ?_, ?_, ?_⟩
    · intro x o hx ho
      rw [hobj, if_pos ((hmem x).mpr hx), ho]
      rfl
    · intro x hx
      rw [hobj, if_neg fun ht => hx ((hmem x).mp ht)]
      rfl
    · intro x o hx ho
      exact exists_record hrows hnodup hrecords ((hmem x).mpr hx) ho
    · -- along the path from the lower to the upper object, every object has its record
      have hpairwise := hrecords.pairwise (tombstones_ordered hordered)
      have hwithin : ∀ r ∈ records, (S.rows wal₁).Within cmd.id r.2.objectId := by
        intro r hr
        by_contra hx
        have hnil := hsilent _ hx
        have hin : r.2.pending ∈ entries r.2.objectId records :=
          List.mem_filter.mpr ⟨List.mem_map_of_mem hr, decide_eq_true rfl⟩
        rw [hnil] at hin
        cases hin
      intro r hr r' hr' hpath
      generalize hx : r.2.objectId = x at hpath
      induction hpath using TransGen.head_induction_on generalizing r with
      | single hchild => exact child_before hinv hpairwise hr hr' (hx ▸ hchild)
      | @head a b hab hpath ih =>
        obtain ⟨o, ho⟩ : ∃ o, (S.rows wal₁).live b = some o := by
          rcases TransGen.head'_iff.mp hpath with ⟨_, ⟨o, ho, _⟩, _⟩
          exact ⟨o, ho⟩
        have hb : (S.rows wal₁).Within cmd.id b :=
          ⟨by rw [ho]; rfl, hpath.to_reflTransGen.trans (hwithin r' hr').2⟩
        have hentry := exists_record hrows hnodup hrecords ((hmem b).mpr hb) ho
        obtain ⟨m, hm, hmb⟩ := mem_entries (hentry ▸ List.mem_singleton_self _)
        have hlt := child_before hinv hpairwise hr hm (by rw [hx, hmb]; exact hab)
        have hlt' := ih m hm hmb
        omega
    · intro x o p ho hparent
      obtain ⟨q, hq, _⟩ := hinv'.live x o p ho hparent
      rw [hq]
      rfl
    · intro x o b hx ho hb
      have hrow : (x, o.tombstone cmd.ctx.now) ∈ rows :=
        (hrows x _).mpr ⟨(hmem x).mpr hx, o, ho, rfl⟩
      have hmem : b ∈ rows.filterMap fun r => r.2.blob := List.mem_filterMap.mpr ⟨_, hrow, hb⟩
      rw [queued_replay, written_append, written_append, written_enqueues, if_pos hmem,
        written_rest hfin.onTable (by simp) (by simp), (onTable_objects _ _ _).written (by simp)]
      rfl
  | @steal req label createdAt r hsteal =>
    subst hlabel
    rcases hsteal with hsteal | hsteal <;> cases hsteal
  | _ => cases hlabel

/-- A deletion that commits takes the live subtree of its target along, at any
point of any run. -/
theorem deleted_subtree (h : S.Runs c) {cmd : DeleteObjectCommit} {ws : List Write}
    (hp : wal₁ ++ [(.deleteObject cmd, ws)] <+: c.state.wal) :
    SubtreeDeleted cmd (S.rows wal₁) (S.rows (wal₁ ++ [(.deleteObject cmd, ws)])) (feedOf ws) :=
  h.storeInv.serial.subtreeDeleted hp

/-! ## A file in a folder -/

/-- An object in a folder. -/
def sampleNested (id parentId name : String) (now : Time) (kind : ObjectKind := .folder) :
    Request :=
  .mutate (sampleContext none now) (.create {
    id, parentId, name, kind
    contentType := none
    metadata := .obj .nil
    ctx := sampleMutation now })

/-- A file in a folder gets content, and the folder is deleted. -/
def filledDelete : List (Move Request (Choice Row Env)) :=
  alone 0 (sampleNested "a" rootId "A" 1) 9 {} ++
    alone 1 (sampleNested "f" "a" "F" 2 .file) 9 {} ++
    alone 2 (sampleUpload none "f" 3 3) 9 uploading ++
    alone 3 (sampleComplete "upload_u" 4) 17 uploading ++
    alone 4 (sampleDelete "a" none true 5) 11 {}

/-- The object that is deleted. -/
def Label.deletes : Label → Option ObjectId
  | .deleteObject cmd => some cmd.id
  | _ => none

/-- A folder with a file that has content: the file goes first, and its blob is queued. -/
theorem deleted_subtree_filled : ∃ c wal₁ cmd ws, (Setting.free (sampleApp .sqlx) 0).Runs c ∧
    wal₁ ++ [(.deleteObject cmd, ws)] <+: c.state.wal ∧ cmd.id = "a" ∧
    (feedOf ws).map (fun r => r.2.objectId) = ["f", "a"] ∧
    (Db.gc c.state.db "tencent-cos" "blobs/upload_u").isSome ∧
    SubtreeDeleted cmd ((Setting.free (sampleApp .sqlx) 0).rows wal₁)
      ((Setting.free (sampleApp .sqlx) 0).rows (wal₁ ++ [(.deleteObject cmd, ws)])) (feedOf ws) := by
  obtain ⟨c, hc, hend⟩ := Setting.free_runs (sampleApp .sqlx) 0 filledDelete
    (fun c => ((c.state.wal.drop 6).map fun e =>
      (e.1.deletes, (feedOf e.2).map fun r => r.2.objectId),
        (Db.gc c.state.db "tencent-cos" "blobs/upload_u").isSome))
    (a := ([(some "a", ["f", "a"])], true)) (by decide +kernel)
  obtain ⟨hwal, hqueued⟩ := Prod.mk.inj hend
  obtain ⟨⟨label, ws⟩, hdrop, hboth⟩ := List.map_eq_singleton_iff.mp hwal
  obtain ⟨hlabel, hsaid⟩ := Prod.mk.inj hboth
  obtain ⟨cmd, rfl, hid⟩ : ∃ cmd, label = .deleteObject cmd ∧ cmd.id = "a" := by
    unfold Label.deletes at hlabel
    cases label with
    | deleteObject cmd => exact ⟨cmd, rfl, Option.some.inj hlabel⟩
    | _ => cases hlabel
  have hp : c.state.wal.take 6 ++ [(.deleteObject cmd, ws)] <+: c.state.wal := by
    rw [← hdrop, List.take_append_drop]
  exact ⟨c, _, cmd, ws, hc, hp, hid, hsaid, hqueued, deleted_subtree hc hp⟩

end AnyStore
