import AnyStore.Spec.Metadata
import AnyStore.Spec.Tree

/-!
# The history of an object

What one commit does to one object and what it says about it in the feed
(`RowStep`), and what the feed therefore says of an object over its whole life
(`History`).
-/

namespace AnyStore

open ReadCommitted

variable {S : Setting} {w : World} {wal wal' : Journal} {db db' : Db} {id : ObjectId}

/-- What a record says about its object. -/
def ChangeRecord.pending (r : ChangeRecord) : PendingChange where
  objectId := r.objectId
  revision := r.revision
  action := r.action
  tombstone := r.tombstone

def entries (id : ObjectId) (records : List (Nat × ChangeRecord)) : List PendingChange :=
  (records.map fun r => r.2.pending).filter fun p => p.objectId = id

theorem entries_append (id : ObjectId) (l l' : List (Nat × ChangeRecord)) :
    entries id (l ++ l') = entries id l ++ entries id l' := by
  rw [entries, List.map_append, List.filter_append]
  rfl

theorem Numbered.entries_eq {ctx : MutationContext} {pending : List PendingChange}
    {records : List (Nat × ChangeRecord)} (h : Numbered wal ctx pending records) :
    records.map (fun r => r.2.pending) = pending := by
  obtain ⟨seqs, hlen, rfl, -⟩ := h
  induction pending generalizing seqs with
  | nil => rfl
  | cons p pending ih =>
    cases seqs with
    | nil => cases hlen
    | cons seq seqs =>
      rw [List.zipWith_cons_cons, List.map_cons, ih seqs (by simpa using hlen)]
      rfl

/-! ## Steps -/

/-- What a commit does to an object, with what it says about it. -/
inductive RowStep (id : ObjectId) :
    Option ObjectRow → Option ObjectRow → List PendingChange → Prop
  | same (o) : RowStep id o o []
  | created {o : ObjectRow} (hrevision : o.revision = Revision.initial)
      (hlive : o.deletedAt = none) :
      RowStep id none (some o) [.new id Revision.initial .created]
  | updated {o o' : ObjectRow} {actions : List ChangeAction} (hlive : o.deletedAt = none)
      (hlive' : o'.deletedAt = none) (hrevision : o'.revision = o.revision + 1)
      (hne : actions ≠ []) (hactions : ∀ a ∈ actions, a ≠ .created ∧ a ≠ .deleted) :
      RowStep id (some o) (some o') (actions.map (PendingChange.new id o'.revision))
  | deleted {o o' : ObjectRow} (hlive : o.deletedAt = none) (hgone : o'.deletedAt.isSome)
      (hrevision : o'.revision = o.revision + 1) :
      RowStep id (some o) (some o') [.new id o'.revision .deleted]

namespace PatchTarget

variable (target : PatchTarget) (a : Adapter) (current : ObjectRow)

/-- The kinds of Changes of a patch: what really changed. -/
def actions : List ChangeAction :=
  (if target.nameChanged current then [.renamed] else []) ++
    (if target.parentChanged current then [.moved] else []) ++
    (if target.metadataChanged a current then [.metadataUpdated] else [])

/-- They are listed in the order of emission already. -/
theorem pending_eq (id : ObjectId) (revision : Revision) :
    target.pending a current id revision =
      (target.actions a current).map (PendingChange.new id revision) := by
  rw [pending, actions]
  cases target.nameChanged current <;> cases target.parentChanged current <;>
    cases target.metadataChanged a current <;> rfl

theorem actions_ne_nil {target : PatchTarget} {a : Adapter} {current : ObjectRow}
    (h : target.unchanged a current = false) : target.actions a current ≠ [] := by
  rw [unchanged] at h
  rw [actions]
  cases hn : target.nameChanged current <;> cases hp : target.parentChanged current <;>
    cases hm : target.metadataChanged a current <;> simp [hn, hp, hm] at h ⊢

theorem pending_ne_nil {target : PatchTarget} {a : Adapter} {current : ObjectRow} {id : ObjectId}
    {revision : Revision} (h : target.unchanged a current = false) :
    target.pending a current id revision ≠ [] := by
  rw [pending_eq]
  intro hnil
  exact actions_ne_nil h (List.map_eq_nil_iff.mp hnil)

theorem mem_actions {action : ChangeAction} (h : action ∈ target.actions a current) :
    action ≠ .created ∧ action ≠ .deleted := by
  rw [actions] at h
  cases target.nameChanged current <;> cases target.parentChanged current <;>
    cases target.metadataChanged a current <;> simp at h <;> grind

end PatchTarget

theorem filter_new_self (id : ObjectId) (revision : Revision) (actions : List ChangeAction) :
    (actions.map (PendingChange.new id revision)).filter (fun p => p.objectId = id) =
      actions.map (PendingChange.new id revision) := by
  refine List.filter_eq_self.mpr fun p hp => ?_
  obtain ⟨action, _, rfl⟩ := List.mem_map.mp hp
  exact decide_eq_true rfl

theorem filter_new_ne {x : ObjectId} (hx : x ≠ id) (revision : Revision)
    (actions : List ChangeAction) :
    (actions.map (PendingChange.new x revision)).filter (fun p => p.objectId = id) = [] := by
  refine List.filter_eq_nil_iff.mpr fun p hp => ?_
  obtain ⟨action, _, rfl⟩ := List.mem_map.mp hp
  exact fun h => hx (of_decide_eq_true h)

/-- One tombstone for each deleted object. -/
theorem entries_tombstones {targets : List ObjectId} {rows : List (ObjectId × ObjectRow)}
    (hnodup : targets.Nodup) (id : ObjectId) :
    (tombstones targets rows).filter (fun p => p.objectId = id) =
      if id ∈ targets then
        ((rows.find? fun r => r.1 = id).map fun r => PendingChange.new id r.2.revision .deleted).toList
      else [] := by
  induction targets with
  | nil => rfl
  | cons x targets ih =>
    obtain ⟨hx, hnodup⟩ := List.nodup_cons.mp hnodup
    have hcons : tombstones (x :: targets) rows =
        ((rows.find? fun r => r.1 = x).map fun r =>
          PendingChange.new x r.2.revision .deleted).toList ++ tombstones targets rows := by
      rw [tombstones, List.filterMap_cons]
      cases rows.find? fun r => r.1 = x <;> rfl
    rw [hcons, List.filter_append, ih hnodup]
    by_cases hid : x = id
    · subst hid
      rw [if_neg hx, if_pos (List.mem_cons_self ..), List.append_nil]
      cases rows.find? fun r => r.1 = x with
      | none => rfl
      | some r => exact filter_new_self x r.2.revision [.deleted]
    · have hmem : id ∈ x :: targets ↔ id ∈ targets := by
        rw [List.mem_cons]
        exact or_iff_right (Ne.symm hid)
      simp only [hmem]
      cases rows.find? fun r => r.1 = x with
      | none => rfl
      | some r =>
        have hnil := filter_new_ne hid r.2.revision [.deleted]
        rw [Option.map_some, Option.toList_some]
        rw [List.map_singleton] at hnil
        rw [hnil, List.nil_append]

/-- The row that a deletion leaves. -/
theorem find_tombstone {targets : List ObjectId} {rows : List (ObjectId × ObjectRow)} {now : Time}
    (hrows : ∀ id o', (id, o') ∈ rows ↔
      id ∈ targets ∧ ∃ o, db.live id = some o ∧ o' = o.tombstone now)
    (hid : id ∈ targets) :
    (rows.find? fun r => r.1 = id).map Prod.snd = (db.live id).map (·.tombstone now) := by
  cases hfind : rows.find? fun r => r.1 = id with
  | none =>
    cases ho : db.live id with
    | none => rfl
    | some o =>
      have hnot := List.find?_eq_none.mp hfind _ ((hrows id _).mpr ⟨hid, o, ho, rfl⟩)
      exact absurd (decide_eq_true rfl) hnot
  | some r =>
    obtain ⟨x, o'⟩ := r
    have hx := List.find?_some hfind
    obtain rfl : x = id := of_decide_eq_true hx
    obtain ⟨_, o, ho, rfl⟩ := (hrows x o').mp (List.mem_of_find?_eq_some hfind)
    rw [ho]
    rfl

/-- **Step.** -/
theorem ObjectStep.rowStep {f : ObjectId → Option (Option ObjectRow)}
    {records : List (Nat × ChangeRecord)} (h : ObjectStep S wal db f records)
    (hobj : ∀ x, db'.object x = (f x).getD (db.object x)) (id : ObjectId) :
    RowStep id (db.object id) (db'.object id) (entries id records) := by
  have hsingle : ∀ {x : ObjectId} {o : ObjectRow} (actions : List ChangeAction),
      f = single x o →
      records.map (fun r => r.2.pending) = actions.map (PendingChange.new x o.revision) →
      (x = id → RowStep id (db.object id) (some o)
        (actions.map (PendingChange.new id o.revision))) →
      RowStep id (db.object id) (db'.object id) (entries id records) := by
    intro x o actions hf hrecords hstep
    rw [entries, hrecords, hobj, hf, single]
    by_cases hx : x = id
    · subst hx
      rw [if_pos rfl, filter_new_self]
      exact hstep rfl
    · rw [if_neg (Ne.symm hx), filter_new_ne hx]
      exact .same _
  cases h with
  | quiet =>
    rw [hobj]
    exact .same _
  | created cmd hfresh hparent hfolder hrecords =>
    refine hsingle [.created] rfl hrecords.entries_eq fun hid => ?_
    subst hid
    rw [hfresh]
    exact .created rfl rfl
  | patched cmd hlive hheld hroot htarget hchanged hdestination hwalk hrecords =>
    refine hsingle _ rfl (hrecords.entries_eq.trans (PatchTarget.pending_eq ..)) fun hid => ?_
    subst hid
    obtain ⟨ho, hnone⟩ := Db.live_eq_some.mp hlive
    rw [ho]
    exact .updated hnone hnone rfl (PatchTarget.actions_ne_nil hchanged)
      fun a ha => PatchTarget.mem_actions _ _ _ ha
  | @content cmd current records hlive hfile hrecords =>
    refine hsingle [contentAction current] rfl hrecords.entries_eq fun hid => ?_
    subst hid
    obtain ⟨ho, hnone⟩ := Db.live_eq_some.mp hlive
    rw [ho]
    refine .updated hnone hnone rfl (List.cons_ne_nil _ _) fun a ha => ?_
    rw [List.mem_singleton] at ha
    rw [ha, contentAction]
    split <;> decide
  | @deleted ctx targets rows records hroot hnodup hclosed hrows hdistinct hrecords =>
    rw [entries, hrecords.entries_eq, entries_tombstones hnodup, hobj]
    split
    · next hid =>
      have hfind := find_tombstone hrows hid
      simp only [if_pos hid]
      cases ho : db.live id with
      | none =>
        rw [ho] at hfind
        rw [Option.map_eq_none_iff.mp hfind]
        exact .same _
      | some o =>
        rw [ho] at hfind
        obtain ⟨r, hr, hrow⟩ := Option.map_eq_some_iff.mp hfind
        obtain ⟨hobject, hnone⟩ := Db.live_eq_some.mp ho
        rw [hr, hobject]
        show RowStep id (some o) (some (o.tombstone ctx.now)) [.new id r.2.revision .deleted]
        rw [hrow]
        exact .deleted hnone rfl rfl
    · next hid =>
      simp only [if_neg hid]
      exact .same _

/-! ## Runs -/

/-- What the feed says of an object that has this row: it was created at the
first revision, every revision since has its records, and it ends with the
deletion, if the object was deleted. -/
structure History (o : ObjectRow) (l : List PendingChange) : Prop where
  created : ∃ first rest, l = first :: rest ∧ first.action = .created ∧
    first.revision = Revision.initial ∧ ∀ p ∈ rest, p.action ≠ .created
  steps : l.IsChain fun p q => p.revision ≤ q.revision ∧ q.revision ≤ p.revision + 1
  current : ∃ last ∈ l.getLast?, last.revision = o.revision
  tombstone : ∀ p ∈ l, p.tombstone = true ↔ p.action = .deleted
  deleted : o.deletedAt.isSome → ∃ front last, l = front ++ [last] ∧ last.action = .deleted ∧
    ∀ p ∈ front, p.action ≠ .deleted
  live : o.deletedAt = none → ∀ p ∈ l, p.action ≠ .deleted

def Histories (o : Option ObjectRow) (l : List PendingChange) : Prop :=
  match o with
  | none => l = []
  | some o => History o l

/-- Records at the revision after the last. -/
theorem History.isChain_append {o : ObjectRow} {l : List PendingChange} (h : History o l)
    (actions : List ChangeAction) :
    (l ++ actions.map (PendingChange.new id (o.revision + 1))).IsChain
      fun p q => p.revision ≤ q.revision ∧ q.revision ≤ p.revision + 1 := by
  refine List.isChain_append.mpr ⟨h.steps, ?_, fun p hp q hq => ?_⟩
  · -- the new records share one revision
    refine (List.pairwise_map.mpr (List.pairwise_of_forall fun a b => ?_)).isChain
    exact ⟨le_rfl, Nat.le_succ _⟩
  · obtain ⟨last, hlast, hrevision⟩ := h.current
    obtain rfl : p = last := Option.some.inj (hp.symm.trans hlast)
    rw [List.head?_map] at hq
    obtain ⟨action, _, rfl⟩ := Option.map_eq_some_iff.mp hq
    show p.revision ≤ o.revision + 1 ∧ o.revision + 1 ≤ p.revision + 1
    rw [hrevision]
    exact ⟨Nat.le_succ _, le_rfl⟩

theorem History.created_append {o : ObjectRow} {l : List PendingChange} (h : History o l)
    {revision : Revision} {actions : List ChangeAction} (hactions : ∀ a ∈ actions, a ≠ .created) :
    ∃ first rest, l ++ actions.map (PendingChange.new id revision) = first :: rest ∧
      first.action = .created ∧ first.revision = Revision.initial ∧
      ∀ p ∈ rest, p.action ≠ .created := by
  obtain ⟨first, rest, rfl, hcreated, hinitial, hrest⟩ := h.created
  refine ⟨first, rest ++ actions.map (PendingChange.new id revision), rfl, hcreated, hinitial,
    List.forall_mem_append.mpr ⟨hrest, fun p hp => ?_⟩⟩
  obtain ⟨a, ha, rfl⟩ := List.mem_map.mp hp
  exact hactions a ha

theorem History.tombstone_append {o : ObjectRow} {l : List PendingChange} (h : History o l)
    (revision : Revision) (actions : List ChangeAction) :
    ∀ p ∈ l ++ actions.map (PendingChange.new id revision),
      p.tombstone = true ↔ p.action = .deleted := by
  refine List.forall_mem_append.mpr ⟨h.tombstone, fun p hp => ?_⟩
  obtain ⟨a, _, rfl⟩ := List.mem_map.mp hp
  exact decide_eq_true_iff

theorem RowStep.history {o o' : Option ObjectRow} {l new : List PendingChange}
    (hs : RowStep id o o' new) (h : Histories o l) : Histories o' (l ++ new) := by
  cases hs with
  | same =>
    rw [List.append_nil]
    exact h
  | @created o hrevision hlive =>
    obtain rfl : l = [] := h
    show History o [.new id Revision.initial .created]
    refine ⟨⟨_, [], rfl, rfl, rfl, fun p hp => absurd hp List.not_mem_nil⟩,
      List.isChain_singleton _, ⟨_, rfl, hrevision.symm⟩, ?_, fun hgone => ?_, fun _ => ?_⟩
    · refine List.forall_mem_singleton.mpr ?_
      show decide (ChangeAction.created = .deleted) = true ↔ ChangeAction.created = .deleted
      decide
    · rw [hlive] at hgone
      cases hgone
    · refine List.forall_mem_singleton.mpr ?_
      show ChangeAction.created ≠ .deleted
      decide
  | @updated o o' actions hlive hlive' hrevision hne hactions =>
    have h : History o l := h
    rw [hrevision]
    refine ⟨h.created_append fun a ha => (hactions a ha).1, h.isChain_append actions, ?_,
      h.tombstone_append _ _, fun hgone => ?_, fun _ => ?_⟩
    · -- there is at least one new record
      rw [List.getLast?_append_of_ne_nil _ (by simpa using hne), List.getLast?_map,
        List.getLast?_eq_some_getLast hne]
      exact ⟨_, rfl, hrevision.symm⟩
    · rw [hlive'] at hgone
      cases hgone
    · refine List.forall_mem_append.mpr ⟨h.live hlive, fun p hp => ?_⟩
      obtain ⟨a, ha, rfl⟩ := List.mem_map.mp hp
      exact (hactions a ha).2
  | @deleted o o' hlive hgone hrevision =>
    have h : History o l := h
    rw [hrevision]
    refine ⟨@History.created_append id o l h _ [.deleted] fun a ha => ?_,
      h.isChain_append [.deleted], ?_, h.tombstone_append (o.revision + 1) [.deleted],
      fun _ => ⟨l, _, rfl, rfl, h.live hlive⟩, fun hnone => ?_⟩
    · rw [List.mem_singleton.mp ha]
      decide
    · rw [List.getLast?_append_of_ne_nil _ (List.cons_ne_nil _ _)]
      exact ⟨_, rfl, hrevision.symm⟩
    · rw [hnone] at hgone
      cases hgone

/-- A committed write set and the rows it was committed on. -/
theorem Serial.commits (h : Serial S w wal') {e : Label × List Write} (hp : wal ++ [e] <+: wal') :
    Commits S w wal (S.rows wal) e.1 e.2 := by
  have hserial := h.of_prefix hp
  generalize hwal : wal ++ [e] = wal₁ at hserial
  cases hserial with
  | nil => exact absurd hwal (by simp)
  | @snoc wal₂ label ws h₂ hc =>
    obtain ⟨rfl, he⟩ := List.append_inj' hwal rfl
    obtain rfl := List.singleton_inj.mp he
    exact hc

theorem Serial.rowStep (h : Serial S w wal') {e : Label × List Write}
    (hp : wal ++ [e] <+: wal') (id : ObjectId) :
    RowStep id ((S.rows wal).object id) ((S.rows (wal ++ [e])).object id)
      (entries id (feedOf e.2)) := by
  refine (h.commits hp).objectStep.rowStep (fun x => ?_) id
  rw [Setting.rows_snoc]
  exact object_replay _ _ x

/-- **Run.** The feed tells the history of every object but the root. -/
theorem Serial.histories (h : Serial S w wal) (hid : id ≠ rootId) :
    Histories ((S.rows wal).object id) (entries id (feed wal)) := by
  induction h with
  | nil =>
    have hnone : (S.rows []).object id = none := (object_initialDb _ id).trans (if_neg hid)
    rw [hnone]
    rfl
  | @snoc wal label ws hserial hc ih =>
    rw [feed_snoc, entries_append]
    exact ((Serial.snoc hserial hc).rowStep List.prefix_rfl id).history ih

/-! ## Written documents -/

/-- The documents are as a column holds them. -/
def Db.Written (db : Db) : Prop := ∀ id o, db.object id = some o → o.metadata.written = o.metadata

theorem ObjectStep.documentsWritten {f : ObjectId → Option (Option ObjectRow)}
    {records : List (Nat × ChangeRecord)} (h : ObjectStep S wal db f records) (hdb : db.Written)
    (hobj : ∀ x, db'.object x = (f x).getD (db.object x)) : db'.Written := by
  -- one row is written, with a document that has been written
  have hone : ∀ {id : ObjectId} {row : ObjectRow}, f = single id row →
      row.metadata.written = row.metadata → db'.Written := by
    intro id row hf hrow x o ho
    rw [object_single (hf ▸ hobj)] at ho
    by_cases hx : x = id
    · rw [if_pos hx, Option.some.injEq] at ho
      exact ho ▸ hrow
    · rw [if_neg hx] at ho
      exact hdb x o ho
  cases h with
  | quiet =>
    intro x o ho
    rw [hobj] at ho
    exact hdb x o ho
  | created cmd => exact hone rfl (Json.written_written _)
  | patched cmd => exact hone rfl (Json.written_written _)
  | @content cmd current _ hlive =>
    exact hone rfl (hdb cmd.objectId current (Db.live_eq_some.mp hlive).1)
  | @deleted ctx targets rows records =>
    intro x o ho
    rw [hobj] at ho
    dsimp only at ho
    by_cases hx : x ∈ targets
    · rw [if_pos hx] at ho
      cases hlive : db.live x with
      | none =>
        rw [hlive] at ho
        exact hdb x o ho
      | some old =>
        rw [hlive] at ho
        obtain rfl := Option.some.inj ho
        exact hdb x old (Db.live_eq_some.mp hlive).1
    · rw [if_neg hx] at ho
      exact hdb x o ho

/-- **Run.** -/
theorem Serial.documentsWritten (h : Serial S w wal) : (S.rows wal).Written := by
  induction h with
  | nil =>
    intro id o ho
    rw [Setting.rows_nil, object_initialDb] at ho
    by_cases hid : id = rootId
    · rw [if_pos hid, Option.some.injEq] at ho
      exact ho ▸ rfl
    · rw [if_neg hid] at ho
      cases ho
  | snoc _ hc ih =>
    rw [Setting.rows_snoc]
    exact hc.objectStep.documentsWritten ih fun x => object_replay _ _ x

/-! ## Conditional commands -/

/-- The object that a command acts on and the revision that it expects. -/
def Label.subject : Label → Option (ObjectId × Option Revision)
  | .patchObject cmd => some (cmd.id, cmd.ifMatch)
  | .deleteObject cmd => some (cmd.id, cmd.ifMatch)
  | .commitContent cmd => some (cmd.objectId, cmd.ifMatch)
  | _ => none

/-- Beyond the idempotency record of the attempt, the write set has an effect. -/
def Effects (ws : List Write) : Prop := ∃ w ∈ ws, w.1.table ≠ .idempotency

/-- A command commits on the revision that it expects, and an effect on its
object moves the revision on. -/
theorem Commits.subject {label : Label} {ws : List Write} (h : Commits S w wal db label ws)
    {ifMatch : Option Revision} (hsubject : label.subject = some (id, ifMatch)) :
    ∃ o, db.live id = some o ∧ (∀ expected ∈ ifMatch, expected = o.revision) ∧
      (Effects ws → ∃ o', Db.object (replay ws db) id = some o' ∧ o'.revision = o.revision + 1) := by
  have hquiet : ∀ {fin : List Write}, OnTable .idempotency fin → ¬ Effects fin := by
    rintro fin hfin ⟨w, hw, hne⟩
    exact hne (hfin w hw)
  have hobject := object_replay ws db id
  cases h with
  | @patchObject cmd current held target records fin hlive _ hmatch _ _ _ _ _ _ hfin =>
    cases hsubject
    refine ⟨current, hlive, hmatch, fun _ => ⟨target.row cmd.ctx.now current, ?_, rfl⟩⟩
    rw [hobject, written_cons_self, written_rest hfin.onTable (by simp) (by simp)]
    rfl
  | @unpatched cmd current fin hlive hmatch hfin =>
    cases hsubject
    exact ⟨current, hlive, hmatch, fun h => absurd h (hquiet hfin.onTable)⟩
  | @deleteObject cmd current targets rows records fin hlive hmatch hself _ _ _ _ _ hrows hdistinct
      _ hfin =>
    cases hsubject
    refine ⟨current, hlive, hmatch, fun _ => ⟨current.tombstone cmd.ctx.now, ?_, rfl⟩⟩
    have hrest : ∀ x, written (enqueues (rows.filterMap fun r => r.2.blob) cmd.ctx.now ++
        (changeWrites records ++ fin)) (.object x) = none := fun x => by
      rw [written_append, written_rest hfin.onTable (by simp) (by simp),
        (onTable_enqueues _ _).written (by simp)]
      rfl
    have hwritten := congrFun (objectWrites_deleted hrows hdistinct hrest) cmd.id
    rw [if_pos hself, hlive, objectWrites] at hwritten
    rw [hobject, hwritten]
    rfl
  | @commitContent cmd upload current records fin _ _ _ _ hlive _ hmatch _ hfin =>
    cases hsubject
    refine ⟨current, hlive, hmatch, fun _ => ⟨cmd.row current, ?_, rfl⟩⟩
    rw [hobject, written_cons_self, written_append, (onTable_enqueues _ _).written (by simp),
      written_cons_ne (by simp), written_rest hfin.onTable (by simp) (by simp)]
    rfl
  | @uncommitted cmd upload current fin _ _ _ _ hlive _ hmatch hfin =>
    cases hsubject
    exact ⟨current, hlive, hmatch, fun h => absurd h (hquiet hfin.onTable)⟩
  | steal req hlabel =>
    rcases hlabel with rfl | rfl <;> cases hsubject
  | _ => cases hsubject

theorem RowStep.revision_le {o : ObjectRow} {o' : Option ObjectRow} {l : List PendingChange}
    (h : RowStep id (some o) o' l) : ∃ o₂, o' = some o₂ ∧ o.revision ≤ o₂.revision := by
  cases h with
  | same => exact ⟨o, rfl, le_rfl⟩
  | updated _ _ hrevision => exact ⟨_, rfl, hrevision ▸ Nat.le_succ _⟩
  | deleted _ _ hrevision => exact ⟨_, rfl, hrevision ▸ Nat.le_succ _⟩

/-- **Run.** Revisions do not go back. -/
theorem Serial.revision_le (h : Serial S w wal') (hp : wal <+: wal') {o : ObjectRow}
    (ho : (S.rows wal).object id = some o) :
    ∃ o', (S.rows wal').object id = some o' ∧ o.revision ≤ o'.revision := by
  induction h with
  | nil => exact ⟨o, List.prefix_nil.mp hp ▸ ho, le_rfl⟩
  | @snoc wal₁ label ws hserial hc ih =>
    rcases List.prefix_concat_iff.mp hp with rfl | hp
    · exact ⟨o, ho, le_rfl⟩
    · obtain ⟨o₁, ho₁, hle⟩ := ih hp
      have hstep := (Serial.snoc hserial hc).rowStep List.prefix_rfl id
      rw [ho₁] at hstep
      obtain ⟨o₂, ho₂, hle'⟩ := hstep.revision_le
      exact ⟨o₂, ho₂, hle.trans hle'⟩

end AnyStore
