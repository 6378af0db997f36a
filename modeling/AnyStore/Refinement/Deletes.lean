import AnyStore.Refinement.Mutations

/-!
# Deleting objects

A recursive delete walks down and locks what it finds until the walk finds
nothing new. The set is then closed under live children and stays so until the
commit, because nobody can put a child below a locked folder.
-/

namespace AnyStore

open ReadCommitted

variable {S : Setting} {t : Nat} {s s₁ s₂ s₃ : DbState} {sess : Session Row.Val Label}

/-! ## Targets -/

/-- The session has locked a set of live objects that is closed under live
children and does not contain the root. -/
structure Targets (id : ObjectId) (targets : List ObjectId) (sess : Session Row.Val Label)
    (s : DbState) : Prop where
  self : id ∈ targets
  nodup : targets.Nodup
  root : rootId ∉ targets
  locked : ∀ x ∈ targets, (Row.object x, .update) ∈ sess.locks
  live : ∀ x ∈ targets, (Db.live s.db x).isSome
  closed : ∀ c o p, Db.live s.db c = some o → o.parentId = some p → p ∈ targets → c ∈ targets
  below : ∀ x ∈ targets, x = id ∨ ∃ p ∈ targets, Db.LiveChild s.db x p
  ordered : targets.Pairwise fun a b => ¬ Db.LiveChild s.db b a

/-- What was locked stays a subtree. -/
theorem Targets.onward {id : ObjectId} {targets : List ObjectId} {sess₂ : Session Row.Val Label}
    (h : Targets id targets sess s) (hs : s.session t = some sess) (hon : Onward t s s₂)
    (hs₂ : s₂.session t = some sess₂) : Targets id targets sess₂ s₂ where
  self := h.self
  nodup := h.nodup
  root := h.root
  locked x hx := by
    obtain ⟨sess', hs', hmem⟩ := hon.holds hs (h.locked x hx)
    obtain rfl := Option.some.inj (hs₂.symm.trans hs')
    exact hmem
  live x hx := by
    rw [hon.live hs (h.locked x hx) (by decide)]
    exact h.live x hx
  closed c o p hc hp hpm := by
    -- a child that somebody has added would have needed the lock on its parent
    obtain ⟨o', ho', hp'⟩ := (hon.locks sess hs).1.children p (h.locked p hpm) c o hc hp
    exact h.closed c o' p ho' hp' hpm
  below x hx := by
    rcases h.below x hx with rfl | ⟨p, hp, o, ho, hpar⟩
    · exact .inl rfl
    · exact .inr ⟨p, hp, o, (hon.live hs (h.locked x hx) (by decide)).trans ho, hpar⟩
  ordered := by
    refine h.ordered.imp_of_mem fun {a b} _ hb hnot hchild => hnot ?_
    obtain ⟨o, ho, hpar⟩ := hchild
    exact ⟨o, (hon.live hs (h.locked b hb) (by decide)).symm.trans ho, hpar⟩

/-- The rows that are there are locked. -/
theorem txp_lockObjects {ids : List ObjectId} {P : Unit → DbState → Prop}
    (hs : s.session t = some sess) (hlog : sess.log = [])
    (h : ∀ sess₂ s₂, Reaches S t sess s [] sess₂ s₂ →
      (∀ id ∈ ids, (Db.object s₂.db id).isSome → (Row.object id, .update) ∈ sess₂.locks) →
      P () s₂) : txp (contract S) t (run (lockObjects ids)) P s := by
  refine txp_run hs fun s₂ scan ans hr _ ha => ?_
  obtain rfl := Except.ok.inj ha
  rw [hlog, replay_nil] at hr
  refine h _ s₂ hr fun id hid hobj => ?_
  refine List.mem_append_right _ (List.mem_append_left _ ?_)
  exact List.mem_map.mpr ⟨id, List.mem_filter.mpr ⟨hid, by simpa using hobj⟩, rfl⟩

/-- The walk is repeated until it finds what is locked already. -/
theorem txp_collectAndLock {root : ObjectId} {n : Nat} {previous : Option (List ObjectId)}
    {P : List ObjectId → DbState → Prop} (hs : s.session t = some sess) (hlog : sess.log = [])
    (hlive : (Db.live s.db root).isSome) (hlock : (Row.object root, .update) ∈ sess.locks)
    (hroot : root ≠ rootId)
    (hprevious : ∀ ids, previous = some ids → ∀ x ∈ ids, (Row.object x, .update) ∈ sess.locks)
    (h : ∀ ids sess₂ s₂, Reaches S t sess s [] sess₂ s₂ → Targets root ids sess₂ s₂ → P ids s₂) :
    txp (contract S) t (collectAndLockDescendants root n previous) P s := by
  induction n generalizing s sess previous with
  | zero => exact txp_fail hs
  | succ n ih =>
    refine txp_seq (txp_select hs fun s₂ hr₂ => ?_)
    rw [hlog, replay_nil]
    have hlive₂ : (Db.live s₂.db root).isSome := by
      rw [hr₂.onward.live hs hlock (by decide)]
      exact hlive
    have htree := hr₂.inv.treeInv
    have hsub := htree.subtree hlive₂
    split
    · next hsame =>
      exact h _ sess s₂ hr₂ ⟨hsub.self, hsub.nodup, hsub.root_not_mem htree hroot,
        hprevious _ hsame.symm, hsub.live, hsub.closed, hsub.parented, hsub.ordered⟩
    · refine txp_seq (txp_lockObjects hr₂.session hlog fun sess₃ s₃ hr₃ hlocked => ?_)
      -- what the walk has found exists, so all of it is locked now
      have hall : ∀ x ∈ Db.descendants s₂.db root, (Row.object x, .update) ∈ sess₃.locks := by
        refine fun x hx => hlocked x hx ?_
        have hobj : (Db.object s₂.db x).isSome := by
          obtain ⟨o, ho⟩ := Option.isSome_iff_exists.mp (hsub.live x hx)
          rw [(Db.live_eq_some.mp ho).1]
          rfl
        rw [hr₂.inv.db] at hobj
        rw [hr₃.inv.db]
        exact hr₃.inv.serial.object_isSome hr₃.onward.later.wal hobj
      refine ih hr₃.session (hr₃.log.trans (by rw [hlog]; rfl)) ?_ ?_ (fun ids he x hx => ?_)
        fun ids sess₄ s₄ hr₄ => h ids sess₄ s₄ ((hr₂.trans hr₃).trans hr₄)
      · rw [hr₃.onward.live hr₂.session hlock (by decide)]
        exact hlive₂
      · obtain ⟨sess', hs', hmem⟩ := hr₃.onward.holds hr₂.session hlock
        obtain rfl := Option.some.inj (hr₃.session.symm.trans hs')
        exact hmem
      · obtain rfl := Option.some.inj he
        exact hall x hx

/-- **Targets.** The object alone, or its subtree, locked from the top. -/
theorem txp_deleteTargets {cmd : DeleteObjectCommit} {current : ObjectRow} {a : Adapter}
    {P : List ObjectId → DbState → Prop} (hs : s.session t = some sess) (hi : StoreInv S s)
    (hlog : sess.log = []) (hlive : Db.live s.db cmd.id = some current)
    (hlock : (Row.object cmd.id, .update) ∈ sess.locks) (hroot : cmd.id ≠ rootId)
    (h : ∀ ids sess₂ s₂, Reaches S t sess s [] sess₂ s₂ → Targets cmd.id ids sess₂ s₂ → P ids s₂) :
    txp (contract S) t (deleteTargets a cmd current) P s := by
  -- without live children the object is closed on its own
  have hsingle : ∀ s₂, Reaches S t sess s [] sess s₂ →
      (∀ c o, Db.live s₂.db c = some o → o.parentId ≠ some cmd.id) → P [cmd.id] s₂ := by
    intro s₂ hr hnone
    refine h _ sess s₂ hr ⟨List.mem_singleton_self _, List.nodup_singleton _, ?_, ?_, ?_, ?_,
      List.forall_mem_singleton.mpr (.inl rfl), List.pairwise_singleton ..⟩
    · exact fun hmem => hroot (List.mem_singleton.mp hmem).symm
    · exact List.forall_mem_singleton.mpr hlock
    · refine List.forall_mem_singleton.mpr ?_
      rw [hr.onward.live hs hlock (by decide), hlive]
      rfl
    · intro c o p hc hp hmem
      obtain rfl := List.mem_singleton.mp hmem
      exact absurd hp (hnone c o hc)
  unfold deleteTargets
  split
  · refine txp_collectAndLock hs hlog (by rw [hlive]; rfl) hlock hroot (fun ids he x hx => ?_) h
    cases a with
    | sqlx =>
      obtain rfl := Option.some.inj he
      cases hx
    | rpc => cases he
  · split
    · refine txp_seq (txp_select hs fun s₂ hr => ?_)
      rw [hlog, replay_nil]
      refine txp_seq (txp_require hr.session fun hempty => hsingle s₂ hr fun c o hc hp => ?_)
      have hmem : c ∈ Db.liveChildren s₂.db cmd.id := Db.mem_liveChildren.mpr ⟨o, hc, hp⟩
      simp only [ne_eq, decide_not, Bool.not_eq_true', decide_eq_false_iff_not, not_not] at hempty
      rw [hempty] at hmem
      cases hmem
    · next hkind =>
      refine hsingle s (.refl hs hi) fun c o hc hp => ?_
      obtain ⟨q, hq, hqk⟩ := hi.treeInv.live c o cmd.id hc hp
      obtain rfl : current = q := Option.some.inj (hlive.symm.trans hq)
      exact hkind hqk

/-! ## Rows -/

/-- The rows that a deletion leaves. -/
structure Tombstones (db : Db) (targets : List ObjectId) (now : Time)
    (rows : List (ObjectId × ObjectRow)) : Prop where
  mem : ∀ id o', (id, o') ∈ rows ↔
    id ∈ targets ∧ ∃ o, Db.live db id = some o ∧ o' = o.tombstone now
  nodup : (rows.map Prod.fst).Nodup

/-- The targets are marked, each once. -/
theorem txp_deleteRows {targets : List ObjectId} {now : Time}
    {P : List (ObjectId × ObjectRow) → DbState → Prop} (hs : s.session t = some sess)
    (hlog : sess.log = [])
    (h : ∀ rows sess₂ s₂, Reaches S t sess s (rows.map fun r => ⟨.object r.1, some r.2⟩) sess₂ s₂ →
      Tombstones s₂.db targets now rows → P rows s₂) :
    txp (contract S) t (run (deleteRows targets now)) P s := by
  refine txp_run hs fun s₂ scan ans hr _ ha => ?_
  obtain rfl := Except.ok.inj ha
  rw [hlog, replay_nil] at hr ⊢
  refine h _ _ s₂ hr ⟨fun id o' => ?_, ?_⟩
  · rw [List.mem_filterMap]
    -- a row is marked exactly if it is a live target
    constructor
    · rintro ⟨x, _, hx⟩
      split at hx
      · next hmem =>
        obtain ⟨o, ho, he⟩ := Option.map_eq_some_iff.mp hx
        cases he
        exact ⟨hmem, o, ho, rfl⟩
      · cases hx
    · rintro ⟨hmem, o, ho, rfl⟩
      refine ⟨id, Db.mem_objectIds.mpr ?_, by rw [if_pos hmem, ho]; rfl⟩
      rw [(Db.live_eq_some.mp ho).1]
      rfl
  · -- each of them once
    rw [List.map_filterMap]
    refine Db.nodup_objectIds.filterMap fun x x' y hx hx' => ?_
    have hfst : ∀ z, y ∈ ((if z ∈ targets then (Db.live s₂.db z).map fun o => (z, o.tombstone now)
        else none).map Prod.fst) → z = y := by
      intro z hz
      split at hz
      · obtain ⟨r, hr, rfl⟩ := Option.map_eq_some_iff.mp hz
        obtain ⟨o, _, rfl⟩ := Option.map_eq_some_iff.mp hr
        rfl
      · cases hz
    exact (hfst x hx).trans (hfst x' hx').symm

/-- The marks only depend on the live targets. -/
theorem Tombstones.congr {db db' : Db} {targets : List ObjectId} {now : Time}
    {rows : List (ObjectId × ObjectRow)} (h : Tombstones db targets now rows)
    (hlive : ∀ x ∈ targets, Db.live db' x = Db.live db x) : Tombstones db' targets now rows := by
  refine ⟨fun id o' => (h.mem id o').trans (and_congr_right fun hmem => ?_), h.nodup⟩
  rw [hlive id hmem]

/-! ## Queueing -/

/-- A blob is queued unless it is queued already. -/
theorem txp_enqueueBlobGc {b : String × String} {notBefore : Time} {P : Unit → DbState → Prop}
    (hs : s.session t = some sess) (hlog : written sess.log (.gc b.1 b.2) = none)
    (h : ∀ gcs sess₂ s₂, Reaches S t sess s gcs sess₂ s₂ →
      (gcs = enqueues [b] notBefore ∨ gcs = [] ∧ Db.Queued s₂.db b) → P () s₂) :
    txp (contract S) t (run (enqueueBlobGc b.1 b.2 notBefore)) P s := by
  refine txp_run hs fun s₂ scan ans hr _ ha => ?_
  have hview : Db.gc (replay sess.log s₂.db) b.1 b.2 = Db.gc s₂.db b.1 b.2 := by
    rw [gc_replay, hlog]
    rfl
  simp only [enqueueBlobGc, statement, hview] at ha
  split at ha
  · next g hg =>
    obtain rfl := Except.ok.inj ha
    exact h _ _ s₂ hr (.inr ⟨rfl, by rw [Db.Queued, hg]; rfl⟩)
  · obtain rfl := Except.ok.inj ha
    exact h _ _ s₂ hr (.inl rfl)

/-- A blob is queued that was not, -/
theorem txp_enqueueBlob {blob : Option (String × String)} {notBefore : Time}
    {P : Unit → DbState → Prop} (hs : s.session t = some sess) (hi : StoreInv S s)
    (hfree : ∀ b ∈ blob, written sess.log (.gc b.1 b.2) = none ∧
      ∀ s₂, Onward t s s₂ → StoreInv S s₂ → ¬ Db.Queued s₂.db b)
    (h : ∀ sess₂ s₂, Reaches S t sess s (enqueues blob.toList notBefore) sess₂ s₂ → P () s₂) :
    txp (contract S) t (enqueueBlob blob notBefore) P s := by
  cases blob with
  | none => exact h sess s (.refl hs hi)
  | some b =>
    obtain ⟨hlog, hfree⟩ := hfree b rfl
    refine txp_enqueueBlobGc hs hlog fun gcs sess₂ s₂ hr hgcs => ?_
    rcases hgcs with rfl | ⟨_, hq⟩
    · exact h sess₂ s₂ hr
    · exact absurd hq (hfree s₂ hr.onward hr.inv)

/-- and so are several. -/
theorem txp_enqueueBlobs {blobs : List (Option (String × String))} {notBefore : Time}
    {P : Unit → DbState → Prop} (hs : s.session t = some sess) (hi : StoreInv S s)
    (hdistinct : (blobs.filterMap id).Nodup)
    (hfree : ∀ b ∈ blobs.filterMap id, written sess.log (.gc b.1 b.2) = none ∧
      ∀ s₂, Onward t s s₂ → StoreInv S s₂ → ¬ Db.Queued s₂.db b)
    (h : ∀ sess₂ s₂, Reaches S t sess s (enqueues (blobs.filterMap id) notBefore) sess₂ s₂ →
      P () s₂) : txp (contract S) t (enqueueBlobs notBefore blobs) P s := by
  induction blobs generalizing s sess with
  | nil => exact h sess s (.refl hs hi)
  | cons blob blobs ih =>
    have hsplit : (blob :: blobs).filterMap id = blob.toList ++ blobs.filterMap id := by
      cases blob <;> rfl
    rw [hsplit] at hdistinct hfree h
    rw [List.nodup_append] at hdistinct
    obtain ⟨_, hrest, hne⟩ := hdistinct
    refine txp_seq (txp_enqueueBlob hs hi (fun b hb => hfree b (List.mem_append_left _ (by
      rw [Option.mem_toList]
      exact hb))) fun sess₂ s₂ hr₂ => ?_)
    refine ih hr₂.session hr₂.inv hrest (fun b hb => ?_) fun sess₃ s₃ hr₃ => ?_
    · obtain ⟨hlog, hfree⟩ := hfree b (List.mem_append_right _ hb)
      refine ⟨?_, fun s' hon => hfree s' (hr₂.onward.trans hon)⟩
      rw [hr₂.log, written_append, hlog, written_enqueues, if_neg]
      · rfl
      · exact fun hmem => hne b hmem b hb rfl
    · refine h sess₃ s₃ ?_
      have := hr₂.trans hr₃
      rwa [enqueues, enqueues, ← List.map_append] at this

/-- The content of an object that is about to go is not queued. -/
theorem StoreInv.not_queued (hi : StoreInv S s) {id : ObjectId} {o : ObjectRow}
    {b : String × String} (ho : Db.live s.db id = some o) (hb : o.blob = some b) :
    ¬ Db.Queued s.db b := fun hq => (hi.blobInv.queued b hq).2 id o ho hb

/-- No two targets share a blob. -/
theorem Tombstones.blobs_nodup {db : Db} {targets : List ObjectId} {now : Time}
    {rows : List (ObjectId × ObjectRow)} (h : Tombstones db targets now rows)
    (hinv : BlobInv db) : (rows.filterMap fun r => r.2.blob).Nodup := by
  refine List.pairwise_filterMap.mpr ((List.pairwise_map.mp h.nodup).imp_of_mem ?_)
  rintro ⟨x, o'⟩ ⟨y, p'⟩ hx hy hne b hb c hc rfl
  obtain ⟨_, o, ho, rfl⟩ := (h.mem x o').mp hx
  obtain ⟨_, p, hp, rfl⟩ := (h.mem y p').mp hy
  -- both would be the object of the upload of the blob
  have ho := (Db.live_eq_some.mp ho).1
  have hp := (Db.live_eq_some.mp hp).1
  obtain ⟨_, uid, u, hu, _, hub, _⟩ := hinv.pointer x o b ho hb
  exact hne ((hinv.completed ho hb hu hub).2.symm.trans (hinv.completed hp hc hu hub).2)

/-- There is a Change, for the object that was named is deleted. -/
theorem Tombstones.tombstones_ne_nil {db : Db} {targets : List ObjectId} {now : Time}
    {rows : List (ObjectId × ObjectRow)} {id : ObjectId} (h : Tombstones db targets now rows)
    (hid : id ∈ targets) (hlive : (Db.live db id).isSome) : tombstones targets rows ≠ [] := by
  obtain ⟨o, ho⟩ := Option.isSome_iff_exists.mp hlive
  have hrow : (id, o.tombstone now) ∈ rows := (h.mem id _).mpr ⟨hid, o, ho, rfl⟩
  have hfind : (rows.find? fun r => r.1 = id).isSome :=
    List.find?_isSome.mpr ⟨_, hrow, decide_eq_true rfl⟩
  obtain ⟨r, hr⟩ := Option.isSome_iff_exists.mp hfind
  have hmem : PendingChange.new id r.2.revision .deleted ∈ tombstones targets rows :=
    List.mem_filterMap.mpr ⟨id, hid, by rw [hr]; rfl⟩
  exact List.ne_nil_of_mem hmem

/-- Objects only go. -/
theorem Disciplined.of_deleted {ws : List Write} {targets : List ObjectId} {now : Time}
    (hadv : ∃ sess, s.session t = some sess ∧ sess.advisory = true)
    (hobj : objectWrites ws = fun id => if id ∈ targets then
      (Db.live s.db id).map fun o => some (o.tombstone now) else none)
    (hcursors : NoCursors ws) : Disciplined t s ws := by
  refine ⟨fun _ => hadv, fun c o p hc hp => .inl ⟨o, ?_, hp⟩, hcursors.drawn⟩
  obtain ⟨hc, hlive⟩ := Db.live_eq_some.mp hc
  have hrow : (objectWrites ws c).getD (Db.object s.db c) = some o := (object_replay ..).symm.trans hc
  rw [hobj] at hrow
  dsimp only at hrow
  split at hrow
  · cases hold : Db.live s.db c with
    | none =>
      rw [hold] at hrow
      exact hold ▸ Db.live_eq_some.mpr ⟨hrow, hlive⟩
    | some o' =>
      rw [hold] at hrow
      obtain rfl := Option.some.inj hrow
      cases hlive
  · exact Db.live_eq_some.mpr ⟨hrow, hlive⟩

/-! ## Deleting -/

/-- **Delete.** It keeps the contract, is answered by what it has committed, and has met the
revision. -/
theorem serves_deleteObject {cmd : DeleteObjectCommit} {a : Adapter} (hs : s.session t = none)
    (hminted : ∀ ictx ∈ cmd.ctx.idempotency, Minted s.world ictx) :
    Serves S t (deleteObject a cmd) (fun response s' =>
      (∀ ictx ∈ cmd.ctx.idempotency, Answered S s'.wal ictx response) ∧
        Matched S s.wal s'.wal cmd.id cmd.ifMatch) s := by
  refine serves_transaction hs fun s₁ hl hi hs₁ => ?_
  refine txp_seq (txp_requirePayload hs₁ ?_)
  refine txp_seq (txp_lockLiveObject hs₁ noObjects_nil
    fun current held sess₂ s₂ hr₂ hlock hlive hheld => ?_)
  -- what is held differs from the row in its metadata only
  obtain ⟨metadata, rfl⟩ : ∃ metadata, held = { current with metadata } :=
    ⟨_, Adapter.held_eq hheld⟩
  have htargets : deleteTargets a cmd { current with metadata } = deleteTargets a cmd current := rfl
  rw [htargets]
  refine txp_seq (txp_checkIfMatchIn hr₂.session fun hmatch => ?_)
  replace hmatch : ∀ expected ∈ cmd.ifMatch, expected = current.revision := hmatch
  refine txp_seq (txp_require hr₂.session fun hroot => ?_)
  refine txp_seq (txp_deleteTargets hr₂.session hr₂.inv hr₂.log hlive hlock hroot
    fun targets sess₃ s₃ hr₃ htargets₃ => ?_)
  refine txp_seq (txp_deleteRows hr₃.session (hr₂.trans hr₃).log fun rows sess₄ s₄ hr₄ hrows => ?_)
  have htargets₄ := htargets₃.onward hr₃.session hr₄.onward hr₄.session
  have hlog₄ : sess₄.log = rows.map fun r => ⟨.object r.1, some r.2⟩ :=
    ((hr₂.trans hr₃).trans hr₄).log
  have hrows' : ∀ s', Onward t s₄ s' → Tombstones s'.db targets cmd.ctx.now rows := fun s' hon =>
    hrows.congr fun x hx => hon.live hr₄.session (htargets₄.locked x hx) (by decide)
  have hblobs : (rows.map fun r => r.2.blob).filterMap id = rows.filterMap fun r => r.2.blob :=
    List.filterMap_map ..
  refine txp_seq (txp_enqueueBlobs hr₄.session hr₄.inv
    (hblobs ▸ hrows.blobs_nodup hr₄.inv.blobInv) (fun b hb => ⟨?_, fun s' hon hi' => ?_⟩)
    fun sess₅ s₅ hr₅ => ?_)
  · rw [hlog₄]
    exact (onTable_objects rows _ _).written (by simp)
  · -- the object of the blob is live until the commit
    rw [hblobs] at hb
    obtain ⟨⟨x, o'⟩, hx, hb⟩ := List.mem_filterMap.mp hb
    obtain ⟨_, o, ho, rfl⟩ := ((hrows' s' hon).mem x o').mp hx
    exact hi'.not_queued ho hb
  rw [hblobs] at hr₅
  have hself : (Db.live s₄.db cmd.id).isSome := htargets₄.live _ htargets₄.self
  refine txp_seq (txp_appendChanges hr₅.session (hrows.tombstones_ne_nil htargets₄.self hself)
    fun answer records sess₆ s₆ hr₆ hadv hnumbered => ?_)
  have hr := (((hr₂.trans hr₃).trans hr₄).trans hr₅).trans hr₆
  have hlog : sess₆.log = rows.map (fun r => ⟨.object r.1, some r.2⟩) ++
      (enqueues (rows.filterMap fun r => r.2.blob) cmd.ctx.now ++ changeWrites records) := by
    simpa using hr.log
  have hfront := ((onTable_objects rows (fun r => r.1) fun r => some r.2).noRecords
    (by decide)).append (((onTable_enqueues (rows.filterMap fun r => r.2.blob)
    cmd.ctx.now).noRecords (by decide)).append ((onTable_changeWrites records).noRecords
    (by decide)))
  refine txp_finish hr₆.session hr₆.inv (hlog ▸ hfront)
    (fun ictx h => (hminted ictx h).mono (hl.world.trans hr.onward.later.world))
    fun response fin sess₇ s₇ hr₇ hfin => ?_
  have hon₂₇ : Onward t s₂ s₇ := (((hr₃.onward.trans hr₄.onward).trans hr₅.onward).trans
    hr₆.onward).trans hr₇.onward
  refine .and (committable_of_finalizes hr₇.session (hr₇.label.trans hr.label)
    (by rw [hr₇.log, hlog]) hfront hfin fun s₈ hsince hi₈ hfin₈ _ => ?_)
    fun s₈ hl₈ => .of_live hr₂.inv hlive hmatch (hl.trans hr₂.onward.later) (hon₂₇.later.trans hl₈)
  -- what the locks have kept
  have hon₆ : Onward t s₆ s₈ := hr₇.onward.trans hsince.onward
  have hon₄ : Onward t s₄ s₈ := (hr₅.onward.trans hr₆.onward).trans hon₆
  obtain ⟨sess₈, hs₈, _⟩ := hon₄.holds hr₄.session (htargets₄.locked _ htargets₄.self)
  have htargets₈ := htargets₄.onward hr₄.session hon₄ hs₈
  have hrows₈ := hrows' s₈ hon₄
  obtain ⟨hnum, hbound⟩ := hnumbered s₈ hon₆
  have hlive₈ : Db.live s₈.db cmd.id = some current :=
    (((hr₃.onward.trans hr₄.onward).trans hon₄).live hr₂.session hlock (by decide)).trans hlive
  have hcommit := Commits.deleteObject (S := S) cmd hlive₈ hmatch htargets₈.self htargets₈.root
    htargets₈.nodup htargets₈.closed htargets₈.below htargets₈.ordered hrows₈.mem hrows₈.nodup
    hnum hfin₈
  have hassoc : rows.map (fun r => (⟨.object r.1, some r.2⟩ : Write)) ++
      (enqueues (rows.filterMap fun r => r.2.blob) cmd.ctx.now ++ changeWrites records) ++ fin =
      rows.map (fun r => ⟨.object r.1, some r.2⟩) ++
        (enqueues (rows.filterMap fun r => r.2.blob) cmd.ctx.now ++
          (changeWrites records ++ fin)) := by
    simp
  rw [hassoc]
  have hfin' := hfin₈.onTable
  have hrest : ∀ x, written (enqueues (rows.filterMap fun r => r.2.blob) cmd.ctx.now ++
      (changeWrites records ++ fin)) (.object x) = none := fun x => by
    rw [written_append, written_rest hfin' (by simp) (by simp),
      (onTable_enqueues _ _).written (by simp)]
    rfl
  refine ⟨hcommit, .of_deleted (hon₆.ordered hr₆.session hadv)
    (objectWrites_deleted hrows₈.mem hrows₈.nodup hrest) ?_, ?_⟩
  · exact .append (.of_tables ((onTable_objects _ _ _).ne (by decide)))
      (.append (.of_tables ((onTable_enqueues _ _).ne (by decide))) (.of_rest hfin'))
  rw [feedOf_append, feedOf_append, feedOf_rest hfin', (onTable_enqueues _ _).feedOf (by decide),
    (onTable_objects _ _ _).feedOf (by decide)]
  exact hbound

end AnyStore
