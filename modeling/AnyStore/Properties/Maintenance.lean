import AnyStore.Refinement.Passes
import AnyStore.Refinement.System
import AnyStore.Spec.Feed

/-!
# A maintenance pass drains

On a store that nobody else writes to a pass comes to its end, whatever the
provider does: every expired upload is marked once, every entry of the queue
that is due and needed by nobody is dealt with once, and only a deadline leaves
something over.

## Results

* `maintenance_drains` (`Pass`): from some number of rounds on, the pass ends with
  a report that counts what it has expired, collected and purged, and what it has
  not touched is as it was. The report says `drained` unless the deadline has
  passed.
* `maintenance_drains_providerDown`: a pass while the provider is down.

## Assumptions

No other process has a transaction open or writes meanwhile, and no database call
fails (`Calm`). A batch takes at least one row. The provider answers as it likes.

## Proof

Each loop has a set of rows that are due. A round that takes a full batch makes
the set smaller, and one that does not has emptied it (`sure_expiryRound`,
`sure_collectionRound`), so the rounds come to an end (`Prog.sure_batches`).
-/

namespace AnyStore

open ReadCommitted

variable {app : AppState} {now deadline : Time} {ok : Env → Prop} {t : Nat} {s : DbState}
  {l l' l₁ : Rows} {db db' db₁ : Db}

/-- The rows of a store without sessions. -/
theorem Alone.rows (h : Alone s l) : s.db = l.db := congrArg Solo.db h.solo_eq

/-- The clock can pass the deadline. -/
def DeadlineReached (ok : Env → Prop) (deadline : Time) : Prop := ∃ e, ok e ∧ deadline ≤ e.now

/-- Looking at the clock changes nothing. -/
theorem sure_deadlinePassed (h : Alone s l) :
    (deadlinePassed deadline).Sure (store.effect t (Calm ok)) (fun r s' => ∃ b, r = .ok b ∧
      (b = true → DeadlineReached ok deadline) ∧ Alone s' l) s := by
  refine Prog.Sure.bind ((h.sure_world (Q := fun r l' => ∃ e, ok e ∧ r = .ok e.now ∧ l' = l)
    ?_).mono ?_)
  · intro e he
    exact ⟨e.now, l.world, rfl, e, he, rfl, rfl⟩
  · rintro _ s' ⟨l', halone, e, he, rfl, rfl⟩
    refine ⟨_, rfl, _, rfl, ?_, halone⟩
    intro hb
    exact ⟨e, he, of_decide_eq_true hb⟩

/-! ## Expiry -/

/-- What is queued for two batches. -/
theorem queued_append {k : String × String} {xs ys : List (String × String)} {v : GcRow} :
    (if k ∈ xs then some v else none).or (if k ∈ ys then some v else none) =
      if k ∈ xs ++ ys then some v else none := by
  by_cases hx : k ∈ xs
  · rw [if_pos hx, if_pos (List.mem_append_left _ hx), Option.some_or]
  · rw [if_neg hx, Option.none_or]
    by_cases hy : k ∈ ys
    · rw [if_pos hy, if_pos (List.mem_append_right _ hy)]
    · rw [if_neg hy, if_neg (List.not_mem_append hx hy)]

/-- What has expired is not due any more. -/
theorem ExpiresUploads.dueUpload {done : List (UploadId × UploadRow)}
    (h : ExpiresUploads now db db' done) {id : UploadId} (hdue : DueUpload now db' id) :
    id ∉ done.map Prod.fst ∧ DueUpload now db id := by
  obtain ⟨u, hu, hexpires⟩ := hdue
  have hid : id ∉ done.map Prod.fst := by
    intro hmem
    obtain ⟨e, he, rfl⟩ := List.mem_map.mp hmem
    rw [h.expired e he, Option.some.injEq] at hu
    rw [← hu, UploadRow.expired_expires] at hexpires
    cases hexpires
  exact ⟨hid, u, (h.uploads id hid).symm.trans hu, hexpires⟩

/-- Nothing has expired yet. -/
theorem ExpiresUploads.nil : ExpiresUploads now db db [] := by
  refine ⟨List.nodup_nil, fun _ he => absurd he List.not_mem_nil, fun _ _ => rfl,
    fun _ he => absurd he List.not_mem_nil, fun k => ?_, fun _ _ _ => rfl⟩
  rw [List.map_nil, if_neg List.not_mem_nil, Option.or_none]

/-- Two batches in a row. -/
theorem ExpiresUploads.append {done done' : List (UploadId × UploadRow)}
    (h : ExpiresUploads now db db₁ done) (h' : ExpiresUploads now db₁ db' done') :
    ExpiresUploads now db db' (done ++ done') := by
  -- the second batch takes what was due before, and none of the first
  have hnew : ∀ e ∈ done', e.1 ∉ done.map Prod.fst ∧ DueUpload now db e.1 := fun e he =>
    h.dueUpload ⟨e.2, h'.due e he⟩
  have hold : ∀ e ∈ done, e.1 ∉ done'.map Prod.fst := by
    intro e he hmem
    obtain ⟨e', he', heq⟩ := List.mem_map.mp hmem
    exact (hnew e' he').1 (heq ▸ List.mem_map_of_mem he)
  refine ⟨?_, ?_, ?_, ?_, ?_, ?_⟩
  · rw [List.map_append]
    refine List.nodup_append.mpr ⟨h.nodup, h'.nodup, ?_⟩
    rintro _ hx _ hy rfl
    obtain ⟨e, he, rfl⟩ := List.mem_map.mp hx
    exact hold e he hy
  · refine List.forall_mem_append.mpr ⟨h.due, fun e he => ?_⟩
    obtain ⟨hrow, hexpires⟩ := h'.due e he
    exact ⟨(h.uploads e.1 (hnew e he).1).symm.trans hrow, hexpires⟩
  · intro id hid
    rw [List.map_append, List.mem_append, not_or] at hid
    exact (h'.uploads id hid.2).trans (h.uploads id hid.1)
  · refine List.forall_mem_append.mpr ⟨fun e he => ?_, h'.expired⟩
    exact (h'.uploads e.1 (hold e he)).trans (h.expired e he)
  · -- the queue has the blobs of both
    intro k
    rw [h'.queued k, h.queued k, Option.or_assoc, queued_append, List.map_append]
  · intro r hu hg
    exact (h'.rest r hu hg).trans (h.rest r hu hg)

/-- The state of the first loop. -/
structure ExpiryLoop (now : Time) (l₀ : Rows) (report : MaintenanceReport) (s : DbState) : Prop where
  state : ∃ l done, Alone s l ∧ ExpiresUploads now l₀.db l.db done ∧
    l.world.deleted = l₀.world.deleted ∧ report = { uploadsExpired := done.length }

variable {l₀ : Rows} {report : MaintenanceReport}

/-- **Round.** What is due gets less with a full batch, and nothing is left behind one that is
not full. -/
theorem sure_expiryRound (hsize : 0 < app.gcBatchSize) (h : ExpiryLoop now l₀ report s) :
    (expiryRound app now report).Sure (store.effect t (Calm ok)) (fun a s' =>
      ∃ report' taken, a = .ok (report', taken) ∧ ExpiryLoop now l₀ report' s' ∧
        {id | DueUpload now s'.db id} ⊆ {id | DueUpload now s.db id} ∧
        (taken < app.gcBatchSize → {id | DueUpload now s'.db id} = ∅) ∧
        (app.gcBatchSize ≤ taken →
          {id | DueUpload now s'.db id} ≠ {id | DueUpload now s.db id})) s := by
  obtain ⟨l, done, halone, hexpires, hdeleted, rfl⟩ := h.state
  unfold expiryRound abortExpiredUploads
  refine Prog.Sure.bind (Prog.Sure.bind ((sure_claimExpiredUploads halone).mono ?_))
  rintro _ s₁ ⟨new, l₁, rfl, h₁, hnew, hworld, _, hall⟩
  refine ⟨_, rfl, Prog.Sure.bind ((sure_abortEach _ h₁).mono ?_)⟩
  rintro _ s' ⟨rfl, w, h', hw⟩
  refine ⟨(), rfl, _, rfl, _, _, rfl, ⟨_, done ++ new, h', hexpires.append hnew, ?_, ?_⟩, ?_, ?_, ?_⟩
  · rw [hw, hworld, hdeleted]
  · rw [List.length_map, List.length_append]
  · intro id hid
    show DueUpload now s.db id
    rw [Alone.rows halone]
    exact (hnew.dueUpload (Alone.rows h' ▸ hid)).2
  · -- a short batch has taken all there was
    intro hshort
    rw [List.length_map] at hshort
    refine Set.eq_empty_iff_forall_notMem.mpr ?_
    intro id hid
    obtain ⟨hnot, hdue⟩ := hnew.dueUpload (Alone.rows h' ▸ hid)
    exact hnot (hall hshort id hdue)
  · intro hfull heq
    rw [List.length_map] at hfull
    -- the batch is not empty, and its members are due no more
    obtain ⟨e, he⟩ := List.exists_mem_of_length_pos (Nat.lt_of_lt_of_le hsize hfull)
    have hmem : e.1 ∈ {id | DueUpload now s.db id} := by
      show DueUpload now s.db e.1
      rw [Alone.rows halone]
      exact ⟨e.2, hnew.due e he⟩
    rw [← heq] at hmem
    exact (hnew.dueUpload (Alone.rows h' ▸ hmem)).1 (List.mem_map_of_mem he)

/-! ## Collection -/

/-- A blob is needed by a live object with content. -/
theorem Db.pointsTo_iff {k : String × String} : db.pointsTo k = true ↔
    ∃ id o, db.live id = some o ∧ o.contentState = some .ready ∧ o.blob = some k := by
  unfold Db.pointsTo
  rw [List.any_eq_true]
  constructor
  · rintro ⟨id, _, h⟩
    obtain ⟨o, ho, h⟩ := (Option.any_eq_true ..).mp h
    obtain ⟨hready, hblob⟩ := of_decide_eq_true h
    exact ⟨id, o, ho, hready, hblob⟩
  · rintro ⟨id, o, ho, hready, hblob⟩
    refine ⟨id, Db.mem_objectIds.mpr ?_, (Option.any_eq_true ..).mpr ⟨o, ho, ?_⟩⟩
    · rw [(Db.live_eq_some.mp ho).1]
      rfl
    · exact decide_eq_true ⟨hready, hblob⟩

/-- Which blobs are needed depends on the objects only. -/
theorem Db.pointsTo_congr {k : String × String}
    (h : ∀ id, db'.object id = db.object id) : db'.pointsTo k = db.pointsTo k := by
  rw [Bool.eq_iff_iff, Db.pointsTo_iff, Db.pointsTo_iff]
  unfold Db.live
  simp only [h]

/-- An entry that is still there comes again later. -/
theorem GcOutcome.late {w : World} {k : String × String} {g g' : GcRow}
    (h : GcOutcome app now w k g (some g')) : ¬ g'.notBefore ≤ now := by
  cases h with
  | failed =>
    -- the delay doubles with every attempt and is never zero
    have hpos : 0 < backoff g.attempts := by
      unfold backoff
      have htwo : (0 : Int) < 2 ^ min g.attempts 10 := Int.pow_pos (by decide)
      omega
    exact Int.not_le.mpr (Int.lt_add_of_pos_right now hpos)
  | skipped => exact g.leased_late

/-- A collection leaves the objects as they are. -/
theorem Collects.pointsTo {done : List ((String × String) × GcRow)}
    (h : Collects app now done l l') (k : String × String) :
    Db.pointsTo l'.db k = Db.pointsTo l.db k :=
  Db.pointsTo_congr fun id => h.rest (.object id) Table.noConfusion

/-- What has been dealt with is not due any more. -/
theorem Collects.dueGc {done : List ((String × String) × GcRow)} (h : Collects app now done l l')
    {k : String × String} (hdue : DueGc now l'.db k) :
    k ∉ done.map Prod.fst ∧ DueGc now l.db k := by
  obtain ⟨g, hg, hlate, hunused⟩ := hdue
  have hk : k ∉ done.map Prod.fst := by
    intro hmem
    obtain ⟨e, he, rfl⟩ := List.mem_map.mp hmem
    have hsettled := h.settled e he
    rw [hg] at hsettled
    exact hsettled.late hlate
  exact ⟨hk, g, (h.others k hk).symm.trans hg, hlate, (h.pointsTo k).symm.trans hunused⟩

/-- Entries that were due, each of them once. -/
structure DueOnce (now : Time) (db : Db) (done : List ((String × String) × GcRow)) : Prop where
  nodup : (done.map Prod.fst).Nodup
  due : ∀ e ∈ done, db.gcEntry e.1 = some e.2 ∧ e.2.notBefore ≤ now ∧ db.pointsTo e.1 = false

/-- One batch of the queue, and what becomes of its entries. -/
theorem sure_collectBlobs (h : Alone s l) :
    (collectBlobs app now).Sure (store.effect t (Calm ok)) (fun r s' => ∃ done l', Alone s' l' ∧
      r = .ok (countGone l'.db done, countLeft l'.db done) ∧ DueOnce now l.db done ∧
        Collects app now done l l' ∧
          (done.length < app.gcBatchSize → ∀ k, DueGc now l.db k → k ∈ done.map Prod.fst)) s := by
  unfold collectBlobs
  refine Prog.Sure.bind ((sure_claimGcBatch h).mono ?_)
  rintro _ s₁ ⟨done, l₁, rfl, h₁, htaken, hworld, _, hall⟩
  refine ⟨_, rfl, (sure_collectEach done h₁ htaken.nodup htaken.taken).mono ?_⟩
  rintro _ s' ⟨l', h', rfl, hcollects⟩
  refine ⟨done, l', h', rfl, ⟨htaken.nodup, htaken.due⟩, ?_, hall⟩
  exact {
    settled := hcollects.settled
    others := fun k hk => (hcollects.others k hk).trans (htaken.rows k hk)
    rest := fun r hr => (hcollects.rest r hr).trans (htaken.rest r hr)
    only := hworld ▸ hcollects.only
    kept := hworld ▸ hcollects.kept }

/-- Two batches in a row: the second takes none of the first. -/
theorem DueOnce.append {done done' : List ((String × String) × GcRow)}
    (h : DueOnce now l.db done) (hcollects : Collects app now done l l₁)
    (h' : DueOnce now l₁.db done') :
    DueOnce now l.db (done ++ done') ∧ ∀ e ∈ done, e.1 ∉ done'.map Prod.fst := by
  have hnew : ∀ e ∈ done', e.1 ∉ done.map Prod.fst := fun e he =>
    (hcollects.dueGc ⟨e.2, h'.due e he⟩).1
  have hold : ∀ e ∈ done, e.1 ∉ done'.map Prod.fst := by
    intro e he hmem
    obtain ⟨e', he', heq⟩ := List.mem_map.mp hmem
    exact hnew e' he' (heq ▸ List.mem_map_of_mem he)
  refine ⟨⟨?_, ?_⟩, hold⟩
  · rw [List.map_append]
    refine List.nodup_append.mpr ⟨h.nodup, h'.nodup, ?_⟩
    rintro _ hx _ hy rfl
    obtain ⟨e, he, rfl⟩ := List.mem_map.mp hx
    exact hold e he hy
  · refine List.forall_mem_append.mpr ⟨h.due, fun e he => ?_⟩
    obtain ⟨hrow, hlate, hunused⟩ := h'.due e he
    exact ⟨(hcollects.others e.1 (hnew e he)).symm.trans hrow, hlate,
      (hcollects.pointsTo e.1).symm.trans hunused⟩

/-- The counts depend on the entries only. -/
theorem count_congr {done : List ((String × String) × GcRow)}
    (h : ∀ e ∈ done, db'.gcEntry e.1 = db.gcEntry e.1) :
    countGone db' done = countGone db done ∧ countLeft db' done = countLeft db done := by
  unfold countGone countLeft
  constructor
  · refine List.countP_congr fun e he => ?_
    rw [h e he]
  · refine List.countP_congr fun e he => ?_
    rw [h e he]

/-- Two batches are counted one after the other. -/
theorem count_append {done done' : List ((String × String) × GcRow)} :
    countGone db (done ++ done') = countGone db done + countGone db done' ∧
      countLeft db (done ++ done') = countLeft db done + countLeft db done' :=
  ⟨List.countP_append, List.countP_append⟩

/-- The state of the second loop. -/
structure CollectionLoop (app : AppState) (now : Time) (l₁ : Rows) (report₁ report : MaintenanceReport)
    (s : DbState) : Prop where
  state : ∃ l done, Alone s l ∧ DueOnce now l₁.db done ∧ Collects app now done l₁ l ∧
    report = { report₁ with
      blobsDeleted := report₁.blobsDeleted + countGone l.db done
      blobsFailed := report₁.blobsFailed + countLeft l.db done }

/-- **Round.** The same for the queue. -/
theorem sure_collectionRound {report₁ : MaintenanceReport} (hsize : 0 < app.gcBatchSize)
    (h : CollectionLoop app now l₁ report₁ report s) :
    (collectionRound app now report).Sure (store.effect t (Calm ok)) (fun a s' =>
      ∃ report' taken, a = .ok (report', taken) ∧ CollectionLoop app now l₁ report₁ report' s' ∧
        {k | DueGc now s'.db k} ⊆ {k | DueGc now s.db k} ∧
        (taken < app.gcBatchSize → {k | DueGc now s'.db k} = ∅) ∧
        (app.gcBatchSize ≤ taken → {k | DueGc now s'.db k} ≠ {k | DueGc now s.db k})) s := by
  obtain ⟨l, done, halone, hdue, hcollects, rfl⟩ := h.state
  unfold collectionRound
  refine Prog.Sure.bind ((sure_collectBlobs halone).mono ?_)
  rintro _ s' ⟨new, l', h', rfl, hnew, hnext, hall⟩
  obtain ⟨honce, hdisjoint⟩ := hdue.append hcollects hnew
  have hlength := countGone_add_countLeft l'.db new
  refine ⟨_, rfl, _, _, rfl, ⟨l', done ++ new, h', honce, hcollects.append hnext hdisjoint, ?_⟩,
    ?_, ?_, ?_⟩
  · -- what was counted before is as it was
    obtain ⟨hgone, hleft⟩ := count_congr fun e he => hnext.others e.1 (hdisjoint e he)
    obtain ⟨hgone', hleft'⟩ := @count_append l'.db done new
    rw [hgone', hleft', hgone, hleft, Nat.add_assoc, Nat.add_assoc]
  · intro k hk
    show DueGc now s.db k
    rw [Alone.rows halone]
    exact (hnext.dueGc (Alone.rows h' ▸ hk)).2
  · intro hshort
    rw [hlength] at hshort
    refine Set.eq_empty_iff_forall_notMem.mpr ?_
    intro k hk
    obtain ⟨hnot, hk⟩ := hnext.dueGc (Alone.rows h' ▸ hk)
    exact hnot (hall hshort k hk)
  · -- the batch is not empty, and what it has dealt with is due no more
    intro hfull heq
    rw [hlength] at hfull
    obtain ⟨e, he⟩ := List.exists_mem_of_length_pos (Nat.lt_of_lt_of_le hsize hfull)
    have hmem : e.1 ∈ {k | DueGc now s.db k} := by
      show DueGc now s.db e.1
      rw [Alone.rows halone]
      exact ⟨e.2, hnew.due e he⟩
    rw [← heq] at hmem
    exact (hnext.dueGc (Alone.rows h' ▸ hmem)).1 (List.mem_map_of_mem he)

/-! ## The pass -/

/-- The uploads that are due are among those in the table. -/
theorem finite_dueUpload (db : Db) : {id | DueUpload now db id}.Finite := by
  refine (List.finite_toSet db.uploadIds).subset ?_
  rintro id ⟨u, hu, _⟩
  exact Db.mem_uploadIds.mpr (by rw [hu]; rfl)

/-- So are the entries of the queue. -/
theorem finite_dueGc (db : Db) : {k | DueGc now db k}.Finite := by
  refine (List.finite_toSet db.gcKeys).subset ?_
  rintro k ⟨g, hg, _⟩
  exact Db.mem_gcKeys.mpr (by rw [show db.gc k.1 k.2 = some g from hg]; rfl)

/-- A set of listed elements is no larger than the list. -/
theorem ncard_le_length {α : Type} [DecidableEq α] {p : α → Prop} {xs : List α}
    (h : ∀ x, p x → x ∈ xs) : {x | p x}.ncard ≤ xs.length := by
  have hsub : {x | p x} ⊆ (xs.toFinset : Set α) := by
    intro x hx
    exact List.mem_toFinset.mpr (h x hx)
  refine (Set.ncard_le_ncard hsub xs.toFinset.finite_toSet).trans ?_
  rw [Set.ncard_coe_finset]
  exact List.toFinset_card_le xs

/-- The first loop ends, and with nothing left unless the deadline has passed. -/
theorem sure_expiryLoop (hsize : 0 < app.gcBatchSize) (h : Alone s l₀) {rounds : Nat}
    (hrounds : (Db.uploadIds l₀.db).length < rounds) :
    (Prog.batches app.gcBatchSize (expiryRound app now) (deadlinePassed deadline)
      MaintenanceReport.stopped rounds {}).Sure (store.effect t (Calm ok)) (fun r s' =>
        ∃ l' expired report, r = .ok (some report) ∧ Alone s' l' ∧
          ExpiresUploads now l₀.db l'.db expired ∧ l'.world.deleted = l₀.world.deleted ∧
          report = { uploadsExpired := expired.length, drained := report.drained } ∧
          (report.drained = true → ∀ id, ¬ DueUpload now l'.db id) ∧
          (¬ DeadlineReached ok deadline → report.drained = true)) s := by
  have hstart : ExpiryLoop now l₀ {} s := ⟨l₀, [], h, .nil, rfl, rfl⟩
  -- the uploads that are due are the measure
  refine (Prog.sure_batches (fun s => {id | DueUpload now s.db id}) (ExpiryLoop now l₀)
    (DeadlineReached ok deadline) (fun _ s _ => finite_dueUpload s.db) (fun _ _ h => sure_expiryRound hsize h) ?_ hstart
    ?_).mono ?_
  · intro report s h
    obtain ⟨l, done, halone, hrest⟩ := h.state
    refine (sure_deadlinePassed halone).mono ?_
    rintro _ s' ⟨b, rfl, hb, h'⟩
    refine ⟨b, rfl, hb, ⟨l, done, h', hrest⟩, ?_⟩
    rw [Alone.rows h', Alone.rows halone]
  · refine Nat.lt_of_le_of_lt (ncard_le_length ?_) hrounds
    rintro id ⟨u, hu, _⟩
    rw [Alone.rows h] at hu
    exact Db.mem_uploadIds.mpr (by rw [hu]; rfl)
  · rintro a s' ⟨report, hloop, hend⟩
    obtain ⟨l', done, h', hexpires, hdeleted, rfl⟩ := hloop.state
    -- either nothing was left, or the deadline had passed
    rcases hend with ⟨rfl, hempty⟩ | ⟨rfl, hreached⟩
    · refine ⟨l', done, _, rfl, h', hexpires, hdeleted, rfl, ?_, fun _ => rfl⟩
      intro _ id hid
      have hmem : id ∈ {id | DueUpload now s'.db id} := by
        rw [Alone.rows h']
        exact hid
      rw [hempty] at hmem
      exact hmem
    · exact ⟨l', done, _, rfl, h', hexpires, hdeleted, rfl, fun h => absurd h Bool.false_ne_true,
        fun hnot => absurd hreached hnot⟩

/-- The second loop ends in the same way. It keeps what the first one has reported. -/
theorem sure_collectionLoop {report₁ : MaintenanceReport} (hsize : 0 < app.gcBatchSize)
    (h : Alone s l₁) {rounds : Nat} {keys : List (String × String)}
    (hkeys : ∀ k, DueGc now l₁.db k → k ∈ keys) (hrounds : keys.length < rounds) :
    (Prog.batches app.gcBatchSize (collectionRound app now) (deadlinePassed deadline)
      MaintenanceReport.stopped rounds report₁).Sure (store.effect t (Calm ok)) (fun r s' =>
        ∃ l' collected report, r = .ok (some report) ∧ Alone s' l' ∧
          DueOnce now l₁.db collected ∧ Collects app now collected l₁ l' ∧
          report = { report₁ with
            blobsDeleted := report₁.blobsDeleted + countGone l'.db collected
            blobsFailed := report₁.blobsFailed + countLeft l'.db collected
            drained := report.drained } ∧
          (report.drained = true → report₁.drained = true ∧ ∀ k, ¬ DueGc now l'.db k) ∧
          (¬ DeadlineReached ok deadline → report.drained = report₁.drained)) s := by
  have hstart : CollectionLoop app now l₁ report₁ report₁ s :=
    ⟨l₁, [], h, ⟨List.nodup_nil, fun _ he => absurd he List.not_mem_nil⟩, .nil, rfl⟩
  -- the entries that are due are the measure
  refine (Prog.sure_batches (fun s => {k | DueGc now s.db k})
    (CollectionLoop app now l₁ report₁) (DeadlineReached ok deadline) (fun _ s _ => finite_dueGc s.db) (fun _ _ h => sure_collectionRound hsize h) ?_ hstart
    ?_).mono ?_
  · intro report s h
    obtain ⟨l, done, halone, hrest⟩ := h.state
    refine (sure_deadlinePassed halone).mono ?_
    rintro _ s' ⟨b, rfl, hb, h'⟩
    refine ⟨b, rfl, hb, ⟨l, done, h', hrest⟩, ?_⟩
    rw [Alone.rows h', Alone.rows halone]
  · refine Nat.lt_of_le_of_lt (ncard_le_length ?_) hrounds
    intro k hk
    exact hkeys k (Alone.rows h ▸ hk)
  · rintro a s' ⟨report, hloop, hend⟩
    obtain ⟨l', done, h', hdue, hcollects, rfl⟩ := hloop.state
    rcases hend with ⟨rfl, hempty⟩ | ⟨rfl, hreached⟩
    · refine ⟨l', done, _, rfl, h', hdue, hcollects, rfl, fun hdrained => ⟨hdrained, ?_⟩,
        fun _ => rfl⟩
      intro k hk
      have hmem : k ∈ {k | DueGc now s'.db k} := by
        rw [Alone.rows h']
        exact hk
      rw [hempty] at hmem
      exact hmem
    · exact ⟨l', done, _, rfl, h', hdue, hcollects, rfl, fun h => absurd h Bool.false_ne_true,
        fun hnot => absurd hreached hnot⟩

/-! ## The purges of a pass -/

section Purges

variable {due : (r : Row) → r.Val → Bool}

/-- A table in which nothing can be due stays. -/
theorem filter_not_due {r : Row} {o : Option r.Val} (h : due r = fun _ => false) :
    (o.filter fun v => !due r v) = o := by
  rw [h]
  cases o with
  | none => rfl
  | some v => rfl

/-- Only the rows that can be due are counted. -/
theorem Db.count_congr (h : ∀ r, (db'.lookup r).any (due r) = (db.lookup r).any (due r)) :
    db'.count due = db.count due := by
  -- both lists have the same keys, each of them once
  have hperm : (db'.keys.filter fun r => (db'.lookup r).any (due r)).Perm
      (db.keys.filter fun r => (db.lookup r).any (due r)) := by
    refine (List.perm_ext_iff_of_nodup (db'.nodupKeys.filter _) (db.nodupKeys.filter _)).mpr ?_
    intro r
    rw [List.mem_filter, List.mem_filter, h r]
    constructor
    · exact fun hr => ⟨Db.mem_keys_of_any hr.2, hr.2⟩
    · exact fun hr => ⟨Db.mem_keys_of_any ((h r).trans hr.2), hr.2⟩
  unfold Db.count
  rw [List.countP_eq_length_filter, List.countP_eq_length_filter, hperm.length_eq]

/-- The count looks at one table. -/
theorem Db.count_of_table {T : Table} (hdue : ∀ r : Row, r.table ≠ T → due r = fun _ => false)
    (h : ∀ r : Row, r.table = T → db'.lookup r = db.lookup r) :
    db'.count due = db.count due := by
  refine Db.count_congr fun r => ?_
  by_cases hr : r.table = T
  · rw [h r hr]
  · have hnone : ∀ o : Option r.Val, o.any (due r) = false := fun o =>
      Bool.eq_false_iff.mpr (not_due (hdue r hr))
    rw [hnone, hnone]

/-- The maximum depends on the members only. -/
theorem max?_congr {xs ys : List Nat} (h : ∀ x, x ∈ xs ↔ x ∈ ys) : xs.max? = ys.max? := by
  apply Option.ext
  intro m
  rw [List.max?_eq_some_iff, List.max?_eq_some_iff]
  simp only [h]

/-- The Changes that are purged. -/
theorem Db.mem_dueSeqs {olderThan : Time} {seq : Nat} : seq ∈ db.dueSeqs olderThan ↔
    ∃ c, db.change seq = some c ∧ c.changedAt < olderThan := by
  unfold Db.dueSeqs
  rw [List.mem_filter, Db.mem_seqs, Option.any_eq_true]
  constructor
  · rintro ⟨_, c, hc, hold⟩
    exact ⟨c, hc, of_decide_eq_true hold⟩
  · rintro ⟨c, hc, hold⟩
    exact ⟨by rw [hc]; rfl, c, hc, decide_eq_true hold⟩

end Purges

/-- What the purges of a pass leave. -/
structure PurgesAll (app : AppState) (now : Time) (db db' : Db) : Prop where
  records : ∀ p o k, db'.idempotency p o k =
    (db.idempotency p o k).filter fun r => ¬ r.expiresAt ≤ now
  cursors : ∀ id, db'.cursor id = (db.cursor id).filter fun c => ¬ c.expiresAt ≤ now
  changes : ∀ seq, db'.change seq =
    (db.change seq).filter fun c => ¬ c.changedAt < now - app.changesRetention
  watermark : db'.purgedThrough = db.purgedThrough.map fun w =>
    max w ((db.dueSeqs (now - app.changesRetention)).max?.getD 0)
  rest : ∀ r : Row, (r.table = .objects ∨ r.table = .uploads ∨ r.table = .gc) →
    db'.lookup r = db.lookup r

/-- A check that is negated. -/
theorem not_decide {p : Prop} [Decidable p] : (!decide p) = decide ¬ p := by
  by_cases h : p
  · rw [decide_eq_true h, decide_eq_false (not_not.mpr h)]
    rfl
  · rw [decide_eq_false h, decide_eq_true h]
    rfl

/-- Only idempotency records are due by the first purge. -/
theorem recordDue_other {r : Row} (h : r.table ≠ .idempotency) :
    recordDue now r = fun _ => false := by
  cases r with
  | idempotency => exact absurd rfl h
  | _ => rfl

/-- Only cursors are due by the second, -/
theorem cursorDue_other {r : Row} (h : r.table ≠ .cursors) : cursorDue now r = fun _ => false := by
  cases r with
  | cursor => exact absurd rfl h
  | _ => rfl

/-- and only Changes by the third. -/
theorem changeDue_other {r : Row} (h : r.table ≠ .changes) : changeDue now r = fun _ => false := by
  cases r with
  | change => exact absurd rfl h
  | _ => rfl

/-- **Purges.** Three statements; each deletes what is due in its table and counts it. -/
theorem sure_purgeAll (h : Alone s l) :
    (purgeAll app now report).Sure (store.effect t (Calm ok)) (fun r s' => ∃ l', Alone s' l' ∧
      r = .ok { report with
        idempotencyPurged := Db.count l.db (recordDue now)
        cursorsPurged := Db.count l.db (cursorDue now)
        changesPurged := Db.count l.db (changeDue (now - app.changesRetention)) } ∧
      PurgesAll app now l.db l'.db ∧ l'.world = l.world) s := by
  unfold purgeAll
  refine Prog.Sure.bind ((sure_purgeIdempotencyRecords h).mono ?_)
  rintro _ s₁ ⟨l₁, h₁, rfl, hrecords⟩
  refine ⟨_, rfl, Prog.Sure.bind ((sure_purgeChangeCursors h₁).mono ?_)⟩
  rintro _ s₂ ⟨l₂, h₂, rfl, hcursors⟩
  refine ⟨_, rfl, Prog.Sure.bind ((sure_purgeChanges h₂).mono ?_)⟩
  rintro _ s₃ ⟨l₃, h₃, rfl, hchanges, hmark, hworld⟩
  -- each purge leaves the rows of the other tables
  have hrecord : ∀ r : Row, r.table ≠ .idempotency → l₁.db.lookup r = l.db.lookup r := fun r hr =>
    (hrecords.rows r).trans (filter_not_due (recordDue_other hr))
  have hcursor : ∀ r : Row, r.table ≠ .cursors → l₂.db.lookup r = l₁.db.lookup r := fun r hr =>
    (hcursors.rows r).trans (filter_not_due (cursorDue_other hr))
  have hchange : ∀ r : Row, r.table ≠ .changes → r ≠ .retention →
      l₃.db.lookup r = l₂.db.lookup r := fun r hr hne =>
    (hchanges r hne).trans (filter_not_due (changeDue_other hr))
  refine ⟨_, rfl, l₃, h₃, ?_, ⟨?_, ?_, ?_, ?_, ?_⟩, hworld.trans (hcursors.world.trans hrecords.world)⟩
  · -- so what is counted later was there from the start
    have hcount : Db.count l₁.db (cursorDue now) = Db.count l.db (cursorDue now) :=
      Db.count_of_table (fun r hr => cursorDue_other hr) fun r hr =>
        hrecord r (by rw [hr]; exact Table.noConfusion)
    have hcount' : Db.count l₂.db (changeDue (now - app.changesRetention)) =
        Db.count l.db (changeDue (now - app.changesRetention)) :=
      Db.count_of_table (fun r hr => changeDue_other hr) fun r hr =>
        (hcursor r (by rw [hr]; exact Table.noConfusion)).trans
          (hrecord r (by rw [hr]; exact Table.noConfusion))
    rw [hcount, hcount']
  · intro p o k
    have hrow := hrecords.rows (.idempotency p o k)
    simp only [recordDue, not_decide] at hrow
    exact (hchange (.idempotency p o k) Table.noConfusion Row.noConfusion).trans
      ((hcursor (.idempotency p o k) Table.noConfusion).trans hrow)
  · intro id
    have hrow := hcursors.rows (.cursor id)
    simp only [cursorDue, not_decide] at hrow
    rw [hrecord (.cursor id) Table.noConfusion] at hrow
    exact (hchange (.cursor id) Table.noConfusion Row.noConfusion).trans hrow
  · intro seq
    have hrow := hchanges (.change seq) Row.noConfusion
    simp only [changeDue, not_decide] at hrow
    rw [hcursor (.change seq) Table.noConfusion, hrecord (.change seq) Table.noConfusion] at hrow
    exact hrow
  · have hsame : ∀ seq, Db.change l₂.db seq = Db.change l.db seq := fun seq =>
      (hcursor (.change seq) Table.noConfusion).trans (hrecord (.change seq) Table.noConfusion)
    have hold : Db.purgedThrough l₂.db = Db.purgedThrough l.db :=
      (hcursor .retention Table.noConfusion).trans (hrecord .retention Table.noConfusion)
    -- the watermark comes from the Changes that were due before the pass, too
    have hmax := @max?_congr (Db.dueSeqs l₂.db (now - app.changesRetention))
      (Db.dueSeqs l.db (now - app.changesRetention)) fun seq => by
        rw [Db.mem_dueSeqs, Db.mem_dueSeqs, hsame]
    rw [hmark, hold, hmax]
  · rintro r (hr | hr | hr)
    all_goals
      have hrow : l₂.db.lookup r = l.db.lookup r :=
        (hcursor r (by rw [hr]; exact Table.noConfusion)).trans
          (hrecord r (by rw [hr]; exact Table.noConfusion))
      refine (hchange r (by rw [hr]; exact Table.noConfusion) ?_).trans hrow
      rintro rfl
      exact Table.noConfusion hr

/-! ## The whole pass -/

/-- The queue once the uploads have expired. -/
def queueAfter (now : Time) (db : Db) (expired : List (UploadId × UploadRow))
    (k : String × String) : Option GcRow :=
  (db.gcEntry k).or (if k ∈ expired.map (·.2.blob) then some { notBefore := now } else none)

/-- A pass that has expired and collected these. -/
structure Pass (app : AppState) (now : Time) (s s' : DbState) (report : MaintenanceReport)
    (expired : List (UploadId × UploadRow)) (collected : List ((String × String) × GcRow)) :
    Prop where
  -- every upload is expired at most once, and none that was not due
  uploadsExpired : report.uploadsExpired = expired.length ∧ (expired.map Prod.fst).Nodup
  expiredDue : ∀ e ∈ expired, Db.upload s.db e.1 = some e.2 ∧ e.2.expires now = true ∧
    Db.upload s'.db e.1 = some e.2.expired
  uploads : ∀ id, id ∉ expired.map Prod.fst → Db.upload s'.db id = Db.upload s.db id
  -- every entry is collected at most once, and none that was not due or is needed
  blobsCollected : report.blobsDeleted + report.blobsFailed = collected.length ∧
    (collected.map Prod.fst).Nodup ∧ report.blobsDeleted = countGone s'.db collected
  collectedDue : ∀ e ∈ collected, queueAfter now s.db expired e.1 = some e.2 ∧ e.2.notBefore ≤ now ∧
    Db.pointsTo s.db e.1 = false ∧ GcOutcome app now s'.world e.1 e.2 (Db.gcEntry s'.db e.1)
  queue : ∀ k, k ∉ collected.map Prod.fst → Db.gcEntry s'.db k = queueAfter now s.db expired k
  -- the provider was asked to delete nothing else
  deleted : ∀ k ∈ s'.world.deleted,
    k ∈ s.world.deleted ∨ k ∈ collected.map Prod.fst ∧ k.1 = app.backendId
  idempotencyPurged : report.idempotencyPurged = Db.count s.db (recordDue now) ∧
    ∀ p o k, Db.idempotency s'.db p o k =
      (Db.idempotency s.db p o k).filter fun r => ¬ r.expiresAt ≤ now
  cursorsPurged : report.cursorsPurged = Db.count s.db (cursorDue now) ∧
    ∀ id, Db.cursor s'.db id = (Db.cursor s.db id).filter fun c => ¬ c.expiresAt ≤ now
  changesPurged : report.changesPurged = Db.count s.db (changeDue (now - app.changesRetention)) ∧
    (∀ seq, Db.change s'.db seq =
      (Db.change s.db seq).filter fun c => ¬ c.changedAt < now - app.changesRetention) ∧
    Db.purgedThrough s'.db = (Db.purgedThrough s.db).map fun w =>
      max w ((Db.dueSeqs s.db (now - app.changesRetention)).max?.getD 0)
  objects : ∀ id, Db.object s'.db id = Db.object s.db id
  -- what is left over, if anything
  drained : report.drained = true →
    (∀ id, ¬ DueUpload now s'.db id) ∧ ∀ k, ¬ DueGc now s'.db k

/-- The blobs that can be in the queue after the first loop. -/
def Db.blobKeys (db : Db) : List (String × String) :=
  db.gcKeys ++ db.uploadIds.filterMap fun id => (db.upload id).map (·.blob)

/-- What is due behind the first loop was queued before, or is the blob of an upload. -/
theorem ExpiresUploads.blobKeys {done : List (UploadId × UploadRow)}
    (h : ExpiresUploads now db db' done) {k : String × String} (hdue : DueGc now db' k) :
    k ∈ db.blobKeys := by
  obtain ⟨g, hg, _⟩ := hdue
  rw [h.queued k] at hg
  unfold Db.blobKeys
  rw [List.mem_append]
  rcases Option.or_eq_some_iff.mp hg with hg | ⟨_, hg⟩
  · left
    exact Db.mem_gcKeys.mpr (by rw [show db.gc k.1 k.2 = some g from hg]; rfl)
  · right
    obtain ⟨hk, _⟩ := Option.ite_none_right_eq_some.mp hg
    obtain ⟨e, he, rfl⟩ := List.mem_map.mp hk
    have hrow := (h.due e he).1
    refine List.mem_filterMap.mpr ⟨e.1, Db.mem_uploadIds.mpr (by rw [hrow]; rfl), ?_⟩
    rw [hrow]
    rfl

/-- The two loops and the purges make a pass: each touches its own tables. -/
theorem pass_of_loops {report₁ report₂ : MaintenanceReport} {l₂ l₃ : Rows} {s' : DbState}
    {expired : List (UploadId × UploadRow)} {collected : List ((String × String) × GcRow)}
    (h₃ : Alone s' l₃) (hexpires : ExpiresUploads now s.db l₁.db expired)
    (hdeleted : l₁.world.deleted = s.world.deleted)
    (hreport₁ : report₁ = { uploadsExpired := expired.length, drained := report₁.drained })
    (hempty₁ : report₁.drained = true → ∀ id, ¬ DueUpload now l₁.db id)
    (hdue : DueOnce now l₁.db collected) (hcollects : Collects app now collected l₁ l₂)
    (hreport₂ : report₂ = { report₁ with
      blobsDeleted := report₁.blobsDeleted + countGone l₂.db collected
      blobsFailed := report₁.blobsFailed + countLeft l₂.db collected
      drained := report₂.drained })
    (hempty₂ : report₂.drained = true → report₁.drained = true ∧ ∀ k, ¬ DueGc now l₂.db k)
    (hpurges : PurgesAll app now l₂.db l₃.db) (hworld : l₃.world = l₂.world) :
    Pass app now s s' { report₂ with
      idempotencyPurged := Db.count l₂.db (recordDue now)
      cursorsPurged := Db.count l₂.db (cursorDue now)
      changesPurged := Db.count l₂.db (changeDue (now - app.changesRetention)) } expired
        collected := by
  have hdb : s'.db = l₃.db := Alone.rows h₃
  have hworld' : s'.world = l₂.world := (congrArg Solo.world h₃.solo_eq).trans hworld
  -- the loops touch two tables, and the purges others
  have hbase : ∀ r : Row, r.table ≠ .uploads → r.table ≠ .gc →
      l₂.db.lookup r = s.db.lookup r := fun r hu hg =>
    (hcollects.rest r hg).trans (hexpires.rest r hu hg)
  have hobject : ∀ id, Db.object s'.db id = Db.object s.db id := by
    intro id
    rw [hdb]
    exact (hpurges.rest (.object id) (.inl rfl)).trans
      (hbase (.object id) Table.noConfusion Table.noConfusion)
  have hupload : ∀ id, Db.upload s'.db id = Db.upload l₁.db id := by
    intro id
    rw [hdb]
    exact (hpurges.rest (.upload id) (.inr (.inl rfl))).trans
      (hcollects.rest (.upload id) Table.noConfusion)
  have hentry : ∀ k, Db.gcEntry s'.db k = Db.gcEntry l₂.db k := by
    intro k
    rw [hdb]
    exact hpurges.rest (.gc k.1 k.2) (.inr (.inr rfl))
  have hpoints : ∀ k, Db.pointsTo l₁.db k = Db.pointsTo s.db k := fun k =>
    Db.pointsTo_congr fun id => hexpires.rest (.object id) Table.noConfusion Table.noConfusion
  obtain ⟨hgone, hleft⟩ := @count_congr l₂.db s'.db collected fun e _ => hentry e.1
  refine {
    uploadsExpired := ⟨?_, hexpires.nodup⟩
    expiredDue := fun e he => ?_
    uploads := fun id hid => (hupload id).trans (hexpires.uploads id hid)
    blobsCollected := ⟨?_, hdue.nodup, ?_⟩
    collectedDue := fun e he => ?_
    queue := fun k hk => ?_
    deleted := fun k hk => ?_
    idempotencyPurged := ⟨?_, fun p o k => ?_⟩
    cursorsPurged := ⟨?_, fun id => ?_⟩
    changesPurged := ⟨?_, fun seq => ?_, ?_⟩
    objects := hobject
    drained := ?_ }
  · show report₂.uploadsExpired = _
    rw [hreport₂]
    show report₁.uploadsExpired = _
    rw [hreport₁]
  · obtain ⟨hrow, hexpired⟩ := hexpires.due e he
    exact ⟨hrow, hexpired, (hupload e.1).trans (hexpires.expired e he)⟩
  · show report₂.blobsDeleted + report₂.blobsFailed = _
    rw [hreport₂]
    show report₁.blobsDeleted + countGone l₂.db collected +
      (report₁.blobsFailed + countLeft l₂.db collected) = _
    rw [hreport₁, ← countGone_add_countLeft l₂.db collected]
    show 0 + _ + (0 + _) = _
    omega
  · show report₂.blobsDeleted = _
    rw [hreport₂]
    show report₁.blobsDeleted + countGone l₂.db collected = _
    rw [hreport₁, hgone]
    exact Nat.zero_add _
  · obtain ⟨hrow, hlate, hunused⟩ := hdue.due e he
    refine ⟨(hexpires.queued e.1).symm.trans hrow, hlate, (hpoints e.1).symm.trans hunused, ?_⟩
    rw [hentry, hworld']
    exact hcollects.settled e he
  · exact (hentry k).trans ((hcollects.others k hk).trans (hexpires.queued k))
  · rw [hworld'] at hk
    rw [← hdeleted]
    exact hcollects.only k hk
  · exact Db.count_of_table (fun r hr => recordDue_other hr) fun r hr =>
      hbase r (by rw [hr]; exact Table.noConfusion) (by rw [hr]; exact Table.noConfusion)
  · rw [hdb, hpurges.records]
    exact congrArg _ (hbase (.idempotency p o k) Table.noConfusion Table.noConfusion)
  · exact Db.count_of_table (fun r hr => cursorDue_other hr) fun r hr =>
      hbase r (by rw [hr]; exact Table.noConfusion) (by rw [hr]; exact Table.noConfusion)
  · rw [hdb, hpurges.cursors]
    exact congrArg _ (hbase (.cursor id) Table.noConfusion Table.noConfusion)
  · exact Db.count_of_table (fun r hr => changeDue_other hr) fun r hr =>
      hbase r (by rw [hr]; exact Table.noConfusion) (by rw [hr]; exact Table.noConfusion)
  · rw [hdb, hpurges.changes]
    exact congrArg _ (hbase (.change seq) Table.noConfusion Table.noConfusion)
  · have hseqs := @max?_congr (Db.dueSeqs l₂.db (now - app.changesRetention))
      (Db.dueSeqs s.db (now - app.changesRetention)) fun seq => by
        rw [Db.mem_dueSeqs, Db.mem_dueSeqs]
        unfold Db.change
        rw [hbase (.change seq) Table.noConfusion Table.noConfusion]
    rw [hdb, hpurges.watermark, hseqs]
    exact congrArg _ (hbase .retention Table.noConfusion Table.noConfusion)
  · intro hdrained
    obtain ⟨hdrained₁, hnone⟩ := hempty₂ hdrained
    constructor
    · rintro id ⟨u, hu, hexpired⟩
      exact hempty₁ hdrained₁ id ⟨u, (hupload id).symm.trans hu, hexpired⟩
    · rintro k ⟨g, hg, hlate, hunused⟩
      refine hnone k ⟨g, (hentry k).symm.trans hg, hlate, ?_⟩
      rw [hcollects.pointsTo, hpoints, ← Db.pointsTo_congr hobject]
      exact hunused

/-- A pass that takes batches of at least one comes to its end, whatever the
provider answers. It has left something over only if the deadline had passed. -/
theorem maintenance_drains (hsize : 0 < app.gcBatchSize) (h : s.sessions = ∅) :
    ∃ n, ∀ rounds, n ≤ rounds →
      (runMaintenance app now deadline rounds).Sure (store.effect t (Calm ok)) (fun r s' =>
        ∃ report expired collected, r = .ok (some report) ∧ s'.sessions = ∅ ∧
          Pass app now s s' report expired collected ∧
          (¬ DeadlineReached ok deadline → report.drained = true)) s := by
  have halone : Alone s s.solo := ⟨h, rfl⟩
  -- a round for each upload and each blob, and the last one of each loop
  refine ⟨(Db.uploadIds s.db).length + (Db.blobKeys s.db).length + 1, fun rounds hrounds => ?_⟩
  unfold runMaintenance
  refine Prog.Sure.bind ((sure_expiryLoop hsize halone (by
    show (Db.uploadIds s.db).length < rounds
    omega)).mono ?_)
  rintro _ s₁ ⟨l₁, expired, report₁, rfl, h₁, hexpires, hdeleted, hreport₁, hempty₁, hdrained₁⟩
  refine ⟨_, rfl, Prog.Sure.bind ((sure_collectionLoop hsize h₁
    (fun k hk => hexpires.blobKeys hk) (by
      show (Db.blobKeys s.db).length < rounds
      omega)).mono ?_)⟩
  rintro _ s₂ ⟨l₂, collected, report₂, rfl, h₂, hdue, hcollects, hreport₂, hempty₂, hdrained₂⟩
  refine ⟨_, rfl, Prog.Sure.bind ((sure_purgeAll h₂).mono ?_)⟩
  rintro _ s₃ ⟨l₃, h₃, rfl, hpurges, hworld⟩
  refine ⟨_, rfl, _, expired, collected, rfl, h₃.sessions, ?_, ?_⟩
  · exact pass_of_loops h₃ hexpires hdeleted hreport₁ hempty₁ hdue hcollects hreport₂ hempty₂ hpurges
      hworld
  · intro hnot
    show report₂.drained = true
    rw [hdrained₂ hnot, hdrained₁ hnot]

/-! ## An upload that nobody completed -/

def forgottenUpload : UploadRow where
  objectId := "a"
  state := .ready
  mode := .single
  blobBackend := "tencent-cos"
  blobRef := blobRefFor "u"
  expectedSize := 1
  contentType := "text/plain"
  expectedSha256 := none
  createdAt := 0
  expiresAt := 5

/-! ## A pass while the provider is down -/

/-- More rounds change nothing once a pass has come to its end. -/
theorem eval_runMaintenance_add {app : AppState} {now deadline : Time} {n m t : Nat}
    {ch : Choice Row Env} {s s' : DbState} {report : MaintenanceReport}
    (h : (runMaintenance app now deadline n).eval store t ch s = some (.ok (some report), s')) :
    (runMaintenance app now deadline (n + m)).eval store t ch s = some (.ok (some report), s') := by
  unfold runMaintenance at h ⊢
  rw [Prog.eval_bind, Locked.bind_ok] at h
  obtain ⟨report₁, s₁, hexpiry, h⟩ := h
  cases report₁ with
  | none => cases h
  | some report₁ =>
    dsimp only at h
    rw [Prog.eval_bind, Locked.bind_ok] at h
    obtain ⟨report₂, s₂, hcollection, h⟩ := h
    cases report₂ with
    | none => cases h
    | some report₂ =>
      rw [Prog.eval_bind, Locked.bind_run (Prog.eval_batches_add hexpiry)]
      dsimp only
      rw [Prog.eval_bind, Locked.bind_run (Prog.eval_batches_add hcollection)]
      exact h

/-- The provider answers no request. -/
def providerDown : Choice Row Env where
  outcome := .ok
  rank _ := 0
  world := { now := 10, fault := .failed }

def queuedBlob : String × String := ("tencent-cos", blobRefFor "w")

def queuedRow : GcRow where
  notBefore := 5

def forgottenDb : Db :=
  ((initialDb 0).insert (.upload "u") forgottenUpload).insert (.gc queuedBlob.1 queuedBlob.2) queuedRow

def forgotten : DbState := { initialState 0 with db := forgottenDb }

/-- What the pass reports, and how often the deletion of the blob was tried. -/
def passFacts (r : Except DomainError (Option MaintenanceReport) × DbState) :
    Option (Nat × Nat × Option Nat) :=
  (r.1.toOption.bind id).map fun report =>
    (report.uploadsExpired, report.blobsFailed, (Db.gcEntry r.2.db queuedBlob).map (·.attempts))

/-- The upload expires all the same, and both blobs come again later. -/
theorem maintenance_drains_providerDown : ∃ rounds report expired collected s',
    (runMaintenance (sampleApp .sqlx) 10 100 rounds).eval store 0 providerDown forgotten =
        some (.ok (some report), s') ∧
      report.uploadsExpired = 1 ∧ report.blobsFailed = 2 ∧ report.drained = true ∧
      (∃ g, Db.gcEntry s'.db queuedBlob = some g ∧ g.attempts = 1) ∧
      Pass (sampleApp .sqlx) 10 forgotten s' report expired collected := by
  obtain ⟨n, hn⟩ := @maintenance_drains (sampleApp .sqlx) 10 100 (fun e => e.now < 100) 0 forgotten
    (by decide) rfl
  have hends : ((runMaintenance (sampleApp .sqlx) 10 100 1).eval store 0 providerDown forgotten).bind
      passFacts = some (1, 2, some 1) := by decide +kernel
  obtain ⟨⟨r, s'⟩, hrun, hr⟩ := Option.bind_eq_some_iff.mp hends
  obtain ⟨report, hreport, hfacts⟩ := Option.map_eq_some_iff.mp hr
  obtain rfl : r = .ok (some report) := by
    cases r with
    | ok report' => exact congrArg Except.ok hreport
    | error e => cases hreport
  have hcalm : Calm (fun e : Env => e.now < 100) providerDown := ⟨rfl, by decide⟩
  obtain ⟨hexpired, hfailed, hattempts⟩ : _ ∧ _ ∧ _ := by simpa using hfacts
  have hrun := eval_runMaintenance_add (m := n) hrun
  obtain ⟨_, expired, collected, hok, _, hpass, hdrained⟩ :=
    (hn (1 + n) (Nat.le_add_left n 1)).eval hcalm hrun
  obtain rfl := Option.some.inj (Except.ok.inj hok)
  have hreached : ¬ DeadlineReached (fun e => e.now < 100) 100 := by
    rintro ⟨e, hbefore, hafter⟩
    exact absurd hbefore (Int.not_lt.mpr hafter)
  exact ⟨_, _, expired, collected, s', hrun, hexpired, hfailed, hdrained hreached,
    hattempts, hpass⟩

end AnyStore
