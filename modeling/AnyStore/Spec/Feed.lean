import AnyStore.Spec.Writes

/-!
# The feed

The Change records in the store are a part of the feed, and the feed is
strictly increasing: a sequence number is never given out twice and commits in
order. What is missing from the store was purged, and lies at or below the
purge watermark, so a window above the watermark shows all that was ever
committed there (`changesBetween_eq`).
-/

namespace AnyStore

open ReadCommitted

variable {S : Setting} {w : World} {wal wal' : Journal} {db db' : Db} {label : Label}

/-! ## Sequence numbers -/

theorem zipWith_record_fst {ctx : MutationContext} {pending : List PendingChange}
    {seqs : List Nat} (h : seqs.length = pending.length) :
    (List.zipWith (fun (p : PendingChange) seq => (seq, p.record ctx seq)) pending seqs).map
      Prod.fst = seqs := by
  induction pending generalizing seqs with
  | nil => exact (List.length_eq_zero_iff.mp h).symm
  | cons p pending ih =>
    cases seqs with
    | nil => cases h
    | cons seq seqs =>
      rw [List.zipWith_cons_cons, List.map_cons, ih (by simpa using h)]

section

variable {ctx : MutationContext} {pending : List PendingChange} {records : List (Nat × ChangeRecord)}

theorem Numbered.sorted (h : Numbered wal ctx pending records) :
    (records.map Prod.fst).Pairwise (· < ·) := by
  obtain ⟨seqs, hlen, rfl, hsorted, _⟩ := h
  rwa [zipWith_record_fst hlen]

theorem Numbered.fresh (h : Numbered wal ctx pending records) :
    ∀ r ∈ records, ∀ r' ∈ feed wal, r'.1 < r.1 := by
  obtain ⟨seqs, hlen, rfl, _, hfresh⟩ := h
  intro r hr
  refine (hfresh r.1 ?_).2
  rw [← @zipWith_record_fst ctx _ _ hlen]
  exact List.mem_map_of_mem hr

theorem Numbered.positive (h : Numbered wal ctx pending records) : ∀ r ∈ records, 0 < r.1 := by
  obtain ⟨seqs, hlen, rfl, _, hfresh⟩ := h
  intro r hr
  refine (hfresh r.1 ?_).1
  rw [← @zipWith_record_fst ctx _ _ hlen]
  exact List.mem_map_of_mem hr

end

/-! ## Steps -/

/-- What one commit does to the Change records and the watermark. -/
inductive FeedStep (S : Setting) (wal : Journal) (db db' : Db) :
    Label → List (Nat × ChangeRecord) → Prop
  | appended {label records} (hpositive : ∀ r ∈ records, 0 < r.1)
      (hsorted : (records.map Prod.fst).Pairwise (· < ·))
      (hfresh : ∀ r ∈ records, ∀ r' ∈ feed wal, r'.1 < r.1)
      (hrecords : ∀ r ∈ records, db'.change r.1 = some r.2)
      (hrest : ∀ seq, seq ∉ records.map Prod.fst → db'.change seq = db.change seq)
      (hmark : db'.purgedThrough = db.purgedThrough) : FeedStep S wal db db' label records
  | purged (olderThan : Time) {wal₀ : Journal} {seqs : List Nat} {watermark : Nat}
      (hne : seqs ≠ []) (hwal : wal₀ <+: wal)
      (hrule : S.rule (.purgeChanges olderThan) (S.rows wal₀))
      (hdue : ∀ seq c, (S.rows wal₀).change seq = some c → c.changedAt < olderThan →
        seq ∈ seqs ∨ db.change seq = none)
      (hrows : ∀ seq ∈ seqs, ∃ c, (S.rows wal₀).change seq = some c ∧ db.change seq = some c ∧
        c.changedAt < olderThan)
      (hwatermark : db.purgedThrough = some watermark)
      (hmark : db'.purgedThrough = some (max watermark (seqs.max?.getD 0)))
      (hchange : ∀ seq, db'.change seq = if seq ∈ seqs then none else db.change seq) :
      FeedStep S wal db db' (.purgeChanges olderThan) []

theorem written_changeWrites {records : List (Nat × ChangeRecord)}
    (h : (records.map Prod.fst).Pairwise (· < ·)) {r : Nat × ChangeRecord} (hr : r ∈ records) :
    written (changeWrites records) (.change r.1) = some (some r.2) := by
  have hnodup : (records.map fun r => Row.change r.1).Nodup := by
    have hseqs : (records.map Prod.fst).Nodup := h.imp fun h => h.ne
    have := hseqs.map (f := Row.change) fun a b he => Row.change.inj he
    rwa [List.map_map] at this
  exact @written_map _ _ Row.Val _ _ (fun r : Nat × ChangeRecord => Row.change r.1)
    (fun r => some r.2) hnodup _ hr

/-- A write set whose Changes are `records`. -/
theorem FeedStep.of_written {ws : List Write} {records : List (Nat × ChangeRecord)}
    (hpositive : ∀ r ∈ records, 0 < r.1) (hsorted : (records.map Prod.fst).Pairwise (· < ·))
    (hfresh : ∀ r ∈ records, ∀ r' ∈ feed wal, r'.1 < r.1)
    (hchange : ∀ seq, written ws (.change seq) = written (changeWrites records) (.change seq))
    (hmark : written ws .retention = none) : FeedStep S wal db (replay ws db) label records := by
  refine .appended hpositive hsorted hfresh (fun r hr => ?_) (fun seq hseq => ?_) ?_
  · rw [change_replay, hchange, written_changeWrites hsorted hr]
    rfl
  · rw [change_replay, hchange, written_eq_none_iff.mpr]
    · rfl
    · rw [changeWrites, List.map_map]
      intro hmem
      obtain ⟨r, hr, he⟩ := List.mem_map.mp hmem
      exact hseq (List.mem_map.mpr ⟨r, hr, Row.change.inj he⟩)
  · rw [purgedThrough_replay, hmark]
    rfl

/-- A mutation writes its Changes between other tables. -/
theorem FeedStep.of_records {front fin : List Write} {records : List (Nat × ChangeRecord)}
    {ctx : MutationContext} {pending : List PendingChange} (h : Numbered wal ctx pending records)
    (hfront : ∀ w ∈ front, w.1.table ≠ .changes) (hfront' : ∀ w ∈ front, w.1.table ≠ .retention)
    (hfin : OnTable .idempotency fin) :
    FeedStep S wal db (replay (front ++ (changeWrites records ++ fin)) db) label records := by
  have hnone : ∀ r : Row, (∀ w ∈ front, w.1.table ≠ r.table) → written front r = none := by
    intro r hr
    rw [written_eq_none_iff, List.mem_map]
    rintro ⟨w, hw, rfl⟩
    exact hr w hw rfl
  refine .of_written h.positive h.sorted h.fresh (fun seq => ?_) ?_
  · rw [written_append, written_append, hnone (.change seq) hfront, hfin.written (by simp)]
    simp
  · rw [written_append, written_append, hnone .retention hfront', hfin.written (by simp),
      (onTable_changeWrites records).written (by simp)]
    rfl

/-- A write set that leaves Changes and watermark alone. -/
theorem FeedStep.of_quiet {ws : List Write} (h : ∀ w ∈ ws, w.1.table ≠ .changes)
    (h' : ∀ w ∈ ws, w.1.table ≠ .retention) : FeedStep S wal db (replay ws db) label (feedOf ws) := by
  have hnone : ∀ r : Row, (∀ w ∈ ws, w.1.table ≠ r.table) → written ws r = none := by
    intro r hr
    rw [written_eq_none_iff, List.mem_map]
    rintro ⟨w, hw, rfl⟩
    exact hr w hw rfl
  rw [feedOf_eq_nil h]
  exact .of_written (by simp) .nil (by simp) (fun seq => hnone (.change seq) h) (hnone .retention h')

theorem written_deletes (seqs : List Nat) (seq : Nat) :
    written (seqs.map fun seq => (⟨.change seq, none⟩ : Write)) (.change seq) =
      if seq ∈ seqs then some none else none := by
  induction seqs with
  | nil => rfl
  | cons x seqs ih =>
    rw [List.map_cons]
    by_cases hx : x = seq
    · subst hx
      rw [written_cons_self, ih, if_pos (List.mem_cons_self ..)]
      split <;> rfl
    · rw [written_cons_ne fun he => hx (Row.change.inj he), ih]
      simp [Ne.symm hx]

/-- **Step.** -/
theorem Commits.feedStep {ws : List Write} (h : Commits S w wal db label ws) :
    FeedStep S wal db (replay ws db) label (feedOf ws) := by
  cases h with
  | createObject cmd hfresh hparent hfolder hrecords hfin =>
    rw [feedOf_cons_object, feedOf_rest hfin.onTable, ← List.singleton_append]
    exact .of_records hrecords (by simp) (by simp) hfin.onTable
  | patchObject cmd hlive hheld hmatch hroot htarget hchanged hdestination hwalk hrecords hfin =>
    rw [feedOf_cons_object, feedOf_rest hfin.onTable, ← List.singleton_append]
    exact .of_records hrecords (by simp) (by simp) hfin.onTable
  | @deleteObject cmd current targets rows records fin hlive hmatch hself hroot hnodup hclosed
      hbelow hordered hrows hdistinct hrecords hfin =>
    have hobjects := onTable_objects rows (fun r => r.1) fun r => some r.2
    have hgcs := onTable_enqueues (rows.filterMap fun r => r.2.blob) cmd.ctx.now
    rw [feedOf_append, feedOf_append, feedOf_rest hfin.onTable, hgcs.feedOf (by decide),
      hobjects.feedOf (by decide), ← List.append_assoc]
    exact .of_records hrecords
      (List.forall_mem_append.mpr ⟨hobjects.ne (by decide), hgcs.ne (by decide)⟩)
      (List.forall_mem_append.mpr ⟨hobjects.ne (by decide), hgcs.ne (by decide)⟩) hfin.onTable
  | @commitContent cmd upload current records fin hupload hstate htarget hblob hlive hfile
      hmatch hrecords hfin =>
    have hgcs := onTable_enqueues (supersededBlob current cmd).toList cmd.gcNotBefore
    have hstep : FeedStep S wal db (replay ((⟨.object cmd.objectId, some (cmd.row current)⟩ ::
        (enqueues (supersededBlob current cmd).toList cmd.gcNotBefore ++
          [⟨.upload cmd.uploadId, some (cmd.uploadRow upload)⟩])) ++
        (changeWrites records ++ fin)) db) (.commitContent cmd) records :=
      .of_records hrecords
        (List.forall_mem_cons.mpr ⟨by simp, List.forall_mem_append.mpr
          ⟨hgcs.ne (by decide), by simp⟩⟩)
        (List.forall_mem_cons.mpr ⟨by simp, List.forall_mem_append.mpr
          ⟨hgcs.ne (by decide), by simp⟩⟩) hfin.onTable
    rw [feedOf_cons_object, feedOf_append, feedOf_cons_upload, feedOf_rest hfin.onTable,
      hgcs.feedOf (by decide), List.nil_append]
    rwa [List.cons_append, List.append_assoc] at hstep
  | unpatched cmd _ _ hfin | uncommitted cmd _ _ _ _ _ _ _ hfin =>
    exact .of_quiet (hfin.onTable.ne (by decide)) (hfin.onTable.ne (by decide))
  | complete req hfin =>
    exact .of_quiet (hfin.onTable.ne (by decide)) (hfin.onTable.ne (by decide))
  | createUploadRecord | updateUploadState | finishGc | failGc | claim | steal | release |
    firstRead | nextRead =>
    exact .of_quiet (by simp [gcWrite, idempotencyWrite]) (by simp [gcWrite, idempotencyWrite])
  | abortUploadRecord cmd hupload hstate hgc =>
    rcases hgc with rfl | ⟨rfl, _⟩ <;>
      exact .of_quiet (by simp [enqueues, gcWrite]) (by simp [enqueues, gcWrite])
  | @claimGcBatch now limit entries hentries =>
    have hgc := OnTable.map entries (fun e => .gc e.1.1 e.1.2) (fun e => some e.2) fun _ => rfl
    exact .of_quiet (hgc.ne (by decide)) (hgc.ne (by decide))
  | @claimExpiredUploads now limit uploads huploads hdistinct =>
    have hup := OnTable.map uploads (fun e => .upload e.1) (fun e => some e.2.expired) fun _ => rfl
    have hgc := onTable_enqueues (uploads.map fun e => e.2.blob) now
    exact .of_quiet (List.forall_mem_append.mpr ⟨hup.ne (by decide), hgc.ne (by decide)⟩)
      (List.forall_mem_append.mpr ⟨hup.ne (by decide), hgc.ne (by decide)⟩)
  | @purgeChangeCursors now ids =>
    have hids := OnTable.map ids (fun id => .cursor id) (fun _ => none) fun _ => rfl
    exact .of_quiet (hids.ne (by decide)) (hids.ne (by decide))
  | @purgeIdempotencyRecords now keys =>
    have hkeys := OnTable.map keys (fun k => .idempotency k.1 k.2.1 k.2.2) (fun _ => none)
      fun _ => rfl
    exact .of_quiet (hkeys.ne (by decide)) (hkeys.ne (by decide))
  | @purgeChanges olderThan wal₀ seqs watermark hne hwal hrule hdue hrows hwatermark =>
    rw [feedOf_purge]
    refine .purged olderThan hne hwal hrule hdue hrows hwatermark ?_ fun seq => ?_
    · have hnone : written (seqs.map fun seq => (⟨.change seq, none⟩ : Write)) .retention = none :=
        (OnTable.map seqs (fun seq => .change seq) (fun _ => none) fun _ => rfl).written
          (by simp)
      rw [purgedThrough_replay, written_append, hnone, written_cons_self]
      rfl
    · rw [change_replay, written_append, written_cons_ne (by simp), written_deletes]
      split <;> rfl

/-! ## The invariant -/

structure FeedInv (wal : Journal) (db : Db) : Prop where
  positive : ∀ r ∈ feed wal, 0 < r.1
  sorted : ((feed wal).map Prod.fst).Pairwise (· < ·)
  present : ∀ seq c, db.change seq = some c → (seq, c) ∈ feed wal
  watermark : ∃ mark, db.purgedThrough = some mark ∧
    ∀ r ∈ feed wal, db.change r.1 = none → r.1 ≤ mark

/-- A sequence number has one record. -/
theorem FeedInv.unique (h : FeedInv wal db) {seq : Nat} {c c' : ChangeRecord}
    (hc : (seq, c) ∈ feed wal) (hc' : (seq, c') ∈ feed wal) : c = c' := by
  have hnodup : ((feed wal).map Prod.fst).Nodup := h.sorted.imp fun h => h.ne
  exact (Prod.ext_iff.mp (List.inj_on_of_nodup_map hnodup hc hc' rfl)).2

theorem FeedStep.inv {records : List (Nat × ChangeRecord)} {ws : List Write}
    (hs : FeedStep S wal db db' label records) (hinv : FeedInv wal db) (hfeed : feedOf ws = records) :
    FeedInv (wal ++ [(label, ws)]) db' := by
  have hsnoc : feed (wal ++ [(label, ws)]) = feed wal ++ records := by rw [feed_snoc, hfeed]
  obtain ⟨mark, hmark, hgone⟩ := hinv.watermark
  cases hs with
  | appended hpositive hsorted hfresh hrecords hrest hmark' =>
    have hold : ∀ r ∈ feed wal, r.1 ∉ records.map Prod.fst := by
      intro r hr hmem
      obtain ⟨r', hr', he⟩ := List.mem_map.mp hmem
      exact (hfresh r' hr' r hr).ne he.symm
    refine ⟨?_, ?_, fun seq c hc => ?_, mark, hmark'.trans hmark, fun r hr hnone => ?_⟩
    · rw [hsnoc]
      exact List.forall_mem_append.mpr ⟨hinv.positive, hpositive⟩
    · rw [hsnoc, List.map_append, List.pairwise_append]
      refine ⟨hinv.sorted, hsorted, fun a ha b hb => ?_⟩
      obtain ⟨r, hr, rfl⟩ := List.mem_map.mp ha
      obtain ⟨r', hr', rfl⟩ := List.mem_map.mp hb
      exact hfresh r' hr' r hr
    · rw [hsnoc, List.mem_append]
      by_cases hseq : seq ∈ records.map Prod.fst
      · obtain ⟨r, hr, rfl⟩ := List.mem_map.mp hseq
        obtain rfl : r.2 = c := Option.some.inj ((hrecords r hr).symm.trans hc)
        exact .inr hr
      · exact .inl (hinv.present seq c ((hrest seq hseq).symm.trans hc))
    · rw [hsnoc, List.mem_append] at hr
      rcases hr with hr | hr
      · exact hgone r hr ((hrest r.1 (hold r hr)).symm.trans hnone)
      · rw [hrecords r hr] at hnone
        cases hnone
  | @purged olderThan wal₀ seqs watermark hne hwal hrule hdue hrows hwatermark hmark' hchange =>
    rw [List.append_nil] at hsnoc
    obtain rfl : mark = watermark := Option.some.inj (hmark.symm.trans hwatermark)
    refine ⟨by rw [hsnoc]; exact hinv.positive, by rw [hsnoc]; exact hinv.sorted, fun seq c hc => ?_, _, hmark', fun r hr hnone => ?_⟩
    · rw [hchange] at hc
      split at hc
      · cases hc
      · rw [hsnoc]
        exact hinv.present seq c hc
    · rw [hsnoc] at hr
      rw [hchange] at hnone
      split at hnone
      · next hmem =>
        refine le_max_of_le_right ?_
        obtain ⟨m, hm⟩ := Option.isSome_iff_exists.mp (List.isSome_max?_of_mem hmem)
        rw [hm]
        exact (List.max?_eq_some_iff.mp hm).2 _ hmem
      · exact le_max_of_le_left (hgone r hr hnone)

theorem Serial.feedInv (h : Serial S w wal) : FeedInv wal (S.rows wal) := by
  induction h with
  | nil =>
    refine ⟨fun r hr => absurd hr List.not_mem_nil, .nil, fun seq c hc => ?_, 0, ?_,
      fun r hr => absurd hr List.not_mem_nil⟩
    · rw [Setting.rows_nil, Db.change, lookup_initialDb _ (by simp) (by simp)] at hc
      cases hc
    · exact AList.lookup_insert _
  | snoc _ hc ih =>
    rw [Setting.rows_snoc]
    exact hc.feedStep.inv ih rfl

theorem Serial.purgedThrough (h : Serial S w wal) : ∃ mark, (S.rows wal).purgedThrough = some mark :=
  have ⟨mark, hmark, _⟩ := h.feedInv.watermark
  ⟨mark, hmark⟩

/-! ## Runs -/

theorem feed_mono (hp : wal <+: wal') : feed wal <+: feed wal' := by
  obtain ⟨rest, rfl⟩ := hp
  exact ⟨feed rest, (List.flatMap_append ..).symm⟩

/-- Records are not changed. -/
theorem Serial.change_eq (h : Serial S w wal') (hp : wal <+: wal') {seq : Nat}
    {c c' : ChangeRecord} (hc : (S.rows wal).change seq = some c)
    (hc' : (S.rows wal').change seq = some c') : c = c' := by
  have hinv := h.feedInv
  refine hinv.unique ((feed_mono hp).subset ?_) (hinv.present seq c' hc')
  exact (h.of_prefix hp).feedInv.present seq c hc

/-- A record that is gone does not come back. -/
theorem Serial.change_gone (h : Serial S w wal') (hp : wal <+: wal') {r : Nat × ChangeRecord}
    (hr : r ∈ feed wal) (hnone : (S.rows wal).change r.1 = none) :
    (S.rows wal').change r.1 = none := by
  induction h with
  | nil => rwa [List.prefix_nil.mp hp] at hnone
  | snoc _ hc ih =>
    rcases List.prefix_concat_iff.mp hp with rfl | hpre
    · exact hnone
    · have hstep := hc.feedStep
      rw [Setting.rows_snoc]
      generalize feedOf _ = records at hstep
      cases hstep with
      | appended _ hsorted hfresh hrecords hrest hmark =>
        rw [hrest]
        · exact ih hpre
        · intro hmem
          obtain ⟨r', hr', he⟩ := List.mem_map.mp hmem
          exact (hfresh r' hr' r ((feed_mono hpre).subset hr)).ne he.symm
      | purged _ _ _ _ _ _ _ _ hchange =>
        rw [hchange, ih hpre, ite_self]

/-- No Changes are purged. -/
def Unpruned (wal : Journal) : Prop := ∀ e ∈ wal, ∀ olderThan, e.1 ≠ .purgeChanges olderThan

theorem Unpruned.of_prefix (h : Unpruned wal') (hp : wal <+: wal') : Unpruned wal :=
  fun e he => h e (hp.subset he)

/-- **Run.** Without a purge the watermark stays where it was. -/
theorem Serial.purgedThrough_zero (h : Serial S w wal) (hpurge : Unpruned wal) :
    (S.rows wal).purgedThrough = some 0 := by
  induction h with
  | nil => exact AList.lookup_insert _
  | @snoc wal label ws _ hc ih =>
    have hold := ih (hpurge.of_prefix (List.prefix_append ..))
    have hnone := hpurge _ (List.mem_append_right _ (List.mem_singleton_self _))
    have hstep := hc.feedStep
    rw [Setting.rows_snoc]
    generalize feedOf _ = records at hstep
    cases hstep with
    | appended _ _ _ _ _ hmark => rw [hmark, hold]
    | purged olderThan => exact absurd rfl (hnone olderThan)

/-! ## Windows -/

/-- The part of the feed with `lo < seq ≤ hi`. -/
def window (lo hi : Nat) (l : List (Nat × ChangeRecord)) : List (Nat × ChangeRecord) :=
  l.filter fun r => lo < r.1 ∧ r.1 ≤ hi

theorem Db.mem_seqs {seq : Nat} : seq ∈ db.seqs ↔ (db.change seq).isSome := by
  rw [Db.seqs, List.mem_filterMap, Db.change, AList.lookup_isSome, AList.mem_keys]
  constructor
  · rintro ⟨r, hr, he⟩
    cases r with
    | change seq' => rw [Option.some.injEq] at he; exact he ▸ hr
    | _ => cases he
  · exact fun h => ⟨_, h, rfl⟩

theorem Db.mem_changesBetween {lo hi : Nat} {r : Nat × ChangeRecord} :
    r ∈ db.changesBetween lo hi ↔ lo < r.1 ∧ r.1 ≤ hi ∧ db.change r.1 = some r.2 := by
  rw [Db.changesBetween, List.mem_filterMap]
  constructor
  · rintro ⟨seq, hseq, he⟩
    obtain ⟨c, hc, rfl⟩ := Option.map_eq_some_iff.mp he
    obtain ⟨_, hb⟩ := List.mem_filter.mp ((List.mem_insertionSort _).mp hseq)
    have hb : lo < seq ∧ seq ≤ hi := by simpa using hb
    exact ⟨hb.1, hb.2, hc⟩
  · rintro ⟨hlo, hhi, hc⟩
    refine ⟨r.1, (List.mem_insertionSort _).mpr (List.mem_filter.mpr
      ⟨Db.mem_seqs.mpr (by rw [hc]; rfl), by simp [hlo, hhi]⟩), by rw [hc]; rfl⟩

theorem Db.nodup_seqs : db.seqs.Nodup := by
  refine db.keys_nodup.filterMap fun r r' seq hr hr' => ?_
  cases r <;> cases r' <;> simp_all

theorem Db.changesBetween_sorted (lo hi : Nat) :
    (db.changesBetween lo hi).Pairwise fun a b => a.1 < b.1 := by
  have hle : ((db.seqs.filter fun seq => lo < seq ∧ seq ≤ hi).insertionSort (· ≤ ·)).Pairwise
      (· < ·) := by
    have hsorted := List.pairwise_insertionSort (· ≤ ·)
      (db.seqs.filter fun seq => lo < seq ∧ seq ≤ hi)
    have hnodup := ((List.perm_insertionSort (· ≤ ·)
      (db.seqs.filter fun seq => lo < seq ∧ seq ≤ hi)).nodup_iff).mpr (Db.nodup_seqs.filter _)
    exact hsorted.imp₂ (fun _ _ hle hne => lt_of_le_of_ne hle hne) hnodup
  refine List.pairwise_filterMap.mpr (hle.imp fun {a b} hab x hx y hy => ?_)
  obtain ⟨c, _, rfl⟩ := Option.map_eq_some_iff.mp hx
  obtain ⟨c', _, rfl⟩ := Option.map_eq_some_iff.mp hy
  exact hab

theorem FeedInv.pairwise (h : FeedInv wal db) : (feed wal).Pairwise fun a b => a.1 < b.1 :=
  List.pairwise_map.mp h.sorted

/-- Above the watermark the store shows all of the feed. -/
theorem FeedInv.changesBetween_eq (h : FeedInv wal db) {lo hi mark : Nat}
    (hmark : db.purgedThrough = some mark) (hlo : mark ≤ lo) :
    db.changesBetween lo hi = window lo hi (feed wal) := by
  have : Std.Antisymm fun a b : Nat × ChangeRecord => a.1 < b.1 := ⟨fun a b h h' => absurd h h'.asymm⟩
  have : Std.Irrefl fun a b : Nat × ChangeRecord => a.1 < b.1 := ⟨fun a h => absurd h (lt_irrefl _)⟩
  refine (Db.changesBetween_sorted lo hi).eq_of_mem_iff (h.pairwise.filter _) fun r => ?_
  rw [Db.mem_changesBetween, window, List.mem_filter, decide_eq_true_eq]
  constructor
  · rintro ⟨hl, hh, hc⟩
    exact ⟨h.present r.1 r.2 hc, hl, hh⟩
  · rintro ⟨hr, hl, hh⟩
    obtain ⟨mark', hmark', hgone⟩ := h.watermark
    obtain rfl : mark = mark' := Option.some.inj (hmark.symm.trans hmark')
    refine ⟨hl, hh, ?_⟩
    cases hc : db.change r.1 with
    | none => exact absurd (hgone r hr hc) (by omega)
    | some c =>
      have hmem : (r.1, r.2) ∈ feed wal := hr
      obtain rfl := h.unique hmem (h.present r.1 c hc)
      rfl

end AnyStore
