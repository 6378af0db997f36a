import AnyStore.Refinement.Uploads

/-!
# Maintenance

Claims and purges take rows one after the other. A row that was taken stays
locked, so what was seen of it holds until the commit; a row that was skipped
may change.
-/

namespace AnyStore

open ReadCommitted

variable {S : Setting} {t : Nat} {s s₁ s₂ s₃ : DbState} {sess : Session Row.Val Label}
variable {κ α : Type}

/-! ## Loops -/

/-- What every claim keeps holds after all of them. -/
theorem txp_claimEach {claim : κ → Stmt (Option α)} {I : List α → DbState → Prop}
    {P : List α → DbState → Prop}
    (hclaim : ∀ k acc s, I acc s → txp (contract S) t (run (claim k))
      (fun r s' => I (acc ++ r.toList) s') s)
    {n : Nat} {ks : List κ} {acc : List α} (hI : I acc s)
    (h : ∀ rest s', I (acc ++ rest) s' → P rest s') :
    txp (contract S) t (claimEach claim n ks) P s := by
  induction ks generalizing n acc s P with
  | nil =>
    have hdone : P [] s := h [] s (by rwa [List.append_nil])
    cases n <;> exact hdone
  | cons k ks ih =>
    cases n with
    | zero => exact h [] s (by rwa [List.append_nil])
    | succ n =>
      refine txp_bind (hclaim k acc s hI) fun r s₁ h₁ => ?_
      cases r with
      | none =>
        rw [Option.toList_none, List.append_nil] at h₁
        exact ih h₁ h
      | some a =>
        refine txp_seq (ih h₁ fun rest s₂ h₂ => h (a :: rest) s₂ ?_)
        rwa [Option.toList_some, List.append_assoc] at h₂

/-- One row after the other. -/
theorem txp_deleteEach {delete : κ → Stmt Bool} {I : List κ → List κ → DbState → Prop}
    {P : List κ → DbState → Prop}
    (hdelete : ∀ k ks acc s, I acc (k :: ks) s → txp (contract S) t (run (delete k))
      (fun r s' => I (if r then acc ++ [k] else acc) ks s') s)
    {ks acc : List κ} (hI : I acc ks s) (h : ∀ rest s', I (acc ++ rest) [] s' → P rest s') :
    txp (contract S) t (deleteEach delete ks) P s := by
  -- on the rows that are left
  induction ks generalizing acc s P with
  | nil => exact h [] s (by rwa [List.append_nil])
  | cons k ks ih =>
    refine txp_bind (hdelete k ks acc s hI) fun r s₁ h₁ => ?_
    cases r with
    | false => exact ih h₁ h
    | true =>
      refine txp_seq (ih h₁ fun rest s₂ h₂ => h (k :: rest) s₂ ?_)
      rwa [if_pos rfl, List.append_assoc] at h₂

/-! ## Garbage collection -/

/-- A transaction that has claimed the entries of a batch. -/
structure Claiming (S : Setting) (t : Nat) (label : Label) (batch : List BlobGcEntry)
    (s : DbState) : Prop where
  inv : StoreInv S s
  session : ∃ sess, ∃ entries : List ((String × String) × GcRow), s.session t = some sess ∧
    sess.label = label ∧ sess.log = entries.map (fun e => gcWrite e.1 (some e.2)) ∧
    (∀ e ∈ entries, ∀ s', Onward t s s' → Db.Queued s'.db e.1) ∧
    ∀ entry ∈ batch, ∃ e ∈ entries, e.1 = entry.blob

/-- One more entry may be claimed. -/
theorem Claiming.claimGc {label : Label} {now : Time} {k : String × String}
    {batch : List BlobGcEntry} (h : Claiming S t label batch s) :
    txp (contract S) t (run (claimGc now k))
      (fun r s' => Claiming S t label (batch ++ r.toList) s') s := by
  obtain ⟨_, sess, entries, hs, hlabel, hlog, hqueued, hbatch⟩ := h
  refine txp_run hs fun s₂ scan ans hr _ ha => ?_
  simp only [AnyStore.claimGc] at ha
  split at ha
  · obtain rfl := Except.ok.inj ha
    refine ⟨hr.inv, _, entries, hr.session, hr.label.trans hlabel,
      by rw [hr.log, hlog, List.append_nil], fun e he s' hon => hqueued e he s' (hr.onward.trans hon),
      by simpa using hbatch⟩
  · next g hg =>
    obtain rfl := Except.ok.inj ha
    have hview : (Db.gc (replay sess.log s₂.db) k.1 k.2).isSome := by
      rw [(Option.filter_eq_some_iff.mp hg).1]
      rfl
    -- the entry was there, if it was not claimed before
    have hk : Db.Queued s₂.db k := by
      rw [gc_replay] at hview
      cases hw : written sess.log (.gc k.1 k.2) with
      | none =>
        rw [hw] at hview
        exact hview
      | some v =>
        rw [hlog] at hw
        obtain ⟨e, he, heq⟩ := List.mem_map.mp (mem_of_written hw)
        have hkey := congrArg Sigma.fst heq
        obtain ⟨h₁, h₂⟩ := Row.gc.inj hkey
        have := hqueued e he s₂ hr.onward
        rwa [show e.1 = k from Prod.ext h₁ h₂] at this
    have hk' : ∀ s', Onward t s₂ s' → Db.Queued s'.db k := fun s' hon => by
      have hsame : Db.gc s'.db k.1 k.2 = Db.gc s₂.db k.1 k.2 :=
        hon.lookup hr.session (m := .noKeyUpdate)
          (List.mem_append_right _ (List.mem_append_right _ (List.mem_singleton_self _))) (by decide)
      rw [Db.Queued, hsame]
      exact hk
    refine ⟨hr.inv, _, entries ++ [(k, { g with notBefore := now + minutes gcLeaseMinutes })],
      hr.session, hr.label.trans hlabel, ?_, fun e he s' hon => ?_, fun entry hentry => ?_⟩
    · rw [hr.log, hlog, List.map_append]
      rfl
    · rcases List.mem_append.mp he with he | he
      · exact hqueued e he s' (hr.onward.trans hon)
      · obtain rfl := List.mem_singleton.mp he
        exact hk' s' hon
    · rcases List.mem_append.mp hentry with hentry | hentry
      · obtain ⟨e, he, heq⟩ := hbatch entry hentry
        exact ⟨e, List.mem_append_left _ he, heq⟩
      · obtain rfl := List.mem_singleton.mp hentry
        exact ⟨_, List.mem_append_right _ (List.mem_singleton_self _), rfl⟩

/-- **Claim.** Each entry of the batch has been claimed. -/
theorem serves_claimGcBatch {now : Time} {limit : Nat} (hs : s.session t = none) :
    Serves S t (claimGcBatch now limit) (fun batch s' => ∀ e ∈ batch, Claimed s'.wal e.blob) s := by
  refine serves_transaction hs fun s₁ _ hi hs₁ => ?_
  refine txp_seq (txp_run hs₁ fun s₂ scan ans hr _ ha => ?_)
  obtain rfl := Except.ok.inj ha
  have hstart : Claiming S t (.claimGcBatch now limit) [] s₂ :=
    ⟨hr.inv, _, [], hr.session, hr.label, hr.log, fun _ he => absurd he List.not_mem_nil,
      fun _ he => absurd he List.not_mem_nil⟩
  refine txp_claimEach (fun k batch s h => h.claimGc) hstart fun batch s₃ h => ?_
  obtain ⟨_, sess, entries, hs₃, hlabel, hlog, hqueued, hbatch⟩ := h
  have htable : OnTable .gc sess.log := by
    rw [hlog]
    exact OnTable.map entries (fun e => .gc e.1.1 e.1.2) (fun e => some e.2) fun _ => rfl
  refine committable_of_quiet hs₃ hlabel (htable.quiet (by decide)) (htable.feedOf (by decide))
    (fun s₄ hsince _ _ => ?_) fun s₄ s₅ _ _ _ _ hwal e he => ?_
  · rw [hlog]
    exact .claimGcBatch now limit fun e he => hqueued e he s₄ hsince.onward
  · obtain ⟨e', he', heq⟩ := hbatch e he
    have hmem : gcWrite e'.1 (some e'.2) ∈ sess.log := by
      rw [hlog]
      exact List.mem_map.mpr ⟨e', he', rfl⟩
    rw [entry, if_neg (List.ne_nil_of_mem hmem)] at hwal
    refine ⟨(.claimGcBatch now limit, sess.log), ?_, now, limit, some e'.2, rfl, heq ▸ hmem⟩
    rw [hwal]
    exact List.mem_append_right _ (List.mem_singleton_self _)

/-- An entry goes when its blob has gone. -/
theorem serves_finishGc {entry : BlobGcEntry} (hs : s.session t = none)
    (hdeleted : entry.blob ∈ s.world.deleted) :
    Serves S t (finishGc entry) (fun _ _ => True) s := by
  refine serves_quiet hs fun s₁ scan ans hr _ _ ha => ?_
  simp only [dequeueBlobGc, statement] at ha
  split at ha
  · obtain rfl := Except.ok.inj ha
    exact ⟨by simp, rfl, fun _ => .finishGc entry (hr.later.world.deleted _ hdeleted),
      fun _ _ _ _ => trivial⟩
  · obtain rfl := Except.ok.inj ha
    exact ⟨by simp, rfl, fun hne => absurd rfl hne, fun _ _ _ _ => trivial⟩

/-- An entry is tried again later. -/
theorem serves_failGc {entry : BlobGcEntry} {error : String} {retryAt : Time}
    (hs : s.session t = none) : Serves S t (failGc entry error retryAt) (fun _ _ => True) s := by
  refine serves_quiet hs fun s₁ scan ans hr _ _ ha => ?_
  simp only [statement] at ha
  split at ha
  · obtain rfl := Except.ok.inj ha
    exact ⟨by simp, rfl, fun hne => absurd rfl hne, fun _ _ _ _ => trivial⟩
  · next g hg =>
    obtain rfl := Except.ok.inj ha
    exact ⟨by simp, rfl, fun _ => .failGc entry error retryAt hg, fun _ _ _ _ => trivial⟩

/-! ## Expiry -/

/-- A transaction that has expired the uploads of a batch. -/
structure Expiring (S : Setting) (t : Nat) (label : Label) (now : Time) (batch : List UploadRecord)
    (s : DbState) : Prop where
  inv : StoreInv S s
  session : ∃ sess, ∃ uploads : List (UploadId × UploadRow), s.session t = some sess ∧
    sess.label = label ∧ sess.log = uploads.map (fun e => ⟨.upload e.1, some e.2.expired⟩) ∧
    batch = uploads.map (fun e => ⟨e.1, e.2.expired⟩) ∧ (uploads.map Prod.fst).Nodup ∧
    ∀ e ∈ uploads, e.2.expires now = true ∧
      ∀ s', Onward t s s' → Db.upload s'.db e.1 = some e.2

/-- The rows are written, each once. -/
theorem written_expired {uploads : List (UploadId × UploadRow)} (hnodup : (uploads.map Prod.fst).Nodup)
    {e : UploadId × UploadRow} (he : e ∈ uploads) :
    written (uploads.map fun e => (⟨.upload e.1, some e.2.expired⟩ : Write)) (.upload e.1) =
      some (some e.2.expired) := by
  have hrows : (uploads.map fun e => Row.upload e.1).Nodup := by
    have := hnodup.map (f := Row.upload) fun a b he => Row.upload.inj he
    rwa [List.map_map] at this
  exact @written_map _ _ Row.Val _ _ (fun e : UploadId × UploadRow => Row.upload e.1)
    (fun e => some e.2.expired) hrows _ he

/-- One more upload may expire. -/
theorem Expiring.expireUpload {label : Label} {now : Time} {id : UploadId}
    {batch : List UploadRecord} (h : Expiring S t label now batch s) :
    txp (contract S) t (run (expireUpload now id))
      (fun r s' => Expiring S t label now (batch ++ r.toList) s') s := by
  obtain ⟨_, sess, uploads, hs, hlabel, hlog, hbatch, hnodup, huploads⟩ := h
  refine txp_run hs fun s₂ scan ans hr _ ha => ?_
  simp only [AnyStore.expireUpload] at ha
  split at ha
  · obtain rfl := Except.ok.inj ha
    exact ⟨hr.inv, _, uploads, hr.session, hr.label.trans hlabel,
      by rw [hr.log, hlog, List.append_nil], by simpa using hbatch, hnodup, fun e he =>
        ⟨(huploads e he).1, fun s' hon => (huploads e he).2 s' (hr.onward.trans hon)⟩⟩
  · next u hu =>
    obtain rfl := Except.ok.inj ha
    obtain ⟨hview, hexpires⟩ := Option.filter_eq_some_iff.mp hu
    have hexpires : u.expires now = true := by
      have := of_decide_eq_true hexpires
      exact this.1
    -- an upload that was expired before does not expire again
    have hid : id ∉ uploads.map Prod.fst := by
      intro hmem
      obtain ⟨e, he, rfl⟩ := List.mem_map.mp hmem
      rw [upload_replay, hlog, written_expired hnodup he] at hview
      obtain rfl := Option.some.inj hview
      simp [UploadRow.expires, UploadRow.expired] at hexpires
    have hrow : Db.upload s₂.db id = some u := by
      rw [upload_replay, hlog, written_eq_none_iff.mpr] at hview
      · exact hview
      · intro hmem
        obtain ⟨w, hw, he⟩ := List.mem_map.mp hmem
        obtain ⟨e, hmem, rfl⟩ := List.mem_map.mp hw
        exact hid (List.mem_map.mpr ⟨e, hmem, Row.upload.inj he⟩)
    have hrow' : ∀ s', Onward t s₂ s' → Db.upload s'.db id = some u := fun s' hon =>
      (hon.lookup hr.session (m := .noKeyUpdate)
        (List.mem_append_right _ (List.mem_append_right _ (List.mem_singleton_self _)))
        (by decide)).trans hrow
    refine ⟨hr.inv, _, uploads ++ [(id, u)], hr.session, hr.label.trans hlabel, ?_, ?_, ?_,
      fun e he => ?_⟩
    · rw [hr.log, hlog, List.map_append]
      rfl
    · rw [hbatch, List.map_append]
      rfl
    · rw [List.map_append]
      exact List.nodup_append.mpr ⟨hnodup, List.nodup_singleton _, fun x hx y hy => by
        obtain rfl := List.mem_singleton.mp hy
        exact fun he => hid (he ▸ hx)⟩
    · rcases List.mem_append.mp he with he | he
      · exact ⟨(huploads e he).1, fun s' hon => (huploads e he).2 s' (hr.onward.trans hon)⟩
      · obtain rfl := List.mem_singleton.mp he
        exact ⟨hexpires, hrow'⟩

/-- What expires has not ended. -/
theorem UploadRow.expires.not_terminal {u : UploadRow} {now : Time} (h : u.expires now = true) :
    u.state.isTerminal = false := by
  have h' : u.expiresAt ≤ now ∧ (u.state = .initiating ∨ u.state = .ready ∨ u.state = .completing) :=
    of_decide_eq_true h
  obtain ⟨_, hs | hs | hs⟩ := h' <;> rw [hs] <;> rfl

/-- **Expiry.** Only uploads that are due expire. -/
theorem serves_claimExpiredUploads {now : Time} {limit : Nat} (hs : s.session t = none) :
    Serves S t (claimExpiredUploads now limit) (fun _ _ => True) s := by
  refine serves_transaction hs fun s₁ _ hi hs₁ => ?_
  refine txp_seq (txp_run hs₁ fun s₂ scan ans hr _ ha => ?_)
  obtain rfl := Except.ok.inj ha
  have hstart : Expiring S t (.claimExpiredUploads now limit) now [] s₂ :=
    ⟨hr.inv, _, [], hr.session, hr.label, hr.log, rfl, List.nodup_nil,
      fun _ he => absurd he List.not_mem_nil⟩
  refine txp_seq (txp_claimEach (fun id batch s h => h.expireUpload) hstart fun batch s₃ h => ?_)
  obtain ⟨hi₃, sess, uploads, hs₃, hlabel, hlog, hbatch, hnodup, huploads⟩ := h
  rw [List.nil_append] at hbatch
  have hup : OnTable .uploads sess.log := by
    rw [hlog]
    exact OnTable.map uploads (fun e => .upload e.1) (fun e => some e.2.expired) fun _ => rfl
  have hblobs : (batch.map fun u => some (u.row.blobBackend, u.row.blobRef)).filterMap id =
      uploads.map fun e => e.2.blob := by
    rw [hbatch]
    simp [List.filterMap_map, Function.comp_def, UploadRow.expired, UploadRow.blob]
  refine txp_seq (txp_enqueueBlobs hs₃ hi₃ ?_ (fun b hb => ⟨hup.written (by simp), ?_⟩)
    fun sess₄ s₄ hr₄ => ?_)
  · -- every blob belongs to one upload
    rw [hblobs]
    refine List.pairwise_map.mpr ((List.pairwise_map.mp hnodup).imp_of_mem ?_)
    intro e e' he he' hne hb
    exact hne (hi₃.blobInv.upload_unique ((huploads e he).2 s₃ (.refl t s₃))
      ((huploads e' he').2 s₃ (.refl t s₃)) (congrArg Prod.snd hb)).1
  · rw [hblobs] at hb
    obtain ⟨e, he, rfl⟩ := List.mem_map.mp hb
    exact fun s' hon hi' => hi'.not_queued_upload ((huploads e he).2 s' hon)
      (UploadRow.expires.not_terminal (huploads e he).1)
  rw [hblobs] at hr₄
  have hlog₄ : sess₄.log = uploads.map (fun e => ⟨.upload e.1, some e.2.expired⟩) ++
      enqueues (uploads.map fun e => e.2.blob) now := by
    rw [hr₄.log, hlog]
  have hgc := onTable_enqueues (uploads.map fun e => e.2.blob) now
  rw [hlog] at hup
  refine txp_ret (committable_of_quiet hr₄.session (hr₄.label.trans hlabel) ?_ ?_
    (fun s₅ hsince _ _ => ?_) fun _ _ _ _ _ _ _ => trivial)
  · rw [hlog₄]
    exact (hup.quiet (by decide)).append (hgc.quiet (by decide))
  · rw [hlog₄, feedOf_append, hup.feedOf (by decide), hgc.feedOf (by decide)]
    rfl
  · rw [hlog₄]
    exact .claimExpiredUploads now limit (fun e he =>
      ⟨(huploads e he).2 s₅ (hr₄.onward.trans hsince.onward), (huploads e he).1⟩) hnodup

/-! ## Purges -/

/-- A transaction that has deleted the rows of some keys. -/
structure Deleting (S : Setting) (t : Nat) (label : Label) (row : κ → Row) (deleted : List κ)
    (s : DbState) : Prop where
  inv : StoreInv S s
  session : ∃ sess, s.session t = some sess ∧ sess.label = label ∧
    sess.log = deleted.map fun k => ⟨row k, none⟩

/-- One more row may be deleted. -/
theorem Deleting.deleteRow {label : Label} {row : κ → Row} {deleted : List κ} {k : κ}
    {due : (row k).Val → Bool} (h : Deleting S t label row deleted s) :
    txp (contract S) t (run (deleteRow (row k) due))
      (fun r s' => Deleting S t label row (if r then deleted ++ [k] else deleted) s') s := by
  obtain ⟨_, sess, hs, hlabel, hlog⟩ := h
  refine txp_run hs fun s₂ scan ans hr _ ha => ?_
  simp only [AnyStore.deleteRow, statement] at ha
  split at ha
  · obtain rfl := Except.ok.inj ha
    refine ⟨hr.inv, _, hr.session, hr.label.trans hlabel, ?_⟩
    rw [hr.log, hlog, if_pos rfl, List.map_append]
    rfl
  · obtain rfl := Except.ok.inj ha
    refine ⟨hr.inv, _, hr.session, hr.label.trans hlabel, ?_⟩
    rw [hr.log, hlog, List.append_nil]
    rfl

/-- Old records are deleted, -/
theorem serves_purgeIdempotencyRecords {now : Time} (hs : s.session t = none) :
    Serves S t (purgeIdempotencyRecords now) (fun _ _ => True) s := by
  refine serves_transaction hs fun s₁ _ hi hs₁ => ?_
  refine txp_seq (txp_select hs₁ fun s₂ hr => ?_)
  have hstart : Deleting S t (.purgeIdempotencyRecords now)
      (fun k : PrincipalId × String × IdempotencyKey => .idempotency k.1 k.2.1 k.2.2) [] s₂ :=
    ⟨hr.inv, _, hr.session, hr.label, hr.log⟩
  refine txp_seq (txp_deleteEach (I := fun acc _ => Deleting S t _ _ acc)
    (fun k ks acc s h => h.deleteRow) hstart fun deleted s₃ h => ?_)
  obtain ⟨_, sess, hs₃, hlabel, hlog⟩ := h
  have htable : OnTable .idempotency sess.log := by
    rw [hlog]
    exact OnTable.map deleted (fun k => .idempotency k.1 k.2.1 k.2.2) (fun _ => none) fun _ => rfl
  refine txp_ret (committable_of_quiet hs₃ hlabel (htable.quiet (by decide))
    (htable.feedOf (by decide)) (fun s₄ _ _ _ => ?_) fun _ _ _ _ _ _ _ => trivial)
  rw [hlog]
  exact .purgeIdempotencyRecords now

/-- and old cursors. -/
theorem serves_purgeChangeCursors {now : Time} (hs : s.session t = none) :
    Serves S t (purgeChangeCursors now) (fun _ _ => True) s := by
  refine serves_transaction hs fun s₁ _ hi hs₁ => ?_
  refine txp_seq (txp_select hs₁ fun s₂ hr => ?_)
  have hstart : Deleting S t (.purgeChangeCursors now) (fun id : CursorId => .cursor id) [] s₂ :=
    ⟨hr.inv, _, hr.session, hr.label, hr.log⟩
  refine txp_seq (txp_deleteEach (I := fun acc _ => Deleting S t _ _ acc)
    (fun k ks acc s h => h.deleteRow) hstart fun deleted s₃ h => ?_)
  obtain ⟨_, sess, hs₃, hlabel, hlog⟩ := h
  have htable : OnTable .cursors sess.log := by
    rw [hlog]
    exact onTable_cursors _ (fun id => id) fun _ => none
  refine txp_ret (committable_of_reading hs₃ hlabel (htable.ne (by decide))
    (htable.feedOf (by decide)) (fun id row hw => ?_) (fun s₄ _ _ _ => ?_)
    fun _ _ _ _ _ _ _ => trivial)
  · -- rows only go
    have hmem := mem_of_written hw
    rw [hlog] at hmem
    obtain ⟨id', _, hnone⟩ := List.mem_map.mp hmem
    cases hnone
  · rw [hlog]
    exact .purgeChangeCursors now

/-! ## Purging Changes -/

/-- The record was due when the deletion began. -/
def Due (S : Setting) (wal₀ : Journal) (olderThan : Time) (seq : Nat) (c : ChangeRecord) : Prop :=
  (S.rows wal₀).change seq = some c ∧ c.changedAt < olderThan

/-- A purge that has dealt with the due records except `left`: it has deleted
`deleted`, and the others were gone. -/
structure Purging (S : Setting) (t : Nat) (olderThan : Time) (wal₀ : Journal)
    (deleted left : List Nat) (s : DbState) : Prop where
  deleting : Deleting S t (.purgeChanges olderThan) (fun seq : Nat => .change seq) deleted s
  wal : wal₀ <+: s.wal
  taken : ∀ seq ∈ deleted, ∃ c, Due S wal₀ olderThan seq c ∧
    ∀ s', Onward t s s' → Db.change s'.db seq = some c
  due : ∀ seq ∈ left, ∃ c, Due S wal₀ olderThan seq c
  passed : ∀ seq c, Due S wal₀ olderThan seq c → seq ∈ left ∨ seq ∈ deleted ∨
    ∀ s', Onward t s s' → StoreInv S s' → Db.change s'.db seq = none

variable {olderThan : Time} {wal₀ : Journal} {deleted left : List Nat}

/-- A record that is gone stays so. -/
theorem StoreInv.change_gone (hi : StoreInv S s) {c : ChangeRecord} {seq : Nat}
    (hwal : wal₀ <+: s.wal) (hdue : Due S wal₀ olderThan seq c) (hnone : Db.change s.db seq = none)
    {s' : DbState} (hl : Later s s') (hi' : StoreInv S s') : Db.change s'.db seq = none := by
  have hmem : (seq, c) ∈ feed s.wal :=
    (feed_mono hwal).subset ((hi.serial.of_prefix hwal).feedInv.present seq c hdue.1)
  rw [hi.db] at hnone
  rw [hi'.db]
  exact hi'.serial.change_gone hl.wal hmem hnone

/-- One more Change may be deleted. -/
theorem Purging.deleteRow {seq : Nat} (h : Purging S t olderThan wal₀ deleted (seq :: left) s) :
    txp (contract S) t (run (deleteRow (.change seq) fun c => c.changedAt < olderThan))
      (fun r s' => Purging S t olderThan wal₀ (if r then deleted ++ [seq] else deleted) left s') s := by
  obtain ⟨⟨_, sess, hs, hlabel, hlog⟩, hwal, htaken, hleft, hpassed⟩ := h
  obtain ⟨c, hdue⟩ := hleft seq (List.mem_cons_self ..)
  refine txp_run hs fun s₂ scan ans hr _ ha => ?_
  have hwal₂ : wal₀ <+: s₂.wal := hwal.trans hr.onward.later.wal
  have htaken₂ : ∀ seq ∈ deleted, ∃ c, Due S wal₀ olderThan seq c ∧
      ∀ s', Onward t s₂ s' → Db.change s'.db seq = some c := fun seq' hmem => by
    obtain ⟨c', hc', hkept⟩ := htaken seq' hmem
    exact ⟨c', hc', fun s' hon => hkept s' (hr.onward.trans hon)⟩
  have hleft₂ : ∀ seq ∈ left, ∃ c, Due S wal₀ olderThan seq c := fun seq' hmem =>
    hleft seq' (List.mem_cons_of_mem _ hmem)
  have hview : Db.change (replay sess.log s₂.db) seq =
      if seq ∈ deleted then none else Db.change s₂.db seq := by
    rw [change_replay, hlog, written_deletes]
    split <;> rfl
  simp only [AnyStore.deleteRow, statement] at ha
  split at ha
  · next hthere =>
    obtain rfl := Except.ok.inj ha
    -- the record is the one that was due
    have hrow : Db.change s₂.db seq = some c := by
      obtain ⟨c', hc', _⟩ := (Option.any_eq_true ..).mp hthere
      have hc' : Db.change (replay sess.log s₂.db) seq = some c' := hc'
      rw [hview] at hc'
      split at hc'
      · cases hc'
      · have heq := hr.inv.serial.change_eq hwal₂ hdue.1 (by rw [← hr.inv.db]; exact hc')
        rw [hc', heq]
    have hrow' : ∀ s', Onward t s₂ s' → Db.change s'.db seq = some c := fun s' hon =>
      (hon.lookup hr.session (m := .noKeyUpdate)
        (List.mem_append_right _ (List.mem_append_right _ (List.mem_singleton_self _)))
        (by decide)).trans hrow
    refine ⟨⟨hr.inv, _, hr.session, hr.label.trans hlabel, ?_⟩, hwal₂, ?_, hleft₂, ?_⟩
    · rw [hr.log, hlog, if_pos rfl, List.map_append]
      rfl
    · rw [if_pos rfl]
      refine List.forall_mem_append.mpr ⟨htaken₂, List.forall_mem_singleton.mpr ⟨c, hdue, hrow'⟩⟩
    · intro seq' c' hdue'
      rw [if_pos rfl, List.mem_append, List.mem_singleton]
      rcases hpassed seq' c' hdue' with hmem | hmem | hgone
      · rcases List.mem_cons.mp hmem with rfl | hmem
        · exact .inr (.inl (.inr rfl))
        · exact .inl hmem
      · exact .inr (.inl (.inl hmem))
      · exact .inr (.inr fun s' hon => hgone s' (hr.onward.trans hon))
  · next hthere =>
    obtain rfl := Except.ok.inj ha
    have hrow : seq ∈ deleted ∨ Db.change s₂.db seq = none := by
      by_contra hne
      obtain ⟨hnot, hsome⟩ := not_or.mp hne
      obtain ⟨c', hc'⟩ := Option.ne_none_iff_exists'.mp hsome
      have heq := hr.inv.serial.change_eq hwal₂ hdue.1 (by rw [← hr.inv.db]; exact hc')
      subst heq
      refine hthere ((Option.any_eq_true ..).mpr ⟨c, ?_, decide_eq_true hdue.2⟩)
      have := hview
      rw [if_neg hnot, hc'] at this
      exact this
    refine ⟨⟨hr.inv, _, hr.session, hr.label.trans hlabel, ?_⟩, hwal₂, htaken₂, hleft₂, ?_⟩
    · rw [hr.log, hlog, List.append_nil]
      rfl
    · intro seq' c' hdue'
      rcases hpassed seq' c' hdue' with hmem | hmem | hgone
      · rcases List.mem_cons.mp hmem with rfl | hmem
        · rcases hrow with hmem | hnone
          · exact .inr (.inl hmem)
          · exact .inr (.inr fun s' hon hi' =>
              hr.inv.change_gone hwal₂ hdue' hnone hon.later hi')
        · exact .inl hmem
      · exact .inr (.inl hmem)
      · exact .inr (.inr fun s' hon => hgone s' (hr.onward.trans hon))

/-- **Purge.** The watermark comes with the Changes that are deleted. -/
theorem serves_purgeChanges (hs : s.session t = none) :
    Serves S t (purgeChanges olderThan) (fun _ _ => True) s := by
  refine serves_transaction hs fun s₁ _ hi hs₁ => ?_
  refine txp_seq (txp_run hs₁ fun s₂ scan ans hr hrule ha => ?_)
  obtain rfl := Except.ok.inj ha
  have hrule : S.rule (.purgeChanges olderThan) (S.rows s₂.wal) := by
    rw [← hr.inv.db]
    exact hrule
  have hmem : ∀ seq, seq ∈ (Db.seqs s₂.db).filter (fun seq =>
      (Db.change s₂.db seq).any fun c => c.changedAt < olderThan) ↔
      ∃ c, Due S s₂.wal olderThan seq c := by
    intro seq
    simp only [Due, ← hr.inv.db]
    rw [List.mem_filter, Db.mem_seqs, Option.any_eq_true]
    constructor
    · rintro ⟨_, c, hc, hlt⟩
      exact ⟨c, hc, of_decide_eq_true hlt⟩
    · rintro ⟨c, hc, hlt⟩
      exact ⟨by rw [hc]; rfl, c, hc, decide_eq_true hlt⟩
  have hstart : Purging S t olderThan s₂.wal [] ((Db.seqs s₂.db).filter fun seq =>
      (Db.change s₂.db seq).any fun c => c.changedAt < olderThan) s₂ :=
    ⟨⟨hr.inv, _, hr.session, hr.label, hr.log⟩, List.prefix_rfl,
      fun _ h => absurd h List.not_mem_nil, fun seq h => (hmem seq).mp h,
      fun seq c hdue => .inl ((hmem seq).mpr ⟨c, hdue⟩)⟩
  refine txp_seq (txp_deleteEach (I := fun acc ks => Purging S t olderThan s₂.wal acc ks)
    (fun seq left deleted s h => h.deleteRow) hstart fun deleted s₃ h => ?_)
  obtain ⟨⟨hi₃, sess, hs₃, hlabel, hlog⟩, hwal, htaken, _, hpassed⟩ := h
  rw [List.nil_append] at hlog htaken hpassed
  refine txp_seq (txp_whenever (fun hne => ?_) fun hnil => ?_)
  · refine txp_run hs₃ fun s₄ scan ans hr₄ _ ha => ?_
    obtain ⟨mark, hmark⟩ : ∃ mark, Db.purgedThrough s₄.db = some mark := by
      rw [hr₄.inv.db]
      exact hr₄.inv.serial.purgedThrough
    have hview : Db.purgedThrough (replay sess.log s₄.db) = some mark := by
      rw [purgedThrough_replay, hlog, (OnTable.map deleted (fun seq => .change seq) (fun _ => none)
        fun _ => rfl : OnTable .changes _).written (by simp)]
      exact hmark
    simp only [raiseWatermark, statement, hview] at ha
    obtain rfl := Except.ok.inj ha
    have hmark' : ∀ s', Onward t s₄ s' → Db.purgedThrough s'.db = some mark := fun s' hon =>
      (hon.lookup hr₄.session (m := .noKeyUpdate)
        (List.mem_append_right _ (List.mem_append_right _ (List.mem_singleton_self _)))
        (by decide)).trans hmark
    have hlog₄ := hr₄.log
    rw [hlog] at hlog₄
    refine txp_ret (committable_of_quiet hr₄.session (hr₄.label.trans hlabel) ?_ ?_
      (fun s₅ hsince hi₅ _ => ?_) fun _ _ _ _ _ _ _ => trivial)
    · rw [hlog₄]
      exact fun w hw => ⟨purge_table_ne (by decide) (by decide) w hw,
        purge_table_ne (by decide) (by decide) w hw⟩
    · rw [hlog₄]
      exact feedOf_purge deleted _
    · rw [hlog₄]
      have hon := hr₄.onward.trans hsince.onward
      refine .purgeChanges olderThan hne (hwal.trans hon.later.wal) hrule
        (fun seq c hc hlt => ?_) (fun seq hseq => ?_) (hmark' s₅ hsince.onward)
      · rcases hpassed seq c ⟨hc, hlt⟩ with h | h | h
        · exact absurd h List.not_mem_nil
        · exact .inl h
        · exact .inr (h s₅ hon hi₅)
      · obtain ⟨c, ⟨hc, hlt⟩, hkept⟩ := htaken seq hseq
        exact ⟨c, hc, hkept s₅ hon, hlt⟩
  · have hnil : deleted = [] := by simpa using hnil
    subst hnil
    refine txp_ret (committable_of_quiet hs₃ hlabel (by rw [hlog]; simp) (by rw [hlog]; rfl)
      (fun _ _ _ hne => absurd hlog hne) fun _ _ _ _ _ _ _ => trivial)

end AnyStore
