import AnyStore.Refinement.System
import AnyStore.Spec.History

/-!
# Garbage collection

What a garbage collection pass has claimed is out of reach for good, so that
live content is never removed; and every blob that was ever named by an upload
is content, can still be collected, or was.

## Results

* `live_content_kept`: no live object points to a blob that was claimed or that
  the provider has deleted, and an upload that failed is never completed.
* `no_blob_leaked`: the blob of every upload that was ever recorded is content,
  belongs to an upload that is still open, is queued, or was collected after the
  provider had deleted it.

## Assumptions

Every run. What the provider has deleted is `World.deleted`; a delete that fails
or whose answer is lost leaves the entry in the queue.
-/

namespace AnyStore

open ReadCommitted

variable {S : Setting} {w : World} {wal wal' : Journal} {c : System} {b : String × String}

/-! ## Claimed blobs -/

/-- **Run.** What is doomed once stays so: no later commit makes content of it. -/
theorem Serial.doomed_mono (h : Serial S w wal') (hp : wal <+: wal') (hd : Doomed (S.rows wal) b) :
    Doomed (S.rows wal') b := by
  induction h with
  | nil => rwa [List.prefix_nil.mp hp] at hd
  | snoc hserial hc ih =>
    -- one commit more, by the step of the blob invariant
    rcases List.prefix_concat_iff.mp hp with rfl | hp
    · exact hd
    · rw [Setting.rows_snoc]
      exact (ih hp).step hserial.blobInv (hc.blobStep hserial.blobInv)

/-- Only queued blobs are claimed, and what is queued is doomed. -/
theorem Serial.doomed (h : Serial S w wal) (hclaimed : Claimed wal b) : Doomed (S.rows wal) b := by
  obtain ⟨⟨label, ws⟩, he, now, limit, g, hlabel, hw⟩ := hclaimed
  obtain ⟨wal₁, wal₂, hwal⟩ := List.append_of_mem he
  have hp : wal₁ ++ [(label, ws)] <+: wal := ⟨wal₂, by rw [hwal]; simp⟩
  have hp₁ : wal₁ <+: wal := (List.prefix_append ..).trans hp
  -- the claim was made on the rows of `wal₁`, where the blob was queued
  refine h.doomed_mono hp₁ ((h.of_prefix hp₁).blobInv.queued b ?_)
  have hcommit := h.commits hp
  obtain rfl : label = .claimGcBatch now limit := hlabel
  have hw : gcWrite b g ∈ ws := hw
  generalize hl : Label.claimGcBatch now limit = l at hcommit
  cases hcommit with
  | @claimGcBatch now' limit' entries hentries =>
    obtain ⟨entry, hentry, heq⟩ := List.mem_map.mp hw
    have hrow := congrArg Sigma.fst heq
    have hfirst : entry.1 = b := by
      injection hrow with h₁ h₂
      exact Prod.ext h₁ h₂
    show ((S.rows wal₁).gc b.1 b.2).isSome
    rw [← hfirst]
    exact hentries entry hentry
  -- the one other commit whose label is a variable is a lease taken over
  | steal _ hsteal =>
    subst hl
    rcases hsteal with hsteal | hsteal <;> cases hsteal
  | _ => cases hl

/-- **Run.** Uploads stay with their blob, and a failed upload stays failed. -/
theorem Serial.upload_mono (h : Serial S w wal') (hp : wal <+: wal') {id : UploadId} {u : UploadRow}
    (hu : (S.rows wal).upload id = some u) : ∃ u', (S.rows wal').upload id = some u' ∧
      u'.blob = u.blob ∧ u'.objectId = u.objectId ∧ (u.state = .completed → u'.state = .completed) ∧
      (u.state.Failed → u'.state.Failed) := by
  induction h with
  -- by induction on the commits that came between
  | nil => exact ⟨u, List.prefix_nil.mp hp ▸ hu, rfl, rfl, fun h => h, fun h => h⟩
  | snoc hserial hc ih =>
    rcases List.prefix_concat_iff.mp hp with rfl | hp
    · exact ⟨u, hu, rfl, rfl, fun h => h, fun h => h⟩
    · obtain ⟨v, hv, hblob, hobj, hcompleted, hfailed⟩ := ih hp
      obtain ⟨v', hv', hblob', hobj', hcompleted', hfailed'⟩ :=
        (hc.blobStep hserial.blobInv).upload id v hv
      rw [Setting.rows_snoc]
      exact ⟨v', hv', hblob'.trans hblob, hobj'.trans hobj, fun h => hcompleted' (hcompleted h),
        fun h => hfailed' (hfailed h)⟩

/-- No live object points to the blob. -/
def Unreachable (db : Db) (b : String × String) : Prop :=
  ∀ id o, db.live id = some o → o.blob ≠ some b

/-- Garbage collection leaves live content alone. -/
structure LiveContentKept (S : Setting) (c : System) : Prop where
  claimed : ∀ b, Claimed c.state.wal b → Unreachable c.state.db b
  removed : ∀ b ∈ c.state.world.deleted, Unreachable c.state.db b
  failed : ∀ wal id u u', wal <+: c.state.wal → (S.rows wal).upload id = some u →
    u.state.Failed → Db.upload c.state.db id = some u' → u'.state ≠ .completed

/-- **Content is kept.** All three follow from what is doomed at the end of the run. -/
theorem live_content_kept (h : S.Runs c) : LiveContentKept S c where
  claimed b hb := by
    rw [h.storeInv.db]
    exact (h.storeInv.serial.doomed hb).2
  -- a blob was claimed before it was removed
  removed b hb := by
    rw [h.storeInv.db]
    exact (h.storeInv.serial.doomed (h.storeInv.world.deleted b hb)).2
  -- a failed upload is failed for good
  failed wal id u u' hp hu hfailed hu' := by
    rw [h.storeInv.db] at hu'
    obtain ⟨v, hv, _, _, _, hv'⟩ := h.storeInv.serial.upload_mono hp hu
    obtain rfl : v = u' := Option.some.inj (hv.symm.trans hu')
    intro hcompleted
    have hfailed' := hv' hfailed
    rw [hcompleted] at hfailed'
    rcases hfailed' with h | h <;> cases h

/-- A file is created and gets content, is deleted, and its blob is collected. -/
def collectedAfterDelete : List (Move Request (Choice Row Env)) :=
  alone 0 (sampleCreate none "a" .file "A" 1) 9 {} ++ alone 1 (sampleUpload none "a" 3 2) 9 uploading ++
    alone 2 (sampleComplete "upload_u" 3) 17 uploading ++
    alone 3 (sampleDelete "a" none false 4) 8 {} ++ alone 4 (.collectBlobs 100) 6 {}

/-- The run of `collectedAfterDelete`, in which the blob is removed. -/
theorem live_content_kept_collected : ∃ c, (Setting.free (sampleApp .sqlx) 0).Runs c ∧
    c.state.world.deleted = [("tencent-cos", "blobs/upload_u")] ∧
    LiveContentKept (Setting.free (sampleApp .sqlx) 0) c := by
  obtain ⟨c, hc, hdeleted⟩ := Setting.free_runs (sampleApp .sqlx) 0 collectedAfterDelete
    (fun c => c.state.world.deleted) (a := [("tencent-cos", "blobs/upload_u")]) (by decide +kernel)
  exact ⟨c, hc, hdeleted, live_content_kept hc⟩

/-! ## No leaks -/

/-- An entry is dropped only when the provider has deleted the blob. -/
theorem Serial.collected (h : Serial S w wal) (hb : Collected wal b) : b ∈ w.deleted := by
  obtain ⟨⟨label, ws⟩, he, entry, hlabel, rfl⟩ := hb
  obtain ⟨wal₁, wal₂, hwal⟩ := List.append_of_mem he
  have hp : wal₁ ++ [(label, ws)] <+: wal := ⟨wal₂, by rw [hwal]; simp⟩
  have hcommit := h.commits hp
  obtain rfl : label = .finishGc entry := hlabel
  generalize hl : Label.finishGc entry = l at hcommit
  -- only the end of a collection drops an entry, and it has seen the delete
  cases hcommit with
  | finishGc entry' hdeleted =>
    obtain rfl := Label.finishGc.inj hl
    exact hdeleted
  | steal _ hsteal =>
    subst hl
    rcases hsteal with hsteal | hsteal <;> cases hsteal
  | _ => cases hl

/-- What has become of the blob of an upload. -/
inductive BlobFate (s : DbState) (u : UploadRow) : Prop
  | content (h : Db.IsContent s.db u.blob)
  | pending (h : u.state.isTerminal = false)
  | queued (h : Db.Queued s.db u.blob)
  | collected (hfinished : Collected s.wal u.blob) (hdeleted : u.blob ∈ s.world.deleted)

/-- Every upload that was ever recorded has a blob that is accounted for. -/
def NoLeak (S : Setting) (c : System) : Prop :=
  ∀ wal id u, wal <+: c.state.wal → (S.rows wal).upload id = some u →
    ∃ u', Db.upload c.state.db id = some u' ∧ u'.blob = u.blob ∧ BlobFate c.state u'

/-- **No leak.** The upload is still there, and the invariant accounts for its blob. -/
theorem no_blob_leaked (h : S.Runs c) : NoLeak S c := by
  intro wal id u hp hu
  have hserial := h.storeInv.serial
  obtain ⟨u', hu', hblob, _⟩ := hserial.upload_mono hp hu
  have hacc := hserial.accounted
  rw [← h.storeInv.db] at hu' hacc
  refine ⟨u', hu', hblob, ?_⟩
  rcases hacc id u' hu' with hcontent | hpending | hqueued | hcollected
  · exact .content hcontent
  · exact .pending hpending
  · exact .queued hqueued
  · exact .collected hcollected (hserial.collected hcollected)

/-- The same run: the upload stays, and nothing is queued any more. -/
theorem no_blob_leaked_collected : ∃ c, (Setting.free (sampleApp .sqlx) 0).Runs c ∧
    Db.uploadIds c.state.db = ["upload_u"] ∧ Db.gcKeys c.state.db = [] ∧
    NoLeak (Setting.free (sampleApp .sqlx) 0) c := by
  obtain ⟨c, hc, hend⟩ := Setting.free_runs (sampleApp .sqlx) 0 collectedAfterDelete
    (fun c => (Db.uploadIds c.state.db, Db.gcKeys c.state.db)) (a := (["upload_u"], []))
    (by decide +kernel)
  obtain ⟨hids, hkeys⟩ := Prod.mk.inj hend
  exact ⟨c, hc, hids, hkeys, no_blob_leaked hc⟩

end AnyStore
