import AnyStore.Spec.Tree

/-!
# Blobs

The life of a blob: an upload names it, a committed upload makes it the content
of its object, and once nothing can refer to it any more it is queued for
garbage collection.

* `BlobStep` — what a commit may do to uploads, content pointers and the queue.
* `BlobInv` — a content pointer belongs to a completed upload of that object,
  and a queued blob is `Doomed`: its upload is over and no live object has it.
* `Doomed.step` — a doomed blob stays doomed.
* `Accounted` — no blob is leaked: it is content, its upload can still be
  ended, it is queued, or it was collected.
-/

namespace AnyStore

open ReadCommitted

variable {S : Setting} {w : World} {wal : Journal} {db db' : Db} {label : Label}

/-! ## Steps -/

def Db.Queued (db : Db) (b : String × String) : Prop := (db.gc b.1 b.2).isSome

/-- The upload ended without becoming content. -/
def UploadState.Failed (s : UploadState) : Prop := s = .aborted ∨ s = .expired

/-- What one commit does to uploads, content pointers and the queue. -/
structure BlobStep (label : Label) (db db' : Db) : Prop where
  upload : ∀ id u, db.upload id = some u → ∃ u', db'.upload id = some u' ∧ u'.blob = u.blob ∧
    u'.objectId = u.objectId ∧ (u.state = .completed → u'.state = .completed) ∧
    (u.state.Failed → u'.state.Failed)
  created : ∀ id u', db'.upload id = some u' → db.upload id = none →
    u'.blobRef = blobRefFor id ∧ u'.state.isTerminal = false
  pointer : ∀ id o' b, db'.object id = some o' → o'.blob = some b →
    (∃ o, db.object id = some o ∧ o.blob = some b ∧ o'.contentState = o.contentState ∧
      (o'.deletedAt = none → o.deletedAt = none)) ∨
    (o'.contentState = some .ready ∧ ∃ uid u u', db.upload uid = some u ∧
      u.state.isTerminal = false ∧ u.blob = b ∧ u.objectId = id ∧ db'.upload uid = some u' ∧
      u'.state = .completed)
  queued : ∀ b, db'.Queued b → db.Queued b ∨
    (∃ id o, db.live id = some o ∧ o.blob = some b ∧
      ∀ o', db'.live id = some o' → o'.blob ≠ some b) ∨
    (∃ uid u u', db.upload uid = some u ∧ u.state ≠ .completed ∧ u.blob = b ∧
      db'.upload uid = some u' ∧ u'.state.Failed)
  ended : ∀ uid u u', db.upload uid = some u → db'.upload uid = some u' →
    u.state.isTerminal = false → u'.state.isTerminal = true → db'.Queued u.blob ∨
    ∃ id o, db'.live id = some o ∧ o.contentState = some .ready ∧ o.blob = some u.blob
  dropped : ∀ id o b, db.live id = some o → o.blob = some b → db'.Queued b ∨
    ∃ o', db'.live id = some o' ∧ o'.contentState = o.contentState ∧ o'.blob = some b
  kept : ∀ b, db.Queued b → db'.Queued b ∨ ∃ entry : BlobGcEntry,
    label = .finishGc entry ∧ entry.blob = b

namespace BlobStep

/-- A row of an object that keeps its content pointer. -/
structure SameContent (o o' : ObjectRow) : Prop where
  blob : o'.blob = o.blob
  state : o'.contentState = o.contentState
  deleted : o'.deletedAt = o.deletedAt

/-- Uploads and queue stay; objects keep their content or come without. -/
theorem objects (hup : ∀ id, db'.upload id = db.upload id)
    (hgc : ∀ b r, db'.gc b r = db.gc b r)
    (hobj : ∀ id o, db.object id = some o → ∃ o', db'.object id = some o' ∧ SameContent o o')
    (hnew : ∀ id o', db'.object id = some o' → db.object id = none → o'.blob = none) :
    BlobStep label db db' := by
  have hqueued : ∀ b, db'.Queued b ↔ db.Queued b := fun b => by rw [Db.Queued, hgc, Db.Queued]
  refine ⟨fun id u hu => ⟨u, (hup id).trans hu, rfl, rfl, fun h => h, fun h => h⟩, fun id u' hu' hu => ?_,
    fun id o' b ho' hb => .inl ?_, fun b hb => .inl ((hqueued b).mp hb),
    fun uid u u' hu hu' hn ht => ?_, fun id o b ho hb => .inr ?_,
    fun b hb => .inl ((hqueued b).mpr hb)⟩
  · rw [hup, hu] at hu'
    cases hu'
  · cases ho : db.object id with
    | none =>
      rw [hnew id o' ho' ho] at hb
      cases hb
    | some o =>
      obtain ⟨o'', ho'', hsame⟩ := hobj id o ho
      obtain rfl : o' = o'' := Option.some.inj (ho'.symm.trans ho'')
      exact ⟨o, rfl, hsame.blob ▸ hb, hsame.state, fun h => hsame.deleted ▸ h⟩
  · rw [hup, hu, Option.some.injEq] at hu'
    subst hu'
    rw [hn] at ht
    cases ht
  · obtain ⟨ho, hlive⟩ := Db.live_eq_some.mp ho
    obtain ⟨o', ho', hsame⟩ := hobj id o ho
    exact ⟨o', Db.live_eq_some.mpr ⟨ho', hsame.deleted.trans hlive⟩, hsame.state,
      hsame.blob.trans hb⟩

/-- Objects stay. -/
theorem uploads (hobj : ∀ id, db'.object id = db.object id)
    (hup : ∀ id u, db.upload id = some u → ∃ u', db'.upload id = some u' ∧ u'.blob = u.blob ∧
      u'.objectId = u.objectId ∧ (u.state = .completed → u'.state = .completed) ∧
      (u.state.Failed → u'.state.Failed))
    (hnew : ∀ id u', db'.upload id = some u' → db.upload id = none →
      u'.blobRef = blobRefFor id ∧ u'.state.isTerminal = false)
    (hqueued : ∀ b, db'.Queued b → db.Queued b ∨ ∃ uid u u', db.upload uid = some u ∧
      u.state ≠ .completed ∧ u.blob = b ∧ db'.upload uid = some u' ∧ u'.state.Failed)
    (hended : ∀ uid u u', db.upload uid = some u → db'.upload uid = some u' →
      u.state.isTerminal = false → u'.state.isTerminal = true → db'.Queued u.blob)
    (hkept : ∀ b, db.Queued b → db'.Queued b ∨ ∃ entry : BlobGcEntry,
      label = .finishGc entry ∧ entry.blob = b) : BlobStep label db db' := by
  refine ⟨hup, hnew, fun id o' b ho' hb => .inl ⟨o', hobj id ▸ ho', hb, rfl, fun h => h⟩,
    fun b hb => (hqueued b hb).imp_right .inr,
    fun uid u u' hu hu' hn ht => .inl (hended uid u u' hu hu' hn ht),
    fun id o b ho hb => .inr ⟨o, (Db.live_congr (hobj id)).trans ho, rfl, hb⟩, hkept⟩

/-- Only the queue changes. -/
theorem queue (hobj : ∀ id, db'.object id = db.object id)
    (hup : ∀ id, db'.upload id = db.upload id) (hqueued : ∀ b, db'.Queued b → db.Queued b)
    (hkept : ∀ b, db.Queued b → db'.Queued b ∨ ∃ entry : BlobGcEntry,
      label = .finishGc entry ∧ entry.blob = b) : BlobStep label db db' := by
  refine .uploads hobj (fun id u hu => ⟨u, (hup id).trans hu, rfl, rfl, fun h => h, fun h => h⟩)
    (fun id u' hu' hu => ?_) (fun b hb => .inl (hqueued b hb)) (fun uid u u' hu hu' hn ht => ?_)
    hkept
  · rw [hup, hu] at hu'
    cases hu'
  · rw [hup, hu, Option.some.injEq] at hu'
    subst hu'
    rw [hn] at ht
    cases ht

end BlobStep

/-! ## The invariant -/

/-- The upload of the blob is over and no live object has it for content. -/
def Doomed (db : Db) (b : String × String) : Prop :=
  (∃ uid u, db.upload uid = some u ∧ u.blob = b ∧ u.state.isTerminal = true) ∧
    ∀ id o, db.live id = some o → o.blob ≠ some b

structure BlobInv (db : Db) : Prop where
  named : ∀ id u, db.upload id = some u → u.blobRef = blobRefFor id
  pointer : ∀ id o b, db.object id = some o → o.blob = some b → o.contentState = some .ready ∧
    ∃ uid u, db.upload uid = some u ∧ u.state = .completed ∧ u.blob = b ∧ u.objectId = id
  queued : ∀ b, db.Queued b → Doomed db b

/-- A blob belongs to one upload. -/
theorem BlobInv.upload_unique (h : BlobInv db) {i j : UploadId} {u v : UploadRow}
    (hu : db.upload i = some u) (hv : db.upload j = some v) (hb : u.blobRef = v.blobRef) :
    i = j ∧ u = v := by
  have hij : i = j := blobRefFor_injective (by rw [← h.named i u hu, ← h.named j v hv, hb])
  subst hij
  exact ⟨rfl, Option.some.inj (hu.symm.trans hv)⟩

theorem UploadState.Failed.isTerminal {s : UploadState} (h : s.Failed) : s.isTerminal = true := by
  rcases h with rfl | rfl <;> rfl

theorem UploadState.isTerminal_iff {s : UploadState} :
    s.isTerminal = true ↔ s = .completed ∨ s.Failed := by
  cases s <;> simp [UploadState.isTerminal, UploadState.Failed]

/-- A blob that is the content of an object belongs to no upload that is still
going on or failed. -/
theorem BlobInv.completed (h : BlobInv db) {id : ObjectId} {o : ObjectRow} {b : String × String}
    (ho : db.object id = some o) (hb : o.blob = some b) {uid : UploadId} {u : UploadRow}
    (hu : db.upload uid = some u) (hub : u.blob = b) : u.state = .completed ∧ u.objectId = id := by
  obtain ⟨_, uid', u', hu', hs, hb', hid⟩ := h.pointer id o b ho hb
  obtain ⟨_, rfl⟩ := h.upload_unique hu hu' (congrArg Prod.snd (hub.trans hb'.symm))
  exact ⟨hs, hid⟩

/-- A doomed blob stays doomed. -/
theorem Doomed.step {b : String × String} (h : Doomed db b) (hinv : BlobInv db)
    (hs : BlobStep label db db') : Doomed db' b := by
  obtain ⟨⟨uid, u, hu, hb, ht⟩, hfree⟩ := h
  refine ⟨?_, fun id o' ho' hb' => ?_⟩
  · obtain ⟨u', hu', hblob, _, hc, hf⟩ := hs.upload uid u hu
    refine ⟨uid, u', hu', hblob.trans hb, UploadState.isTerminal_iff.mpr ?_⟩
    exact (UploadState.isTerminal_iff.mp ht).imp hc hf
  · obtain ⟨ho', hlive'⟩ := Db.live_eq_some.mp ho'
    rcases hs.pointer id o' b ho' hb' with ⟨o, ho, hbo, _, hlive⟩ | ⟨_, uid', u', v, hu', hn, hb'', _⟩
    · exact hfree id o (Db.live_eq_some.mpr ⟨ho, hlive hlive'⟩) hbo
    · -- a new pointer is to the blob of an upload that was not over
      obtain ⟨_, rfl⟩ := hinv.upload_unique hu hu' (congrArg Prod.snd (hb.trans hb''.symm))
      rw [ht] at hn
      cases hn

/-- **Step.** -/
theorem BlobStep.inv (hs : BlobStep label db db') (hinv : BlobInv db) : BlobInv db' := by
  refine ⟨fun id u' hu' => ?_, fun id o' b ho' hb => ?_, fun b hb => ?_⟩
  · cases hu : db.upload id with
    | none => exact (hs.created id u' hu' hu).1
    | some u =>
      obtain ⟨v, hv, hblob, _⟩ := hs.upload id u hu
      obtain rfl : v = u' := Option.some.inj (hv.symm.trans hu')
      exact (congrArg Prod.snd hblob).trans (hinv.named id u hu)
  · rcases hs.pointer id o' b ho' hb with ⟨o, ho, hbo, hcs, _⟩ | ⟨hcs, uid, u, u', hu, _, hub, hid, hu', hc⟩
    · obtain ⟨hready, uid, u, hu, hc, hub, hid⟩ := hinv.pointer id o b ho hbo
      obtain ⟨u', hu', hblob, hobj, hcompleted, _⟩ := hs.upload uid u hu
      exact ⟨hcs.trans hready, uid, u', hu', hcompleted hc, hblob.trans hub, hobj.trans hid⟩
    · obtain ⟨v, hv, hblob, hobj, _⟩ := hs.upload uid u hu
      obtain rfl : v = u' := Option.some.inj (hv.symm.trans hu')
      exact ⟨hcs, uid, v, hv, hc, hblob.trans hub, hobj.trans hid⟩
  · rcases hs.queued b hb with hq | ⟨id, o, ho, hbo, hgone⟩ | ⟨uid, u, u', hu, hnc, hub, hu', hf⟩
    · exact (hinv.queued b hq).step hinv hs
    · -- the content of an object that is deleted or got other content
      obtain ⟨ho, hlive⟩ := Db.live_eq_some.mp ho
      obtain ⟨_, uid, u, hu, hc, hub, hid⟩ := hinv.pointer id o b ho hbo
      obtain ⟨u', hu', hblob, _, hcompleted, _⟩ := hs.upload uid u hu
      refine ⟨⟨uid, u', hu', hblob.trans hub, by rw [hcompleted hc]; rfl⟩, fun x p hp hbp => ?_⟩
      have hp' := hp
      obtain ⟨hp, hplive⟩ := Db.live_eq_some.mp hp
      rcases hs.pointer x p b hp hbp with ⟨q, hq, hbq, _, _⟩ | ⟨_, uid', v, v', hv, hn, hbv, _⟩
      · have hx := (hinv.completed hq hbq hu hub).2
        exact hgone p (by rw [← hid, hx]; exact hp') hbp
      · obtain ⟨_, rfl⟩ := hinv.upload_unique hu hv (congrArg Prod.snd (hub.trans hbv.symm))
        rw [hc] at hn
        cases hn
    · -- the blob of an upload that failed
      refine ⟨⟨uid, u', hu', ?_, hf.isTerminal⟩, fun x p hp hbp => ?_⟩
      · obtain ⟨v, hv, hblob, _⟩ := hs.upload uid u hu
        obtain rfl : v = u' := Option.some.inj (hv.symm.trans hu')
        exact hblob.trans hub
      · obtain ⟨hp, _⟩ := Db.live_eq_some.mp hp
        rcases hs.pointer x p b hp hbp with ⟨q, hq, hbq, _, _⟩ | ⟨_, uid', v, v', hv, _, hbv, _, hv', hc⟩
        · exact hnc (hinv.completed hq hbq hu hub).1
        · obtain ⟨rfl, rfl⟩ := hinv.upload_unique hu hv (congrArg Prod.snd (hub.trans hbv.symm))
          obtain rfl : u' = v' := Option.some.inj (hu'.symm.trans hv')
          rw [hc] at hf
          rcases hf with hf | hf <;> cases hf

/-! ## Nothing leaks -/

/-- The blob is the content of a live object. -/
def Db.IsContent (db : Db) (b : String × String) : Prop :=
  ∃ id o, db.live id = some o ∧ o.contentState = some .ready ∧ o.blob = some b

/-- The blob was taken off the queue. -/
def Collected (wal : Journal) (b : String × String) : Prop :=
  ∃ e ∈ wal, ∃ entry : BlobGcEntry, e.1 = .finishGc entry ∧ entry.blob = b

def Accounted (wal : Journal) (db : Db) : Prop :=
  ∀ uid u, db.upload uid = some u → db.IsContent u.blob ∨ u.state.isTerminal = false ∨
    db.Queued u.blob ∨ Collected wal u.blob

/-- **Step.** -/
theorem BlobStep.accounted (hs : BlobStep label db db') (hacc : Accounted wal db)
    (ws : List Write) : Accounted (wal ++ [(label, ws)]) db' := by
  intro uid u' hu'
  have hold : ∀ b, Collected wal b → Collected (wal ++ [(label, ws)]) b := by
    rintro b ⟨e, he, hb⟩
    exact ⟨e, List.mem_append_left _ he, hb⟩
  cases hu : db.upload uid with
  | none => exact .inr (.inl (hs.created uid u' hu' hu).2)
  | some u =>
    obtain ⟨v, hv, hblob, _⟩ := hs.upload uid u hu
    obtain rfl : v = u' := Option.some.inj (hv.symm.trans hu')
    rw [hblob]
    rcases hacc uid u hu with ⟨id, o, ho, hcs, hb⟩ | hn | hq | hc
    · rcases hs.dropped id o _ ho hb with hq | ⟨o', ho', hcs', hb'⟩
      · exact .inr (.inr (.inl hq))
      · exact .inl ⟨id, o', ho', hcs'.trans hcs, hb'⟩
    · cases ht : v.state.isTerminal with
      | false => exact .inr (.inl rfl)
      | true =>
        rcases hs.ended uid u v hu hv hn ht with hq | hcontent
        · exact .inr (.inr (.inl hq))
        · exact .inl hcontent
    · rcases hs.kept _ hq with hq | ⟨entry, rfl, hb⟩
      · exact .inr (.inr (.inl hq))
      · exact .inr (.inr (.inr ⟨_, List.mem_append_right _ (List.mem_singleton_self _), entry,
          rfl, hb⟩))
    · exact .inr (.inr (.inr (hold _ hc)))

/-! ## Commits -/

theorem written_enqueues (blobs : List (String × String)) (notBefore : Time)
    (b : String × String) : written (enqueues blobs notBefore) (.gc b.1 b.2) =
      if b ∈ blobs then some (some { notBefore }) else none := by
  induction blobs with
  | nil => rfl
  | cons c blobs ih =>
    rw [enqueues, List.map_cons, gcWrite]
    by_cases hc : c = b
    · subst hc
      rw [written_cons_self, ← enqueues, ih, if_pos (List.mem_cons_self ..)]
      split <;> rfl
    · have hne : Row.gc c.1 c.2 ≠ Row.gc b.1 b.2 := fun he =>
        hc (Prod.ext (Row.gc.inj he).1 (Row.gc.inj he).2)
      rw [written_cons_ne hne, ← enqueues, ih]
      simp [Ne.symm hc]

theorem queued_replay {ws : List Write} {b : String × String} :
    Db.Queued (replay ws db) b ↔
      ((written ws (.gc b.1 b.2)).getD (db.gc b.1 b.2)).isSome := by
  rw [Db.Queued, gc_replay]

/-- The gc rows of a write set that also enqueues. -/
theorem queued_of_enqueues {ws : List Write} {blobs : List (String × String)} {notBefore : Time}
    (h : ∀ b : String × String, written ws (.gc b.1 b.2) =
      written (enqueues blobs notBefore) (.gc b.1 b.2)) (b : String × String) :
    Db.Queued (replay ws db) b ↔ db.Queued b ∨ b ∈ blobs := by
  rw [queued_replay, h, written_enqueues, Db.Queued]
  split
  · next hb => simp [hb]
  · next hb => simp [hb]

/-- Write sets without uploads and gc entries; the objects keep their content. -/
theorem BlobStep.of_objects {ws : List Write} (hws : ∀ w ∈ ws, w.1.table ≠ .uploads)
    (hws' : ∀ w ∈ ws, w.1.table ≠ .gc)
    (hobj : ∀ id o', objectWrites ws id = some o' → ∃ p, o' = some p ∧
      (db.object id = none ∧ p.blob = none ∨ ∃ o, db.object id = some o ∧ SameContent o p)) :
    BlobStep label db (replay ws db) := by
  have hnone : ∀ r : Row, (∀ w ∈ ws, w.1.table ≠ r.table) → written ws r = none := by
    intro r hr
    rw [written_eq_none_iff, List.mem_map]
    rintro ⟨w, hw, rfl⟩
    exact hr w hw rfl
  refine .objects (fun id => ?_) (fun b r => ?_) (fun id o ho => ?_) fun id o' ho' ho => ?_
  · rw [upload_replay, hnone (.upload id) hws]
    rfl
  · rw [gc_replay, hnone (.gc b r) hws']
    rfl
  · rw [object_replay]
    cases hw : written ws (.object id) with
    | none => exact ⟨o, ho, rfl, rfl, rfl⟩
    | some o' =>
      obtain ⟨p, rfl, ⟨hn, _⟩ | ⟨q, hq, hsame⟩⟩ := hobj id o' hw
      · rw [ho] at hn
        cases hn
      · obtain rfl : o = q := Option.some.inj (ho.symm.trans hq)
        exact ⟨p, rfl, hsame⟩
  · rw [object_replay] at ho'
    cases hw : written ws (.object id) with
    | none =>
      rw [hw, Option.getD_none, ho] at ho'
      cases ho'
    | some p' =>
      rw [hw] at ho'
      obtain ⟨p, rfl, ⟨_, hp⟩ | ⟨q, hq, _⟩⟩ := hobj id p' hw
      · obtain rfl := Option.some.inj ho'
        exact hp
      · rw [ho] at hq
        cases hq

/-- One upload is created or goes on. -/
theorem BlobStep.of_upload {id : UploadId} {u' : UploadRow}
    (hold : ∀ u, db.upload id = some u → u'.blob = u.blob ∧ u'.objectId = u.objectId ∧
      u.state.isTerminal = false)
    (hnew : db.upload id = none → u'.blobRef = blobRefFor id)
    (hstate : u'.state.isTerminal = false) :
    BlobStep label db (replay [⟨.upload id, some u'⟩] db) := by
  have hup : ∀ x, Db.upload (replay [⟨.upload id, some u'⟩] db) x =
      if x = id then some u' else db.upload x := by
    intro x
    rw [upload_replay]
    split
    · next hx =>
      subst hx
      rw [written_cons_self]
      rfl
    · next hx =>
      rw [written_cons_ne fun he => hx (Row.upload.inj he).symm]
      rfl
  have hgc : ∀ b : String × String, Db.Queued (replay [⟨.upload id, some u'⟩] db) b ↔
      db.Queued b := fun b => by
    rw [queued_replay, written_cons_ne (by simp)]
    rfl
  refine .uploads (fun x => ?_) (fun x u hu => ?_) (fun x v hv hx => ?_)
    (fun b hb => .inl ((hgc b).mp hb)) (fun x u v hu hv hn ht => ?_)
    fun b hb => .inl ((hgc b).mpr hb)
  · rw [object_replay, written_cons_ne (by simp)]
    rfl
  · rw [hup]
    split
    · next hx =>
      subst hx
      obtain ⟨hblob, hobj, hn⟩ := hold u hu
      refine ⟨u', rfl, hblob, hobj, fun hc => ?_, fun hf => ?_⟩
      · rw [hc] at hn
        cases hn
      · rw [hf.isTerminal] at hn
        cases hn
    · exact ⟨u, hu, rfl, rfl, fun h => h, fun h => h⟩
  · rw [hup] at hv
    split at hv
    · next hx' =>
      subst hx'
      obtain rfl := Option.some.inj hv
      exact ⟨hnew hx, hstate⟩
    · rw [hx] at hv
      cases hv
  · rw [hup] at hv
    split at hv
    · obtain rfl := Option.some.inj hv
      rw [hstate] at ht
      cases ht
    · obtain rfl := Option.some.inj (hu.symm.trans hv)
      rw [hn] at ht
      cases ht

/-- Uploads fail, and their blobs are queued. -/
theorem BlobStep.of_failed {ws : List Write} (hobj : ∀ id, written ws (.object id) = none)
    (hup : ∀ id u', written ws (.upload id) = some u' → ∃ u v, db.upload id = some u ∧
      u.state ≠ .completed ∧ u' = some v ∧ v.blob = u.blob ∧ v.objectId = u.objectId ∧
      v.state.Failed)
    (hgc : ∀ b : String × String, Db.Queued (replay ws db) b ↔ db.Queued b ∨
      (written ws (.gc b.1 b.2)).isSome)
    (hqueued : ∀ b : String × String, (written ws (.gc b.1 b.2)).isSome → ∃ id u, db.upload id = some u ∧
      u.blob = b ∧ (written ws (.upload id)).isSome)
    (hended : ∀ id u, db.upload id = some u → (written ws (.upload id)).isSome →
      u.state.isTerminal = false → (written ws (.gc u.blob.1 u.blob.2)).isSome) :
    BlobStep label db (replay ws db) := by
  have hrow : ∀ id u, db.upload id = some u → (written ws (.upload id) = none ∧
      Db.upload (replay ws db) id = some u) ∨ ∃ v, Db.upload (replay ws db) id = some v ∧
      (written ws (.upload id)).isSome ∧ u.state ≠ .completed ∧ v.blob = u.blob ∧
      v.objectId = u.objectId ∧ v.state.Failed := by
    intro id u hu
    rw [upload_replay]
    cases hw : written ws (.upload id) with
    | none => exact .inl ⟨rfl, hu⟩
    | some u' =>
      obtain ⟨u₁, v, hu₁, hnc, rfl, hblob, hobj, hf⟩ := hup id u' hw
      obtain rfl := Option.some.inj (hu.symm.trans hu₁)
      exact .inr ⟨v, rfl, rfl, hnc, hblob, hobj, hf⟩
  refine .uploads (fun id => ?_) (fun id u hu => ?_) (fun id u' hu' hu => ?_) (fun b hb => ?_)
    (fun id u v hu hv hn ht => ?_) fun b hb => .inl ((hgc b).mpr (.inl hb))
  · rw [object_replay, hobj]
    rfl
  · rcases hrow id u hu with ⟨_, hv⟩ | ⟨v, hv, _, hnc, hblob, hobj, hf⟩
    · exact ⟨u, hv, rfl, rfl, fun h => h, fun h => h⟩
    · exact ⟨v, hv, hblob, hobj, fun hc => absurd hc hnc, fun _ => hf⟩
  · rw [upload_replay] at hu'
    cases hw : written ws (.upload id) with
    | none =>
      rw [hw, Option.getD_none, hu] at hu'
      cases hu'
    | some p =>
      obtain ⟨u₁, _, hu₁, _⟩ := hup id p hw
      rw [hu] at hu₁
      cases hu₁
  · rcases (hgc b).mp hb with hb | hb
    · exact .inl hb
    · obtain ⟨id, u, hu, hub, hw⟩ := hqueued b hb
      rcases hrow id u hu with ⟨hnone, _⟩ | ⟨v, hv, _, hnc, _, _, hf⟩
      · rw [hnone] at hw
        cases hw
      · exact .inr ⟨id, u, v, hu, hnc, hub, hv, hf⟩
  · rcases hrow id u hu with ⟨_, hv'⟩ | ⟨v', hv', hw, _⟩
    · obtain rfl := Option.some.inj (hv.symm.trans hv')
      rw [hn] at ht
      cases ht
    · exact (hgc _).mpr (.inr (hended id u hu hw hn))

/-- The deletion of objects. -/
theorem BlobStep.of_deleted {ws : List Write} {targets : List ObjectId} {now : Time}
    {blobs : List (String × String)}
    (hobj : ∀ id, objectWrites ws id =
      if id ∈ targets then (db.live id).map fun o => some (o.tombstone now) else none)
    (hup : ∀ id, written ws (.upload id) = none)
    (hgc : ∀ b : String × String, written ws (.gc b.1 b.2) =
      written (enqueues blobs now) (.gc b.1 b.2))
    (hblobs : ∀ b, b ∈ blobs ↔ ∃ id ∈ targets, ∃ o, db.live id = some o ∧ o.blob = some b) :
    BlobStep label db (replay ws db) := by
  have hq : ∀ b, Db.Queued (replay ws db) b ↔ db.Queued b ∨ _ := queued_of_enqueues hgc
  have hupload : ∀ id, Db.upload (replay ws db) id = db.upload id := fun id => by
    rw [upload_replay, hup]
    rfl
  -- a row is a tombstone or as before
  have hrow : ∀ id, (id ∈ targets ∧ ∃ o, db.live id = some o ∧
      Db.object (replay ws db) id = some (o.tombstone now)) ∨
      Db.object (replay ws db) id = db.object id ∧ (id ∈ targets → db.live id = none) := by
    intro id
    have hw : written ws (.object id) = _ := hobj id
    rw [object_replay, hw]
    by_cases hid : id ∈ targets
    · rw [if_pos hid]
      cases hl : db.live id with
      | none => exact .inr ⟨rfl, fun _ => rfl⟩
      | some o => exact .inl ⟨hid, o, rfl, rfl⟩
    · rw [if_neg hid]
      exact .inr ⟨rfl, fun h => absurd h hid⟩
  refine ⟨fun id u hu => ⟨u, (hupload id).trans hu, rfl, rfl, fun h => h, fun h => h⟩,
    fun id u' hu' hu => ?_, fun id o' b ho' hb => .inl ?_, fun b hb => ?_,
    fun uid u u' hu hu' hn ht => ?_, fun id o b ho hb => ?_, fun b hb => .inl ((hq b).mpr (.inl hb))⟩
  · rw [hupload, hu] at hu'
    cases hu'
  · rcases hrow id with ⟨_, o, ho, ho''⟩ | ⟨hsame, _⟩
    · obtain rfl := Option.some.inj (ho'.symm.trans ho'')
      refine ⟨o, (Db.live_eq_some.mp ho).1, hb, rfl, fun h => ?_⟩
      cases h
    · exact ⟨o', hsame ▸ ho', hb, rfl, fun h => h⟩
  · rcases (hq b).mp hb with hb | hb
    · exact .inl hb
    · obtain ⟨id, hid, o, ho, hob⟩ := (hblobs b).mp hb
      refine .inr (.inl ⟨id, o, ho, hob, fun o' ho' => ?_⟩)
      rcases hrow id with ⟨_, p, _, hp⟩ | ⟨_, hnone⟩
      · obtain ⟨ho', hlive⟩ := Db.live_eq_some.mp ho'
        obtain rfl := Option.some.inj (ho'.symm.trans hp)
        cases hlive
      · rw [hnone hid] at ho
        cases ho
  · rw [hupload, hu, Option.some.injEq] at hu'
    subst hu'
    rw [hn] at ht
    cases ht
  · rcases hrow id with ⟨hid, _⟩ | ⟨hsame, _⟩
    · exact .inl ((hq b).mpr (.inr ((hblobs b).mpr ⟨id, hid, o, ho, hb⟩)))
    · exact .inr ⟨o, (Db.live_congr hsame).trans ho, rfl, hb⟩

/-- An upload becomes the content of its object; what it replaces is queued. -/
theorem BlobStep.of_committed (hinv : BlobInv db) {ws : List Write} {cmd : CommitContent}
    {upload u' : UploadRow} {current : ObjectRow}
    (hupload : db.upload cmd.uploadId = some upload) (hstate : upload.state.isTerminal = false)
    (htarget : upload.objectId = cmd.objectId)
    (hblob : upload.blob = (cmd.blobBackend, cmd.blobRef))
    (hlive : db.live cmd.objectId = some current)
    (hu' : u'.blob = upload.blob ∧ u'.objectId = upload.objectId ∧ u'.state = .completed)
    (hobj : objectWrites ws = single cmd.objectId (cmd.row current))
    (hup : ∀ id, written ws (.upload id) = if id = cmd.uploadId then some (some u') else none)
    (hgc : ∀ b : String × String, written ws (.gc b.1 b.2) =
      written (enqueues (supersededBlob current cmd).toList cmd.gcNotBefore) (.gc b.1 b.2)) :
    BlobStep label db (replay ws db) := by
  obtain ⟨hcur, hcurlive⟩ := Db.live_eq_some.mp hlive
  have hq : ∀ b, Db.Queued (replay ws db) b ↔ db.Queued b ∨ _ := queued_of_enqueues hgc
  have hrow : ∀ id, Db.object (replay ws db) id =
      if id = cmd.objectId then some (cmd.row current) else db.object id := fun id =>
    object_single fun x => by
      rw [object_replay, ← hobj]
      rfl
  have huprow : ∀ id, Db.upload (replay ws db) id =
      if id = cmd.uploadId then some u' else db.upload id := fun id => by
    rw [upload_replay, hup]
    split <;> rfl
  have hself : Db.upload (replay ws db) cmd.uploadId = some u' := by rw [huprow, if_pos rfl]
  have hnew : (cmd.row current).blob = some upload.blob := by
    rw [hblob]
    rfl
  -- the object had other content, if any
  have hold : ∀ b, current.blob = some b → b ≠ upload.blob ∧
      b ∈ (supersededBlob current cmd).toList := by
    intro b hb
    have hne : b.2 ≠ cmd.blobRef := by
      intro he
      obtain ⟨_, uid, u, hu, hc, hub, _⟩ := hinv.pointer _ _ b hcur hb
      have href : upload.blobRef = cmd.blobRef := congrArg Prod.snd hblob
      have href' : u.blobRef = b.2 := congrArg Prod.snd hub
      obtain ⟨_, rfl⟩ := hinv.upload_unique hupload hu (by rw [href, href', he])
      rw [hc] at hstate
      cases hstate
    refine ⟨fun he => hne (by rw [he, hblob]), ?_⟩
    rw [Option.mem_toList, supersededBlob, hb]
    simp [Option.filter, hne]
  refine ⟨fun id u hu => ?_, fun id v hv hu => ?_, fun id o' b ho' hb => ?_, fun b hb => ?_,
    fun uid u v hu hv hn ht => ?_, fun id o b ho hb => ?_, fun b hb => .inl ((hq b).mpr (.inl hb))⟩
  · rw [huprow]
    split
    · next hid =>
      subst hid
      obtain rfl := Option.some.inj (hupload.symm.trans hu)
      refine ⟨u', rfl, hu'.1, hu'.2.1, fun _ => hu'.2.2, fun hf => ?_⟩
      rw [hf.isTerminal] at hstate
      cases hstate
    · exact ⟨u, hu, rfl, rfl, fun h => h, fun h => h⟩
  · rw [huprow] at hv
    split at hv
    · next hid =>
      rw [hid, hupload] at hu
      cases hu
    · rw [hu] at hv
      cases hv
  · rw [hrow] at ho'
    split at ho'
    · next hid =>
      obtain rfl := Option.some.inj ho'
      refine .inr ⟨rfl, cmd.uploadId, upload, u', hupload, hstate, ?_, htarget.trans hid.symm, hself,
        hu'.2.2⟩
      exact Option.some.inj (hnew.symm.trans hb)
    · exact .inl ⟨o', ho', hb, rfl, fun h => h⟩
  · rcases (hq b).mp hb with hb | hb
    · exact .inl hb
    · have hcb : current.blob = some b := by
        rw [Option.mem_toList, supersededBlob, Option.filter_eq_some_iff] at hb
        exact hb.1
      refine .inr (.inl ⟨cmd.objectId, current, hlive, hcb, fun o' ho' => ?_⟩)
      obtain ⟨ho', _⟩ := Db.live_eq_some.mp ho'
      rw [hrow, if_pos rfl, Option.some.injEq] at ho'
      subst ho'
      rw [hnew]
      exact fun he => (hold b hcb).1 (Option.some.inj he).symm
  · rw [huprow] at hv
    split at hv
    · next hid =>
      subst hid
      obtain rfl := Option.some.inj (hupload.symm.trans hu)
      refine .inr ⟨cmd.objectId, cmd.row current, Db.live_eq_some.mpr ⟨?_, hcurlive⟩, rfl, hnew⟩
      rw [hrow, if_pos rfl]
    · obtain rfl := Option.some.inj (hu.symm.trans hv)
      rw [hn] at ht
      cases ht
  · by_cases hid : id = cmd.objectId
    · subst hid
      obtain rfl := Option.some.inj (hlive.symm.trans ho)
      exact .inl ((hq b).mpr (.inr (hold b hb).2))
    · refine .inr ⟨o, (Db.live_congr ?_).trans ho, rfl, hb⟩
      rw [hrow, if_neg hid]

theorem written_gcWrite (c : String × String) (g : Option GcRow) (b : String × String) :
    written [gcWrite c g] (.gc b.1 b.2) = if b = c then some g else none := by
  split
  · next hb =>
    subst hb
    rw [gcWrite, written_cons_self]
    rfl
  · next hb =>
    rw [gcWrite, written_cons_ne fun he => hb (Prod.ext (Row.gc.inj he).1 (Row.gc.inj he).2).symm]
    rfl

/-- Write sets of the queue that add nothing to it. -/
theorem BlobStep.of_queue {ws : List Write} (hws : OnTable .gc ws)
    (hold : ∀ (b : String × String) g, written ws (.gc b.1 b.2) = some (some g) → db.Queued b)
    (hkept : ∀ b : String × String, db.Queued b → written ws (.gc b.1 b.2) ≠ some none ∨
      ∃ entry : BlobGcEntry, label = .finishGc entry ∧ entry.blob = b) :
    BlobStep label db (replay ws db) := by
  refine .queue (fun id => ?_) (fun id => ?_) (fun b hb => ?_) fun b hb => ?_
  · rw [object_replay, hws.written (by simp)]
    rfl
  · rw [upload_replay, hws.written (by simp)]
    rfl
  · rw [queued_replay] at hb
    cases hw : written ws (.gc b.1 b.2) with
    | none =>
      rw [hw] at hb
      exact hb
    | some g =>
      rw [hw] at hb
      obtain ⟨g, rfl⟩ := Option.isSome_iff_exists.mp hb
      exact hold b g hw
  · rcases hkept b hb with hne | hfin
    · refine .inl ?_
      rw [queued_replay]
      cases hw : written ws (.gc b.1 b.2) with
      | none => exact hb
      | some g =>
        cases g with
        | none => exact absurd hw hne
        | some g => rfl
    · exact .inr hfin

theorem BlobStep.of_aborted {cmd : AbortUploadRecord} {u : UploadRow} {gcs : List Write}
    (hupload : db.upload cmd.id = some u) (hstate : u.state ≠ .completed)
    (hgc : gcs = enqueues [u.blob] cmd.gcNotBefore ∨ gcs = [] ∧ u.state.isTerminal = true) :
    BlobStep label db (replay (⟨.upload cmd.id, some (cmd.row u)⟩ :: gcs) db) := by
  have hgcs : OnTable .gc gcs := by
    rcases hgc with rfl | ⟨rfl, _⟩
    · exact onTable_enqueues _ _
    · exact fun w hw => absurd hw List.not_mem_nil
  have hup : ∀ id, written (⟨.upload cmd.id, some (cmd.row u)⟩ :: gcs : List Write) (.upload id) =
      if id = cmd.id then some (some (cmd.row u)) else none := by
    intro id
    split
    · next hid =>
      subst hid
      rw [written_cons_self, hgcs.written (by simp), Option.none_or]
    · next hid =>
      rw [written_cons_ne fun he => hid (Row.upload.inj he).symm, hgcs.written (by simp)]
  have hrow : ∀ b : String × String, written (⟨.upload cmd.id, some (cmd.row u)⟩ :: gcs : List Write)
      (.gc b.1 b.2) = written gcs (.gc b.1 b.2) := fun b => written_cons_ne (by simp) ..
  have hg : ∀ b : String × String, written gcs (.gc b.1 b.2) = none ∨
      b = u.blob ∧ written gcs (.gc b.1 b.2) = some (some { notBefore := cmd.gcNotBefore }) := by
    intro b
    rcases hgc with rfl | ⟨rfl, _⟩
    · rw [written_enqueues]
      split
      · next hb => exact .inr ⟨List.mem_singleton.mp hb, rfl⟩
      · exact .inl rfl
    · exact .inl rfl
  refine .of_failed (fun id => ?_) (fun id u' hu' => ?_) (fun b => ?_) (fun b hb => ?_)
    fun id v hv hid hn => ?_
  · rw [written_cons_ne (by simp), hgcs.written (by simp)]
  · rw [hup] at hu'
    split at hu'
    · next hid =>
      subst hid
      exact ⟨u, _, hupload, hstate, (Option.some.inj hu').symm, rfl, rfl, .inl rfl⟩
    · cases hu'
  · rw [queued_replay, hrow]
    rcases hg b with hb | ⟨_, hb⟩ <;> simp [hb, Db.Queued]
  · rw [hrow] at hb
    rcases hg b with hb' | ⟨rfl, _⟩
    · rw [hb'] at hb
      cases hb
    · exact ⟨cmd.id, u, hupload, rfl, by rw [hup, if_pos rfl]; rfl⟩
  · rw [hup] at hid
    split at hid
    · next hid' =>
      subst hid'
      obtain rfl := Option.some.inj (hupload.symm.trans hv)
      rw [hrow]
      rcases hgc with rfl | ⟨_, ht⟩
      · rw [written_enqueues, if_pos (List.mem_singleton_self _)]
        rfl
      · rw [hn] at ht
        cases ht
    · cases hid

theorem BlobStep.of_expired {now : Time} {uploads : List (UploadId × UploadRow)}
    (huploads : ∀ e ∈ uploads, db.upload e.1 = some e.2 ∧ e.2.expires now = true)
    (hdistinct : (uploads.map Prod.fst).Nodup) :
    BlobStep label db (replay (uploads.map (fun e => ⟨.upload e.1, some e.2.expired⟩) ++
      enqueues (uploads.map fun e => e.2.blob) now) db) := by
  have hups := OnTable.map uploads (fun e => .upload e.1) (fun e => some e.2.expired) fun _ => rfl
  have hgcs := onTable_enqueues (uploads.map fun e => e.2.blob) now
  have hnodup : (uploads.map fun e => Row.upload e.1).Nodup := by
    have := hdistinct.map (f := Row.upload) fun a b h => Row.upload.inj h
    rwa [List.map_map] at this
  have hmem : ∀ e ∈ uploads, written (uploads.map (fun e => (⟨.upload e.1, some e.2.expired⟩ : Write)) ++
      enqueues (uploads.map fun e => e.2.blob) now) (.upload e.1) = some (some e.2.expired) := by
    intro e he
    rw [written_append, hgcs.written (by simp), Option.none_or]
    exact @written_map _ _ Row.Val _ _ (fun e : UploadId × UploadRow => Row.upload e.1)
      (fun e => some e.2.expired) hnodup _ he
  have hrow : ∀ id u', written (uploads.map (fun e => (⟨.upload e.1, some e.2.expired⟩ : Write)) ++
      enqueues (uploads.map fun e => e.2.blob) now) (.upload id) = some u' →
      ∃ e ∈ uploads, e.1 = id := by
    intro id u' hu'
    rw [written_append, hgcs.written (by simp), Option.none_or] at hu'
    obtain ⟨e, he, heq⟩ := List.mem_map.mp (mem_of_written hu')
    exact ⟨e, he, Row.upload.inj (Sigma.mk.inj heq).1⟩
  have hgc : ∀ b : String × String, written (uploads.map (fun e => (⟨.upload e.1, some e.2.expired⟩ : Write)) ++
      enqueues (uploads.map fun e => e.2.blob) now) (.gc b.1 b.2) =
      written (enqueues (uploads.map fun e => e.2.blob) now) (.gc b.1 b.2) := fun b => by
    rw [written_append, hups.written (by simp), Option.or_none]
  refine .of_failed (fun id => ?_) (fun id u' hu' => ?_) (fun b => ?_) (fun b hb => ?_)
    fun id u hu hid _ => ?_
  · rw [written_append, hups.written (by simp), hgcs.written (by simp)]
    rfl
  · obtain ⟨e, he, rfl⟩ := hrow id u' hu'
    rw [hmem e he] at hu'
    obtain ⟨hu, hexp⟩ := huploads e he
    refine ⟨e.2, _, hu, fun hc => ?_, (Option.some.inj hu').symm, rfl, rfl, .inr rfl⟩
    simp [UploadRow.expires, hc] at hexp
  · rw [queued_of_enqueues hgc, hgc, written_enqueues]
    split
    · next hb => simp [hb]
    · next hb => simp [hb]
  · rw [hgc, written_enqueues] at hb
    split at hb
    · next hb' =>
      obtain ⟨e, he, rfl⟩ := List.mem_map.mp hb'
      exact ⟨e.1, e.2, (huploads e he).1, rfl, by rw [hmem e he]; rfl⟩
    · cases hb
  · obtain ⟨u', hu'⟩ := Option.isSome_iff_exists.mp hid
    obtain ⟨e, he, rfl⟩ := hrow id u' hu'
    obtain rfl := Option.some.inj (hu.symm.trans (huploads e he).1)
    rw [hgc, written_enqueues, if_pos (List.mem_map_of_mem he)]
    rfl

/-- What a commit does to blobs. -/
theorem Commits.blobStep {ws : List Write} (h : Commits S w wal db label ws) (hinv : BlobInv db) :
    BlobStep label db (replay ws db) := by
  have htables : ∀ {ws : List Write} {T : Table}, OnTable T ws → T ≠ .objects → T ≠ .uploads →
      T ≠ .gc → BlobStep label db (replay ws db) := by
    intro ws T hws ho hu hg
    refine .of_objects (hws.ne hu) (hws.ne hg) fun id o' ho' => ?_
    have hnone : written ws (.object id) = none := hws.written fun he => ho he.symm
    rw [objectWrites, hnone] at ho'
    cases ho'
  -- one object is written that keeps its content
  have hsingle : ∀ {id : ObjectId} {o : ObjectRow} {records : List (Nat × ChangeRecord)}
      {fin : List Write}, OnTable .idempotency fin →
      (db.object id = none ∧ o.blob = none ∨ ∃ p, db.object id = some p ∧ BlobStep.SameContent p o) →
      BlobStep label db (replay (⟨.object id, some o⟩ :: (changeWrites records ++ fin)) db) := by
    intro id o records fin hfin ho
    have hrest : ∀ T, T ≠ .objects → T ≠ .changes → T ≠ .idempotency →
        ∀ w ∈ (⟨.object id, some o⟩ :: (changeWrites records ++ fin) : List Write),
          w.1.table ≠ T := by
      intro T hT hT' hT''
      exact List.forall_mem_cons.mpr ⟨Ne.symm hT, List.forall_mem_append.mpr
        ⟨(onTable_changeWrites records).ne (Ne.symm hT'), hfin.ne (Ne.symm hT'')⟩⟩
    refine .of_objects (hrest _ (by decide) (by decide) (by decide))
      (hrest _ (by decide) (by decide) (by decide)) fun x o' ho' => ?_
    rw [objectWrites_cons fun x => written_rest hfin (by simp) (by simp), single] at ho'
    split at ho'
    · next hx =>
      subst hx
      obtain rfl := Option.some.inj ho'
      exact ⟨o, rfl, ho⟩
    · cases ho'
  cases h with
  | createObject cmd hfresh hparent hfolder hrecords hfin =>
    exact hsingle hfin.onTable (.inl ⟨hfresh, rfl⟩)
  | patchObject cmd hlive hheld hmatch hroot htarget hchanged hdestination hwalk hrecords hfin =>
    exact hsingle hfin.onTable (.inr ⟨_, (Db.live_eq_some.mp hlive).1, rfl, rfl, rfl⟩)
  | @deleteObject cmd current targets rows records fin hlive hmatch hself hroot hnodup hclosed
      hbelow hordered hrows hdistinct hrecords hfin =>
    have hrest : ∀ r : Row, r.table ≠ .changes → r.table ≠ .idempotency → r.table ≠ .objects →
        written (rows.map (fun r => (⟨.object r.1, some r.2⟩ : Write)) ++
          (enqueues (rows.filterMap fun r => r.2.blob) cmd.ctx.now ++
            (changeWrites records ++ fin))) r =
          written (enqueues (rows.filterMap fun r => r.2.blob) cmd.ctx.now) r := by
      intro r hc hi ho
      rw [written_append, written_append, written_rest hfin.onTable hc hi,
        (onTable_objects rows Prod.fst fun r => some r.2).written ho, Option.none_or, Option.or_none]
    refine .of_deleted
      (fun id => congrFun (objectWrites_deleted hrows hdistinct fun x => ?_) id)
      (fun id => ?_) (fun b => hrest _ (by simp) (by simp) (by simp)) fun b => ?_
    · rw [written_append, written_rest hfin.onTable (by simp) (by simp),
        (onTable_enqueues _ _).written (by simp)]
      rfl
    · rw [hrest _ (by simp) (by simp) (by simp), (onTable_enqueues _ _).written (by simp)]
    · rw [List.mem_filterMap]
      constructor
      · rintro ⟨⟨id, o'⟩, hr, hb⟩
        obtain ⟨hid, o, ho, rfl⟩ := (hrows id o').mp hr
        exact ⟨id, hid, o, ho, hb⟩
      · rintro ⟨id, hid, o, ho, hb⟩
        exact ⟨(id, o.tombstone cmd.ctx.now), (hrows id _).mpr ⟨hid, o, ho, rfl⟩, hb⟩
  | @commitContent cmd upload current records fin hupload hstate htarget hblob hlive hfile
      hmatch hrecords hfin =>
    have hrest : ∀ r : Row, r.table ≠ .changes → r.table ≠ .idempotency →
        r.table ≠ .uploads → written (⟨.upload cmd.uploadId, some (cmd.uploadRow upload)⟩ ::
          (changeWrites records ++ fin)) r = none := by
      intro r hc hi hu
      rw [written_cons_ne (fun he => hu (by rw [← he]; rfl)), written_rest hfin.onTable hc hi]
    have hrow : (cmd.uploadRow upload).blob = upload.blob ∧
        (cmd.uploadRow upload).objectId = upload.objectId ∧
        (cmd.uploadRow upload).state = .completed := ⟨rfl, rfl, rfl⟩
    refine .of_committed hinv hupload ?_ htarget hblob hlive hrow ?_ (fun id => ?_) fun b => ?_
    · rcases hstate with hs | hs <;> rw [hs] <;> rfl
    · exact objectWrites_cons fun x => by
        rw [written_append, hrest _ (by simp) (by simp) (by simp),
          (onTable_enqueues _ _).written (by simp)]
        rfl
    · rw [written_cons_ne (by simp), written_append, (onTable_enqueues _ _).written (by simp),
        Option.or_none]
      split
      · next hid =>
        subst hid
        rw [written_cons_self, written_rest hfin.onTable (by simp) (by simp)]
        rfl
      · next hid =>
        rw [written_cons_ne (fun he => hid (Row.upload.inj he).symm),
          written_rest hfin.onTable (by simp) (by simp)]
    · rw [written_cons_ne (by simp), written_append, hrest _ (by simp) (by simp) (by simp),
        Option.none_or]
  | unpatched cmd _ _ hfin | uncommitted cmd _ _ _ _ _ _ _ hfin =>
    exact htables hfin.onTable (by decide) (by decide) (by decide)
  | complete req hfin => exact htables hfin.onTable (by decide) (by decide) (by decide)
  | createUploadRecord cmd hfresh =>
    refine .of_upload (fun u hu => ?_) (fun _ => cmd.blobRef_eq) rfl
    rw [hfresh] at hu
    cases hu
  | @updateUploadState cmd u hupload hallows =>
    have hstates : u.state.isTerminal = false ∧ cmd.state.isTerminal = false := by
      simp only [UpdateUploadState.allows, decide_eq_true_eq, Bool.decide_or,
        Bool.decide_and, Bool.or_eq_true, Bool.and_eq_true] at hallows
      rcases hallows with ⟨hc, hu | hu⟩ | ⟨hc, hu | hu⟩ <;> rw [hc, hu] <;> exact ⟨rfl, rfl⟩
    refine .of_upload (fun v hv => ?_) (fun hn => ?_) hstates.2
    · obtain rfl := Option.some.inj (hupload.symm.trans hv)
      exact ⟨rfl, rfl, hstates.1⟩
    · rw [hupload] at hn
      cases hn
  | abortUploadRecord cmd hupload hstate hgc => exact .of_aborted hupload hstate hgc
  | @claimGcBatch now limit entries hentries =>
    have hws := OnTable.map entries (fun e => .gc e.1.1 e.1.2) (fun e => some e.2) fun _ => rfl
    refine .of_queue hws (fun b g hg => ?_) fun b _ => .inl fun hg => ?_
    · obtain ⟨e, he, heq⟩ := List.mem_map.mp (mem_of_written hg)
      obtain ⟨h₁, h₂⟩ := Row.gc.inj (Sigma.mk.inj heq).1
      rw [Db.Queued, ← h₁, ← h₂]
      exact hentries e he
    · obtain ⟨e, _, heq⟩ := List.mem_map.mp (mem_of_written hg)
      cases congrArg (fun w : Write => w.2.isSome) heq
  | finishGc entry hdeleted =>
    refine .of_queue (List.forall_mem_singleton.mpr rfl) (fun b g hg => ?_) fun b _ => ?_
    · rw [written_gcWrite] at hg
      split at hg <;> cases hg
    · by_cases hb : b = entry.blob
      · exact .inr ⟨entry, rfl, hb.symm⟩
      · refine .inl ?_
        rw [written_gcWrite, if_neg hb]
        simp
  | failGc entry error retryAt hentry =>
    refine .of_queue (List.forall_mem_singleton.mpr rfl) (fun b g hg => ?_) fun b _ => .inl ?_
    · rw [written_gcWrite] at hg
      split at hg
      · next hb =>
        subst hb
        rw [Db.Queued, BlobGcEntry.blob, hentry]
        rfl
      · cases hg
    · rw [written_gcWrite]
      split <;> simp
  | @claimExpiredUploads now limit uploads huploads hdistinct =>
    exact .of_expired huploads hdistinct
  | claim | steal | release =>
    exact htables (onTable_idempotencyWrite _ _) (by decide) (by decide) (by decide)
  | @firstRead req next row =>
    exact htables (onTable_cursors [(next, row)] Prod.fst fun e => some e.2) (by decide)
      (by decide) (by decide)
  | @nextRead req cursor next c row built =>
    exact htables (onTable_cursors [(next, row), (cursor, c.materialize req.limit built next)]
      Prod.fst fun e => some e.2) (by decide) (by decide) (by decide)
  | @purgeIdempotencyRecords now keys =>
    have hws := OnTable.map keys (fun k => .idempotency k.1 k.2.1 k.2.2) (fun _ => none)
      fun _ => rfl
    exact htables hws (by decide) (by decide) (by decide)
  | @purgeChangeCursors now ids =>
    have hws := OnTable.map ids (fun id => .cursor id) (fun _ => none) fun _ => rfl
    exact htables hws (by decide) (by decide) (by decide)
  | purgeChanges olderThan =>
    refine .of_objects (purge_table_ne (by decide) (by decide))
      (purge_table_ne (by decide) (by decide)) fun id o' ho' => ?_
    rw [objectWrites_purge] at ho'
    cases ho'

theorem upload_initialDb (now : Time) (id : UploadId) : (initialDb now).upload id = none :=
  lookup_initialDb now (by simp) (by simp)

theorem blobInv_initialDb (now : Time) : BlobInv (initialDb now) := by
  refine ⟨fun id u hu => ?_, fun id o b ho hb => ?_, fun b hb => ?_⟩
  · rw [upload_initialDb] at hu
    cases hu
  · rw [object_initialDb] at ho
    split at ho
    · obtain rfl := Option.some.inj ho
      cases hb
    · cases ho
  · rw [Db.Queued, Db.gc, lookup_initialDb now (by simp) (by simp)] at hb
    cases hb

/-- **Run.** -/
theorem Serial.blobInv (h : Serial S w wal) : BlobInv (S.rows wal) := by
  induction h with
  | nil => exact blobInv_initialDb _
  | snoc _ hc ih =>
    rw [Setting.rows_snoc]
    exact (hc.blobStep ih).inv ih

/-- **Run.** No blob is leaked. -/
theorem Serial.accounted (h : Serial S w wal) : Accounted wal (S.rows wal) := by
  induction h with
  | nil =>
    intro uid u hu
    rw [Setting.rows_nil, upload_initialDb] at hu
    cases hu
  | snoc h hc ih =>
    rw [Setting.rows_snoc]
    exact (hc.blobStep h.blobInv).accounted ih _

end AnyStore
