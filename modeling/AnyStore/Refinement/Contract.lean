import AnyStore.Spec.Blobs
import AnyStore.Spec.Pages
import AnyStore.Spec.Records
import AnyStore.Spec.Walks

/-!
# The contract of the store

What every process of the store keeps and may assume. The invariant is that
the journal is serial; a process publishes only write sets that its command may
commit, and it takes the Change-order lock before it publishes object rows or
Changes, and a lock on a folder before it puts a child there. In return the
rows it has locked, the objects while it holds the Change-order lock, and the
children of folders it has locked for update stay as they are.
-/

namespace AnyStore

open ReadCommitted

variable {S : Setting} {t u : Nat} {s s' s₁ s₂ s₃ : DbState}

/-! ## The world outside -/

/-- What is known of the world outside stays true. -/
structure World.Grows (w w' : World) : Prop where
  ulids : ∀ x ∈ w.ulids, x ∈ w'.ulids
  deleted : ∀ b ∈ w.deleted, b ∈ w'.deleted
  multipart : ∀ id ∈ w.multipart.map (·.id), id ∈ w'.multipart.map (·.id)

/-- Nothing has happened yet, -/
theorem World.Grows.refl (w : World) : w.Grows w := ⟨fun _ h => h, fun _ h => h, fun _ h => h⟩

/-- or some and then some more. -/
theorem World.Grows.trans {w₁ w₂ w₃ : World} (h : w₁.Grows w₂) (h' : w₂.Grows w₃) : w₁.Grows w₃ :=
  ⟨fun x hx => h'.ulids x (h.ulids x hx), fun b hb => h'.deleted b (h.deleted b hb),
    fun id hid => h'.multipart id (h.multipart id hid)⟩

/-- What was minted stays minted. -/
theorem Minted.mono {w w' : World} {ictx : IdempotencyContext} (h : Minted w ictx)
    (hw : w.Grows w') : Minted w' ictx := hw.ulids _ h

/-- An owner of a record stays one in a later world, -/
theorem Owner.mono {w w' : World} {wal : Journal} {ictx : IdempotencyContext}
    (h : Owner S w wal ictx) (hw : w.Grows w') : Owner S w' wal ictx := by
  obtain ⟨wal₁, r, hwal, ⟨hminted, hheld⟩, hrest⟩ := h
  exact ⟨wal₁, r, hwal, ⟨hminted.mono hw, hheld⟩, hrest⟩

/-- and over a longer journal. -/
theorem Owner.later {w : World} {wal wal' : Journal} {ictx : IdempotencyContext}
    (h : Owner S w wal ictx) (hp : wal <+: wal') : Owner S w wal' ictx := by
  obtain ⟨wal₁, r, hwal, hrest⟩ := h
  exact ⟨wal₁, r, hwal.trans hp, hrest⟩

/-- Where an upload's id comes from stays true in a later world, -/
theorem Origin.mono {w w' : World} {wal : Journal} {cmd : CreateUploadRecord}
    (h : Origin S w wal cmd) (hw : w.Grows w') : Origin S w' wal cmd := by
  cases h with
  | client hadmits => exact .client hadmits
  | fresh hattempt id hdrawn hid => exact .fresh hattempt id (hw.ulids _ hdrawn) hid
  | derived i hattempt howner hid => exact .derived i hattempt (howner.mono hw) hid

/-- and over a longer journal. -/
theorem Origin.later {w : World} {wal wal' : Journal} {cmd : CreateUploadRecord}
    (h : Origin S w wal cmd) (hp : wal <+: wal') : Origin S w wal' cmd := by
  cases h with
  | client hadmits => exact .client hadmits
  | fresh hattempt id hdrawn hid => exact .fresh hattempt id hdrawn hid
  | derived i hattempt howner hid => exact .derived i hattempt (howner.later hp) hid

/-- The record that is completed is still that of the attempt, -/
theorem Finalizes.mono {w w' : World} {db : Db} {context : Option IdempotencyContext}
    {response : StoredResponse} {now expiresAt : Time} {fin : List Write}
    (h : Finalizes w db context response now expiresAt fin) (hw : w.Grows w') :
    Finalizes w' db context response now expiresAt fin := by
  cases context with
  | none => exact h
  | some ictx =>
    obtain ⟨r, ⟨hminted, hheld⟩, rfl⟩ := h
    exact ⟨r, ⟨hminted.mono hw, hheld⟩, rfl⟩

/-- and so with the context of a mutation. -/
theorem MutationContext.Finalizes.mono {w w' : World} {db : Db} {ctx : MutationContext}
    {fin : List Write} (h : ctx.Finalizes w db fin) (hw : w.Grows w') : ctx.Finalizes w' db fin :=
  have ⟨response, h⟩ := h
  ⟨response, AnyStore.Finalizes.mono h hw⟩

/-- **Monotone.** A write set that may be committed may be committed in a later world, too. -/
theorem Commits.mono {w w' : World} {wal : Journal} {db : Db} {label : Label} {ws : List Write}
    (h : Commits S w wal db label ws) (hw : w.Grows w') : Commits S w' wal db label ws := by
  -- one case per commit: only what was drawn or minted speaks of the world
  cases h with
  | createObject cmd h₁ h₂ h₃ h₄ hfin => exact .createObject cmd h₁ h₂ h₃ h₄ (hfin.mono hw)
  | patchObject cmd h₁ h₂ h₃ h₄ h₅ h₆ h₇ h₈ h₉ hfin =>
    exact .patchObject cmd h₁ h₂ h₃ h₄ h₅ h₆ h₇ h₈ h₉ (hfin.mono hw)
  | unpatched cmd h₁ h₂ hfin => exact .unpatched cmd h₁ h₂ (hfin.mono hw)
  | deleteObject cmd h₁ h₂ h₃ h₄ h₅ h₆ h₇ h₈ h₉ h₁₀ h₁₁ hfin =>
    exact .deleteObject cmd h₁ h₂ h₃ h₄ h₅ h₆ h₇ h₈ h₉ h₁₀ h₁₁ (hfin.mono hw)
  | commitContent cmd h₁ h₂ h₃ h₄ h₅ h₆ h₇ h₈ hfin =>
    exact .commitContent cmd h₁ h₂ h₃ h₄ h₅ h₆ h₇ h₈ (hfin.mono hw)
  | uncommitted cmd h₁ h₂ h₃ h₄ h₅ h₆ h₇ hfin =>
    exact .uncommitted cmd h₁ h₂ h₃ h₄ h₅ h₆ h₇ (hfin.mono hw)
  | createUploadRecord cmd h horigin => exact .createUploadRecord cmd h (horigin.mono hw)
  | updateUploadState cmd h₁ h₂ h₃ horigin =>
    exact .updateUploadState cmd h₁ h₂ h₃
      (horigin.imp_right fun h id hid => hw.multipart id (h id hid))
  | abortUploadRecord cmd h₁ h₂ h₃ => exact .abortUploadRecord cmd h₁ h₂ h₃
  | claimGcBatch now limit h => exact .claimGcBatch now limit h
  | finishGc entry h => exact .finishGc entry (hw.deleted _ h)
  | failGc entry error retryAt h => exact .failGc entry error retryAt h
  | claimExpiredUploads now limit h₁ h₂ => exact .claimExpiredUploads now limit h₁ h₂
  | claim req hm h => exact .claim req (hm.mono hw) h
  | steal req h hm h₁ h₂ => exact .steal req h (hm.mono hw) h₁ h₂
  | complete req hfin => exact .complete req (hfin.mono hw)
  | release ictx hheld => exact .release ictx ⟨hheld.1.mono hw, hheld.2⟩
  | firstRead req h₁ h₂ => exact .firstRead req h₁ h₂
  | nextRead req h₁ h₂ h₃ h₄ h₅ h₆ h₇ => exact .nextRead req h₁ h₂ h₃ h₄ h₅ h₆ h₇
  | purgeChanges olderThan h₁ h₂ h₃ h₄ h₅ h₆ => exact .purgeChanges olderThan h₁ h₂ h₃ h₄ h₅ h₆
  | purgeIdempotencyRecords now => exact .purgeIdempotencyRecords now
  | purgeChangeCursors now => exact .purgeChangeCursors now

/-- A serial journal is serial in a later world, too. -/
theorem Serial.mono {w w' : World} {wal : Journal} (h : Serial S w wal) (hw : w.Grows w') :
    Serial S w' wal := by
  induction h with
  | nil => exact .nil
  | snoc _ hc ih => exact .snoc ih (hc.mono hw)

/-- Some upload row has named this provider session for the blob. -/
def Recorded (S : Setting) (wal : Journal) (blobRef id : String) : Prop :=
  ∃ wal₁ uid u, wal₁ <+: wal ∧ (S.rows wal₁).upload uid = some u ∧ u.blobRef = blobRef ∧
    u.providerUploadId = some id

/-- The blob was claimed by a garbage collection pass. -/
def Claimed (wal : Journal) (b : String × String) : Prop :=
  ∃ e ∈ wal, ∃ now limit g, e.1 = .claimGcBatch now limit ∧ gcWrite b g ∈ e.2

/-- An upload that was recorded stays recorded, -/
theorem Recorded.mono {wal wal' : Journal} {blobRef id : String} (h : Recorded S wal blobRef id)
    (hp : wal <+: wal') : Recorded S wal' blobRef id := by
  obtain ⟨wal₁, uid, u, hwal, hu⟩ := h
  exact ⟨wal₁, uid, u, hwal.trans hp, hu⟩

/-- a blob that was claimed stays claimed, -/
theorem Claimed.mono {wal wal' : Journal} {b : String × String} (h : Claimed wal b)
    (hp : wal <+: wal') : Claimed wal' b := by
  obtain ⟨e, he, hb⟩ := h
  exact ⟨e, hp.subset he, hb⟩

/-- What happened outside was prepared in the store. -/
structure WorldInv (S : Setting) (wal : Journal) (w : World) : Prop where
  ulids : (w.ulids.map Prod.fst).Nodup
  deleted : ∀ b ∈ w.deleted, Claimed wal b
  signed : ∀ e ∈ w.signedParts, Recorded S wal e.1 e.2
  completions : ∀ e ∈ w.completions, Recorded S wal e.1 e.2

/-- and so the world still agrees with a longer journal. -/
theorem WorldInv.mono {wal wal' : Journal} {w : World} (h : WorldInv S wal w) (hp : wal <+: wal') :
    WorldInv S wal' w :=
  ⟨h.ulids, fun b hb => (h.deleted b hb).mono hp, fun e he => (h.signed e he).mono hp,
    fun e he => (h.completions e he).mono hp⟩

/-! ## Drawn ids -/

/-- This ULID was drawn. -/
def World.Drew (ulid : String) (w : World) : Prop := ulid ∈ w.ulids.map Prod.fst

/-- An id that was drawn stays drawn, -/
theorem World.Drew.mono {ulid : String} {w w' : World} (hw : w.Grows w') (h : w.Drew ulid) :
    w'.Drew ulid := by
  obtain ⟨x, hx, rfl⟩ := List.mem_map.mp h
  exact List.mem_map_of_mem (hw.ulids x hx)

/-- Session `t` has drawn the id of this cursor. -/
def OwnsCursor (t : Nat) (id : CursorId) (s : DbState) : Prop :=
  ∃ m ∈ s.moves, ∃ ulid, m.session = t ∧ id = CursorId.pre ++ ulid ∧ ¬ m.before.Drew ulid ∧
    m.after.Drew ulid

/-- by the transaction that drew it. -/
theorem OwnsCursor.mono {id : CursorId} (h : OwnsCursor t id s) (hmoves : s.moves <:+ s'.moves) :
    OwnsCursor t id s' := by
  obtain ⟨m, hm, hdrawn⟩ := h
  exact ⟨m, hmoves.subset hm, hdrawn⟩

/-- An id is drawn once, by one session. -/
theorem OwnsCursor.unique {id : CursorId} (h : OwnsCursor t id s) (h' : OwnsCursor u id s)
    (hledger : Ledger World.Grows s) : t = u := by
  obtain ⟨m, hm, ulid, rfl, rfl, hbefore, hafter⟩ := h
  obtain ⟨m', hm', ulid', rfl, hid, hbefore', hafter'⟩ := h'
  obtain rfl : ulid = ulid' := (String.append_right_inj _).mp hid
  rw [hledger.unique (fun _ _ => World.Drew.mono) hm hm' hbefore hafter hbefore' hafter']

/-! ## The invariant -/

structure StoreInv (S : Setting) (s : DbState) : Prop where
  engine : EngineInv liveNameUq s
  db : s.db = S.rows s.wal
  serial : Serial S s.world s.wal
  seq : ∀ r ∈ feed s.wal, r.1 ≤ s.seq
  world : WorldInv S s.wal s.world
  ledger : Ledger World.Grows s
  cursors : ∀ id, (Db.cursor s.db id).isSome → ∃ t, OwnsCursor t id s

/-- The rows of a reachable state are a tree, -/
theorem StoreInv.treeInv (h : StoreInv S s) : TreeInv s.db := h.db ▸ h.serial.treeInv

/-- and their uploads agree with it. -/
theorem StoreInv.blobInv (h : StoreInv S s) : BlobInv s.db := h.db ▸ h.serial.blobInv

/-! ## Guarantee and rely -/

/-- A session locks enough before it publishes. -/
structure Disciplined (t : Nat) (s : DbState) (ws : List Write) : Prop where
  ordered : (∃ w ∈ ws, w.1.table = .objects) ∨ feedOf ws ≠ [] →
    ∃ sess, s.session t = some sess ∧ sess.advisory = true
  sheltered : ∀ c o p, Db.live (replay ws s.db) c = some o → o.parentId = some p →
    (∃ o', Db.live s.db c = some o' ∧ o'.parentId = some p) ∨
    ∃ sess m, s.session t = some sess ∧ (Row.object p, m) ∈ sess.locks ∧ m ≠ LockMode.keyShare
  drawn : ∀ id row, written ws (.cursor id) = some (some row) → Db.cursor s.db id = none →
    OwnsCursor t id s

/-- What one step of a process does. -/
inductive Guar (S : Setting) (t : Nat) (s s' : DbState) : Prop
  | silent (h : Silent liveNameUq t s s')
  | published (label : Label) (ws : List Write) (h : Published liveNameUq t label ws s s')
      (hcommit : Commits S s.world s.wal s.db label ws) (hdisciplined : Disciplined t s ws)
  | world (w : World) (hgrows : s.world.Grows w) (h : s' = s.move t w)

/-- What the locks of a session protect. -/
structure Protected (sess : Session Row.Val Label) (s s' : DbState) : Prop where
  locked : ∀ r m, (r, m) ∈ sess.locks → m ≠ LockMode.keyShare → s'.db.lookup r = s.db.lookup r
  objects : sess.advisory = true → ∀ id, Db.object s'.db id = Db.object s.db id
  feed : sess.advisory = true → feed s'.wal = feed s.wal
  children : ∀ p, (Row.object p, LockMode.update) ∈ sess.locks → ∀ c o,
    Db.live s'.db c = some o → o.parentId = some p →
    ∃ o', Db.live s.db c = some o' ∧ o'.parentId = some p

/-- The ids that the session has drawn stay free. -/
def Unused (t : Nat) (s s' : DbState) : Prop :=
  ∀ id, OwnsCursor t id s → Db.cursor s.db id = none → Db.cursor s'.db id = none

/-- Time passes. -/
structure Later (s s' : DbState) : Prop where
  wal : s.wal <+: s'.wal
  seq : s.seq ≤ s'.seq
  world : s.world.Grows s'.world
  failed : s.failed ⊆ s'.failed
  moves : s.moves <:+ s'.moves

/-- What other processes may have done between two steps of process `t`. -/
structure Since (t : Nat) (s s' : DbState) : Prop where
  later : Later s s'
  session : s'.session t = s.session t
  locks : ∀ sess, s.session t = some sess → Protected sess s s'
  unused : Unused t s s'

/-- Nothing has moved, -/
theorem Protected.refl (sess : Session Row.Val Label) (s : DbState) : Protected sess s s :=
  ⟨fun _ _ _ _ => rfl, fun _ _ => rfl, fun _ => rfl, fun _ _ _ o ho hp => ⟨o, ho, hp⟩⟩

/-- More locks protect more. -/
theorem Protected.trans {sess sess' : Session Row.Val Label} (h : Protected sess s₁ s₂)
    (h' : Protected sess' s₂ s₃) (hlocks : ∀ l ∈ sess.locks, l ∈ sess'.locks)
    (hadvisory : sess.advisory = true → sess'.advisory = true) : Protected sess s₁ s₃ where
  locked r m hm hk := (h'.locked r m (hlocks _ hm) hk).trans (h.locked r m hm hk)
  objects ha id := (h'.objects (hadvisory ha) id).trans (h.objects ha id)
  feed ha := (h'.feed (hadvisory ha)).trans (h.feed ha)
  children p hm c o hc hp := by
    obtain ⟨o', hc', hp'⟩ := h'.children p (hlocks _ hm) c o hc hp
    exact h.children p hm c o' hc' hp'

/-- A step that leaves rows and journal alone. -/
theorem Protected.of_same (sess : Session Row.Val Label) (hdb : s'.db = s.db)
    (hwal : s'.wal = s.wal) : Protected sess s s' := by
  refine ⟨fun r m _ _ => by rw [hdb], fun _ id => by rw [hdb], fun _ => by rw [hwal],
    fun p _ c o hc hp => ⟨o, ?_, hp⟩⟩
  rwa [hdb] at hc

/-- and nothing is later. -/
theorem Later.refl (s : DbState) : Later s s :=
  ⟨List.prefix_rfl, le_rfl, .refl _, List.Subset.refl _, List.suffix_rfl⟩

/-- Later than what is later. -/
theorem Later.trans (h : Later s₁ s₂) (h' : Later s₂ s₃) : Later s₁ s₃ :=
  ⟨h.wal.trans h'.wal, h.seq.trans h'.seq, h.world.trans h'.world,
    List.Subset.trans h.failed h'.failed, h.moves.trans h'.moves⟩

/-- A step that publishes nothing. -/
theorem later_of_silent (h : Silent liveNameUq t s s') : Later s s' :=
  ⟨by rw [h.wal], h.seq, by rw [h.world]; exact .refl _, h.failed, by rw [h.moves]⟩

/-- A commit leads to a later state, -/
theorem later_of_published {label : Label} {ws : List Write} (h : Published liveNameUq t label ws s s') :
    Later s s' :=
  ⟨by rw [h.wal]; exact List.prefix_append .., h.seq.ge, by rw [h.world]; exact .refl _, h.failed,
    by rw [h.moves]⟩

/-- and so does a step of the world. -/
theorem Later.move {w : World} (hgrows : s.world.Grows w) : Later s (s.move t w) :=
  ⟨List.prefix_rfl, le_rfl, hgrows, List.Subset.refl _, List.suffix_cons ..⟩

/-- Where the rows are the same no id was used up. -/
theorem Unused.of_same (hdb : s'.db = s.db) : Unused t s s' := by
  intro id _ hnone
  rw [hdb]
  exact hnone

/-- Neither now nor then. -/
theorem Unused.trans (h : Unused t s₁ s₂) (h' : Unused t s₂ s₃) (hl : Later s₁ s₂) :
    Unused t s₁ s₃ :=
  fun id hdrawn hnone => h' id (hdrawn.mono hl.moves) (h id hdrawn hnone)

/-- Nothing happened since, -/
theorem Since.refl (t : Nat) (s : DbState) : Since t s s :=
  ⟨.refl s, rfl, fun _ _ => .refl _ s, .of_same rfl⟩

/-- or some and then some more. -/
theorem Since.trans (h : Since t s₁ s₂) (h' : Since t s₂ s₃) : Since t s₁ s₃ where
  later := h.later.trans h'.later
  session := h'.session.trans h.session
  locks sess hs := (h.locks sess hs).trans (h'.locks sess (h.session.trans hs)) (fun _ hl => hl) id
  unused := h.unused.trans h'.unused h.later

/-! ## The contract -/

/-- The rule of the setting as a condition on the states in which statements run. -/
def Setting.permits (S : Setting) (_ : Nat) {β : Type} : Op β → DbState → Prop
  | .sql stmt, s => S.rule stmt.label s.db
  | _, _ => True

def Setting.regime (S : Setting) : Regime Op DbState Request where
  admits := S.admits
  permits := S.permits

def contract (S : Setting) : Contract Op (Choice Row Env) DbState where
  machine := store
  inv := StoreInv S
  rely := Since
  guar := Guar S
  permits := S.permits

/-- A cursor that a write set brings is one of its writes. -/
theorem Disciplined.drawn_of_new {ws : List Write} (hd : Disciplined t s ws) {id : CursorId}
    (hnone : Db.cursor s.db id = none) (hnew : (Db.cursor (replay ws s.db) id).isSome) :
    OwnsCursor t id s := by
  rw [cursor_replay, hnone] at hnew
  cases hw : written ws (.cursor id) with
  | none =>
    rw [hw] at hnew
    cases hnew
  | some v =>
    rw [hw] at hnew
    obtain ⟨row, hrow⟩ := Option.isSome_iff_exists.mp hnew
    obtain rfl : v = some row := hrow
    exact hd.drawn id row hw hnone

/-- Publishing what a command may commit keeps the invariant. -/
theorem StoreInv.publish (h : StoreInv S s) {label : Label} {ws : List Write}
    (hp : Published liveNameUq t label ws s s') (hc : Commits S s.world s.wal s.db label ws)
    (hd : Disciplined t s ws) (hseq : ∀ r ∈ feedOf ws, r.1 ≤ s.seq) : StoreInv S s' where
  engine := hp.engine
  db := by rw [hp.db, hp.wal, Setting.rows_snoc, h.db]
  serial := by
    rw [hp.wal, hp.world]
    exact .snoc h.serial (h.db ▸ hc)
  seq r hr := by
    rw [hp.wal, feed_snoc, List.mem_append] at hr
    rw [hp.seq]
    exact hr.elim (h.seq r) (hseq r)
  world := by
    rw [hp.wal, hp.world]
    exact h.world.mono (List.prefix_append ..)
  ledger := h.ledger.congr hp.world hp.moves
  cursors id hid := by
    -- an old cursor has its owner already, a new one was drawn by its transaction
    cases hold : Db.cursor s.db id with
    | some row =>
      obtain ⟨u, hu⟩ := h.cursors id (by rw [hold]; rfl)
      exact ⟨u, hu.mono (later_of_published hp).moves⟩
    | none => exact ⟨t, (hd.drawn_of_new hold (hp.db ▸ hid)).mono (later_of_published hp).moves⟩

/-- **Frame.** What one process publishes respects the locks of the others. -/
theorem StoreInv.protected (hinv : StoreInv S s) {label : Label} {ws : List Write}
    (hp : Published liveNameUq t label ws s s') (hd : Disciplined t s ws) (hut : t ≠ u)
    {su : Session Row.Val Label} (hu : s.session u = some su) : Protected su s s' := by
  have howns : ∀ w ∈ ws, (w.1, LockMode.noKeyUpdate) ∈ ws.map fun w => (w.1, .noKeyUpdate) :=
    fun w hw => List.mem_map.mpr ⟨w, hw, rfl⟩
  have hfree : su.advisory = true → ¬ ∃ sess, s.session t = some sess ∧ sess.advisory = true := by
    rintro ha ⟨sess, hs, hsa⟩
    rw [hinv.engine.advisory t u sess su hut hs hu hsa] at ha
    cases ha
  refine ⟨fun r m hm hk => ?_, fun ha id => ?_, fun ha => ?_, fun p hm c o hc hpar => ?_⟩
  · rw [hp.db]
    exact hp.free.lookup_replay howns hut.symm hu hm hk
  · rw [hp.db, object_replay, written_eq_none_iff.mpr]
    · rfl
    · intro hmem
      obtain ⟨w, hw, he⟩ := List.mem_map.mp hmem
      exact hfree ha (hd.ordered (.inl ⟨w, hw, by rw [he]; rfl⟩))
  · have hnil : feedOf ws = [] := by
      by_contra hne
      exact hfree ha (hd.ordered (.inr hne))
    rw [hp.wal, feed_snoc, hnil, List.append_nil]
  · rw [hp.db] at hc
    rcases hd.sheltered c o p hc hpar with hold | ⟨sess, m, hs, hm', hk⟩
    · exact hold
    · -- both sessions have a lock on the folder
      have := State.grants_iff.mp (hinv.engine.holds t sess hs).grants u su hut.symm hu _ hm' _ hm rfl
      cases m <;> simp_all [LockMode.conflicts]

/-- **Others.** A step of another transaction is one since. -/
theorem Guar.since (hinv : StoreInv S s) (h : Guar S t s s') (hut : t ≠ u) : Since u s s' := by
  cases h with
  | silent h =>
    exact ⟨later_of_silent h, h.others u hut.symm, fun sess _ => .of_same sess h.db h.wal,
      .of_same h.db⟩
  | published label ws h hc hd =>
    refine ⟨later_of_published h, h.others u hut.symm, fun su hu => hinv.protected h hd hut hu,
      fun id hdrawn hnone => ?_⟩
    rw [h.db, ← Option.not_isSome_iff_eq_none]
    -- a cursor under an id that was drawn here has its owner, and it is not the other one
    intro hnew
    exact hut ((hd.drawn_of_new hnone hnew).unique hdrawn hinv.ledger)
  | world w hgrows h =>
    subst h
    exact ⟨.move hgrows, rfl, fun sess _ => .of_same sess rfl rfl, .of_same rfl⟩

/-- The end of a call keeps the invariant, -/
theorem StoreInv.close (h : StoreInv S s) (t : Nat) : StoreInv S (s.close t) :=
  ⟨h.engine.close, h.db, h.serial, h.seq, h.world, h.ledger.congr rfl rfl, h.cursors⟩

/-- The world moves on. -/
theorem StoreInv.move (h : StoreInv S s) {w : World} (hgrows : s.world.Grows w)
    (hw : WorldInv S s.wal w) : StoreInv S (s.move t w) := by
  refine ⟨h.engine.congr rfl rfl, h.db, h.serial.mono hgrows, h.seq, hw,
    h.ledger.move World.Grows.refl (fun _ _ _ => World.Grows.trans) hgrows, fun id hid => ?_⟩
  obtain ⟨u, hu⟩ := h.cursors id hid
  exact ⟨u, hu.mono (List.suffix_cons ..)⟩

/-- and is nothing to the others. -/
theorem Since.close (hut : t ≠ u) (s : DbState) : Since u s (s.close t) :=
  ⟨⟨List.prefix_rfl, le_rfl, .refl _, List.Subset.refl _, List.suffix_rfl⟩,
    State.session_close_ne hut.symm, fun sess _ => .of_same sess rfl rfl, .of_same rfl⟩

/-- The contract is one: what is relied on composes and is guaranteed. -/
theorem contract_lawful (S : Setting) : (contract S).Lawful where
  rely_refl := Since.refl
  rely_trans _ _ _ _ h h' := h.trans h'
  rely_of_guar _ _ _ _ hne hinv _ hg := hg.since hinv hne
  crash_inv t _ h := h.close t
  rely_of_crash _ _ s hne _ := .close hne s

/-- A step that commits nothing keeps the invariant. -/
theorem StoreInv.silent (h : StoreInv S s) (hs : Silent liveNameUq t s s') : StoreInv S s' where
  engine := hs.engine
  db := by rw [hs.db, hs.wal, h.db]
  serial := by
    rw [hs.wal, hs.world]
    exact h.serial
  seq r hr := by
    rw [hs.wal] at hr
    exact (h.seq r hr).trans hs.seq
  world := by
    rw [hs.wal, hs.world]
    exact h.world
  ledger := h.ledger.congr hs.world hs.moves
  cursors id hid := by
    obtain ⟨u, hu⟩ := h.cursors id (hs.db ▸ hid)
    exact ⟨u, hu.mono (later_of_silent hs).moves⟩

/-- **Transactions.** The contract is kept by every statement that the programs run. -/
theorem contract_transactional (S : Setting) : Transactional liveNameUq (contract S) where
  machine := rfl
  lawful := contract_lawful S
  engine _ h := h.engine
  silent _ _ _ h hs := ⟨.silent hs, h.silent hs⟩
  session _ _ _ h := h.session
  failed _ _ _ h hf := h.later.failed hf

end AnyStore
