import AnyStore.Model.Memory
import AnyStore.Spec.History

/-!
# Calls of the in-memory store

What the parts of a mutation do to the state: the checks in front only read,
the end writes nothing but the idempotency record, and a path is rendered in the
changed state when it could be rendered below the new parent before.
-/

namespace AnyStore.Memory

open Locked

variable {s : State} {ctx : MutationContext}

/-! ## Checks -/

/-- The checks only read: that an object is live, -/
theorem reads_liveObject (id : ObjectId) : (liveObject id).Reads :=
  (reads_read _).bind fun _ => reads_orFail _ _

/-- that it is a folder, -/
theorem reads_liveFolder (id : ObjectId) : (liveFolder id).Reads :=
  (reads_liveObject id).bind fun _ => reads_check _ _

/-- that a name is free, -/
theorem reads_nameFree (parent : Option ObjectId) (name : String) (except : ObjectId) :
    (nameFree parent name except).Reads :=
  (reads_read _).bind fun _ => reads_check _ _

/-- that something may be created, -/
theorem reads_checkCreate (cmd : CreateObjectCommit) : (checkCreate cmd).Reads :=
  (reads_liveFolder _).bind fun _ => reads_nameFree _ _ _

/-- what a patch leads to, -/
theorem reads_readTarget (cmd : PatchObjectCommit) : (readTarget cmd).Reads := by
  unfold readTarget checkIfMatch
  exact (reads_liveObject _).bind fun stored => (reads_check _ _).bind fun _ =>
    (reads_check _ _).bind fun _ => (reads_check _ _).bind fun _ =>
      (reads_ofExcept _).bind fun target => reads_ret _

/-- that something may be moved, -/
theorem reads_checkMove (id : ObjectId) (stored : ObjectRow) (target : PatchTarget) :
    (checkMove id stored target).Reads :=
  (reads_orFail _ _).bind fun _ => (reads_liveFolder _).bind fun _ =>
    (reads_read _).bind fun _ => reads_check _ _

/-- that it may be changed, -/
theorem reads_checkTarget (id : ObjectId) (stored : ObjectRow) (target : PatchTarget) :
    (checkTarget id stored target).Reads := by
  have hmove : (if target.parentChanged stored then checkMove id stored target
      else ret ()).Reads := by
    by_cases h : target.parentChanged stored = true
    · rw [if_pos h]
      exact reads_checkMove id stored target
    · rw [if_neg h]
      exact reads_ret ()
  exact hmove.bind fun _ => reads_nameFree _ _ _

/-- what is deleted, -/
theorem reads_deleteTargets (cmd : DeleteObjectCommit) (stored : ObjectRow) :
    (deleteTargets cmd stored).Reads := by
  unfold deleteTargets
  by_cases h : stored.kind = .folder ∧ cmd.recursive = true
  · rw [if_pos h]
    exact (reads_read _).bind fun _ => (reads_ending _).bind fun _ => reads_ret _
  · rw [if_neg h]
    exact (reads_read _).bind fun _ => (reads_check _ _).bind fun _ => reads_ret _

/-- that it may be, -/
theorem reads_checkDelete (cmd : DeleteObjectCommit) : (checkDelete cmd).Reads := by
  unfold checkDelete checkIfMatch
  exact (reads_liveObject _).bind fun stored => (reads_check _ _).bind fun _ =>
    (reads_check _ _).bind fun _ => reads_deleteTargets _ _

/-- that content may be committed, -/
theorem reads_checkCommit (cmd : CommitContent) : (checkCommit cmd).Reads := by
  unfold checkCommit checkIfMatch
  exact (reads_read _).bind fun _ => (reads_orFail _ _).bind fun _ => (reads_check _ _).bind fun _ =>
    (reads_liveObject _).bind fun _ => (reads_check _ _).bind fun _ =>
      (reads_check _ _).bind fun _ => reads_ret _

/-- and the view. -/
theorem reads_viewed (object : Option ObjectId) : (viewed object).Reads := by
  cases object with
  | none => exact reads_ret none
  | some id => exact (reads_read _).bind fun _ => (reads_ofExcept _).bind fun _ => reads_ret _

/-- A live object is there and not deleted. -/
theorem State.live_eq_some {id : ObjectId} {o : ObjectRow} :
    s.live id = some o ↔ s.objects.lookup id = some o ∧ o.deletedAt = none := by
  simp [State.live, Option.filter_eq_some_iff]

/-- The object is live. -/
theorem liveObject_ok {id : ObjectId} {stored : ObjectRow} {s' : State} :
    liveObject id s = some (.ok stored, s') ↔ s.live id = some stored ∧ s' = s := by
  unfold liveObject
  simp only [bind_ok, read_ok, orFail_ok]
  constructor
  · rintro ⟨_, _, ⟨rfl, rfl⟩, h⟩
    exact h
  · intro h
    exact ⟨_, _, ⟨rfl, rfl⟩, h⟩

/-- The object is live and meets the revision, and the root stays where it is. -/
theorem readTarget_ok {cmd : PatchObjectCommit} {stored : ObjectRow} {target : PatchTarget}
    {s' : State} (h : readTarget cmd s = some (.ok (stored, target), s')) :
    s.live cmd.id = some stored ∧ patchTarget .sqlx cmd stored = .ok target ∧
      (∀ r ∈ cmd.ifMatch, r = stored.revision) ∧
      (cmd.id = rootId → cmd.newParentId = none ∧ cmd.newName = none) := by
  unfold readTarget checkIfMatch at h
  simp only [bind_ok, liveObject_ok, check_ok, ofExcept_ok, pure_eq, ret_ok] at h
  obtain ⟨o, _, ⟨hlive, rfl⟩, _, _, ⟨hmatch, rfl⟩, _, _, ⟨hparent, rfl⟩, _, _, ⟨hname, rfl⟩,
    t, _, ⟨htarget, rfl⟩, heq, rfl⟩ := h
  obtain ⟨rfl, rfl⟩ := Prod.mk.inj heq
  exact ⟨hlive, htarget, hmatch, fun hroot => ⟨hparent hroot, hname hroot⟩⟩

/-- What was found stays found. -/
theorem State.spread_subset {n : Nat} {frontier result out : List (Nat × ObjectId)}
    (h : s.spread n frontier result = some out) : result ⊆ out := by
  induction n generalizing frontier result with
  | zero =>
    cases frontier with
    | nil =>
      obtain rfl : result = out := by simpa [State.spread] using h
      exact List.Subset.refl _
    | cons e frontier => simp [State.spread] at h
  | succ n ih =>
    cases frontier with
    | nil =>
      obtain rfl : result = out := by simpa [State.spread] using h
      exact List.Subset.refl _
    | cons e frontier =>
      have hout := ih h
      intro x hx
      exact hout (List.mem_append_left _ hx)

/-- The object alone, or its subtree. -/
theorem deleteTargets_ok {cmd : DeleteObjectCommit} {stored : ObjectRow} {targets : List ObjectId}
    {s' : State} (h : deleteTargets cmd stored s = some (.ok targets, s')) :
    (stored.kind = .folder ∧ cmd.recursive = true ∧
      ∃ found, s.descendants cmd.id = some found ∧ targets = found.map Prod.snd) ∨
    ((stored.kind = .folder → s.liveChildren cmd.id = []) ∧ targets = [cmd.id]) := by
  unfold deleteTargets at h
  by_cases hrec : stored.kind = .folder ∧ cmd.recursive = true
  · rw [if_pos hrec] at h
    simp only [bind_ok, read_ok, ending_ok, pure_eq, ret_ok] at h
    obtain ⟨_, _, ⟨rfl, rfl⟩, found, _, ⟨hfound, rfl⟩, htargets, _⟩ := h
    exact .inl ⟨hrec.1, hrec.2, found, hfound, htargets⟩
  · rw [if_neg hrec] at h
    simp only [bind_ok, read_ok, check_ok, pure_eq, ret_ok] at h
    obtain ⟨_, _, ⟨rfl, rfl⟩, _, _, ⟨hempty, rfl⟩, htargets, _⟩ := h
    exact .inr ⟨fun hk => by_contra fun hne => hempty ⟨hk, hne⟩, htargets⟩

/-- The object is live, not the root, and its targets are known. -/
theorem checkDelete_ok {cmd : DeleteObjectCommit} {targets : List ObjectId} {s' : State}
    (h : checkDelete cmd s = some (.ok targets, s')) :
    ∃ stored, s.live cmd.id = some stored ∧ cmd.id ≠ rootId ∧
      deleteTargets cmd stored s = some (.ok targets, s) := by
  unfold checkDelete checkIfMatch at h
  simp only [bind_ok, liveObject_ok, check_ok] at h
  obtain ⟨stored, _, ⟨hlive, rfl⟩, _, _, ⟨_, rfl⟩, _, _, ⟨hroot, rfl⟩, h⟩ := h
  have hsame := reads_deleteTargets cmd stored _ _ _ h
  rw [hsame] at h
  exact ⟨stored, hlive, hroot, h⟩

/-- The object itself is always among the targets. -/
theorem mem_targets {cmd : DeleteObjectCommit} {targets : List ObjectId} {s' : State}
    (h : checkDelete cmd s = some (.ok targets, s')) : cmd.id ∈ targets := by
  obtain ⟨stored, _, _, h⟩ := checkDelete_ok h
  rcases deleteTargets_ok h with ⟨_, _, found, hfound, rfl⟩ | ⟨_, rfl⟩
  · unfold State.descendants at hfound
    obtain ⟨out, hout, rfl⟩ := Option.map_eq_some_iff.mp hfound
    have hmem : (0, cmd.id) ∈ out := State.spread_subset hout (List.mem_singleton_self _)
    exact List.mem_map.mpr ⟨_, (List.mem_insertionSort _).mpr hmem, rfl⟩
  · exact List.mem_singleton_self _

/-- The folder is live and a folder. -/
theorem liveFolder_ok {id : ObjectId} {s' : State} {u : Unit} :
    liveFolder id s = some (.ok u, s') ↔
      (∃ q, s.live id = some q ∧ q.kind = .folder) ∧ s' = s := by
  unfold liveFolder
  simp only [bind_ok, liveObject_ok, check_ok]
  constructor
  · rintro ⟨q, _, ⟨hq, rfl⟩, hkind, rfl⟩
    exact ⟨⟨q, hq, hkind⟩, rfl⟩
  · rintro ⟨⟨q, hq, hkind⟩, rfl⟩
    exact ⟨q, _, ⟨hq, rfl⟩, hkind, rfl⟩

/-- The name is free. -/
theorem nameFree_ok {parent : Option ObjectId} {name : String} {except : ObjectId} {s' : State}
    {u : Unit} : nameFree parent name except s = some (.ok u, s') ↔
      s.nameTaken parent name except = false ∧ s' = s := by
  unfold nameFree
  simp only [bind_ok, read_ok, check_ok]
  constructor
  · rintro ⟨_, _, ⟨rfl, rfl⟩, h⟩
    exact h
  · intro h
    exact ⟨_, _, ⟨rfl, rfl⟩, h⟩

/-- There is the parent, and the name is free. -/
theorem checkCreate_ok {cmd : CreateObjectCommit} :
    checkCreate cmd s = some (.ok (), s) ↔ (∃ q, s.live cmd.parentId = some q ∧ q.kind = .folder) ∧
      s.nameTaken (some cmd.parentId) cmd.name cmd.id = false := by
  unfold checkCreate
  simp only [bind_ok, liveFolder_ok, nameFree_ok]
  constructor
  · rintro ⟨_, _, ⟨hfolder, rfl⟩, hname, _⟩
    exact ⟨hfolder, hname⟩
  · rintro ⟨hfolder, hname⟩
    exact ⟨(), s, ⟨hfolder, rfl⟩, hname, rfl⟩

/-- A move passes its checks below a live folder that the walk does not find
inside the moved one. -/
theorem checkTarget_moved {id : ObjectId} {stored : ObjectRow} {target : PatchTarget} {s' : State}
    (h : checkTarget id stored target s = some (.ok (), s'))
    (hmoved : target.parentChanged stored = true) :
    ∃ d q, target.parent = some d ∧ s.live d = some q ∧ q.kind = .folder ∧
      ¬ (stored.kind = .folder ∧ s.isSelfOrDescendant d id = true) := by
  unfold checkTarget checkMove at h
  rw [if_pos hmoved] at h
  simp only [bind_ok, orFail_ok, liveFolder_ok, read_ok, check_ok] at h
  obtain ⟨_, _, ⟨d, _, ⟨hd, rfl⟩, _, _, ⟨⟨q, hq, hkind⟩, rfl⟩, _, _, ⟨rfl, rfl⟩, hinside, rfl⟩, _⟩ := h
  exact ⟨d, q, hd, hq, hkind, hinside⟩

/-- There are the file, and an upload for it. -/
theorem checkCommit_ok {cmd : CommitContent} {upload : UploadState} {stored : ObjectRow}
    {s' : State} (h : checkCommit cmd s = some (.ok (upload, stored), s')) :
    s.live cmd.objectId = some stored ∧ stored.kind = .file ∧
      (∀ r ∈ cmd.ifMatch, r = stored.revision) ∧
      ∃ row, s.uploads.lookup cmd.uploadId = some row ∧ row.state = upload ∧
        upload.isCompletable = true := by
  unfold checkCommit checkIfMatch at h
  simp only [bind_ok, read_ok, orFail_ok, liveObject_ok, check_ok, pure_eq, ret_ok] at h
  obtain ⟨_, _, ⟨rfl, rfl⟩, row, _, ⟨hrow, rfl⟩, _, _, ⟨hstate, rfl⟩, o, _, ⟨hlive, rfl⟩,
    _, _, ⟨hfile, rfl⟩, _, _, ⟨hmatch, rfl⟩, heq, rfl⟩ := h
  obtain ⟨rfl, rfl⟩ := Prod.mk.inj heq
  exact ⟨hlive, hfile, hmatch, row, hrow, rfl, hstate⟩

/-! ## The end of a mutation -/

/-- The caller's idempotency record, if it names one, is there and held by its
owner token. -/
def Held (ctx : MutationContext) (s : State) : Prop :=
  ∀ ictx, ctx.idempotency = some ictx →
    ∃ row, s.idempotency.lookup (rowKey ictx) = some row ∧ row.ownerToken = some ictx.ownerToken

/-- The record is completed by its owner, -/
theorem finalizeIdempotency_succeeds (response : StoredResponse) :
    (finalizeIdempotency ctx response).Succeeds s ↔ Held ctx s := by
  unfold finalizeIdempotency Held
  cases ctx.idempotency with
  | none => simp [succeeds_ret]
  | some ictx =>
    show (read _ >>= _ : Call Unit).Succeeds s ↔ _
    rw [succeeds_read_bind, succeeds_orFail_bind]
    simp only [succeeds_check_bind, succeeds_write, and_true, Option.some.injEq, forall_eq']

/-- or nothing is. -/
theorem finalizeIdempotency_atomic (response : StoredResponse) :
    (finalizeIdempotency ctx response).Atomic s := by
  unfold finalizeIdempotency
  cases ctx.idempotency with
  | none => exact (succeeds_ret () s).atomic
  | some ictx =>
    show (read _ >>= _ : Call Unit).Atomic s
    rw [atomic_bind (reads_read _)]
    intro row _
    rw [atomic_bind (reads_orFail _ _)]
    intro row _
    rw [atomic_bind (reads_check _ _)]
    intro _ _
    exact (succeeds_write _ s).atomic

/-- A mutation that has not written anything before its end is atomic. -/
theorem finish_atomic (object : Option ObjectId) (changes : List ChangeRecord) (noOp : Bool) :
    (finish ctx object changes noOp).Atomic s := by
  unfold finish
  rw [atomic_bind (reads_viewed object)]
  intro view _
  rw [atomic_bind (reads_ofExcept _)]
  intro response _
  exact (finalizeIdempotency_atomic response).bind fun _ s₁ _ => succeeds_ret response s₁

/-- The answer to a mutation is accepted when it renders and the record is held. -/
def Accepted (ctx : MutationContext) (outcome : MutationOutcome) (s : State) : Prop :=
  Held ctx s ∧ ∃ response, ctx.render outcome = .ok response

/-- The answer is rendered, and the record completed. -/
theorem accepted_succeeds (outcome : MutationOutcome) :
    (Locked.ofExcept (ctx.render outcome) >>= fun response =>
      finalizeIdempotency ctx response >>= fun _ => ret response : Call StoredResponse).Succeeds s ↔
    Accepted ctx outcome s := by
  rw [succeeds_ofExcept_bind]
  simp only [succeeds_bind, finalizeIdempotency_succeeds, succeeds_ret, implies_true, and_true]
  rw [exists_and_right, and_comm, Accepted]

/-- A mutation without a view, -/
theorem finish_succeeds_none (changes : List ChangeRecord) (noOp : Bool) :
    (finish ctx none changes noOp).Succeeds s ↔
      Accepted ctx { object := none, changes, noOp } s :=
  accepted_succeeds _

/-- and one with a view. -/
theorem finish_succeeds_some (id : ObjectId) (changes : List ChangeRecord) (noOp : Bool) :
    (finish ctx (some id) changes noOp).Succeeds s ↔ ∃ view, s.viewOf id = .ok view ∧
      Accepted ctx { object := some view, changes, noOp } s := by
  have hbind : finish ctx (some id) changes noOp = (read fun s => s.viewOf id) >>= fun view =>
      Locked.ofExcept view >>= fun view =>
        (Locked.ofExcept (ctx.render { object := some view, changes, noOp }) >>= fun response =>
          finalizeIdempotency ctx response >>= fun _ => ret response) := by
    unfold finish viewed
    simp only [bind_eq, pure_eq, Locked.bind_assoc, ret_bind]
  rw [hbind, succeeds_read_bind, succeeds_ofExcept_bind]
  simp only [accepted_succeeds]

/-- The feed is left as it is, -/
theorem finalizeIdempotency_grows (response : StoredResponse) :
    (finalizeIdempotency ctx response).Grows (·.changes.length) := by
  unfold finalizeIdempotency
  cases ctx.idempotency with
  | none => exact (reads_ret ()).grows _
  | some ictx =>
    show (read _ >>= _ : Call Unit).Grows _
    exact ((reads_read _).grows _).bind fun _ => ((reads_orFail _ _).grows _).bind fun _ =>
      ((reads_check _ _).grows _).bind fun _ => grows_write fun _ => Nat.le_refl _

/-- to the end. -/
theorem finish_grows (object : Option ObjectId) (changes : List ChangeRecord) (noOp : Bool) :
    (finish ctx object changes noOp).Grows (·.changes.length) :=
  ((reads_viewed object).grows _).bind fun _ => ((reads_ofExcept _).grows _).bind fun response =>
    (finalizeIdempotency_grows response).bind fun _ => (reads_ret response).grows _

/-! ## Writes -/

/-- Appending Changes is all that `appendChanges` does. -/
theorem appendChanges_state (ctx : MutationContext) (pending : List PendingChange) (s : State) :
    (State.appendChanges ctx pending s).2 =
      { s with changes := s.changes ++ (State.appendChanges ctx pending s).1 } := by
  induction pending generalizing s with
  | nil => simp [State.appendChanges]
  | cons p pending ih =>
    simp only [State.appendChanges]
    rw [ih]
    simp

/-- A Change for each that was pending. -/
theorem length_appendChanges (ctx : MutationContext) (pending : List PendingChange) (s : State) :
    (State.appendChanges ctx pending s).1.length = pending.length := by
  induction pending generalizing s with
  | nil => simp [State.appendChanges]
  | cons p pending ih => simp [State.appendChanges, ih]

/-- The records depend on the number of the Changes before them alone. -/
theorem appendChanges_congr {s' : State} (pending : List PendingChange)
    (h : s'.changes.length = s.changes.length) :
    (State.appendChanges ctx pending s').1 = (State.appendChanges ctx pending s).1 := by
  induction pending generalizing s s' with
  | nil => simp [State.appendChanges]
  | cons p pending ih =>
    simp only [State.appendChanges, h, List.cons.injEq, true_and]
    exact ih (by simp [h])

/-- Only the queue is written, -/
theorem enqueueGc_same (backend blobRef : String) (notBefore : Time) (s : State) :
    s.enqueueGc backend blobRef notBefore =
      { s with gc := (s.enqueueGc backend blobRef notBefore).gc } := by
  unfold State.enqueueGc
  split
  · rfl
  · rfl

/-- however many blobs there are. -/
theorem enqueueAll_same (notBefore : Time) (blobs : List (String × String)) (s : State) :
    State.enqueueAll notBefore blobs s =
      { s with gc := (State.enqueueAll notBefore blobs s).gc } := by
  induction blobs generalizing s with
  | nil => rfl
  | cons b blobs ih =>
    unfold State.enqueueAll
    rw [ih, enqueueGc_same]

/-- A commit of content writes the object, the queue and the upload. -/
theorem commit_same (cmd : CommitContent) (stored : ObjectRow) (s : State) :
    (s.commit cmd stored).objects = s.objects.insert cmd.objectId (committedRow cmd stored) ∧
      (s.commit cmd stored).changes = s.changes ∧
      (s.commit cmd stored).idempotency = s.idempotency := by
  have hsupersede : ∀ s : State, s.supersede (supersededBlob stored cmd) cmd.gcNotBefore =
      { s with gc := (s.supersede (supersededBlob stored cmd) cmd.gcNotBefore).gc } := by
    intro s
    unfold State.supersede
    cases supersededBlob stored cmd with
    | none => rfl
    | some b => exact enqueueGc_same b.1 b.2 _ s
  have hupload : ∀ s : State, s.completeUpload cmd.uploadId cmd.ctx.now =
      { s with uploads := (s.completeUpload cmd.uploadId cmd.ctx.now).uploads } := by
    intro s
    unfold State.completeUpload
    cases s.uploads.lookup cmd.uploadId with
    | none => rfl
    | some upload => rfl
  simp only [State.commit]
  rw [hupload, hsupersede]
  exact ⟨rfl, rfl, rfl⟩

/-- A delete writes objects and the queue. -/
theorem bury_same (now : Time) (ids : List ObjectId) (s : State) :
    (State.bury now ids s).2.changes = s.changes ∧
      (State.bury now ids s).2.idempotency = s.idempotency := by
  induction ids generalizing s with
  | nil => exact ⟨rfl, rfl⟩
  | cons id ids ih =>
    unfold State.bury
    cases s.live id with
    | none => exact ih s
    | some entry => exact ih (s.putObject id (entry.tombstone now))

/-- There is a Change, for the object that was named is live. -/
theorem bury_ne_nil (now : Time) {ids : List ObjectId} {id : ObjectId} (hid : id ∈ ids)
    (hlive : (s.live id).isSome) : (State.bury now ids s).1 ≠ [] := by
  induction ids with
  | nil => cases hid
  | cons x ids ih =>
    unfold State.bury
    cases hx : s.live x with
    | some entry => simp
    | none =>
      rcases List.mem_cons.mp hid with rfl | hid
      · rw [hx] at hlive
        cases hlive
      · exact ih hid

/-- Whether an answer is accepted is up to the records. -/
theorem accepted_congr {s' : State} {outcome : MutationOutcome}
    (h : s'.idempotency = s.idempotency) : Accepted ctx outcome s' ↔ Accepted ctx outcome s := by
  unfold Accepted Held
  rw [h]

/-- Only the feed is written, -/
theorem appendChanges_keeps {γ : Type} {f : State → γ} (pending : List PendingChange)
    (h : ∀ (s : State) changes, f { s with changes } = f s) :
    (change (State.appendChanges ctx pending) : Call _).Keeps f := by
  refine keeps_change fun s => ?_
  rw [appendChanges_state]
  exact h s _

/-- only the records, -/
theorem finish_keeps {γ : Type} {f : State → γ} (object : Option ObjectId)
    (changes : List ChangeRecord) (noOp : Bool)
    (h : ∀ (s : State) idempotency, f { s with idempotency } = f s) :
    (finish ctx object changes noOp).Keeps f := by
  have hfinalize : ∀ response, (finalizeIdempotency ctx response).Keeps f := by
    intro response
    unfold finalizeIdempotency
    cases ctx.idempotency with
    | none => exact (reads_ret ()).keeps
    | some ictx =>
      show (read _ >>= _ : Call Unit).Keeps f
      exact (reads_read _).keeps.bind fun _ => (reads_orFail _ _).keeps.bind fun _ =>
        (reads_check _ _).keeps.bind fun _ => keeps_write fun s => h s _
  exact (reads_viewed object).keeps.bind fun _ => (reads_ofExcept _).keeps.bind fun response =>
    (hfinalize response).bind fun _ => (reads_ret response).keeps

/-- and the end is reached. -/
theorem finish_returns (object : Option ObjectId) (changes : List ChangeRecord) (noOp : Bool) :
    (finish ctx object changes noOp).Returns := by
  have hviewed : (viewed object).Returns := by
    cases object with
    | none => exact returns_ret none
    | some id =>
      exact (returns_read _).bind fun _ => (returns_ofExcept _).bind fun _ => returns_ret _
  have hfinalize : ∀ response, (finalizeIdempotency ctx response).Returns := by
    intro response
    unfold finalizeIdempotency
    cases ctx.idempotency with
    | none => exact returns_ret ()
    | some ictx =>
      show (read _ >>= _ : Call Unit).Returns
      exact (returns_read _).bind fun _ => (returns_orFail _ _).bind fun _ =>
        (returns_check _ _).bind fun _ => returns_write _
  exact hviewed.bind fun _ => (returns_ofExcept _).bind fun response =>
    (hfinalize response).bind fun _ => returns_ret response

/-- What a mutation makes of the objects. -/
inductive Mutation.Writes (s : State) : Mutation → Objects → Prop
  | create {cmd : CreateObjectCommit} (hcheck : checkCreate cmd s = some (.ok (), s)) :
      Writes s (.create cmd) (s.objects.insert cmd.id (createdRow cmd))
  | patch {cmd : PatchObjectCommit} {stored : ObjectRow} {target : PatchTarget}
      (hread : readTarget cmd s = some (.ok (stored, target), s))
      (hcheck : checkTarget cmd.id stored target s = some (.ok (), s)) :
      Writes s (.patch cmd) (s.objects.insert cmd.id (patchedRow stored target cmd.ctx.now))
  | delete {cmd : DeleteObjectCommit} {targets : List ObjectId}
      (hcheck : checkDelete cmd s = some (.ok targets, s)) :
      Writes s (.delete cmd) (State.bury cmd.ctx.now targets s).2.objects
  | commit {cmd : CommitContent} {upload : UploadState} {stored : ObjectRow}
      (hcheck : checkCommit cmd s = some (.ok (upload, stored), s)) :
      Writes s (.commit cmd) (s.objects.insert cmd.objectId (committedRow cmd stored))

/-- A mutation leaves the objects alone or has passed its checks, whether it
succeeds in the end or not. -/
theorem Mutation.objects_cases {m : Mutation} {s' : State} {r : DomainResult StoredResponse}
    (h : m.run s = some (r, s')) : s'.objects = s.objects ∨ m.Writes s s'.objects := by
  have hfinish : ∀ ctx pending object, (change (State.appendChanges ctx pending) >>= fun changes =>
      finish ctx object changes false : Call StoredResponse).Keeps State.objects :=
    fun ctx pending object =>
    (appendChanges_keeps pending fun _ _ => rfl).bind fun changes =>
      finish_keeps object changes false fun _ _ => rfl
  cases m with
  | create cmd =>
    rcases (reads_checkCreate cmd).bind_cases h with rfl | ⟨_, hcheck, h⟩
    · exact .inl rfl
    · right
      rw [hfinish cmd.ctx _ _ (s.putObject cmd.id (createdRow cmd)) r s' h]
      exact .create hcheck
  | patch cmd =>
    rcases (reads_readTarget cmd).bind_cases h with rfl | ⟨⟨stored, target⟩, hread, h⟩
    · exact .inl rfl
    · cases hu : target.unchanged .sqlx stored with
      | true =>
        simp only [hu, if_true] at h
        exact .inl (finish_keeps (f := State.objects) _ _ _ (fun _ _ => rfl) s r s' h)
      | false =>
        simp only [hu, Bool.false_eq_true, if_false] at h
        rcases (reads_checkTarget _ _ _).bind_cases h with rfl | ⟨_, hcheck, h⟩
        · exact .inl rfl
        · right
          rw [hfinish cmd.ctx _ _ (s.putObject cmd.id (patchedRow stored target cmd.ctx.now)) r s' h]
          exact .patch hread hcheck
  | delete cmd =>
    rcases (reads_checkDelete cmd).bind_cases h with rfl | ⟨targets, hcheck, h⟩
    · exact .inl rfl
    · right
      have hobjects : s'.objects = (State.enqueueAll cmd.ctx.now
          ((State.bury cmd.ctx.now targets s).1.filterMap fun r => r.2.blob)
          (State.bury cmd.ctx.now targets s).2).objects :=
        hfinish cmd.ctx ((State.bury cmd.ctx.now targets s).1.map
          fun (e : ObjectId × ObjectRow) => .new e.1 e.2.revision .deleted) none _ r s' h
      rw [hobjects, enqueueAll_same]
      exact .delete hcheck
  | commit cmd =>
    rcases (reads_checkCommit cmd).bind_cases h with rfl | ⟨⟨upload, stored⟩, hcheck, h⟩
    · exact .inl rfl
    · by_cases hu : upload = .completed
      · simp only [hu, if_true] at h
        exact .inl (finish_keeps (f := State.objects) _ _ _ (fun _ _ => rfl) s r s' h)
      · simp only [hu, if_false] at h
        right
        rw [hfinish cmd.ctx _ _ (s.commit cmd stored) r s' h, (commit_same cmd stored s).1]
        exact .commit hcheck

/-! ## Paths -/

section Paths

variable {objects : Objects} {n m : Nat} {id p : ObjectId} {names : List String} {row : ObjectRow}

/-- With more steps the walk finds the same, -/
theorem segments_mono (h : segments objects n id = .ok names) (hnm : n ≤ m) :
    segments objects m id = .ok names := by
  induction n generalizing m id names with
  | zero => simp [segments] at h
  | succ n ih =>
    obtain ⟨m, rfl⟩ : ∃ k, m = k + 1 := ⟨m - 1, by omega⟩
    unfold segments at h ⊢
    cases hl : objects.lookup id with
    | none => simp [hl] at h
    | some stored =>
      cases hp : stored.parentId with
      | none => simpa [hl, hp] using h
      | some parent =>
        simp only [hl, hp] at h ⊢
        cases hs : segments objects n parent with
        | error e => simp [hs, Except.map] at h
        | ok tail =>
          rw [ih hs (by omega)]
          simpa [hs, Except.map] using h

/-- A way up that avoids `id` does not depend on its row. -/
theorem segments_of_erase (h : segments (objects.erase id) n p = .ok names) :
    segments (objects.insert id row) n p = .ok names := by
  induction n generalizing p names with
  | zero => simp [segments] at h
  | succ n ih =>
    unfold segments at h ⊢
    by_cases hp : p = id
    · rw [hp, AList.lookup_erase] at h
      cases h
    · rw [AList.lookup_erase_ne hp] at h
      rw [AList.lookup_insert_ne hp]
      cases hl : objects.lookup p with
      | none => simp [hl] at h
      | some stored =>
        cases hpp : stored.parentId with
        | none => simpa [hl, hpp] using h
        | some parent =>
          simp only [hl, hpp] at h ⊢
          cases hs : segments (objects.erase id) n parent with
          | error e => simp [hs, Except.map] at h
          | ok tail =>
            rw [ih hs]
            simpa [hs, Except.map] using h

/-- A way up avoids `id`, or goes on from there. -/
theorem segments_insert_cases (h : segments (objects.insert id row) n p = .ok names) :
    segments (objects.erase id) n p = .ok names ∨
      ∃ m ≤ n, ∃ tail, segments (objects.insert id row) m id = .ok tail ∧
        tail.length ≤ names.length := by
  induction n generalizing p names with
  | zero => simp [segments] at h
  | succ n ih =>
    by_cases hp : p = id
    · rw [hp] at h
      exact .inr ⟨n + 1, Nat.le_refl _, names, h, Nat.le_refl _⟩
    · unfold segments at h
      rw [AList.lookup_insert_ne hp] at h
      cases hl : objects.lookup p with
      | none => simp [hl] at h
      | some stored =>
        have herase : (objects.erase id).lookup p = some stored := by
          rw [AList.lookup_erase_ne hp, hl]
        cases hpp : stored.parentId with
        | none =>
          simp only [hl, hpp] at h
          left
          simpa [segments, herase, hpp] using h
        | some parent =>
          simp only [hl, hpp] at h
          cases hs : segments (objects.insert id row) n parent with
          | error e => simp [hs, Except.map] at h
          | ok rest =>
            obtain rfl : stored.name :: rest = names := by simpa [hs, Except.map] using h
            rcases ih hs with hs | ⟨m, hm, tail, htail, hle⟩
            · left
              simp [segments, herase, hpp, hs, Except.map]
            · right
              exact ⟨m, by omega, tail, htail, Nat.le_trans hle (Nat.le_succ _)⟩

/-- The way up from an object whose row is `row`: none is needed from an object
without a parent, and one that comes back to the object has no end. -/
def segmentsFrom (objects : Objects) (id : ObjectId) (row : ObjectRow) (n : Nat) :
    DomainResult (List String) :=
  match row.parentId with
  | none => .ok []
  | some parent => (segments (objects.erase id) n parent).map (row.name :: ·)

/-- and a new row begins it. -/
theorem segments_insert :
    segments (objects.insert id row) (n + 1) id = .ok names ↔
      segmentsFrom objects id row n = .ok names := by
  unfold segmentsFrom
  cases hp : row.parentId with
  | none => simp [segments, hp]
  | some parent =>
    simp only [segments, AList.lookup_insert, hp]
    constructor
    · intro h
      cases hs : segments (objects.insert id row) n parent with
      | error e => simp [hs, Except.map] at h
      | ok rest =>
        obtain rfl : row.name :: rest = names := by simpa [hs, Except.map] using h
        rcases segments_insert_cases hs with hs | ⟨m, hm, tail, htail, hle⟩
        · rw [hs]
          rfl
        · -- the way up from `id` would be a proper part of itself
          have hself : segments (objects.insert id row) (n + 1) id = .ok (row.name :: rest) := by
            simp [segments, hp, hs, Except.map]
          have heq : (.ok tail : DomainResult (List String)) = .ok (row.name :: rest) :=
            (segments_mono htail (by omega)).symm.trans hself
          have hlen := congrArg List.length (Except.ok.inj heq)
          rw [List.length_cons] at hlen
          omega
    · intro h
      cases hs : segments (objects.erase id) n parent with
      | error e => simp [hs, Except.map] at h
      | ok rest =>
        rw [segments_of_erase hs]
        simpa [hs, Except.map] using h

end Paths

/-- The object that a mutation puts in place, as the answer shows it. -/
theorem viewOf_putObject {s' : State} {id : ObjectId} {row : ObjectRow} {view : ObjectView}
    (hs : s'.objects = s.objects.insert id row) (hlive : row.deletedAt = none) :
    s'.viewOf id = .ok view ↔ ∃ names, segmentsFrom s.objects id row (State.walkBound - 1) = .ok names ∧
      view = { id, object := row, path := joinSegments names } := by
  have hl : s'.live id = some row := by
    rw [State.live, hs, AList.lookup_insert]
    simp [hlive]
  unfold State.viewOf State.renderPath
  rw [hl, hs]
  constructor
  · intro h
    cases hseg : segments (s.objects.insert id row) State.walkBound id with
    | error e => simp [hseg, Except.map] at h
    | ok names =>
      exact ⟨names, segments_insert.mp hseg, by simpa [hseg, Except.map, eq_comm] using h⟩
  · rintro ⟨names, hseg, rfl⟩
    have hseg : segments (s.objects.insert id row) State.walkBound id = .ok names :=
      segments_insert.mpr hseg
    simp [hseg, Except.map]

end AnyStore.Memory
