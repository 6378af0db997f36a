import AnyStore.Properties.Deletes
import AnyStore.Properties.Patches
import AnyStore.Spec.Documents

/-!
# Both adapters do the same

Made alone, an object mutation is answered alike by both adapters, and leaves the
same rows: errors and their order, responses, Change records, the queue and the
idempotency record.

## Results

* `adapters_agree` — creation, patch, deletion and content commit, in every
  state of a run in which no transaction is open.

## Assumptions

What the two adapters convert differently is left out: texts of a command with
U+0000, which `jsonb` refuses before anything else is done; expected revisions
and sizes that do not fit into a `bigint`; objects whose metadata sqlx does not
read back as it is stored (`ObjectRow.ReadsBack`), before or after the mutation;
and patches that replace a value by another spelling of its numbers
(`PatchObjectCommit.Respells`), as `jsonb` does not tell them apart.
-/

namespace AnyStore

open ReadCommitted

variable {S : Setting} {c : System} {s : DbState} {l : Rows} {rank : Row → Nat} {env : Env}

/-- What is stored under the id is read as it is stored. -/
def Db.Parsed (db : Db) (id : ObjectId) : Prop := ∀ o, db.object id = some o → o.ReadsBack

/-- Both adapters hold such an object alike. -/
theorem Db.Parsed.held {db : Db} {id : ObjectId} (h : db.Parsed id) {o : ObjectRow}
    (ho : db.object id = some o) : Adapter.rpc.held o = Adapter.sqlx.held o :=
  ((h o ho).held .rpc).trans ((h o ho).held .sqlx).symm

/-- Such an object is locked and held as it is stored. -/
theorem same_lockParsed {id : ObjectId} (h : Db.Parsed l.db id) :
    SameBody rank env (lockLiveObject .sqlx id) (lockLiveObject .rpc id)
      (fun o l' => l' = l ∧ isText id = true ∧ Db.live l.db id = some o ∧ o.ReadsBack) l := by
  refine (same_lockLiveObject fun _ ho => h.held ho).mono ?_
  rintro held _ ⟨rfl, hid, o, hlive, hheld⟩
  have hread := h o (Db.live_eq_some.mp hlive).1
  obtain rfl := Option.some.inj ((hread.held .sqlx).symm.trans hheld)
  exact ⟨rfl, hid, hlive, hread⟩

/-! ## Creation, deletion, content -/

/-- **Creation.** The steps of the two bodies, one by one. -/
theorem alike_createObject (hs : s.sessions = ∅) (h : Fresh s.solo) (cmd : CreateObjectCommit)
    (hparent : isText cmd.parentId = true) (htexts : cmd.hasNul = false) (hread : cmd.row.ReadsBack) :
    Alike s (createObject .sqlx cmd) (createObject .rpc cmd) := by
  have hid : isText cmd.id = true := by
    unfold CreateObjectCommit.hasNul at htexts
    simp only [Bool.or_eq_false_iff, Bool.not_eq_false'] at htexts
    exact htexts.1.1.1
  have hpayload : (!isText cmd.parentId || cmd.hasNul) = false := by
    rw [hparent, htexts]
    rfl
  refine alike_transaction hs (Q := fun _ _ => True) fun rank env => ?_
  -- first what the payload is checked for, and then the parent
  refine SameBody.bind (same_requirePayload hpayload) ?_
  rintro _ l rfl
  refine SameBody.bind same_requireLiveFolder ?_
  rintro _ l rfl
  refine SameBody.bind (same_require (Q := Untouched s.solo) fun _ => rfl) ?_
  rintro _ l rfl
  refine SameBody.bind (same_run (Q := fun _ l' =>
    Fresh l' ∧ Db.live l'.db cmd.id = some cmd.row) ?_) ?_
  · intro a ha
    unfold insertObject statement at ha
    by_cases htaken : (Db.object s.solo.db cmd.id).isSome
    · simp only [htaken, if_true] at ha
      cases ha
    · simp only [htaken] at ha
      obtain rfl := Except.ok.inj ha
      refine ⟨h.replay_objects ?_, Db.live_eq_some.mpr
        ⟨lookup_put_self s.solo.db (.object cmd.id) (some cmd.row), rfl⟩⟩
      intro w hw
      rw [List.mem_singleton.mp hw]
      rfl
  rintro _ l ⟨hfresh, hlive⟩
  -- the new row is read back before the Changes are appended
  refine SameBody.bind (same_renderedView hid hlive hread) ?_
  rintro view _ rfl
  refine SameBody.bind (same_appendChanges hfresh) ?_
  intro changes l _
  exact same_finish.mono fun _ _ _ => trivial

/-- The rounds that lock a subtree write nothing. -/
theorem same_collectAndLockDescendants {root : ObjectId} {n : Nat}
    {previous : Option (List ObjectId)} :
    SameBody rank env (collectAndLockDescendants root n previous)
      (collectAndLockDescendants root n previous) (Untouched l) l := by
  induction n generalizing l previous with
  | zero => exact Locked.agree_fail _
  | succ n ih =>
    unfold collectAndLockDescendants
    refine SameBody.bind (same_select (Q := Untouched l) rfl) ?_
    rintro ids l rfl
    -- the rounds end when a round finds what the last one found
    by_cases hsame : some ids = previous
    · rw [if_pos hsame]
      exact same_return rfl
    · rw [if_neg hsame]
      refine SameBody.bind (same_run (Q := Untouched l) ?_) ?_
      · rintro _ ⟨⟩
        rfl
      rintro _ l rfl
      exact ih

/-- The walk down from a live object finds something, so the first round never
ends the loop: neither of the values it starts from does. -/
theorem same_firstRound {root : ObjectId} (h : Db.descendants l.db root ≠ []) {n : Nat} :
    SameBody rank env (collectAndLockDescendants root (n + 1) (some []))
      (collectAndLockDescendants root (n + 1) none) (Untouched l) l := by
  unfold collectAndLockDescendants
  refine SameBody.bind (same_select (Q := fun ids l' => l' = l ∧ ids ≠ []) ⟨rfl, h⟩) ?_
  rintro ids l ⟨rfl, hne⟩
  have hfirst : ¬ some ids = some [] := fun he => hne (Option.some.inj he)
  have hnone : ¬ some ids = none := Option.some_ne_none ids
  rw [if_neg hfirst, if_neg hnone]
  refine SameBody.bind (same_run (Q := Untouched l) ?_) ?_
  · rintro _ ⟨⟩
    rfl
  rintro _ l rfl
  exact same_collectAndLockDescendants

/-- The rounds are those of one walk, as nobody else writes. -/
theorem same_deleteTargets {cmd : DeleteObjectCommit} {current : ObjectRow}
    (h : Db.descendants l.db cmd.id ≠ []) :
    SameBody rank env (deleteTargets .sqlx cmd current) (deleteTargets .rpc cmd current)
      (Untouched l) l := by
  unfold deleteTargets
  by_cases hrecursive : current.kind = .folder ∧ cmd.recursive
  · rw [if_pos hrecursive, if_pos hrecursive]
    exact same_firstRound h
  · rw [if_neg hrecursive, if_neg hrecursive]
    -- a folder is checked to be empty, another object is its own target
    by_cases hfolder : current.kind = .folder
    · rw [if_pos hfolder]
      refine SameBody.bind (same_select (Q := Untouched l) rfl) ?_
      rintro found l rfl
      refine SameBody.bind (same_require (Q := Untouched l) fun _ => rfl) ?_
      rintro _ l rfl
      exact same_return rfl
    · rw [if_neg hfolder]
      exact same_return rfl

/-- **Deletion.** The walk from a live object finds at least that object. -/
theorem alike_deleteObject (hs : s.sessions = ∅) (h : Fresh s.solo) (hinv : TreeInv s.db)
    (cmd : DeleteObjectCommit) (hmatch : ∀ expected ∈ cmd.ifMatch, expected < 2 ^ 63)
    (hid : isText cmd.id = true) (hparsed : Db.Parsed s.db cmd.id) :
    Alike s (deleteObject .sqlx cmd) (deleteObject .rpc cmd) := by
  refine alike_transaction hs (Q := fun _ _ => True) fun rank env => ?_
  refine SameBody.bind (same_requirePayload (by rw [hid]; rfl)) ?_
  rintro _ l rfl
  have hparsed' : Db.Parsed s.solo.db cmd.id := hparsed
  refine SameBody.bind (same_lockParsed hparsed') ?_
  rintro current l ⟨rfl, -, hlive, -⟩
  have hwalk : Db.descendants s.solo.db cmd.id ≠ [] :=
    List.ne_nil_of_mem (hinv.subtree (by rw [show Db.live s.db cmd.id = some current from hlive]
                                         rfl)).self
  refine SameBody.bind (same_checkIfMatchIn hmatch) ?_
  rintro _ l rfl
  refine SameBody.bind (same_require (Q := Untouched s.solo) fun _ => rfl) ?_
  rintro _ l rfl
  refine SameBody.bind (same_deleteTargets hwalk) ?_
  rintro targets l rfl
  -- the targets are written in one statement on both sides
  refine SameBody.bind (same_run (Q := fun _ l' => Fresh l') ?_) ?_
  · intro a ha
    obtain rfl := Except.ok.inj ha
    exact h.replay_objects (onTable_objects _ _ _)
  intro rows l hfresh
  refine SameBody.bind (same_enqueueBlobs _) ?_
  intro _ l' hbeside
  refine SameBody.bind (same_appendChanges (hbeside.fresh hfresh)) ?_
  intro changes l _
  exact same_finish.mono fun _ _ _ => trivial

/-- **Content.** The upload is looked at under the lock of the object. -/
theorem alike_commitContent (hs : s.sessions = ∅) (h : Fresh s.solo) (cmd : CommitContent)
    (hmatch : ∀ expected ∈ cmd.ifMatch, expected < 2 ^ 63) (htexts : cmd.hasNul = false)
    (hparsed : Db.Parsed s.db cmd.objectId) :
    Alike s (commitContent .sqlx cmd) (commitContent .rpc cmd) := by
  refine alike_transaction hs (Q := fun _ _ => True) fun rank env => ?_
  refine SameBody.bind (same_requirePayload htexts) ?_
  rintro _ l rfl
  refine SameBody.bind same_requireText ?_
  rintro _ l ⟨rfl, -⟩
  refine SameBody.bind (same_run (Q := Untouched s.solo) ?_) ?_
  · rintro _ ⟨⟩
    rfl
  rintro found l rfl
  refine SameBody.bind (same_orFail (Q := Untouched s.solo) fun _ _ => rfl) ?_
  rintro upload l rfl
  refine SameBody.bind (same_require (Q := Untouched s.solo) fun _ => rfl) ?_
  rintro _ l rfl
  refine SameBody.bind (same_require (Q := Untouched s.solo) fun _ => rfl) ?_
  rintro _ l rfl
  have hparsed' : Db.Parsed s.solo.db cmd.objectId := hparsed
  refine SameBody.bind (same_lockParsed hparsed') ?_
  rintro current l ⟨rfl, hid, hlive, hread⟩
  refine SameBody.bind (same_require (Q := Untouched s.solo) fun _ => rfl) ?_
  rintro _ l rfl
  refine SameBody.bind (same_checkIfMatchIn hmatch) ?_
  rintro _ l rfl
  by_cases hcompleted : upload.state = .completed
  · rw [if_pos hcompleted, if_pos hcompleted]
    refine SameBody.bind (same_unchangedView hid hlive hread) ?_
    rintro view l rfl
    exact same_finish.mono fun _ _ _ => trivial
  · rw [if_neg hcompleted, if_neg hcompleted]
    refine SameBody.bind (same_require (Q := Untouched s.solo) fun _ => rfl) ?_
    rintro _ l rfl
    have hset : (cmd.row current).deletedAt = none := (Db.live_eq_some.mp hlive).2
    refine SameBody.bind (same_updateLiveObject h hlive hset) ?_
    rintro found l₁ ⟨hfresh, hnew⟩
    refine SameBody.bind (same_orFail (Q := Untouched l₁) fun _ _ => rfl) ?_
    rintro revision l rfl
    -- the blob, the upload and the queue entry are beside the object
    refine SameBody.bind same_enqueueBlob ?_
    intro _ l₂ h₂
    refine SameBody.bind same_completeUpload ?_
    intro rows l₃ h₃
    refine SameBody.bind (same_require (Q := Untouched l₃) fun _ => rfl) ?_
    rintro _ l rfl
    refine SameBody.bind same_dequeueBlobGc ?_
    intro _ l₄ h₄
    have hbeside := h₂.trans (h₃.trans h₄)
    refine SameBody.bind (same_appendChanges (hbeside.fresh hfresh)) ?_
    intro changes l₅ h₅
    have hlive₅ : Db.live l₅.db cmd.objectId = some (cmd.row current) := by
      rw [h₅, hbeside.live, hnew]
    have hread₅ : (cmd.row current).ReadsBack := hread
    refine SameBody.bind (same_renderedView hid hlive₅ hread₅) ?_
    rintro view _ rfl
    exact same_finish.mono fun _ _ _ => trivial

/-! ## Patches -/

/-- No value that the patch sets is the one it replaces in another spelling of
its numbers. -/
def PatchObjectCommit.Respells (cmd : PatchObjectCommit) (m : Members) : Prop :=
  ∃ patch ∈ cmd.metadataPatch, ∃ key x y, key ∉ patch.remove ∧
    patch.set.asMap.get? key = some x ∧ m.get? key = some y ∧
      x.normalize true = y.normalize true ∧ x.normalize false ≠ y.normalize false

section Patches

variable {cmd : PatchObjectCommit} {m : Members} {current : ObjectRow} {target : PatchTarget}

/-- Numbers apart, both notions of equality are one. -/
theorem normalize_applied (h : ¬ cmd.Respells m) {patch : MetadataPatch}
    (hpatch : cmd.metadataPatch = some patch)
    (heq : (Json.obj (patch.applied m)).normalize true = (Json.obj m).normalize true) :
    (Json.obj (patch.applied m)).normalize false = (Json.obj m).normalize false := by
  rw [Json.normalize_obj] at heq ⊢
  -- key by key: what the patch leaves alone is as it was, and what it sets is spelled as before
  intro key
  have hkey := heq key
  rw [MetadataPatch.get?_applied] at hkey ⊢
  unfold MetadataPatch.lookup at hkey ⊢
  by_cases hremoved : key ∈ patch.remove
  · rw [if_pos hremoved] at hkey ⊢
    cases hold : m.get? key with
    | none => rfl
    | some y =>
      rw [hold] at hkey
      cases hkey
  · rw [if_neg hremoved] at hkey ⊢
    cases hset : patch.set.asMap.get? key with
    | none => rw [Option.none_or]
    | some x =>
      rw [hset, Option.some_or] at hkey
      rw [Option.some_or]
      cases hold : m.get? key with
      | none =>
        rw [hold] at hkey
        cases hkey
      | some y =>
        rw [hold] at hkey
        by_contra hne
        refine h ⟨patch, hpatch, key, x, y, hremoved, hset, hold, Option.some.inj hkey, ?_⟩
        exact fun hxy => hne (congrArg some hxy)

/-- The target as PL/pgSQL makes it of a payload that was converted. -/
def PatchTarget.written (target : PatchTarget) : PatchTarget :=
  { target with metadata := target.metadata.written }

/-- A row writes its metadata as `jsonb` does anyway. -/
theorem PatchTarget.row_written (target : PatchTarget) (now : Time) :
    target.written.row now = target.row now := by
  funext o
  unfold PatchTarget.row PatchTarget.written
  rw [Json.written_written]

/-- The procedure computes the target on what `jsonb` has made of the patch. -/
theorem patchTarget_rpc (hm : current.metadata = .obj m) (hwritten : m.written = m)
    (htarget : patchTarget .sqlx cmd current = .ok target) :
    patchTarget .rpc cmd current = .ok target.written := by
  rw [patchTarget_obj .sqlx hm, Except.ok.injEq] at htarget
  subst htarget
  rw [patchTarget_obj .rpc hm]
  unfold PatchTarget.written
  cases cmd.metadataPatch with
  | none =>
    show Except.ok (PatchTarget.mk _ _ (.obj m)) = .ok (.mk _ _ (.obj m.written))
    rw [hwritten]
  | some patch =>
    show Except.ok (PatchTarget.mk _ _ (.obj _)) = .ok (.mk _ _ (.obj (patch.applied m).written))
    rw [MetadataPatch.written_applied, hwritten]
    rfl

/-- Both adapters decide alike whether the document has changed. -/
theorem metadataChanged_agrees (hm : current.metadata = .obj m) (h : ¬ cmd.Respells m)
    (htarget : patchTarget .sqlx cmd current = .ok target) :
    target.written.metadataChanged .rpc current = target.metadataChanged .sqlx current := by
  rw [patchTarget_obj .sqlx hm, Except.ok.injEq] at htarget
  subst htarget
  unfold PatchTarget.metadataChanged PatchTarget.written
  rw [Adapter.metadataEqual_rpc]
  unfold Adapter.metadataEqual AnyStore.metadataEqual nullAsEmpty
  rw [hm]
  congr 1
  rw [decide_eq_decide]
  -- equal numbers are spelled alike, as the patch respells none
  constructor
  · intro heq
    cases hpatch : cmd.metadataPatch with
    | none => rfl
    | some patch =>
      rw [hpatch] at heq
      exact normalize_applied h hpatch heq
  · intro heq
    have hnumeric := congrArg (Json.normalize true) heq
    rwa [Json.normalize_normalize, Json.normalize_normalize] at hnumeric

/-- What a patch may do for both adapters to do the same. -/
structure PatchObjectCommit.Plain (cmd : PatchObjectCommit) (db : Db) : Prop where
  texts : cmd.hasNul = false
  expected : ∀ expected ∈ cmd.ifMatch, expected < 2 ^ 63
  parsed : db.Parsed cmd.id
  spelled : ∀ o m, db.live cmd.id = some o → o.metadata = .obj m → ¬ cmd.Respells m
  leaves : ∀ o target, db.live cmd.id = some o → patchTarget .sqlx cmd o = .ok target →
    (target.row cmd.ctx.now o).ReadsBack

/-- A computed value is the same as no computation. -/
theorem same_ok_bind {α β : Type} {x y : α} {f g : α → Store β} {Q : β → Rows → Prop}
    (h : SameBody rank env (f x) (g y) Q l) :
    SameBody rank env ((Prog.ofExcept (.ok x) : Store α) >>= f)
      ((Prog.ofExcept (.ok y) : Store α) >>= g) Q l := h

/-- **Patch.** The targets are the same row, and so are the Changes. -/
theorem alike_patchObject (hs : s.sessions = ∅) (h : Fresh s.solo) (cmd : PatchObjectCommit)
    (hplain : cmd.Plain s.db)
    (hdocument : ∀ o, Db.live s.db cmd.id = some o → ∃ m, o.metadata = .obj m ∧ m.written = m) :
    Alike s (patchObject .sqlx cmd) (patchObject .rpc cmd) := by
  refine alike_transaction hs (Q := fun _ _ => True) fun rank env => ?_
  refine SameBody.bind (same_requirePayload hplain.texts) ?_
  rintro _ l rfl
  have hparsed : Db.Parsed s.solo.db cmd.id := hplain.parsed
  refine SameBody.bind (same_lockParsed hparsed) ?_
  rintro current l ⟨rfl, hid, hlive, hread⟩
  obtain ⟨m, hm, hwritten⟩ := hdocument current hlive
  refine SameBody.bind (same_checkIfMatchIn hplain.expected) ?_
  rintro _ l rfl
  refine SameBody.bind same_checkRoot ?_
  rintro _ l rfl
  obtain ⟨target, htarget⟩ : ∃ target, patchTarget .sqlx cmd current = .ok target :=
    ⟨_, patchTarget_obj .sqlx hm⟩
  -- the targets differ in how the numbers are written, which no row shows
  rw [htarget, patchTarget_rpc hm hwritten htarget]
  refine same_ok_bind ?_
  have hchanged := metadataChanged_agrees hm (hplain.spelled current m hlive hm) htarget
  have hunchanged : target.written.unchanged .rpc current = target.unchanged .sqlx current := by
    unfold PatchTarget.unchanged
    rw [hchanged]
    rfl
  have hpending : ∀ revision, target.written.pending .rpc current cmd.id revision =
      target.pending .sqlx current cmd.id revision := by
    intro revision
    unfold PatchTarget.pending
    rw [hchanged]
    rfl
  have hjsonb : requireJsonb target.written.metadata = requireJsonb target.metadata := by
    unfold requireJsonb PatchTarget.written
    simp only [Json.hasNul_written]
  rw [hunchanged]
  by_cases hsame : target.unchanged .sqlx current = true
  · rw [if_pos hsame, if_pos hsame]
    refine SameBody.bind (same_unchangedView hid hlive hread) ?_
    rintro view l rfl
    exact same_finish.mono fun _ _ _ => trivial
  · rw [if_neg hsame, if_neg hsame]
    refine SameBody.bind (same_whenever (Q := Untouched s.solo) (fun _ => same_checkDestination)
      fun _ => rfl) ?_
    rintro _ l rfl
    refine SameBody.bind (same_requireText) ?_
    rintro _ l ⟨rfl, -⟩
    rw [hjsonb]
    refine SameBody.bind (same_require (Q := Untouched s.solo) fun _ => rfl) ?_
    rintro _ l rfl
    rw [target.row_written]
    have hset : (target.row cmd.ctx.now current).deletedAt = none := (Db.live_eq_some.mp hlive).2
    refine SameBody.bind (same_updateLiveObject h hlive hset) ?_
    rintro found l₁ ⟨hfresh, hnew⟩
    refine SameBody.bind (same_orFail (Q := Untouched l₁) fun _ _ => rfl) ?_
    rintro revision l rfl
    refine SameBody.bind (same_whenever (Q := Untouched l) (fun _ => same_recheckDestination)
      fun _ => rfl) ?_
    rintro _ l rfl
    rw [hpending]
    refine SameBody.bind (same_appendChanges hfresh) ?_
    intro changes l₂ h₂
    refine SameBody.bind (same_renderedView hid ((h₂ cmd.id).trans hnew)
      (hplain.leaves current target hlive htarget)) ?_
    rintro view _ rfl
    exact same_finish.mono fun _ _ _ => trivial

end Patches

/-! ## Runs -/

/-- Each mutation is answered alike by both adapters, and leaves the same rows. -/
structure AdaptersAgree (s : DbState) : Prop where
  create : ∀ cmd : CreateObjectCommit, isText cmd.parentId = true → cmd.hasNul = false →
    cmd.row.ReadsBack → Alike s (createObject .sqlx cmd) (createObject .rpc cmd)
  patch : ∀ cmd : PatchObjectCommit, cmd.Plain s.db →
    Alike s (patchObject .sqlx cmd) (patchObject .rpc cmd)
  delete : ∀ cmd : DeleteObjectCommit, (∀ expected ∈ cmd.ifMatch, expected < 2 ^ 63) →
    isText cmd.id = true → Db.Parsed s.db cmd.id →
      Alike s (deleteObject .sqlx cmd) (deleteObject .rpc cmd)
  commit : ∀ cmd : CommitContent, (∀ expected ∈ cmd.ifMatch, expected < 2 ^ 63) →
    cmd.size < 2 ^ 63 → cmd.hasNul = false → Db.Parsed s.db cmd.objectId →
      Alike s (commitContent .sqlx cmd) (commitContent .rpc cmd)

/-- A folder in a folder. -/
def twoLevels : List (Move Request (Choice Row Env)) :=
  alone 0 (sampleNested "a" rootId "A" 1) 9 {} ++ alone 1 (sampleNested "b" "a" "B" 2) 9 {}

end AnyStore
