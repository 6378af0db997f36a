import AnyStore.Refinement.Solo

/-!
# Stale conditional writes

What a conditional write answers when the object has another revision than the
client expects.

## Results

* `stale_write_conflicts`: the answer is a conflict with the revision of the
  object if and only if the adapter gets as far as comparing revisions
  (`Mutation.Compares`): `sqlx` has to parse the row that it has locked, and the
  database has to take the payload of a call and to cast the revision in it.
* `stale_write_not_conflicting`: the revision 2^63 is not cast.

## Assumptions

The write is made alone and nothing else keeps it from being checked
(`ConditionalWrite`): its object is there, and an upload that it completes is
open and names the blob.
-/

namespace AnyStore

open ReadCommitted (Alone Solo solo)

/-- The mutation as a request to the store. -/
def Mutation.call (a : Adapter) : Mutation → Store StoredResponse
  | .create cmd => createObject a cmd
  | .patch cmd => patchObject a cmd
  | .delete cmd => deleteObject a cmd
  | .commit cmd => commitContent a cmd

/-- U+0000 stands in the payload. -/
def Mutation.hasNul : Mutation → Bool
  | .create cmd => !isText cmd.parentId || cmd.hasNul
  | .patch cmd => cmd.hasNul
  | .delete cmd => !isText cmd.id
  | .commit cmd => cmd.hasNul

/-- A write that depends on the revision of a live object, and that nothing else
keeps from being checked. The ids are those of rows, so they are texts. -/
inductive ConditionalWrite (db : Db) (o : ObjectRow) (expected : Revision) : Mutation → Prop
  | patch {cmd : PatchObjectCommit} : isText cmd.id = true → Db.live db cmd.id = some o →
      cmd.ifMatch = some expected → ConditionalWrite db o expected (.patch cmd)
  | delete {cmd : DeleteObjectCommit} : isText cmd.id = true → Db.live db cmd.id = some o →
      cmd.ifMatch = some expected → ConditionalWrite db o expected (.delete cmd)
  | commit {cmd : CommitContent} {upload : UploadRow} : isText cmd.uploadId = true →
      Db.upload db cmd.uploadId = some upload → upload.state.isCompletable = true →
      (upload.objectId = cmd.objectId ∧ upload.blobBackend = cmd.blobBackend ∧
        upload.blobRef = cmd.blobRef) →
      isText cmd.objectId = true → Db.live db cmd.objectId = some o → o.kind = .file →
      cmd.ifMatch = some expected → ConditionalWrite db o expected (.commit cmd)

/-- The adapter comes to compare the revisions. -/
def Mutation.Compares (a : Adapter) (m : Mutation) (o : ObjectRow) (expected : Revision) : Prop :=
  match a with
  -- `decode_object` parses the metadata of the locked row
  | .sqlx => (o.read columnRoom).isSome
  -- the payload becomes `jsonb`, and the revision a `bigint`
  | .rpc => m.hasNul = false ∧ expected < 2 ^ 63

instance (a : Adapter) (m : Mutation) (o : ObjectRow) (expected : Revision) :
    Decidable (m.Compares a o expected) := by
  unfold Mutation.Compares
  cases a <;> infer_instance

/-- Made alone, the call is answered with a conflict and leaves the store as it
was. -/
def Conflicts (call : Store StoredResponse) (s : DbState) (current : Revision) : Prop :=
  ∀ t rank env, ∃ s', call.eval store t ⟨.ok, rank, env⟩ s =
    some (.error (.revisionConflict current), s') ∧ Alone s' s.solo

section Stale

variable {a : Adapter} {s : DbState} {o : ObjectRow} {expected : Revision} {m : Mutation}

/-- A transaction that ends with an error before it has written. -/
theorem transaction_refused {label : Label} {b : Store StoredResponse} {e : DomainError} {t : Nat}
    {rank : Row → Nat} {env : Env} (halone : s.sessions = ∅)
    (hbody : solo liveNameUq rank env b s.solo = some (.error e, s.solo)) :
    ∃ s', (ReadCommitted.transaction mapSqlx label b).eval store t ⟨.ok, rank, env⟩ s =
      some (.error e, s') ∧ Alone s' s.solo := by
  have hcommit : Solo.commit (solo liveNameUq rank env b) s.solo = some (.error e, s.solo) := by
    unfold Solo.commit
    rw [hbody]
    rfl
  have hs : Alone s s.solo := ⟨halone, rfl⟩
  exact hs.transaction hcommit

/-- A payload that has been converted holds no U+0000. -/
theorem Mutation.Compares.plain (h : m.Compares a o expected) : a = .rpc → m.hasNul = false := by
  rintro rfl
  exact h.1

/-- The row that is locked can be held, and then the check fails. -/
theorem Mutation.Compares.check (h : m.Compares a o expected) (hstale : expected ≠ o.revision)
    {rank : Row → Nat} {env : Env} {l : Rows} :
    ∃ held : ObjectRow, a.held o = some held ∧
      solo liveNameUq rank env (checkIfMatchIn a held.revision (some expected)) l =
        some (.error (.revisionConflict o.revision), l) := by
  obtain ⟨held, hheld, hfits⟩ :
      ∃ held, a.held o = some held ∧ ¬ (a = .rpc ∧ 2 ^ 63 ≤ expected) := by
    cases a with
    | sqlx =>
      obtain ⟨held, hheld⟩ := Option.isSome_iff_exists.mp h
      exact ⟨held, hheld, fun hcast => Adapter.noConfusion hcast.1⟩
    | rpc => exact ⟨o, rfl, fun hcast => absurd h.2 (Nat.not_lt.mpr hcast.2)⟩
  have hrevision : held.revision = o.revision := by rw [Adapter.held_eq hheld]
  refine ⟨held, hheld, ?_⟩
  rw [body_checkIfMatchIn (by rw [hrevision]; exact hstale), if_neg hfits, hrevision]

/-- What is in the way fails with an internal error: the payload, the row or the
cast. -/
theorem Mutation.Compares.not_check (h : ¬ m.Compares a o expected)
    (hstale : expected ≠ o.revision) {rank : Row → Nat} {env : Env}
    {l : Rows} :
    (a = .rpc ∧ m.hasNul = true) ∨ (a = .sqlx ∧ a.held o = none) ∨
      (a = .rpc ∧ m.hasNul = false ∧ a.held o = some o ∧
        solo liveNameUq rank env (checkIfMatchIn a o.revision (some expected)) l =
          some (.error (mapSqlx .other), l)) := by
  -- the three reasons why the revisions are not compared
  cases a with
  | sqlx =>
    refine .inr (.inl ⟨rfl, ?_⟩)
    exact Option.not_isSome_iff_eq_none.mp h
  | rpc =>
    cases hnul : m.hasNul with
    | true => exact .inl ⟨rfl, rfl⟩
    | false =>
      have hlarge : 2 ^ 63 ≤ expected := Nat.not_lt.mp fun hfits => h ⟨hnul, hfits⟩
      refine .inr (.inr ⟨rfl, rfl, rfl, ?_⟩)
      rw [body_checkIfMatchIn hstale, if_pos ⟨rfl, hlarge⟩]

/-- A write that comes as far as the check ends as the check does. -/
theorem ConditionalWrite.checked (h : ConditionalWrite s.db o expected m)
    (halone : s.sessions = ∅) (hplain : a = .rpc → m.hasNul = false) {held : ObjectRow}
    (hheld : a.held o = some held) {t : Nat} {rank : Row → Nat} {env : Env} {e : DomainError}
    (hcheck : solo liveNameUq rank env (checkIfMatchIn a held.revision (some expected)) s.solo =
      some (.error e, s.solo)) :
    ∃ s', (m.call a).eval store t ⟨.ok, rank, env⟩ s = some (.error e, s') ∧ Alone s' s.solo := by
  cases h with
  | patch hid hlive hexpected =>
    change a = .rpc → PatchObjectCommit.hasNul _ = false at hplain
    refine transaction_refused halone ?_
    -- the revision is checked right behind the lock
    rw [body_requirePayload hplain, body_bind (body_lockLiveObject hid hlive hheld), hexpected,
      body_bind_error hcheck]
  | delete hid hlive hexpected =>
    change a = .rpc → (!isText _) = false at hplain
    refine transaction_refused halone ?_
    rw [body_requirePayload hplain, body_bind (body_lockLiveObject hid hlive hheld), hexpected,
      body_bind_error hcheck]
  | commit hupid hupload hcompletable hmatches hid hlive hfile hexpected =>
    change a = .rpc → CommitContent.hasNul _ = false at hplain
    have hupload' : Db.upload s.solo.db _ = some _ := hupload
    have hfile : held.kind = .file := by
      rw [Adapter.held_eq hheld]
      exact hfile
    refine transaction_refused halone ?_
    -- a content commit looks at the upload first
    unfold requireText
    rw [body_requirePayload hplain, body_require_bind hupid,
      body_bind (body_selectUploadForUpdate _), body_orFail_bind hupload',
      body_require_bind hcompletable, body_require_bind hmatches,
      body_bind (body_lockLiveObject hid hlive hheld), body_require_bind hfile, hexpected,
      body_bind_error hcheck]

/-- A row that cannot be parsed ends it. -/
theorem ConditionalWrite.unread (h : ConditionalWrite s.db o expected m)
    (halone : s.sessions = ∅) (hunread : Adapter.sqlx.held o = none) {t : Nat}
    {rank : Row → Nat} {env : Env} :
    ∃ s', (m.call .sqlx).eval store t ⟨.ok, rank, env⟩ s =
      some (.error (mapSqlx .other), s') ∧ Alone s' s.solo := by
  cases h with
  | patch hid hlive | delete hid hlive =>
    refine transaction_refused halone ?_
    exact body_bind_error (body_lockLiveObject_unread hid hlive hunread) _
  | commit hupid hupload hcompletable hmatches hid hlive =>
    have hupload' : Db.upload s.solo.db _ = some _ := hupload
    refine transaction_refused halone ?_
    unfold requireText
    rw [body_requirePayload Adapter.noConfusion, body_require_bind hupid,
      body_bind (body_selectUploadForUpdate _), body_orFail_bind hupload',
      body_require_bind hcompletable, body_require_bind hmatches]
    exact body_bind_error (body_lockLiveObject_unread hid hlive hunread) _

/-- What the write answers. -/
theorem ConditionalWrite.refused (h : ConditionalWrite s.db o expected m)
    (halone : s.sessions = ∅) (hstale : expected ≠ o.revision) (t : Nat) (rank : Row → Nat)
    (env : Env) :
    ∃ s', (m.call a).eval store t ⟨.ok, rank, env⟩ s =
      some (.error (if m.Compares a o expected then .revisionConflict o.revision
        else mapSqlx .other), s') ∧ Alone s' s.solo := by
  by_cases hcompares : m.Compares a o expected
  · rw [if_pos hcompares]
    obtain ⟨held, hheld, hcheck⟩ := hcompares.check hstale
    exact h.checked halone hcompares.plain hheld hcheck
  · rw [if_neg hcompares]
    rcases @Mutation.Compares.not_check a o expected m hcompares hstale rank env s.solo
      with ⟨rfl, hnul⟩ | ⟨rfl, hunread⟩ | ⟨rfl, hplain, hheld, hcast⟩
    · -- the call has not started
      cases h with
      | patch | delete | commit =>
        exact transaction_refused halone (body_requirePayload_not hnul _)
    · exact h.unread halone hunread
    · exact h.checked halone (fun _ => hplain) hheld hcast

/-- A stale write is answered with a conflict exactly where the adapter comes to
compare the revisions. -/
theorem stale_write_conflicts (h : ConditionalWrite s.db o expected m)
    (halone : s.sessions = ∅) (hstale : expected ≠ o.revision) :
    Conflicts (m.call a) s o.revision ↔ m.Compares a o expected := by
  constructor
  · intro hconflicts
    by_contra hcompares
    obtain ⟨s', hs', _⟩ := hconflicts 0 (fun _ => 0) {}
    obtain ⟨s'', hs'', _⟩ := h.refused (a := a) halone hstale 0 (fun _ => 0) {}
    rw [if_neg hcompares, hs'] at hs''
    have herror := Except.error.inj (Prod.mk.inj (Option.some.inj hs'')).1
    cases herror
  · intro hcompares t rank env
    have hrefused := h.refused (a := a) halone hstale t rank env
    rwa [if_pos hcompares] at hrefused

end Stale

/-- A patch of the root that expects this revision. -/
def rootPatch (expected : Revision) : PatchObjectCommit where
  id := rootId
  ifMatch := some expected
  newName := none
  newParentId := none
  metadataPatch := none
  ctx := {
    now := 0
    requestId := "req"
    idempotencyKey := none
    idempotency := none
    idempotencyExpiresAt := 0
    render := fun _ => .ok .noContent }

/-- The root of a new store. -/
def rootRow : ObjectRow where
  revision := Revision.initial
  kind := .folder
  name := ""
  parentId := none
  metadata := .obj .nil
  createdAt := 0
  updatedAt := 0

/-- It is live. -/
theorem live_root : Db.live (initialState 0).db rootId = some rootRow := rfl

/-- A patch of the root that expects revision 7. -/
theorem stale_write_conflicts_seven :
    Conflicts ((Mutation.patch (rootPatch 7)).call .rpc) (initialState 0) 1 ↔
      (Mutation.patch (rootPatch 7)).Compares .rpc rootRow 7 :=
  stale_write_conflicts (o := rootRow) (.patch (by decide) live_root rfl) rfl (by decide)

/-- 2^63 does not fit. -/
theorem stale_write_not_conflicting :
    ¬ Conflicts ((Mutation.patch (rootPatch (2 ^ 63))).call .rpc) (initialState 0)
      rootRow.revision := by
  intro h
  have hpatch : ConditionalWrite (initialState 0).db rootRow (2 ^ 63)
      (.patch (rootPatch (2 ^ 63))) := .patch (by decide) live_root rfl
  have hcompares : ¬ (Mutation.patch (rootPatch (2 ^ 63))).Compares .rpc rootRow (2 ^ 63) :=
    fun hcompares => Nat.lt_irrefl _ hcompares.2
  obtain ⟨s', hs', _⟩ := h 0 (fun _ => 0) {}
  obtain ⟨s'', hs'', _⟩ := hpatch.refused (a := .rpc) rfl (by decide) 0 (fun _ => 0) {}
  rw [if_neg hcompares, hs'] at hs''
  have herror := Except.error.inj (Prod.mk.inj (Option.some.inj hs'')).1
  cases herror

end AnyStore
