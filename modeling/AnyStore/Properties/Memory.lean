import AnyStore.Refinement.Memory

/-!
# Failing mutations of the in-memory store

A mutation writes the object, the queue and the Changes first and renders its
answer and finalises the idempotency record afterwards.

## Results

* `mutations_atomic`: a mutation that fails leaves everything as it was exactly if
  it can be carried to its end once its checks are passed (`CanFinish`).
* `mutation_not_atomic`: a create whose lease has been taken over.

## Assumptions

None: every state and every command.

## Proof

The checks only read (`atomic_bind`), so what matters is the part behind them. It
appends Changes first, and a state with more Changes is not the one from before
(`appended_atomic`).
-/

namespace AnyStore.Memory

open Locked

variable {s : State}

/-- The answer that shows the object `id` as `row` after the Changes `pending`
can be given in the state `s`: the record is held, the path has less than 1024
names, and the renderer accepts. -/
def CanReport (s : State) (ctx : MutationContext) (id : ObjectId) (row : ObjectRow)
    (pending : List PendingChange) : Prop :=
  ∃ names, segmentsFrom s.objects id row (State.walkBound - 1) = .ok names ∧
    Accepted ctx {
      object := some { id, object := row, path := joinSegments names }
      changes := (State.appendChanges ctx pending s).1
      noOp := false } s

/-- If the mutation passes its checks and has something to write, it can be
carried to its end. -/
def Mutation.CanFinish (s : State) : Mutation → Prop
  | create cmd => checkCreate cmd s = some (.ok (), s) →
      CanReport s cmd.ctx cmd.id (createdRow cmd) [.new cmd.id Revision.initial .created]
  | patch cmd => ∀ stored target, readTarget cmd s = some (.ok (stored, target), s) →
      target.unchanged .sqlx stored = false → checkTarget cmd.id stored target s = some (.ok (), s) →
      CanReport s cmd.ctx cmd.id (patchedRow stored target cmd.ctx.now)
        (target.pending .sqlx stored cmd.id (stored.revision + 1))
  | delete cmd => ∀ targets, checkDelete cmd s = some (.ok targets, s) →
      Accepted cmd.ctx {
        object := none
        changes := (State.appendChanges cmd.ctx
          ((State.bury cmd.ctx.now targets s).1.map fun r => .new r.1 r.2.revision .deleted) s).1
        noOp := false } s
  | commit cmd => ∀ upload stored, checkCommit cmd s = some (.ok (upload, stored), s) →
      upload ≠ .completed →
      CanReport s cmd.ctx cmd.objectId (committedRow cmd stored)
        [.new cmd.objectId (stored.revision + 1) (contentAction stored)]

/-- Once Changes are appended, an error leaves them behind. -/
theorem appended_atomic {s₁ : State} {ctx : MutationContext} {object : Option ObjectId}
    {pending : List PendingChange} (hchanges : s₁.changes = s.changes) (hpending : pending ≠ []) :
    (∀ e s', (change (State.appendChanges ctx pending) >>= fun changes =>
        finish ctx object changes false) s₁ = some (.error e, s') → s' = s) ↔
      (finish ctx object (State.appendChanges ctx pending s).1 false).Succeeds
        { s₁ with changes := s.changes ++ (State.appendChanges ctx pending s).1 } := by
  have hrecords : (State.appendChanges ctx pending s₁).1 = (State.appendChanges ctx pending s).1 :=
    appendChanges_congr pending (congrArg List.length hchanges)
  have hstate : (State.appendChanges ctx pending s₁).2 =
      { s₁ with changes := s.changes ++ (State.appendChanges ctx pending s).1 } := by
    rw [appendChanges_state, hchanges, hrecords]
  -- the state has more Changes than before, whatever happens next
  have hlength : s.changes.length < (State.appendChanges ctx pending s₁).2.changes.length := by
    have hpos := List.length_pos_of_ne_nil hpending
    rw [hstate]
    simp only [List.length_append, length_appendChanges]
    omega
  show (∀ e s', (finish ctx object _ false) (State.appendChanges ctx pending s₁).2 = _ → _) ↔ _
  rw [atomic_changed (finish_grows _ _ _) hlength, hstate, hrecords]

/-- What follows the checks of a mutation that writes the object `id`. -/
theorem report_atomic (row : ObjectRow) {f : State → State} {ctx : MutationContext} {id : ObjectId}
    {pending : List PendingChange} (hobjects : (f s).objects = s.objects.insert id row)
    (hlive : row.deletedAt = none) (hchanges : (f s).changes = s.changes)
    (hidempotency : (f s).idempotency = s.idempotency) (hpending : pending ≠ []) :
    (write f >>= fun _ => change (State.appendChanges ctx pending) >>= fun changes =>
        finish ctx (some id) changes false).Atomic s ↔ CanReport s ctx id row pending := by
  refine (appended_atomic hchanges hpending).trans ?_
  rw [finish_succeeds_some, CanReport]
  constructor
  · rintro ⟨view, hview, h⟩
    obtain ⟨names, hnames, rfl⟩ := (viewOf_putObject hobjects hlive).mp hview
    exact ⟨names, hnames, (accepted_congr hidempotency).mp h⟩
  · rintro ⟨names, hnames, h⟩
    exact ⟨_, (viewOf_putObject hobjects hlive).mpr ⟨names, hnames, rfl⟩,
      (accepted_congr hidempotency).mpr h⟩

/-- A create. -/
theorem createObject_atomic (cmd : CreateObjectCommit) :
    (createObject cmd).Atomic s ↔ (Mutation.create cmd).CanFinish s := by
  unfold createObject
  rw [atomic_bind (reads_checkCreate cmd), report_atomic _ rfl rfl rfl rfl (by simp)]
  exact ⟨fun h => h (), fun h _ => h⟩

/-- A patch. One that changes nothing writes nothing either. -/
theorem patchObject_atomic (cmd : PatchObjectCommit) :
    (patchObject cmd).Atomic s ↔ (Mutation.patch cmd).CanFinish s := by
  unfold patchObject
  rw [atomic_bind (reads_readTarget cmd), Prod.forall]
  refine forall_congr' fun stored => forall_congr' fun target => ?_
  by_cases hread : readTarget cmd s = some (.ok (stored, target), s)
  · obtain ⟨hlive, _⟩ := readTarget_ok hread
    have hdeleted : stored.deletedAt = none := (State.live_eq_some.mp hlive).2
    simp only [hread, true_imp_iff]
    -- a no-op goes from its checks to its answer
    cases hu : target.unchanged .sqlx stored with
    | true => simp [finish_atomic]
    | false =>
      simp only [Bool.false_eq_true, if_false, true_imp_iff]
      rw [atomic_bind (reads_checkTarget _ _ _),
        report_atomic (patchedRow stored target cmd.ctx.now) rfl hdeleted rfl rfl
          (PatchTarget.pending_ne_nil hu)]
      exact ⟨fun h => h (), fun h _ => h⟩
  · simp [hread]

/-- A delete. It has at least one record, that of its target. -/
theorem deleteObject_atomic (cmd : DeleteObjectCommit) :
    (deleteObject cmd).Atomic s ↔ (Mutation.delete cmd).CanFinish s := by
  unfold deleteObject
  rw [atomic_bind (reads_checkDelete cmd)]
  refine forall_congr' fun targets => ?_
  by_cases hcheck : checkDelete cmd s = some (.ok targets, s)
  · simp only [hcheck, true_imp_iff]
    obtain ⟨stored, hlive, _⟩ := checkDelete_ok hcheck
    -- the target itself is among the buried
    have hrows := bury_ne_nil cmd.ctx.now (mem_targets hcheck) (by rw [hlive]; rfl)
    have hbury := bury_same cmd.ctx.now targets s
    obtain ⟨s₁, hs₁⟩ : ∃ s₁, State.enqueueAll cmd.ctx.now
        ((State.bury cmd.ctx.now targets s).1.filterMap fun r => r.2.blob)
        (State.bury cmd.ctx.now targets s).2 = s₁ := ⟨_, rfl⟩
    -- the queue is written in between, and the records stay
    have hqueue := enqueueAll_same cmd.ctx.now
      ((State.bury cmd.ctx.now targets s).1.filterMap fun r => r.2.blob)
      (State.bury cmd.ctx.now targets s).2
    rw [hs₁] at hqueue
    have hchanges : s₁.changes = s.changes := by
      rw [hqueue]
      exact hbury.1
    have hidempotency : s₁.idempotency = s.idempotency := by
      rw [hqueue]
      exact hbury.2
    have happended := @appended_atomic s s₁ cmd.ctx none
      ((State.bury cmd.ctx.now targets s).1.map fun r => .new r.1 r.2.revision .deleted) hchanges
      fun h => hrows (List.map_eq_nil_iff.mp h)
    rw [finish_succeeds_none, ← hs₁] at happended
    exact happended.trans (accepted_congr (hs₁ ▸ hidempotency))
  · simp [hcheck]

/-- A completion. An upload that is completed already is answered as before. -/
theorem commitContent_atomic (cmd : CommitContent) :
    (commitContent cmd).Atomic s ↔ (Mutation.commit cmd).CanFinish s := by
  unfold commitContent
  rw [atomic_bind (reads_checkCommit cmd), Prod.forall]
  refine forall_congr' fun upload => forall_congr' fun stored => ?_
  by_cases hcheck : checkCommit cmd s = some (.ok (upload, stored), s)
  · obtain ⟨hlive, _⟩ := checkCommit_ok hcheck
    have hdeleted : stored.deletedAt = none := (State.live_eq_some.mp hlive).2
    have hcommit := commit_same cmd stored s
    simp only [hcheck, true_imp_iff]
    by_cases hu : upload = .completed
    · simp [hu, finish_atomic]
    · simp only [hu, if_false, ne_eq, not_false_eq_true, true_imp_iff]
      rw [report_atomic (committedRow cmd stored) hcommit.1 hdeleted hcommit.2.1 hcommit.2.2
        (by simp)]
  · simp [hcheck]

/-- A failing mutation of the in-memory store leaves everything as it was, if
and only if it can be carried to its end once it has passed its checks. -/
theorem mutations_atomic (m : Mutation) (s : State) :
    (∀ e s', m.run s = some (.error e, s') → s' = s) ↔ m.CanFinish s := by
  cases m with
  | create cmd => exact createObject_atomic cmd
  | patch cmd => exact patchObject_atomic cmd
  | delete cmd => exact deleteObject_atomic cmd
  | commit cmd => exact commitContent_atomic cmd

/-! ## An attempt whose lease was taken over -/

def attemptContext (ownerToken : String) : IdempotencyContext where
  principalId := "local"
  operation := "POST /objects"
  key := "k"
  requestHash := "h"
  ownerToken
  resourceToken := "0"

/-- The first attempt at a keyed request creates a folder after its lease has
run out and a second attempt has taken over the record. -/
def lateCreate : CreateObjectCommit where
  id := "a"
  kind := .folder
  name := "a"
  parentId := rootId
  contentType := none
  metadata := .obj .nil
  ctx := {
    now := 61
    requestId := "r"
    idempotencyKey := some "k"
    idempotency := some (attemptContext "first")
    idempotencyExpiresAt := 100
    render := fun _ => .ok .noContent }

def acquireAt (ownerToken : String) (now : Time) : IdempotencyAcquire where
  context := attemptContext ownerToken
  now
  leaseUntil := now + 60
  expiresAt := 100

/-- The folder is there although the create has failed. -/
theorem mutation_not_atomic : ∃ s₁ s e s',
    acquire (acquireAt "first" 0) (State.new 0) = some (.ok (.owner "0"), s₁) ∧
    acquire (acquireAt "second" 60) s₁ = some (.ok (.owner "0"), s) ∧
    (Mutation.create lateCreate).run s = some (.error e, s') ∧
    s.live "a" = none ∧ (s'.live "a").isSome ∧ s' ≠ s := by
  refine ⟨_, _, _, _, rfl, rfl, rfl, rfl, rfl, ?_⟩
  intro h
  have hlength := congrArg (fun s => s.changes.length) h
  cases hlength

end AnyStore.Memory
