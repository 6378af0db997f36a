import AnyStore.Refinement.System

/-!
# Attempts under one key

Idempotency over whole runs: whatever attempts under one key do at the same
time, steal from each other or leave behind when they die, at most one
transaction finalises the record, and its response is the only one there is.

## Results

* `attempts_exactly_once` (`ExactlyOnce`): one effect (`once`), one response
  (`success`), and every attempt that comes after the commit is answered by it
  (`later`).

## Assumptions

The record was not purged so far (`Unpurged`). An attempt of which a call fails
from outside the store (a lost connection, a statement that is cancelled) is
answered with an error; `State.failed` says which attempts these are.
-/

namespace AnyStore

open ReadCommitted

variable {S : Setting} {c : System} {key : RecordKey} {hash : String}

/-- The reply is to an attempt under this record. -/
def Attempts (key : RecordKey) (hash : String)
    (r : Reply DbState Request DomainError Response) : Prop :=
  ∃ ctx k, r.req.context = some ctx ∧ ctx.idempotencyKey = some k ∧ ctx.recordKey k = key ∧
    ctx.requestHash = hash

/-- The attempts under one record have at most one effect and one response. -/
structure ExactlyOnce (S : Setting) (c : System) (key : RecordKey) : Prop where
  once : c.state.wal.Pairwise fun e e' => ∀ hash hash', Finishes key hash e → ¬ Finishes key hash' e'
  success : ∀ r ∈ c.replies, ∀ hash response, Attempts key hash r →
    r.result = .ok (.stored response) → (∃ e ∈ c.state.wal, Finishes key hash e) ∧
      ∃ record, Completed S c.state.wal key record ∧ record.response = response
  -- an attempt that comes after the commit of `e`
  later : ∀ r ∈ c.replies, ∀ hash hash' e, Attempts key hash r → e ∈ r.born.wal →
    Finishes key hash' e → (r.thread ∈ c.state.failed ∧ ∃ error, r.result = .error error) ∨
      ∃ record, Completed S c.state.wal key record ∧
        (hash = hash' → r.result = .ok (.stored record.response)) ∧
        (hash ≠ hash' → r.result = .error .idempotencyKeyReused)

/-- The reply to an attempt is a stored response or an error. -/
theorem Setting.Runs.attempt (h : S.Runs c) {r : Reply DbState Request DomainError Response}
    (hr : r ∈ c.replies) (ha : Attempts key hash r) :
    ∃ result : Except DomainError StoredResponse, r.result = result.map Response.stored ∧
      r.born.wal <+: c.state.wal ∧
      AttemptSpec S (r.thread ∈ c.state.failed) r.born.wal c.state.wal key hash result := by
  obtain ⟨ctx, k, hctx, hk, rfl, rfl⟩ := ha
  have hanswers := h.answers hr
  obtain ⟨result, hresult, hreplied⟩ := hanswers.attempt ctx hctx
  exact ⟨result, hresult, hanswers.later.wal, hreplied k hk⟩

/-- **Exactly once.** Every run that has not purged the record. -/
theorem attempts_exactly_once (h : S.Runs c) (hpurge : Unpurged key c.state.wal) :
    ExactlyOnce S c key where
  once := h.storeInv.serial.finishes_once h.storeInv.world.ulids hpurge
  success r hr hash response ha hok := by
    have hserial := h.storeInv.serial
    obtain ⟨result, hresult, _, hspec⟩ := h.attempt hr ha
    obtain rfl : result = .ok response := by
      rw [hok] at hresult
      cases result with
      | ok response' => exact congrArg Except.ok (Response.stored.inj (Except.ok.inj hresult)).symm
      | error e => cases hresult
    obtain ⟨wal₁, record, _, hwal, hcompleted, rfl, rfl⟩ := hspec.success response rfl
    have hrecord := hcompleted.mono hserial hwal hpurge
    exact ⟨hserial.finishes_of_completed h.storeInv.world.ulids hrecord, record, hrecord, rfl⟩
  later r hr hash hash' e ha he hf := by
    have hserial := h.storeInv.serial
    obtain ⟨result, hresult, hborn, hspec⟩ := h.attempt hr ha
    obtain ⟨record, hrecord, rfl⟩ := (hserial.of_prefix hborn).finished h.storeInv.world.ulids
      (hpurge.of_prefix hborn) he hf
    -- from then on the record is what it was
    have hstays : ∀ wal₁, r.born.wal <+: wal₁ → wal₁ <+: c.state.wal → Completed S wal₁ key record :=
      fun wal₁ h₁ hwal => hrecord.mono (hserial.of_prefix hwal) h₁ (hpurge.of_prefix hwal)
    rcases hspec.fate with ⟨wal₁, h₁, hwal, hopen⟩ | ⟨response, hok, wal₁, record', h₁, hwal, hreplay⟩ |
      ⟨hreused, wal₁, record', h₁, hwal, hrow, hne⟩ | ⟨hfailed, error, herror⟩
    · exact absurd (hstays wal₁ h₁ hwal) (hopen record)
    · obtain ⟨⟨hrow, _⟩, hhash, rfl⟩ := hreplay
      obtain rfl := Option.some.inj (hrow.symm.trans (hstays wal₁ h₁ hwal).1)
      refine .inr ⟨record', hstays _ hborn List.prefix_rfl, fun _ => ?_, fun hne => absurd hhash.symm hne⟩
      rw [hresult, hok]
      rfl
    · obtain rfl := Option.some.inj (hrow.symm.trans (hstays wal₁ h₁ hwal).1)
      refine .inr ⟨record', hstays _ hborn List.prefix_rfl, fun heq => absurd heq.symm hne, fun _ => ?_⟩
      rw [hresult, hreused]
      rfl
    · refine .inl ⟨hfailed, error, ?_⟩
      rw [hresult, herror]
      rfl

/-- An attempt and a retry after its end. -/
def retried : List (Move Request (Choice Row Env)) :=
  alone 0 (sampleCreate (some "key") "a" .folder "A" 1) 12 { fresh := "t0" } ++
    alone 1 (sampleCreate (some "key") "a" .folder "A" 2) 3 { fresh := "t1" }

/-- Records are purged. -/
def Label.purgesRecords : Label → Bool
  | .purgeIdempotencyRecords _ => true
  | _ => false

/-- The first attempt is answered after the second has taken its lease. -/
theorem attempts_exactly_once_retried : ∃ c, (Setting.free (sampleApp .sqlx) 0).Runs c ∧
    c.replies.map (fun r => match r.result with
      | .ok (.stored response) => some response.status
      | _ => none) = [some 204, some 204] ∧
    ExactlyOnce (Setting.free (sampleApp .sqlx) 0) c ("owner", "POST /objects", "key") := by
  obtain ⟨c, hc, hend⟩ := Setting.free_runs (sampleApp .sqlx) 0 retried
    (fun c => (c.replies.map (fun r => match r.result with
      | .ok (.stored response) => some response.status
      | _ => none), c.state.wal.any fun e => e.1.purgesRecords))
    (a := ([some 204, some 204], false)) (by decide +kernel)
  obtain ⟨hreplies, hpurge⟩ := Prod.mk.inj hend
  refine ⟨c, hc, hreplies, attempts_exactly_once hc fun e he ⟨⟨now, hlabel⟩, _⟩ => ?_⟩
  have := List.any_eq_false.mp hpurge e he
  rw [hlabel] at this
  exact this rfl

end AnyStore
