import AnyStore.Lib.Effects
import AnyStore.Model.Services

/-!
# A maintenance pass

`MaintenanceService::run`. The two loops take batches for at most a given number
of rounds; `none` says that they were not through by then.
-/

namespace AnyStore

open ReadCommitted

structure MaintenanceReport where
  blobsDeleted : Nat := 0
  blobsFailed : Nat := 0
  uploadsExpired : Nat := 0
  idempotencyPurged : Nat := 0
  cursorsPurged : Nat := 0
  changesPurged : Nat := 0
  -- false when the time budget ran out with expiry or GC work left over
  drained : Bool := true

/-- `Instant::now() >= deadline`. -/
def deadlinePassed (deadline : Time) : Store Bool := do
  return decide (deadline ≤ (← utcNow))

def MaintenanceReport.stopped (report : MaintenanceReport) : MaintenanceReport :=
  { report with drained := false }

variable (app : AppState) (now : Time)

def expiryRound (report : MaintenanceReport) : Store (MaintenanceReport × Nat) := do
  let expired ← abortExpiredUploads app now
  return ({ report with uploadsExpired := report.uploadsExpired + expired }, expired)

def collectionRound (report : MaintenanceReport) : Store (MaintenanceReport × Nat) := do
  let (deleted, failed) ← collectBlobs app now
  return ({ report with
    blobsDeleted := report.blobsDeleted + deleted
    blobsFailed := report.blobsFailed + failed }, deleted + failed)

/-- The purges after the loops. -/
def purgeAll (report : MaintenanceReport) : Store MaintenanceReport := do
  let idempotencyPurged ← purgeIdempotencyRecords now
  let cursorsPurged ← purgeChangeCursors now
  let changesPurged ← purgeChanges (now - app.changesRetention)
  return { report with idempotencyPurged, cursorsPurged, changesPurged }

def runMaintenance (deadline : Time) (rounds : Nat) : Store (Option MaintenanceReport) := do
  let loop (round : MaintenanceReport → Store (MaintenanceReport × Nat))
      (report : MaintenanceReport) : Store (Option MaintenanceReport) :=
    Prog.batches app.gcBatchSize round (deadlinePassed deadline) MaintenanceReport.stopped rounds
      report
  match ← loop (expiryRound app now) {} with
  | none => return none
  | some report =>
    match ← loop (collectionRound app now) report with
    | none => return none
    | some report => return some (← purgeAll app now report)

end AnyStore
