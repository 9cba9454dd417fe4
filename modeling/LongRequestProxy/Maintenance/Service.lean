import LongRequestProxy.Delivery.EventsRepository

/-!
# The maintenance jobs

The timeout sweeper fails overdue tasks batch by batch, each batch in one transaction; the
retention job deletes old tasks with their events batch by batch. Their loops run until a batch
comes back empty or short; here a bound on the number of batches is an argument.
-/

namespace LongRequestProxy

namespace MaintenanceRepository

/-- `MaintenanceRepository.expireTimedOutTasksBatch`: the number of expired tasks and their
events. -/
def expireTimedOutTasksBatch (batchSize : ℕ) : Async (ℕ × List TaskEventSelect) := do
  let now ← call .now
  let expiredIds ← call (.txExpireTasks now batchSize)
  if expiredIds = [] then
    call .txCommit
    return (0, [])
  else
    -- one statement, which may wait between numbering its rows and inserting them
    let events ← call (.txNumberExpiryEvents expiredIds)
    let insertedEvents ← call (.txInsertExpiryEvents events)
    call .txCommit
    return (expiredIds.length, insertedEvents)

/-- `RETENTION_DELETE_BATCH_SIZE`. -/
def retentionDeleteBatchSize : ℕ := 500

/-- One transaction of `deleteOldData`: the numbers of deleted events and tasks. -/
def deleteBatch (ids : List String) : Async (ℕ × ℕ) := do
  let events ← call (.txDeleteEvents ids)
  let taskRows ← call (.txDeleteTasks ids)
  call .txCommit
  return (events, taskRows)

/-- The loop of `deleteOldData`, for at most the given number of batches, with the totals so
far. -/
def deleteBatches (cutoff : Timestamp) : ℕ → ℕ × ℕ → Async (ℕ × ℕ)
  | 0, totals => return totals
  | n + 1, totals => do
    let batch ← call (.selectOldTasks cutoff retentionDeleteBatchSize)
    if batch = [] then return totals
    else
      let deleted ← deleteBatch batch
      let totals := (totals.1 + deleted.1, totals.2 + deleted.2)
      if batch.length ≥ retentionDeleteBatchSize then deleteBatches cutoff n totals
      else return totals

/-- `MaintenanceRepository.deleteOldData`. -/
def deleteOldData (retentionDays : ℤ) (batches : ℕ) : Async (ℕ × ℕ) := do
  let now ← call .now
  deleteBatches (now.addSeconds (-(retentionDays * 86400))) batches (0, 0)

end MaintenanceRepository

namespace TimeoutSweeperProcessor

/-- `SWEEP_BATCH_SIZE`. -/
def sweepBatchSize : ℕ := 500

/-- Publish the events of a batch; an error is only logged. -/
def publishAll : List TaskEventSelect → Async Unit
  | [] => return ()
  | event :: events => do
    tryCatch (call (.publish (taskChannel event.taskId) event)) fun _ => return ()
    publishAll events

/-- `TimeoutSweeperProcessor.process`, for at most the given number of batches. -/
def process : ℕ → Async Unit
  | 0 => return ()
  | n + 1 => do
    let batch ← MaintenanceRepository.expireTimedOutTasksBatch sweepBatchSize
    if batch.1 = 0 then return ()
    else
      publishAll batch.2
      process n

end TimeoutSweeperProcessor

end LongRequestProxy
