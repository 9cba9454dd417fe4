import LongRequestProxy.Store.Calls

/-!
# `IdempotencyService`

A two-phase lock in Redis: `occupySlot` writes a sentinel with a TTL when the key is free, then
`commitResult` replaces it by the id of the created task, or `releaseSlot` deletes it.
-/

namespace LongRequestProxy

/-- `KEY_PREFIX` and the key, joined as the service does. -/
def redisKey (key : String) : String := "idempotency:" ++ key

/-- `PENDING_SENTINEL`. -/
def pendingSentinel : String := "__PENDING__"

theorem redisKey_inj {k k' : String} : redisKey k = redisKey k' ↔ k = k' := by
  unfold redisKey
  exact String.append_right_inj _

/-- The outcome of an attempt to occupy a slot. -/
inductive OccupySlotResult : Type
  | acquired
  | pending
  | duplicate (taskId : String)
  deriving DecidableEq, Repr

/-- How `occupySlot` reads the reply of the script; an empty value is falsy. -/
def OccupySlotResult.ofReply : Bool × Option String → OccupySlotResult
  | (true, _) => acquired
  | (false, none) => pending
  | (false, some existing) =>
    if existing = "" ∨ existing = pendingSentinel then pending else duplicate existing

namespace IdempotencyService

/-- `IdempotencyService.occupySlot`. -/
def occupySlot (key : String) (ttlSeconds : ℤ) : Async OccupySlotResult := do
  let reply ← call (.redisOccupy (redisKey key) pendingSentinel ttlSeconds)
  return .ofReply reply

/-- `IdempotencyService.commitResult`. -/
def commitResult (key taskId : String) : Async Unit :=
  call (.redisSetKeepTtl (redisKey key) taskId)

/-- `IdempotencyService.releaseSlot`. -/
def releaseSlot (key : String) : Async Unit :=
  call (.redisDel (redisKey key))

end IdempotencyService

end LongRequestProxy
