import HawDB.TransactionLocks

/-!
# The lock manager

A mutex guards the lock table and the wait queue. `acquire_inner` holds it while it goes through its
requests, one `turn` after another, and gives it up only to sleep in the condition variable. Which
call runs next, when a wait is over, and whether a deadline has passed when a call looks at the
clock, is up to the events.
-/

namespace HawDB

inductive LockAcquireError where
  | retryable (error : HawDBError)
  | abortTransaction (error : HawDBError)
deriving DecidableEq

def lockTimeoutError (timeoutMillis : ℕ) : HawDBError :=
  .execution s!"transaction lock wait timed out after {timeoutMillis} ms"

/-- `LockManagerState`. -/
structure LockManager where
  locks : LockTable
  waiters : LockWaitQueue

/-- A running `acquire_inner`: the request it is trying, already normalized, and those after it. -/
structure AcquireCall where
  transactionId : ℕ
  timeoutMillis : ℕ
  current : Option LockRequest
  rest : List LockRequest
deriving DecidableEq

/-- How one turn of `acquire_inner` ends. -/
inductive Turn where
  | next (call : AcquireCall)
  | asleep (call : AcquireCall)
  | returned (result : Except LockAcquireError Unit)

/-- The requests in the order `acquire_inner` tries them. -/
def uniqueRequests (requests : List LockRequest) : List LockRequest :=
  (requests.insertionSort fun a b => (a.acquisitionCmp b).isLE).destutter fun a b => ¬ a.eq b

namespace LockManager

def blockers (m : LockManager) (transactionId : ℕ) (request : LockRequest) : List ℕ :=
  btreeSet (m.locks.blockers transactionId request ++ m.waiters.blockers transactionId request)

/-- The wait-for graph: from a queued transaction to what blocks its request, in the table or
ahead of it in the queue. -/
def WaitsFor (m : LockManager) (waiter blocker : ℕ) : Prop :=
  ∃ request, ⟨waiter, request⟩ ∈ m.waiters.requests ∧
    (blocker ∈ m.locks.blockers waiter request ∨ blocker ∈ m.waiters.blockers waiter request)

section

variable [TypeSizes]

/-- The body of the waiting loop. `expired` says whether the deadline has passed. -/
def tryRequest (m : LockManager) (call : AcquireCall) (request : LockRequest) (expired : Bool) :
    LockManager × Turn :=
  let t := call.transactionId
  if m.blockers t request = [] then
    let waiters := m.waiters.remove t
    match m.locks.grant t request with
    | (locks, .ok ()) => (⟨locks, waiters⟩, .next { call with current := none })
    | (locks, .error e) => (⟨locks, waiters⟩, .returned (.error (.abortTransaction e)))
  else
    match m.waiters.enqueue t request with
    | (waiters, .error e) =>
      (⟨m.locks, waiters.remove t⟩, .returned (.error (.abortTransaction e)))
    | (waiters, .ok ()) =>
      match waiters.checkDeadlock t m.locks with
      | .error e => (⟨m.locks, waiters.remove t⟩, .returned (.error (.abortTransaction e)))
      | .ok () =>
        if expired then
          (⟨m.locks, waiters.remove t⟩,
            .returned (.error (.retryable (lockTimeoutError call.timeoutMillis))))
        else (⟨m.locks, waiters⟩, .asleep { call with current := some request })

/-- One turn of `acquire_inner`: a waiting call tries its request again, another one takes its next
request. -/
def turn (m : LockManager) (call : AcquireCall) (expired : Bool) : LockManager × Turn :=
  match call.current, call.rest with
  | some request, _ => m.tryRequest call request expired
  | none, [] => (m, .returned (.ok ()))
  | none, request :: rest =>
    let call := { call with rest }
    if m.locks.coversAll call.transactionId [request] then (m, .next call)
    else
      let request := m.locks.normalizedRequest call.transactionId request
      if m.locks.coversAll call.transactionId [request] then (m, .next call)
      else m.tryRequest call request expired

def release (m : LockManager) (transactionId : ℕ) : LockManager :=
  ⟨m.locks.releaseTransaction transactionId, m.waiters.remove transactionId⟩

def restore (m : LockManager) (transactionId : ℕ) (savepoint : List LockRequest) : LockManager :=
  ⟨m.locks.restoreTransaction transactionId savepoint, m.waiters.remove transactionId⟩

/-- A wait that ends without another turn, by timeout or by a poisoned mutex. -/
def withdraw (m : LockManager) (transactionId : ℕ) : LockManager :=
  ⟨m.locks, m.waiters.remove transactionId⟩

end

end LockManager

/-- The lock manager with everything that uses it. The savepoints of a transaction are listed from
the newest. -/
structure LockSystem where
  manager : LockManager
  running : Option AcquireCall
  sleepers : List AcquireCall
  savepoints : ℕ → List (List LockRequest)

namespace LockSystem

/-- No locks, no waiters, no calls. -/
def init (tableLimits queueLimits : LockTableLimits) : LockSystem where
  manager := ⟨.empty tableLimits, .empty queueLimits⟩
  running := none
  sleepers := []
  savepoints := fun _ => []

inductive Event where
  /-- A transaction calls `acquire` and gets the mutex. -/
  | acquire (transactionId timeoutMillis : ℕ) (requests : List LockRequest)
  /-- The call that holds the mutex takes a turn. -/
  | turn (expired : Bool)
  /-- A sleeper wakes up, notified or not, and gets the mutex. -/
  | wake (sleeper : ℕ)
  /-- A sleeper's wait times out. -/
  | timeout (sleeper : ℕ)
  /-- A sleeper finds the mutex poisoned. -/
  | poisoned (sleeper : ℕ)
  /-- A transaction ends; its savepoints end with it. -/
  | release (transactionId : ℕ)
  | savepoint (transactionId : ℕ)
  /-- A transaction goes back to a savepoint and drops the newer ones. -/
  | restore (transactionId newer : ℕ)
  /-- A transaction drops its newest savepoint. -/
  | forget (transactionId : ℕ)

variable [TypeSizes]

/-- What happens when the mutex is free. -/
def stepFree (s : LockSystem) : Event → LockSystem
  | .acquire t timeoutMillis requests =>
    { s with running := some ⟨t, timeoutMillis, none, uniqueRequests requests⟩ }
  | .turn _ => s
  | .wake i => { s with running := s.sleepers[i]?, sleepers := s.sleepers.eraseIdx i }
  | .timeout i | .poisoned i =>
    match s.sleepers[i]? with
    | some call =>
      { s with
        manager := s.manager.withdraw call.transactionId
        sleepers := s.sleepers.eraseIdx i }
    | none => s
  | .release t =>
    { s with
      manager := s.manager.release t
      savepoints := Function.update s.savepoints t [] }
  | .savepoint t =>
    { s with
      savepoints := Function.update s.savepoints t (s.manager.locks.savepoint t :: s.savepoints t) }
  | .restore t newer =>
    match (s.savepoints t).drop newer with
    | saved :: older =>
      { s with
        manager := s.manager.restore t saved
        savepoints := Function.update s.savepoints t (saved :: older) }
    | [] => s
  | .forget t => { s with savepoints := Function.update s.savepoints t (s.savepoints t).tail }

/-- What happens while a call holds the mutex: nothing but its turns. -/
def stepHeld (s : LockSystem) (call : AcquireCall) : Event → LockSystem
  | .turn expired =>
    match s.manager.turn call expired with
    | (manager, .next call) => { s with manager, running := some call }
    | (manager, .asleep call) =>
      { s with manager, running := none, sleepers := s.sleepers ++ [call] }
    | (manager, .returned _) => { s with manager, running := none }
  | _ => s

def step (s : LockSystem) (event : Event) : LockSystem :=
  match s.running with
  | none => s.stepFree event
  | some call => s.stepHeld call event

def run (s : LockSystem) (events : List Event) : LockSystem := events.foldl step s

end LockSystem

end HawDB
