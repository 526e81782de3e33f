import HawDB.Error
import HawDB.RelationalValue

/-!
# Logical locks: the lock table and the wait queue

Transactions lock targets in one of three modes. The table keeps what is granted and the queue
keeps, in arrival order, one request for each transaction that waits. Both are plain data; the
lock manager serialises every use of them.
-/

namespace HawDB

inductive LockMode where
  | shared
  | exclusive
  | optimisticCommit
deriving DecidableEq, Repr, Ord

inductive LockNamespace where
  | relationalIndex (table : String) (columns : List String)
deriving DecidableEq

/-- `Ord` of a namespace. -/
def LockNamespace.cmp : LockNamespace → LockNamespace → Ordering
  | .relationalIndex table columns, .relationalIndex table' columns' =>
    (compare (utf8 table) (utf8 table')).then (compare (columns.map utf8) (columns'.map utf8))

inductive GraphAllocationKind where
  | node
  | relationship
deriving DecidableEq, Repr, Ord

inductive GraphAdjacencyDirection where
  | outgoing
  | incoming
deriving DecidableEq, Repr, Ord

inductive Bound where
  | included (key : RelationalKey)
  | excluded (key : RelationalKey)
  | unbounded
deriving DecidableEq

/-- `PartialEq` of a bound: its keys are equal when they compare equal. -/
def Bound.eq : Bound → Bound → Bool
  | .included left, .included right => RelationalKey.eq left right
  | .excluded left, .excluded right => RelationalKey.eq left right
  | .unbounded, .unbounded => true
  | _, _ => false

inductive LockTarget where
  | database
  | relationalTable (table : String)
  | relationalRange (ns : LockNamespace) (lower upper : Bound)
  | graphAllocation (kind : GraphAllocationKind)
  | graphLabel (label : String)
  | graphRelationshipType (relType : String)
  | graphNode (nodeId : ℕ)
  | graphRelationship (relationshipId : ℕ)
  | graphNodeDeleteGuard (nodeId : ℕ)
  | graphAdjacency (nodeId : ℕ) (relType : Option ℕ) (direction : GraphAdjacencyDirection)
deriving DecidableEq

/-- `PartialEq` of a target. -/
def LockTarget.eq : LockTarget → LockTarget → Bool
  | .relationalRange ns lower upper, .relationalRange ns' lower' upper' =>
    ns = ns' && lower.eq lower' && upper.eq upper'
  | left, right => left = right

structure LockRequest where
  mode : LockMode
  target : LockTarget
deriving DecidableEq

/-- `PartialEq` of a request. -/
def LockRequest.eq (left right : LockRequest) : Bool :=
  left.mode = right.mode && left.target.eq right.target

def relationalNamespaceTable : LockNamespace → String
  | .relationalIndex table _ => table

def modesConflict : LockMode → LockMode → Bool
  | .shared, .shared | .optimisticCommit, .optimisticCommit => false
  | _, _ => true

def modeCovers (held requested : LockMode) : Bool := held = .exclusive || held = requested

def lowerBoundCovers : Bound → Bound → Bool
  | .unbounded, _ => true
  | _, .unbounded => false
  | .included held, .included requested => (compare held requested).isLE
  | .included held, .excluded requested => (compare held requested).isLE
  | .excluded held, .included requested => (compare held requested).isLT
  | .excluded held, .excluded requested => (compare held requested).isLE

def upperBoundCovers : Bound → Bound → Bool
  | .unbounded, _ => true
  | _, .unbounded => false
  | .included held, .included requested => (compare held requested).isGE
  | .included held, .excluded requested => (compare held requested).isGE
  | .excluded held, .included requested => (compare held requested).isGT
  | .excluded held, .excluded requested => (compare held requested).isGE

def upperIsBeforeLower : Bound → Bound → Bool
  | .unbounded, _ | _, .unbounded => false
  | .included upper, .included lower => (compare upper lower).isLT
  | .included upper, .excluded lower => (compare upper lower).isLE
  | .excluded upper, .included lower => (compare upper lower).isLE
  | .excluded upper, .excluded lower => (compare upper lower).isLE

def targetCovers : LockTarget → LockTarget → Bool
  | .database, _ => true
  | _, .database => false
  | .relationalTable held, .relationalTable requested => held = requested
  | .relationalTable table, .relationalRange ns _ _ => relationalNamespaceTable ns = table
  | .relationalRange .., .relationalTable _ => false
  | .relationalRange ns lower upper, .relationalRange ns' lower' upper' =>
    ns = ns' && lowerBoundCovers lower lower' && upperBoundCovers upper upper'
  | .graphAllocation held, .graphAllocation requested => held = requested
  | .graphLabel held, .graphLabel requested => held = requested
  | .graphRelationshipType held, .graphRelationshipType requested => held = requested
  | .graphNode held, .graphNode requested => held = requested
  | .graphNodeDeleteGuard held, .graphNodeDeleteGuard requested => held = requested
  | .graphRelationship held, .graphRelationship requested => held = requested
  | .graphAdjacency node relType direction, .graphAdjacency node' relType' direction' =>
    node = node' && direction = direction' && (relType = none || relType = relType')
  | _, _ => false

def targetsOverlap : LockTarget → LockTarget → Bool
  | .database, _ | _, .database => true
  | .relationalTable left, .relationalTable right => left = right
  | .relationalTable table, .relationalRange ns _ _ => relationalNamespaceTable ns = table
  | .relationalRange ns _ _, .relationalTable table => relationalNamespaceTable ns = table
  | .relationalRange ns lower upper, .relationalRange ns' lower' upper' =>
    ns = ns' && !upperIsBeforeLower upper lower' && !upperIsBeforeLower upper' lower
  | .graphAllocation left, .graphAllocation right => left = right
  | .graphLabel left, .graphLabel right => left = right
  | .graphRelationshipType left, .graphRelationshipType right => left = right
  | .graphNode left, .graphNode right => left = right
  | .graphNodeDeleteGuard left, .graphNodeDeleteGuard right => left = right
  | .graphRelationship left, .graphRelationship right => left = right
  | .graphAdjacency node relType direction, .graphAdjacency node' relType' direction' =>
    node = node' && direction = direction' &&
      (relType = none || relType' = none || relType = relType')
  | _, _ => false

def requestsConflict (left right : LockRequest) : Bool :=
  modesConflict left.mode right.mode && targetsOverlap left.target right.target

/-- The test `covers_all` and `grant` share: a held request covers another. -/
def requestCovers (held requested : LockRequest) : Bool :=
  modeCovers held.mode requested.mode && targetCovers held.target requested.target

def lockTargetRank : LockTarget → ℕ
  | .database => 0
  | .relationalTable _ => 1
  | .relationalRange .. => 2
  | .graphAllocation _ => 3
  | .graphLabel _ => 4
  | .graphRelationshipType _ => 5
  | .graphNode _ => 6
  | .graphNodeDeleteGuard _ => 7
  | .graphRelationship _ => 8
  | .graphAdjacency .. => 9

def boundCmp : Bound → Bound → Ordering
  | .unbounded, .unbounded => .eq
  | .unbounded, _ => .lt
  | _, .unbounded => .gt
  | .included left, .included right => compare left right
  | .excluded left, .excluded right => compare left right
  | .included left, .excluded right => (compare left right).then .lt
  | .excluded left, .included right => (compare left right).then .gt

/-- `lock_target_cmp`. Targets of different rank are ordered by it before the match. -/
def lockTargetCmp (left right : LockTarget) : Ordering :=
  (compare (lockTargetRank left) (lockTargetRank right)).then <|
    match left, right with
    | .relationalTable left, .relationalTable right => compare (utf8 left) (utf8 right)
    | .relationalRange ns lower upper, .relationalRange ns' lower' upper' =>
      ((ns.cmp ns').then (boundCmp lower lower')).then (boundCmp upper upper')
    | .graphAllocation left, .graphAllocation right => compare left right
    | .graphLabel left, .graphLabel right => compare (utf8 left) (utf8 right)
    | .graphRelationshipType left, .graphRelationshipType right =>
      compare (utf8 left) (utf8 right)
    | .graphNode left, .graphNode right => compare left right
    | .graphRelationship left, .graphRelationship right => compare left right
    | .graphNodeDeleteGuard left, .graphNodeDeleteGuard right => compare left right
    | .graphAdjacency node relType direction, .graphAdjacency node' relType' direction' =>
      ((compare node node').then (compare direction direction')).then (compare relType relType')
    | _, _ => .eq

def LockRequest.acquisitionCmp (left right : LockRequest) : Ordering :=
  (lockTargetCmp left.target right.target).then (compare right.mode left.mode)

structure HeldLock where
  transactionId : ℕ
  request : LockRequest
deriving DecidableEq

structure LockTableLimits where
  maxEntries : ℕ := 65536
  maxBytes : ℕ := 16 * 1024 * 1024
  escalationEntriesPerTable : ℕ := 64

section

variable [TypeSizes]

def boundEstimatedBytes : Bound → ℕ
  | .included key | .excluded key =>
    satAdd TypeSizes.relationalKey
      (key.map fun value => satAdd TypeSizes.relationalValue value.estimatedPayloadBytes).sum
  | .unbounded => 0

def lockNamespaceEstimatedBytes : LockNamespace → ℕ
  | .relationalIndex table columns =>
    satAdd (utf8 table).length
      (columns.map fun column => satAdd TypeSizes.string (utf8 column).length).sum

def lockRequestEstimatedBytes (request : LockRequest) : ℕ :=
  satAdd TypeSizes.heldLock <|
    match request.target with
    | .database => 0
    | .relationalTable table => (utf8 table).length
    | .relationalRange ns lower upper =>
      satAdd (satAdd (lockNamespaceEstimatedBytes ns) (boundEstimatedBytes lower))
        (boundEstimatedBytes upper)
    | .graphAllocation _ | .graphNode _ | .graphRelationship _ | .graphNodeDeleteGuard _
    | .graphAdjacency .. => 0
    | .graphLabel label => (utf8 label).length
    | .graphRelationshipType relType => (utf8 relType).length

def heldLockEstimatedBytes (held : HeldLock) : ℕ := lockRequestEstimatedBytes held.request

end

/-- A `BTreeSet` of transaction ids: ascending, without repetitions. -/
def btreeSet (ids : List ℕ) : List ℕ := ids.dedup.insertionSort (· ≤ ·)

def coveringMode (requested : LockMode) (held : List HeldLock) : LockMode :=
  if held.any fun held => held.request.mode ≠ requested then .exclusive else requested

/-- A held lock of the given transaction on a range of the given table. -/
def HeldLock.isRangeOf (held : HeldLock) (transactionId : ℕ) (table : String) : Bool :=
  held.transactionId = transactionId &&
    match held.request.target with
    | .relationalRange ns _ _ => relationalNamespaceTable ns = table
    | _ => false

/-- A held lock of the given transaction on one relationship type of a node, in a direction. -/
def HeldLock.isTypeOf (held : HeldLock) (transactionId nodeId : ℕ)
    (direction : GraphAdjacencyDirection) : Bool :=
  held.transactionId = transactionId &&
    match held.request.target with
    | .graphAdjacency heldNodeId (some _) heldDirection =>
      heldNodeId = nodeId && heldDirection = direction
    | _ => false

structure LockTable where
  locks : List HeldLock
  estimatedBytes : ℕ
  limits : LockTableLimits

namespace LockTable

def empty (limits : LockTableLimits) : LockTable := ⟨[], 0, limits⟩

def coversAll (table : LockTable) (transactionId : ℕ) (requests : List LockRequest) : Bool :=
  requests.all fun request =>
    table.locks.any fun held =>
      held.transactionId = transactionId && requestCovers held.request request

def blockers (table : LockTable) (transactionId : ℕ) (request : LockRequest) : List ℕ :=
  btreeSet <|
    (table.locks.filter fun held =>
      held.transactionId ≠ transactionId && requestsConflict held.request request).map
        HeldLock.transactionId

def normalizedRequest (table : LockTable) (transactionId : ℕ) (request : LockRequest) :
    LockRequest :=
  match request.target with
  | .relationalRange ns _ _ =>
    let narrowLocks :=
      table.locks.filter fun held => held.isRangeOf transactionId (relationalNamespaceTable ns)
    if satAdd narrowLocks.length 1 ≤ table.limits.escalationEntriesPerTable then request
    else
      { mode := coveringMode request.mode narrowLocks
        target := .relationalTable (relationalNamespaceTable ns) }
  | .graphAdjacency nodeId (some _) direction =>
    let narrowLocks := table.locks.filter fun held => held.isTypeOf transactionId nodeId direction
    if satAdd narrowLocks.length 1 ≤ table.limits.escalationEntriesPerTable then request
    else
      { mode := coveringMode request.mode narrowLocks
        target := .graphAdjacency nodeId none direction }
  | _ => request

def savepoint (table : LockTable) (transactionId : ℕ) : List LockRequest :=
  (table.locks.filter fun held => held.transactionId = transactionId).map HeldLock.request

def tableBudgetError (nextEntries nextBytes : ℕ) (limits : LockTableLimits) : HawDBError :=
  let maxEntries := limits.maxEntries
  let maxBytes := limits.maxBytes
  .execution (s!"lock table resource budget exceeded: required_entries={nextEntries} " ++
    s!"max_entries={maxEntries} required_bytes={nextBytes} max_bytes={maxBytes}; " ++
    "retry after competing transactions finish")

/-- The held locks `grant` drops for a new request of their transaction that covers them. -/
def superseded (transactionId : ℕ) (request : LockRequest) (held : HeldLock) : Bool :=
  held.transactionId = transactionId && requestCovers request held.request

variable [TypeSizes]

/-- The table that is left, and the result. -/
def grant (table : LockTable) (transactionId : ℕ) (request : LockRequest) :
    LockTable × Except HawDBError Unit :=
  if table.coversAll transactionId [request] then (table, .ok ())
  else
    let removed := table.locks.filter (superseded transactionId request)
    let removedBytes := (removed.map heldLockEstimatedBytes).sum
    let nextEntries := satAdd (table.locks.length - removed.length) 1
    let nextBytes :=
      satAdd (table.estimatedBytes - removedBytes) (lockRequestEstimatedBytes request)
    if nextEntries > table.limits.maxEntries ∨ nextBytes > table.limits.maxBytes then
      (table, .error (tableBudgetError nextEntries nextBytes table.limits))
    else
      -- `retain`, `push` and the new sum follow the check of the limits
      let locks := table.locks.filter fun held => !superseded transactionId request held
      ({ table with locks := locks ++ [⟨transactionId, request⟩], estimatedBytes := nextBytes },
        .ok ())

def releaseTransaction (table : LockTable) (transactionId : ℕ) : LockTable :=
  let locks := table.locks.filter fun held => held.transactionId ≠ transactionId
  { table with locks, estimatedBytes := (locks.map heldLockEstimatedBytes).sum }

def restoreTransaction (table : LockTable) (transactionId : ℕ) (requests : List LockRequest) :
    LockTable :=
  let locks := (table.releaseTransaction transactionId).locks ++
    requests.map fun request => ⟨transactionId, request⟩
  { table with locks, estimatedBytes := (locks.map heldLockEstimatedBytes).sum }

end LockTable

structure LockWaitQueue where
  requests : List HeldLock
  estimatedBytes : ℕ
  limits : LockTableLimits

/-- The visited waiters of `check_deadlock` with their parents, and those still to expand. -/
structure DeadlockSearch where
  parents : List (ℕ × Option ℕ)
  pending : List ℕ

def deadlockError (victim : ℕ) (cycle : List ℕ) : HawDBError :=
  .transactionRetryRequired
    { transactionId := victim, reason := .deadlock cycle, alreadyAborted := false }

namespace LockWaitQueue

def empty (limits : LockTableLimits) : LockWaitQueue := ⟨[], 0, limits⟩

def queueBudgetError (nextEntries nextBytes : ℕ) (limits : LockTableLimits) : HawDBError :=
  let maxEntries := limits.maxEntries
  let maxBytes := limits.maxBytes
  .execution (s!"lock wait queue resource budget exceeded: required_entries={nextEntries} " ++
    s!"max_entries={maxEntries} required_bytes={nextBytes} max_bytes={maxBytes}; " ++
    "retry after competing transactions finish")

section

variable [TypeSizes]

/-- The queue that is left, and the result. -/
def enqueue (queue : LockWaitQueue) (transactionId : ℕ) (request : LockRequest) :
    LockWaitQueue × Except HawDBError Unit :=
  match queue.requests.find? fun r => r.transactionId = transactionId with
  | some existing =>
    if existing.request.eq request then (queue, .ok ())
    else (queue, .error (.execution "transaction already has a different pending lock request"))
  | none =>
    let nextEntries := satAdd queue.requests.length 1
    let nextBytes := satAdd queue.estimatedBytes (lockRequestEstimatedBytes request)
    if nextEntries > queue.limits.maxEntries ∨ nextBytes > queue.limits.maxBytes then
      (queue, .error (queueBudgetError nextEntries nextBytes queue.limits))
    else
      ({ queue with
          requests := queue.requests ++ [⟨transactionId, request⟩]
          estimatedBytes := nextBytes }, .ok ())

def remove (queue : LockWaitQueue) (transactionId : ℕ) : LockWaitQueue :=
  match queue.requests.find? fun r => r.transactionId = transactionId with
  | some removed =>
    { queue with
      requests := queue.requests.eraseP fun r => r.transactionId = transactionId
      estimatedBytes := queue.estimatedBytes - heldLockEstimatedBytes removed }
  | none => queue

end

def blockers (queue : LockWaitQueue) (transactionId : ℕ) (request : LockRequest) : List ℕ :=
  btreeSet <|
    ((queue.requests.takeWhile fun r => r.transactionId ≠ transactionId).filter fun r =>
      requestsConflict r.request request).map HeldLock.transactionId

/-- The queued request of a waiter, as the map of `check_deadlock` has it. -/
def pendingRequest (queue : LockWaitQueue) (waiter : ℕ) : Option LockRequest :=
  (queue.requests.reverse.find? fun r => r.transactionId = waiter).map HeldLock.request

/-- The parents of a waiter, the farthest first, in front of a path that starts at it. -/
def parentPath (parents : List (ℕ × Option ℕ)) : ℕ → ℕ → List ℕ → List ℕ
  | 0, _, path => path
  | fuel + 1, cursor, path =>
    match parents.lookup cursor with
    | some (some parent) => parentPath parents fuel parent (parent :: path)
    | _ => path

def visitBlockers (queue : LockWaitQueue) (transactionId waiter : ℕ) :
    List ℕ → DeadlockSearch → Except HawDBError DeadlockSearch
  | [], search => .ok search
  | blocker :: blockers, search =>
    if blocker = transactionId then
      .error (deadlockError transactionId
        (parentPath search.parents search.parents.length waiter [waiter] ++ [transactionId]))
    else if (queue.pendingRequest blocker).isSome ∧ search.parents.lookup blocker = none then
      visitBlockers queue transactionId waiter blockers
        { parents := (blocker, some waiter) :: search.parents
          pending := search.pending ++ [blocker] }
    else visitBlockers queue transactionId waiter blockers search

/-- The breadth-first loop, `none` where the fuel runs out before it ends. -/
def deadlockLoop (queue : LockWaitQueue) (transactionId : ℕ) (locks : LockTable) :
    ℕ → DeadlockSearch → Option (Except HawDBError Unit)
  | 0, _ => none
  | fuel + 1, search =>
    match search.pending with
    | [] => some (.ok ())
    | waiter :: pending =>
      match queue.pendingRequest waiter with
      | none => deadlockLoop queue transactionId locks fuel { search with pending }
      | some request =>
        let blockers := btreeSet (locks.blockers waiter request ++ queue.blockers waiter request)
        match visitBlockers queue transactionId waiter blockers { search with pending } with
        | .error e => some (.error e)
        | .ok search => deadlockLoop queue transactionId locks fuel search

/-- The transaction and every waiter are expanded once, and one more round finds nothing pending:
the fuel is enough (`deadlockLoop_start`). -/
def checkDeadlock (queue : LockWaitQueue) (transactionId : ℕ) (locks : LockTable) :
    Except HawDBError Unit :=
  (deadlockLoop queue transactionId locks (queue.requests.length + 2)
    { parents := [(transactionId, none)], pending := [transactionId] }).getD (.ok ())

end LockWaitQueue

/-! ## Calls on a lock table

Transactions use one table: they are granted locks, release them, and go back to savepoints they
have taken before. -/

inductive LockTableCall where
  | grant (transactionId : ℕ) (request : LockRequest)
  | release (transactionId : ℕ)
  | savepoint (transactionId : ℕ)
  /-- Back to one of the savepoints the transaction has taken, in the order it took them. -/
  | restore (transactionId savepoint : ℕ)

/-- A lock table with the savepoints taken from it. -/
structure LockTableRun where
  table : LockTable
  savepoints : ℕ → List (List LockRequest)

section

variable [TypeSizes]

namespace LockTableRun

def start (limits : LockTableLimits) : LockTableRun := ⟨.empty limits, fun _ => []⟩

def step (s : LockTableRun) : LockTableCall → LockTableRun
  | .grant t request => { s with table := (s.table.grant t request).1 }
  | .release t => { s with table := s.table.releaseTransaction t }
  | .savepoint t =>
    { s with
      savepoints := Function.update s.savepoints t (s.savepoints t ++ [s.table.savepoint t]) }
  | .restore t savepoint =>
    match (s.savepoints t)[savepoint]? with
    | some requests => { s with table := s.table.restoreTransaction t requests }
    | none => s

def run (s : LockTableRun) (calls : List LockTableCall) : LockTableRun := calls.foldl step s

end LockTableRun

end

end HawDB
