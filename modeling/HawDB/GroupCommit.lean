import HawDB.Error

/-!
# Group commit

Clients put commit requests into a queue and wait. The client whose request is in front becomes the
leader: it takes requests from the front and runs their tasks, makes them durable with one sync of
the log, completes every request it took, and gives the lead up.

No code that can panic runs under the coordinator's own mutexes, so these are never poisoned.
-/

namespace HawDB

/-- How a call ends that may panic. -/
inductive CallOutcome (α : Type) where
  | returned (value : α)
  | panicked
deriving DecidableEq, Repr

/-- The error of a checkpoint, told apart as far as the required checkpoint does, with its text. -/
inductive CheckpointFailure where
  | storageIntegrity (text : String)
  | unsupportedStorageFormat (text : String)
  | walRecoveryIo (text : String)
  /-- A refusal for want of resources or budget. -/
  | other (text : String)
deriving DecidableEq, Repr

/-- What `complete_required_relational_row_checkpoint` finds. -/
structure RequiredCheckpoint where
  required : Except String Bool
  deferred : Bool
  checkpoint : Except CheckpointFailure Unit
  requiredAfter : Except String Bool

namespace RequiredCheckpoint

def failedText (context error : String) : String :=
  "storage integrity error: canonical relational row schema checkpoint failed after " ++ context ++
    "; the durable WAL remains authoritative and writable reopen will retry: " ++ error

def remainedText (context : String) : String :=
  "storage integrity error: canonical relational row schema checkpoint remained required after " ++
    context

/-- `complete_required_relational_row_checkpoint`, behind the sync of a group; an error is given by
its text. -/
def complete (context : String) (c : RequiredCheckpoint) : Except String Unit :=
  match c.required with
  | .error text => .error text
  | .ok false => .ok ()
  | .ok true =>
    if c.deferred then .ok ()
    else
      match c.checkpoint with
      | .ok () =>
        match c.requiredAfter with
        | .error text => .error text
        | .ok false => .ok ()
        | .ok true => .error (remainedText context)
      | .error (.storageIntegrity text) => .error (failedText context text)
      | .error (.unsupportedStorageFormat text) => .error (failedText context text)
      | .error (.walRecoveryIo text) => .error (failedText context text)
      -- The previous checkpoint stays selected and the log authoritative: this one is deferred.
      | .error (.other _) => .ok ()

/-- No checkpoint was required, or it was already deferred, or it succeeded, or it was refused for
want of resources and so deferred. -/
def Passed (c : RequiredCheckpoint) : Prop :=
  c.required = .ok false ∨ c.required = .ok true ∧
    (c.deferred = true ∨ c.checkpoint = .ok () ∧ c.requiredAfter = .ok false ∨
      ∃ text, c.checkpoint = .error (.other text))

lemma passed_of_complete {context : String} {c : RequiredCheckpoint}
    (h : c.complete context = .ok ()) : c.Passed := by
  obtain ⟨required, deferred, checkpoint, requiredAfter⟩ := c
  match required with
  | .error text => cases h
  | .ok false => exact .inl rfl
  | .ok true =>
    refine .inr ⟨rfl, ?_⟩
    match deferred, checkpoint with
    | true, _ => exact .inl rfl
    | false, .ok () =>
      match requiredAfter with
      | .error text => cases h
      | .ok true => cases h
      | .ok false => exact .inr (.inl ⟨rfl, rfl⟩)
    | false, .error (.other text) => exact .inr (.inr ⟨text, rfl⟩)
    | false, .error (.storageIntegrity text) => cases h
    | false, .error (.unsupportedStorageFormat text) => cases h
    | false, .error (.walRecoveryIo text) => cases h

end RequiredCheckpoint

namespace GroupCommit

variable {O : Type}

/-- The requests a leader has taken, each with its result. -/
abbrev Completed (O : Type) := List (ℕ × Except HawDBError O)

/-- `QueuedCommit`; of the task it matters whether it is still there. -/
structure QueuedCommit (O : Type) where
  task : Bool
  result : Option (Except HawDBError O)

/-- Where a leader is in `run_group_commit`. -/
inductive Leader (O : Type) where
  /-- In `wait_for_group_commit_peers`. -/
  | gathering
  /-- About to lock the database and to begin the sync group. -/
  | starting
  /-- At the head of the loop of `execute_group_commit_tasks`. -/
  | collecting (completed : Completed O)
  /-- About to run the task of a request. -/
  | running (completed : Completed O) (request : ℕ)
  | syncing (completed : Completed O)
  | checkpointing (completed : Completed O)
  /-- In `complete_commit_requests`. -/
  | completing (completed : Completed O)

/-- The thread of a client, after its request is enqueued. -/
inductive Client (O : Type) where
  | polling
  | leading (leader : Leader O)
  | returned (result : Except HawDBError O)

/-- What happened in a group: the tasks that ran, the sync and the checkpoint, and the requests that
were completed. -/
structure GroupLog (O : Type) where
  ran : List (ℕ × CallOutcome (Except HawDBError O))
  synced : Option (CallOutcome (Except String Unit))
  checkpoint : Option (CallOutcome RequiredCheckpoint)
  completed : Completed O

def GroupLog.empty : GroupLog O := ⟨[], none, none, []⟩

/-- The coordinator with its clients, and a record of the groups. `group` is the log of the latest
leader, `past` the logs of those before. -/
structure Sequencer (O : Type) where
  submitted : ℕ
  queue : List ℕ
  leaderActive : Bool
  requests : ℕ → QueuedCommit O
  clients : ℕ → Client O
  past : List (GroupLog O)
  group : GroupLog O

/-- How everything around a leader answers its next step. An error of which only the text is used is
given by its text. -/
structure Surroundings (O : Type) where
  gathered : Except String Unit
  started : Except String Unit
  locked : Except String Unit
  task : CallOutcome (Except HawDBError O)
  stopped : Bool
  synced : CallOutcome (Except String Unit)
  checkpoint : CallOutcome RequiredCheckpoint

inductive Action (O : Type) where
  /-- A client enqueues the next request. -/
  | enqueue
  /-- A client looks for its result, then whether it may lead. -/
  | poll (client : ℕ)
  /-- A client's wait for its leader times out. -/
  | timeout (client : ℕ)
  /-- A leader takes a step. -/
  | lead (client : ℕ) (surroundings : Surroundings O)

def consumedError : HawDBError := .execution "WAL group commit task was already consumed"

def unrecordedError : HawDBError :=
  .execution "WAL group commit task panicked before recording a result"

def unaccountedError : HawDBError :=
  .execution ("WAL group commit request was dequeued without being completed; " ++
    "the commit sequencer is inconsistent and the database must be " ++ "closed and reopened")

def panickedText : String :=
  "WAL group commit task panicked; the commit sequencer is poisoned and the database must be " ++
    "closed and reopened"

def notStartedText (text : String) : String := "WAL group commit could not start: " ++ text

def stoppedText (text : String) : String :=
  "WAL group commit stopped before its durability barrier: " ++ text

def barrierText (text : String) : String :=
  "WAL group durability barrier failed after mutation publication; close and reopen the " ++
    "database: " ++ text

/-- `fail_completed_commits`. -/
def failCompletedCommits (completed : Completed O) (text : String) : Completed O :=
  completed.map fun (request, _) => (request, .error (.storage text))

/-- Successes are taken back after a failed sync or checkpoint; other results stay. -/
def failSuccesses (completed : Completed O) (text : String) : Completed O :=
  completed.map fun
    | (request, .ok _) => (request, .error (.storageIntegrity text))
    | (request, .error e) => (request, .error e)

namespace Sequencer

def init : Sequencer O where
  submitted := 0
  queue := []
  leaderActive := false
  requests := fun _ => ⟨false, none⟩
  clients := fun _ => .polling
  past := []
  group := .empty

def setClient (s : Sequencer O) (client : ℕ) (state : Client O) : Sequencer O :=
  { s with clients := Function.update s.clients client state }

def setLeader (s : Sequencer O) (client : ℕ) (leader : Leader O) : Sequencer O :=
  s.setClient client (.leading leader)

/-- The first lines of `execute_grouped_with_admission`. -/
def enqueue (s : Sequencer O) : Sequencer O :=
  { s with
    submitted := s.submitted + 1
    queue := s.queue ++ [s.submitted]
    requests := Function.update s.requests s.submitted ⟨true, none⟩
    clients := Function.update s.clients s.submitted .polling }

/-- One turn of the waiting loop of `execute_grouped_with_admission`. -/
def poll (s : Sequencer O) (client : ℕ) : Sequencer O :=
  match (s.requests client).result with
  | some result =>
    { s with
      requests := Function.update s.requests client { s.requests client with result := none }
      clients := Function.update s.clients client (.returned result) }
  | none =>
    if s.leaderActive = false ∧ s.queue.head? = some client then
      { s with
        leaderActive := true
        clients := Function.update s.clients client (.leading .gathering)
        past := s.past ++ [s.group]
        group := .empty }
    else s

/-- `assert_commit_is_accounted_for`. -/
def accounted (s : Sequencer O) (client : ℕ) : Bool :=
  s.leaderActive || decide (client ∈ s.queue) || (s.requests client).result.isSome

/-- `fail_front_group`, up to the completion of the requests. -/
def failFrontGroup (maxEntries : ℕ+) (s : Sequencer O) (client : ℕ) (text : String) : Sequencer O :=
  let count := min s.queue.length maxEntries
  { s with queue := s.queue.drop count }.setLeader client (.completing
    ((s.queue.take count).map fun request => (request, .error (.storage (notStartedText text)))))

/-- `run_group_commit` after `execute_group_commit_tasks` returned an error. -/
def stopGroup (maxEntries : ℕ+) (s : Sequencer O) (client : ℕ) (completed : Completed O)
    (text : String) : Sequencer O :=
  if completed = [] then s.failFrontGroup maxEntries client text
  else s.setLeader client (.completing (failCompletedCommits completed (stoppedText text)))

/-- `run_group_commit` after a panic. -/
def panicGroup (s : Sequencer O) (client : ℕ) (completed : Completed O) : Sequencer O :=
  s.setLeader client (.completing (failCompletedCommits completed panickedText))

/-- The head of the loop of `execute_group_commit_tasks`: the next request, with its task. -/
def collect (maxEntries : ℕ+) (s : Sequencer O) (client : ℕ) (completed : Completed O)
    (locked : Except String Unit) : Sequencer O :=
  if completed.length < maxEntries then
    match locked with
    | .error text => s.stopGroup maxEntries client completed text
    | .ok () =>
      match s.queue with
      | [] => s.setLeader client (.syncing completed)
      | request :: queue =>
        if (s.requests request).task then
          { s with
            queue
            requests := Function.update s.requests request
              { s.requests request with task := false } }.setLeader client
                (.running completed request)
        else
          { s with queue }.setLeader client
            (.collecting (completed ++ [(request, Except.error consumedError)]))
  else s.setLeader client (.syncing completed)

/-- The rest of the loop body: the task runs. -/
def runTask (s : Sequencer O) (client : ℕ) (completed : Completed O) (request : ℕ)
    (task : CallOutcome (Except HawDBError O)) (stopped : Bool) : Sequencer O :=
  let s := { s with group := { s.group with ran := s.group.ran ++ [(request, task)] } }
  match task with
  | .panicked => s.panicGroup client (completed ++ [(request, Except.error unrecordedError)])
  | .returned result =>
    let completed := completed ++ [(request, result)]
    s.setLeader client (if stopped then .syncing completed else .collecting completed)

/-- `finish_wal_sync_group`. -/
def sync (s : Sequencer O) (client : ℕ) (completed : Completed O)
    (outcome : CallOutcome (Except String Unit)) : Sequencer O :=
  let s := { s with group := { s.group with synced := some outcome } }
  match outcome with
  | .panicked => s.panicGroup client completed
  | .returned (.ok ()) => s.setLeader client (.checkpointing completed)
  | .returned (.error text) =>
    s.setLeader client (.completing (failSuccesses completed (barrierText text)))

def checkpoint (s : Sequencer O) (client : ℕ) (completed : Completed O)
    (outcome : CallOutcome RequiredCheckpoint) : Sequencer O :=
  let s := { s with group := { s.group with checkpoint := some outcome } }
  match outcome with
  | .panicked => s.panicGroup client completed
  | .returned found =>
    match found.complete "group commit durability" with
    | .ok () => s.setLeader client (.completing completed)
    | .error text => s.setLeader client (.completing (failSuccesses completed text))

/-- A request gets its result; after the last one the guard releases the lead, and the leader's
client goes back to its loop. -/
def complete (s : Sequencer O) (client : ℕ) : Completed O → Sequencer O
  | (request, result) :: completed =>
    { s with
      requests := Function.update s.requests request
        { s.requests request with result := some result }
      group := { s.group with completed := s.group.completed ++ [(request, result)] } }.setLeader
        client (.completing completed)
  | [] => { s with leaderActive := false }.setClient client .polling

def leaderStep (maxEntries : ℕ+) (s : Sequencer O) (client : ℕ) (w : Surroundings O) :
    Leader O → Sequencer O
  | .gathering =>
    match w.gathered with
    | .ok () => s.setLeader client .starting
    | .error text => s.failFrontGroup maxEntries client text
  | .starting =>
    match w.started with
    | .ok () => s.setLeader client (.collecting [])
    | .error text => s.failFrontGroup maxEntries client text
  | .collecting completed => s.collect maxEntries client completed w.locked
  | .running completed request => s.runTask client completed request w.task w.stopped
  | .syncing completed => s.sync client completed w.synced
  | .checkpointing completed => s.checkpoint client completed w.checkpoint
  | .completing completed => s.complete client completed

def step (maxEntries : ℕ+) (s : Sequencer O) : Action O → Sequencer O
  | .enqueue => s.enqueue
  | .poll client =>
    if client < s.submitted then
      match s.clients client with
      | .polling => s.poll client
      | _ => s
    else s
  | .timeout client =>
    if client < s.submitted then
      match s.clients client with
      | .polling =>
        if s.accounted client then s else s.setClient client (.returned (.error unaccountedError))
      | _ => s
    else s
  | .lead client w =>
    match s.clients client with
    | .leading leader => s.leaderStep maxEntries client w leader
    | _ => s

def run (maxEntries : ℕ+) (actions : List (Action O)) : Sequencer O :=
  actions.foldl (step maxEntries) init

/-- A step of a thread that does something; no request is enqueued by it. -/
def Progress (maxEntries : ℕ+) (s s' : Sequencer O) : Prop :=
  ∃ action, action ≠ .enqueue ∧ s' = s.step maxEntries action ∧ s' ≠ s

def groups (s : Sequencer O) : List (GroupLog O) := s.past ++ [s.group]

/-- The requests completed so far, in order, each as often as it was completed. -/
def completions (s : Sequencer O) : Completed O := s.groups.flatMap GroupLog.completed

def tasksRun (s : Sequencer O) : List ℕ :=
  s.groups.flatMap fun group => group.ran.map Prod.fst

end Sequencer

end GroupCommit

end HawDB
