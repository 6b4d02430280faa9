import Mathlib.Data.List.Infix
import Aof.Protocol.Router

/-!
# Scheduler actions

What the scheduler does to tasks: the handlers of `dispatch/lifecycle-handlers.ts`,
`dispatch/recovery-handlers.ts` and `dispatch/alert-handlers.ts`, the assignment of
`dispatch/assign-executor.ts` with the callback of `dispatch/assign-helpers.ts`, the timeouts of
`dispatch/escalation.ts` and the hop dispatch at the end of a poll.  The clock and the executor
answer through arguments.
-/

namespace Aof

def includes (text pattern : String) : Bool := pattern.toList <:+: text.toList

def PERMANENT_ERROR_PATTERNS : List String :=
  ["agent not found", "agent_not_found", "no such agent", "agent deregistered",
    "permission denied", "forbidden", "unauthorized", "no credentials found", "no api key found",
    "missing credentials", "missing api key", "invalid api key"]

def RATE_LIMIT_PATTERNS : List String :=
  ["rate limit", "rate_limit", "too many requests", "429", "throttled", "quota exceeded"]

def classifySpawnError (error : String) : String :=
  if PERMANENT_ERROR_PATTERNS.any (includes error.toLower) then "permanent"
  else if RATE_LIMIT_PATTERNS.any (includes error.toLower) then "rate_limited"
  else "transient"

inductive RequeueGuard where
  | allow
  | shouldDeadletter
  | wait
  deriving DecidableEq, Repr

/-- The backoff has a random part, so whether it has elapsed is an argument. -/
def shouldAllowSpawnFailedRequeue (task : Task) (maxRetries : Nat) (backoffElapsed : Bool) :
    RequeueGuard :=
  if task.metadata.errorClass = some "permanent" then .shouldDeadletter
  else if maxRetries ≤ task.metadata.retryCount.getD 0 then .shouldDeadletter
  else if backoffElapsed then .allow
  else .wait

def handleExpireLease (taskId : String) (allTasks : List Task) (maxRetries : Nat)
    (backoffElapsed : Bool) : Command Store Unit := do
  match ← Store.get taskId with
  | none => pure ()
  | some task =>
      Store.save { task with lease := none }
      if task.status = .blocked then
        if task.metadata.blockReason.any fun reason => includes reason "spawn_failed" then
          match shouldAllowSpawnFailedRequeue task maxRetries backoffElapsed with
          | .shouldDeadletter => transitionToDeadletter taskId
          | .allow => do
              let _ ← Store.transition taskId .ready
          | .wait => pure ()
        else if allDependenciesDone allTasks task then do
          let _ ← Store.transition taskId .ready
        else pure ()
      else do
        let _ ← Store.transition taskId .ready

def handlePromote (taskId : String) : Command Store Unit := do
  let _ ← Store.transition taskId .ready

/-- The metadata that is stamped before the transition is not read again. -/
def handleRequeue (taskId : String) : Command Store Unit := do
  Store.patch taskId fun task => task
  let _ ← Store.transition taskId .ready

def handleDeadletter (taskId : String) : Command Store Unit := transitionToDeadletter taskId

def handleBlock (taskId : String) : Command Store Unit := do
  let _ ← Store.transition taskId .blocked

def Task.withSession (task : Task) (sessionId : String) : Task :=
  { task with metadata := { task.metadata with sessionId := some sessionId } }

def Task.withSpawnFailure (task : Task) (error : String) : Task :=
  { task with
    metadata := { task.metadata with
      retryCount := some (task.metadata.retryCount.getD 0 + 1)
      blockReason := some ("spawn_failed: " ++ error)
      errorClass := some (classifySpawnError error) } }

def Task.withErrorClass (task : Task) (errorClass : Option String) : Task :=
  { task with metadata := { task.metadata with errorClass := errorClass.or task.metadata.errorClass } }

/-- `allTasks` of the poll only tells whether the task was in the scan. -/
def executeAssignAction (taskId agent : String) (allTasks : List Task) (spawn : SpawnResult)
    (now ttlMs : Nat) : Command Store Unit := do
  match ← Store.get taskId with
  | none => pure ()
  | some latest =>
      if latest.status ≠ .ready ∨ Store.leaseActive latest.lease now ∨
          ¬allTasks.any fun task => task.id = taskId then pure ()
      else do
        let leasedTask ← Store.acquireLease taskId agent now ttlMs
        Store.save leasedTask
        match spawn with
        | .success sessionId => Store.patch taskId fun task => task.withSession sessionId
        | .failure error =>
            if error = "no-plugin-attached" then Command.attempt (Store.releaseLease taskId agent)
            else do
              Store.patch taskId fun task => task.withSpawnFailure error
              if classifySpawnError error = "permanent" then transitionToDeadletter taskId
              else do
                let _ ← Store.transition taskId .blocked

/-- The callback of an assigned run; `errorClass` is what its outcome was classified as. -/
def handleRunComplete (taskId : String) (errorClass : Option String) : Command Store Unit := do
  match ← Store.get taskId with
  | none => pure ()
  | some currentTask =>
      if currentTask.status ≠ .inProgress then pure ()
      else do
        Store.patch taskId fun task => task.withErrorClass errorClass
        trackDispatchFailure taskId
        match ← Store.get taskId with
        | none => do
            let _ ← Store.transition taskId .blocked
        | some updatedTask =>
            if shouldTransitionToDeadletter updatedTask then transitionToDeadletter taskId
            else do
              let _ ← Store.transition taskId .blocked

def handleStaleHeartbeat (taskId : String) (agent : Option String) : Command Store Unit := do
  match ← Store.get taskId with
  | none => pure ()
  | some staleTask =>
      if staleTask.status ≠ .inProgress then pure ()
      else if agent.isSome ∧ staleTask.lease.map TaskLease.agent ≠ agent then pure ()
      else
        match ← Store.readRunResult taskId with
        | none => do
            let _ ← Store.transition taskId .ready
        | some runResult => do
            (resolveCompletionTransitions staleTask runResult.outcome).forM fun targetStatus => do
              let _ ← Store.transition taskId targetStatus
            if runResult.outcome = .done then Command.attempt (cascadeOnCompletion taskId)
            else pure ()

def escalatedHop (hopState : HopState) (escalateToRole : String) (spawn : Option SpawnResult)
    (timestamp : String) : HopState :=
  match spawn with
  | some (.success sessionId) =>
      { hopState with
        status := .dispatched
        agent := some escalateToRole
        startedAt := some timestamp
        correlationId := some sessionId
        escalated := some true }
  | _ =>
      { hopState with
        status := .ready
        agent := some escalateToRole
        startedAt := none
        correlationId := none
        escalated := some true }

/-- The hop of a scanned task has timed out; `spawn` is absent without an executor.  The task
object is changed in place and returned. -/
def escalateHopTimeout (task : Task) (hopId : String) (spawn : Option SpawnResult)
    (timestamp : String) : Command Store Task :=
  match task.workflow with
  | none => .throw
  | some workflow =>
      match workflow.state.hops.get? hopId,
        (workflow.definition.findHop hopId).bind Hop.escalateTo with
      | some hopState, some escalateToRole =>
          if hopState.status ≠ .dispatched ∨ hopState.escalated = some true then pure task
          else
            persistWorkflowState task
              { workflow.state with
                hops := workflow.state.hops.set hopId
                  (escalatedHop hopState escalateToRole spawn timestamp) }
      | _, _ => pure task

def hasDispatched (state : WorkflowState) : Bool :=
  state.hops.values.any fun hopState => hopState.status = .dispatched

/-- The end of a poll, for a hop that was ready in the scan: the task is read again, but only
whether a hop is dispatched is looked at again. -/
def pollDispatch (taskId hopId : String) (spawn : SpawnResult) (timestamp : String) :
    Command Store Unit := do
  match ← Store.get taskId with
  | none => pure ()
  | some freshTask =>
      match freshTask.workflow with
      | none => pure ()
      | some workflow =>
          if hasDispatched workflow.state then pure ()
          else do
            let _ ← dispatchDAGHop freshTask hopId spawn timestamp

inductive SchedulerAction where
  | expireLease (taskId : String) (allTasks : List Task) (maxRetries : Nat) (backoffElapsed : Bool)
  | staleHeartbeat (taskId : String) (agent : Option String)
  | requeue (taskId : String)
  | promote (taskId : String)
  | assign (taskId agent : String) (allTasks : List Task) (spawn : SpawnResult) (now ttlMs : Nat)
  | deadletter (taskId : String)
  | block (taskId : String)
  | runComplete (taskId : String) (errorClass : Option String)
  | hopDispatch (taskId hopId : String) (spawn : SpawnResult) (timestamp : String)
  | hopComplete (taskId hopId timestamp : String)

/-- Every action is run inside a `try` block; alerts and reports change no task. -/
def executeAction (action : SchedulerAction) : Command Store Unit :=
  Command.attempt <|
    match action with
    | .expireLease taskId allTasks maxRetries backoffElapsed =>
        handleExpireLease taskId allTasks maxRetries backoffElapsed
    | .staleHeartbeat taskId agent => handleStaleHeartbeat taskId agent
    | .requeue taskId => handleRequeue taskId
    | .promote taskId => handlePromote taskId
    | .assign taskId agent allTasks spawn now ttlMs =>
        executeAssignAction taskId agent allTasks spawn now ttlMs
    | .deadletter taskId => handleDeadletter taskId
    | .block taskId => handleBlock taskId
    | .runComplete taskId errorClass => handleRunComplete taskId errorClass
    | .hopDispatch taskId hopId spawn timestamp => pollDispatch taskId hopId spawn timestamp
    | .hopComplete taskId hopId timestamp => onRunComplete taskId hopId timestamp

end Aof
