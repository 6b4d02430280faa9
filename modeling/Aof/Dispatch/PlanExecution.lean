import Aof.Dispatch.Scheduler

/-!
# The execution of a plan

The handlers of the planned actions without the `try` around each of them, on an executor that may
throw and that may run the callback of a session when it is told to complete it.
-/

namespace Aof

/-- What the executor does besides its answers: the tasks for which `spawnSession` throws, and those
for which `forceCompleteSession` runs the callback of the session, as the plugin bridge does. -/
structure ExecutorConduct where
  throws : String → Bool := fun _ => false
  forces : String → Bool := fun _ => false

/-- `executeAssignAction` with a call of the executor that may throw; without an answer the task
keeps its lease. -/
def assignWith (taskId agent : String) (allTasks : List Task) (spawn : Option SpawnResult)
    (now ttlMs : Nat) : Command Store Unit := do
  match spawn with
  | some spawn => executeAssignAction taskId agent allTasks spawn now ttlMs
  | none =>
      match ← Store.get taskId with
      | none => pure ()
      | some latest =>
          if latest.status ≠ .ready ∨ Store.leaseActive latest.lease now ∨
              ¬allTasks.any fun task => task.id = taskId then pure ()
          else do
            let leasedTask ← Store.acquireLease taskId agent now ttlMs
            Store.save leasedTask

def forceCompleteSession (task : Task) (forces : Bool) : Command Store Unit :=
  if forces ∧ (truthy task.metadata.sessionId).isSome then
    Command.attempt (handleRunComplete task.id none)
  else pure ()

/-- Without a result the task goes back to `ready`, else the transitions of the outcome are made;
they are resolved for the task as it was read first. -/
def recoverByResult (taskId : String) (staleTask : Task) (runResult : Option RunResult) :
    Command Store Unit :=
  match runResult with
  | none => do
      let _ ← Store.transition taskId .ready
  | some runResult => do
      (resolveCompletionTransitions staleTask runResult.outcome).forM fun targetStatus => do
        let _ ← Store.transition taskId targetStatus
      if runResult.outcome = .done then Command.attempt (cascadeOnCompletion taskId)
      else pure ()

/-- `handleStaleHeartbeat` with its call of `forceCompleteSession`. -/
def recoverWith (taskId : String) (agent : Option String) (forces : Bool) : Command Store Unit := do
  match ← Store.get taskId with
  | none => pure ()
  | some staleTask =>
      if staleTask.status ≠ .inProgress then pure ()
      else if agent.isSome ∧ staleTask.lease.map TaskLease.agent ≠ agent then pure ()
      else do
        forceCompleteSession staleTask forces
        recoverByResult taskId staleTask (← Store.readRunResult taskId)

namespace SchedulerAction

def taskId : SchedulerAction → String
  | expireLease taskId .. | staleHeartbeat taskId _ | requeue taskId | promote taskId
  | assign taskId .. | deadletter taskId | block taskId | runComplete taskId _
  | hopDispatch taskId .. | hopComplete taskId .. => taskId

def handler (conduct : ExecutorConduct) : SchedulerAction → Command Store Unit
  | expireLease taskId allTasks maxRetries backoffElapsed =>
      handleExpireLease taskId allTasks maxRetries backoffElapsed
  | staleHeartbeat taskId agent => recoverWith taskId agent (conduct.forces taskId)
  | requeue taskId => handleRequeue taskId
  | promote taskId => handlePromote taskId
  | assign taskId agent allTasks spawn now ttlMs =>
      assignWith taskId agent allTasks (if conduct.throws taskId then none else some spawn) now ttlMs
  | deadletter taskId => handleDeadletter taskId
  | block taskId => handleBlock taskId
  | other => executeAction other

/-- The error of a spawn that fails, unless it is only put off because no plugin is attached. -/
def failedSpawn (conduct : ExecutorConduct) : SchedulerAction → Option String
  | assign taskId _ _ (.failure error) _ _ =>
      if conduct.throws taskId ∨ error = "no-plugin-attached" then none else some error
  | _ => none

/-- The actions that a plan makes of the state of a task; a stale heartbeat is found on disk. -/
def isPlannedMove : SchedulerAction → Bool
  | expireLease .. | requeue _ | promote _ | assign .. | deadletter _ | block _ => true
  | _ => false

end SchedulerAction

/-- In the given order, each action on the store that those before it have left, no planned move
throws. -/
def NothingThrows (conduct : ExecutorConduct) : List SchedulerAction → Store → Prop
  | [], _ => True
  | action :: rest, store =>
      (action.isPlannedMove → ((action.handler conduct).run store).1.isSome) ∧
        NothingThrows conduct rest ((action.handler conduct).after store)

theorem assignWith_some (taskId agent : String) (allTasks : List Task) (spawn : SpawnResult)
    (now ttlMs : Nat) : assignWith taskId agent allTasks (some spawn) now ttlMs =
      executeAssignAction taskId agent allTasks spawn now ttlMs := rfl

theorem recoverWith_false (taskId : String) (agent : Option String) :
    recoverWith taskId agent false = handleStaleHeartbeat taskId agent := by
  funext store
  simp only [recoverWith, forceCompleteSession, handleStaleHeartbeat, Bool.false_eq_true, false_and,
    ↓reduceIte]
  rfl

theorem executeAction_eq (action : SchedulerAction) :
    executeAction action = (action.handler {}).attempt := by
  cases action with
  | staleHeartbeat taskId agent =>
      show _ = (recoverWith taskId agent false).attempt
      rw [recoverWith_false]
      rfl
  | _ => rfl

end Aof
