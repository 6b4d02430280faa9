import Aof.Service.AofService

/-!
# The handlers as programs

The handlers of the scheduler's actions, with the waits between their calls of the store.  A call is
one operation; between two of them other handlers may take any number of turns.
-/

namespace Aof

/-- A save carries the task as the program has read it. -/
inductive StoreOp where
  | get (id : String)
  | save (read saved : Task)
  | transition (id : String) (status : TaskStatus)
  | list
  | readRunResult (id : String)

abbrev StoreReply : StoreOp → Type
  | .get _ | .transition .. => Option Task
  | .save .. => Unit
  | .list => List Task
  | .readRunResult _ => Option RunResult

/-- The reply to an operation, and the store after it.  A transition that throws has no task. -/
def Store.respond (store : Store) : (op : StoreOp) → StoreReply op × Store
  | .get id => (store.tasks.get? id, store)
  | .save _ saved => ((), store.put saved)
  | .transition id status => (Store.transition id status).run store
  | .list => (store.tasks.values, store)
  | .readRunResult id =>
      ((store.tasks.get? id).bind fun _ => store.runResults.get? id, store)

abbrev StoreProgram := Async StoreOp StoreReply

namespace StoreProgram

def perform (op : StoreOp) : StoreProgram (StoreReply op) := Async.perform op

def get (id : String) : StoreProgram (Option Task) := perform (.get id)

def save (read saved : Task) : StoreProgram Unit := perform (.save read saved)

def transition (id : String) (status : TaskStatus) : StoreProgram Task := do
  match ← perform (.transition id status) with
  | some task => pure task
  | none => .throw

def list : StoreProgram (List Task) := perform .list

def readRunResult (id : String) : StoreProgram (Option RunResult) :=
  perform (.readRunResult id)

def patch (id : String) (change : Task → Task) : StoreProgram Unit := do
  match ← get id with
  | none => pure ()
  | some task => save task (change task)

def forEach {α : Type} (body : α → StoreProgram Unit) : List α → StoreProgram Unit
  | [] => pure ()
  | a :: rest => do
      body a
      forEach body rest

def trackDispatchFailure (taskId : String) : StoreProgram Unit := do
  match ← get taskId with
  | none => .throw
  | some task => save task task.withDispatchFailure

def transitionToDeadletter (taskId : String) : StoreProgram Unit := do
  match ← get taskId with
  | none => .throw
  | some _ => do
      let _ ← transition taskId .deadletter

def block (id reason : String) : StoreProgram Unit := do
  match ← get id with
  | none => .throw
  | some task =>
      if task.status = .blocked ∨ task.status = .done ∨ task.status = .cancelled ∨
          task.status = .deadletter then .throw
      else do
        save task { task with metadata := { task.metadata with blockReason := some reason } }
        let _ ← transition id .blocked

def acquireLease (taskId agentId : String) (now ttlMs : Nat) : StoreProgram Task := do
  match ← get taskId with
  | none => .throw
  | some task =>
      if task.status ≠ .ready ∧ task.status ≠ .inProgress then .throw
      else if task.lease.any fun lease => now < lease.expiresAt ∧ lease.agent ≠ agentId then .throw
      else do
        save task (Store.leased task agentId now ttlMs)
        if task.status = .ready then transition taskId .inProgress
        else pure (Store.leased task agentId now ttlMs)

def releaseLease (taskId agentId : String) : StoreProgram Unit := do
  match ← get taskId with
  | none => .throw
  | some task =>
      if task.lease.any fun lease => lease.agent = agentId then do
        let _ ← transition taskId .ready
      else .throw

def cascadeOnCompletion (completedTaskId : String) : StoreProgram Unit := do
  let allTasks ← list
  (completionDependents completedTaskId allTasks |> forEach fun dependent =>
    if allDependenciesDone allTasks dependent then do
      let _ ← transition dependent.id .ready
    else pure ())

def cascadeOnBlock (blockedTaskId : String) : StoreProgram Unit := do
  let allTasks ← list
  (blockDependents blockedTaskId allTasks |> forEach fun dependent =>
    block dependent.id (upstreamReason blockedTaskId))

def handleExpireLease (taskId : String) (allTasks : List Task) (maxRetries : Nat)
    (backoffElapsed : Bool) : StoreProgram Unit := do
  match ← get taskId with
  | none => pure ()
  | some task => do
      save task { task with lease := none }
      if task.status = .blocked then
        if task.metadata.blockReason.any fun reason => includes reason "spawn_failed" then
          match shouldAllowSpawnFailedRequeue task maxRetries backoffElapsed with
          | .shouldDeadletter => transitionToDeadletter taskId
          | .allow => do
              let _ ← transition taskId .ready
          | .wait => pure ()
        else if allDependenciesDone allTasks task then do
          let _ ← transition taskId .ready
        else pure ()
      else do
        let _ ← transition taskId .ready

def handlePromote (taskId : String) : StoreProgram Unit := do
  let _ ← transition taskId .ready

def handleRequeue (taskId : String) : StoreProgram Unit := do
  patch taskId fun task => task
  let _ ← transition taskId .ready

def handleDeadletter (taskId : String) : StoreProgram Unit := transitionToDeadletter taskId

def handleBlock (taskId : String) : StoreProgram Unit := do
  let _ ← transition taskId .blocked

/-- Without an answer the call of the executor throws. -/
def executeAssignAction (taskId agent : String) (allTasks : List Task)
    (spawn : Option SpawnResult) (now ttlMs : Nat) : StoreProgram Unit := do
  match ← get taskId with
  | none => pure ()
  | some latest =>
      if latest.status ≠ .ready ∨ Store.leaseActive latest.lease now ∨
          ¬allTasks.any fun task => task.id = taskId then pure ()
      else do
        let leasedTask ← acquireLease taskId agent now ttlMs
        save leasedTask leasedTask
        match spawn with
        | none => pure ()
        | some (.success sessionId) => patch taskId fun task => task.withSession sessionId
        | some (.failure error) =>
            if error = "no-plugin-attached" then do
              let _ ← (releaseLease taskId agent).attempt
            else do
              patch taskId fun task => task.withSpawnFailure error
              if classifySpawnError error = "permanent" then transitionToDeadletter taskId
              else do
                let _ ← transition taskId .blocked

def handleRunComplete (taskId : String) (errorClass : Option String) : StoreProgram Unit := do
  match ← get taskId with
  | none => pure ()
  | some currentTask =>
      if currentTask.status ≠ .inProgress then pure ()
      else do
        patch taskId fun task => task.withErrorClass errorClass
        trackDispatchFailure taskId
        match ← get taskId with
        | none => do
            let _ ← transition taskId .blocked
        | some updatedTask =>
            if shouldTransitionToDeadletter updatedTask then transitionToDeadletter taskId
            else do
              let _ ← transition taskId .blocked

/-- The callback of an aborted session, if there is a session and the executor runs it. -/
def forceCompleteSession (task : Task) (forces : Bool) : StoreProgram Unit :=
  if forces ∧ (truthy task.metadata.sessionId).isSome then do
    let _ ← (handleRunComplete task.id none).attempt
  else pure ()

def recoverByResult (taskId : String) (staleTask : Task) (runResult : Option RunResult) :
    StoreProgram Unit :=
  match runResult with
  | none => do
      let _ ← transition taskId .ready
  | some runResult => do
      (resolveCompletionTransitions staleTask runResult.outcome |> forEach fun targetStatus => do
        let _ ← transition taskId targetStatus)
      if runResult.outcome = .done then do
        let _ ← (cascadeOnCompletion taskId).attempt
      else pure ()

def handleStaleHeartbeat (taskId : String) (agent : Option String) (forces : Bool) :
    StoreProgram Unit := do
  match ← get taskId with
  | none => pure ()
  | some staleTask =>
      if staleTask.status ≠ .inProgress then pure ()
      else if agent.isSome ∧ staleTask.lease.map TaskLease.agent ≠ agent then pure ()
      else do
        forceCompleteSession staleTask forces
        recoverByResult taskId staleTask (← readRunResult taskId)

end StoreProgram

/-- The handlers, each with what it was planned with, and the callbacks and cascades that they and
the protocol messages trigger. -/
inductive HandlerCall where
  | promote (taskId : String)
  | block (taskId : String)
  | requeue (taskId : String)
  | deadletter (taskId : String)
  | expireLease (taskId : String) (allTasks : List Task) (maxRetries : Nat) (backoffElapsed : Bool)
  | staleHeartbeat (taskId : String) (agent : Option String) (forces : Bool)
  | assign (taskId agent : String) (allTasks : List Task) (spawn : Option SpawnResult)
      (now ttlMs : Nat)
  | runComplete (taskId : String) (errorClass : Option String)
  | cascadeOnCompletion (taskId : String)
  | cascadeOnBlock (taskId : String)

def HandlerCall.program : HandlerCall → StoreProgram Unit
  | promote taskId => .handlePromote taskId
  | block taskId => .handleBlock taskId
  | requeue taskId => .handleRequeue taskId
  | deadletter taskId => .handleDeadletter taskId
  | expireLease taskId allTasks maxRetries backoffElapsed =>
      .handleExpireLease taskId allTasks maxRetries backoffElapsed
  | staleHeartbeat taskId agent forces => .handleStaleHeartbeat taskId agent forces
  | assign taskId agent allTasks spawn now ttlMs =>
      .executeAssignAction taskId agent allTasks spawn now ttlMs
  | runComplete taskId errorClass => .handleRunComplete taskId errorClass
  | cascadeOnCompletion taskId => .cascadeOnCompletion taskId
  | cascadeOnBlock taskId => .cascadeOnBlock taskId

def performOn (_ : Nat) (_ : Unit) (op : StoreOp) (store : Store) :
    Option (StoreReply op × Store) :=
  some (store.respond op)

abbrev HandlerPool := Async.Pool StoreOp StoreReply Store

def handlerPool (store : Store) (calls : List HandlerCall) (others : List (StoreProgram Unit)) :
    HandlerPool :=
  ⟨store, calls.map HandlerCall.program ++ others⟩

end Aof
