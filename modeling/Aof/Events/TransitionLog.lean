import Aof.Lib.Recording
import Aof.Service.AofService

/-!
# The transition log

The `task.transitioned` events in the log of a service, next to the changes of status that they are
about.  A store writes some by itself, as told by its options, and the callers of its operations
write others, from `store/task-mutations.ts`, `dispatch/`, `protocol/` and `tools/`.
-/

namespace Aof

structure StatusChange where
  taskId : String
  fromStatus : TaskStatus
  toStatus : TaskStatus
  deriving DecidableEq, Repr

abbrev Journal := Recorded Store StatusChange

def statusChanges (before after : Store) : List StatusChange :=
  after.tasks.values.filterMap fun task =>
    (before.tasks.get? task.id).bind fun old =>
      if old.status = task.status then none else some ⟨task.id, old.status, task.status⟩

def logTransition (taskId : String) (fromStatus toStatus : TaskStatus) : Command Journal Unit :=
  Command.note ⟨taskId, fromStatus, toStatus⟩

structure TaskStoreOptions where
  logger : Bool
  hooks : Bool
  deriving DecidableEq, Repr

def unscopedStore : TaskStoreOptions where
  logger := false
  hooks := false

def projectStore : TaskStoreOptions where
  logger := true
  hooks := true

def rejectHandoff (taskId fromAgent : String) : Command Store Unit := do
  match ← Store.get taskId with
  | none => pure ()
  | some childTask =>
      if checkAuthorization fromAgent childTask then
        if childTask.status = .blocked ∨ ¬isValidTransition childTask.status .blocked then pure ()
        else do
          let _ ← Store.transition taskId .blocked
      else pure ()

namespace TaskStoreOptions

/-- The store's own logger and the hook `afterTransition` both log a transition. -/
def copies (options : TaskStoreOptions) : Nat := options.logger.toNat + options.hooks.toNat

/-- A command that logs no transition by itself, and changes the status of each task at most
once. -/
def onStore {α : Type} (options : TaskStoreOptions) (command : Command Store α) :
    Command Journal α :=
  command.recording statusChanges options.copies

def transition (options : TaskStoreOptions) (id : String) (newStatus : TaskStatus) :
    Command Journal Task :=
  options.onStore (Store.transition id newStatus)

/-- The store's logger writes `task.cancelled` here. -/
def cancel (options : TaskStoreOptions) (id : String) : Command Journal Unit :=
  (Store.cancel id).recording statusChanges options.hooks.toNat

def handleExpireLease (options : TaskStoreOptions) (taskId : String) (allTasks : List Task)
    (maxRetries : Nat) (backoffElapsed : Bool) : Command Journal Unit := do
  match ← options.onStore (Store.get taskId) with
  | none => pure ()
  | some task =>
      options.onStore (Store.save { task with lease := none })
      if task.status = .blocked then
        if task.metadata.blockReason.any fun reason => includes reason "spawn_failed" then
          match shouldAllowSpawnFailedRequeue task maxRetries backoffElapsed with
          | .shouldDeadletter => do
              options.onStore (transitionToDeadletter taskId)
              logTransition taskId .blocked .deadletter
          | .allow => do
              let _ ← options.transition taskId .ready
              logTransition taskId .blocked .ready
          | .wait => pure ()
        else if allDependenciesDone allTasks task then do
          let _ ← options.transition taskId .ready
          logTransition taskId .blocked .ready
        else pure ()
      else do
        let _ ← options.transition taskId .ready
        logTransition taskId .inProgress .ready

def handlePromote (options : TaskStoreOptions) (taskId : String) : Command Journal Unit := do
  let _ ← options.transition taskId .ready
  logTransition taskId .backlog .ready

def handleRequeue (options : TaskStoreOptions) (taskId : String) : Command Journal Unit := do
  options.onStore (Store.patch taskId fun task => task)
  let _ ← options.transition taskId .ready
  logTransition taskId .blocked .ready

def handleBlock (options : TaskStoreOptions) (taskId : String) : Command Journal Unit := do
  let _ ← options.transition taskId .blocked
  logTransition taskId .ready .blocked

def executeAssignAction (options : TaskStoreOptions) (taskId agent : String) (allTasks : List Task)
    (spawn : SpawnResult) (now ttlMs : Nat) : Command Journal Unit := do
  match ← options.onStore (Store.get taskId) with
  | none => pure ()
  | some latest =>
      if latest.status ≠ .ready ∨ Store.leaseActive latest.lease now ∨
          ¬allTasks.any fun task => task.id = taskId then pure ()
      else do
        let leasedTask ← options.onStore (Store.acquireLease taskId agent now ttlMs)
        options.onStore (Store.save leasedTask)
        match spawn with
        | .success sessionId =>
            options.onStore (Store.patch taskId fun task => task.withSession sessionId)
        | .failure error =>
            if error = "no-plugin-attached" then
              Command.attempt (options.onStore (Store.releaseLease taskId agent))
            else do
              options.onStore (Store.patch taskId fun task => task.withSpawnFailure error)
              if classifySpawnError error = "permanent" then
                options.onStore (transitionToDeadletter taskId)
              else do
                let _ ← options.transition taskId .blocked

/-- A spawn that throws leaves the lease that was acquired for it. -/
def assignWith (options : TaskStoreOptions) (taskId agent : String) (allTasks : List Task)
    (spawn : Option SpawnResult) (now ttlMs : Nat) : Command Journal Unit :=
  match spawn with
  | some spawn => options.executeAssignAction taskId agent allTasks spawn now ttlMs
  | none => options.onStore (Aof.assignWith taskId agent allTasks none now ttlMs)

/-- Every transition is logged from the status that the stale task was read in. -/
def recoverByResult (options : TaskStoreOptions) (taskId : String) (staleTask : Task)
    (runResult : Option RunResult) : Command Journal Unit :=
  match runResult with
  | none => do
      let _ ← options.transition taskId .ready
      logTransition taskId staleTask.status .ready
  | some runResult => do
      (resolveCompletionTransitions staleTask runResult.outcome).forM fun targetStatus => do
        let _ ← options.transition taskId targetStatus
        logTransition taskId staleTask.status targetStatus
      if runResult.outcome = .done then
        Command.attempt (options.onStore (cascadeOnCompletion taskId))
      else pure ()

def recoverWith (options : TaskStoreOptions) (taskId : String) (agent : Option String)
    (forces : Bool) : Command Journal Unit := do
  match ← options.onStore (Store.get taskId) with
  | none => pure ()
  | some staleTask =>
      if staleTask.status ≠ .inProgress then pure ()
      else if agent.isSome ∧ staleTask.lease.map TaskLease.agent ≠ agent then pure ()
      else do
        options.onStore (forceCompleteSession staleTask forces)
        options.recoverByResult taskId staleTask (← options.onStore (Store.readRunResult taskId))

/-- The handlers that are left log no transition. -/
def handler (options : TaskStoreOptions) (conduct : ExecutorConduct) :
    SchedulerAction → Command Journal Unit
  | .expireLease taskId allTasks maxRetries backoffElapsed =>
      options.handleExpireLease taskId allTasks maxRetries backoffElapsed
  | .staleHeartbeat taskId agent => options.recoverWith taskId agent (conduct.forces taskId)
  | .requeue taskId => options.handleRequeue taskId
  | .promote taskId => options.handlePromote taskId
  | .assign taskId agent allTasks spawn now ttlMs =>
      options.assignWith taskId agent allTasks
        (if conduct.throws taskId then none else some spawn) now ttlMs
  | .block taskId => options.handleBlock taskId
  | other => options.onStore (other.handler conduct)

def startForCompletion (options : TaskStoreOptions) (task : Task) : Command Journal Task :=
  if task.status = .inProgress ∨ task.status = .review then pure task
  else if task.status = .blocked then do
    let unblocked ← options.transition task.id .ready
    logTransition task.id task.status .ready
    let started ← options.transition task.id .inProgress
    logTransition task.id unblocked.status .inProgress
    pure started
  else do
    let started ← options.transition task.id .inProgress
    logTransition task.id task.status .inProgress
    pure started

def aofTaskComplete (options : TaskStoreOptions) (taskId : String) : Command Journal Unit := do
  match ← options.onStore (Store.get taskId) with
  | none => .throw
  | some task =>
      if task.status = .done then .throw
      else do
        let started ← options.startForCompletion task
        if started.status = .inProgress then do
          let _ ← options.transition taskId .review
          logTransition taskId .inProgress .review
          let _ ← options.transition taskId .done
          logTransition taskId .review .done
        else do
          let _ ← options.transition taskId .done
          logTransition taskId .review .done

def applyCompletionTransition (options : TaskStoreOptions) (current : Task)
    (nextStatus : TaskStatus) : Command Journal Task :=
  if current.status = nextStatus then pure current
  else if isValidTransition current.status nextStatus then do
    let moved ← options.transition current.id nextStatus
    if moved.status = current.status then pure moved
    else do
      logTransition current.id current.status moved.status
      pure moved
  else pure current

def applyCompletionOutcome (options : TaskStoreOptions) (task : Task)
    (outcome : CompletionOutcome) : Command Journal Unit := do
  let _ ← (resolveCompletionTransitions task outcome).foldlM options.applyCompletionTransition task

def handleCompletionReport (options : TaskStoreOptions) (report : CompletionReport) :
    Command Journal Unit := do
  match ← options.onStore (Store.get report.taskId) with
  | none => pure ()
  | some task =>
      if checkAuthorization report.fromAgent task then do
        options.onStore <| Store.writeRunResult report.taskId
          ⟨report.taskId, report.fromAgent, report.outcome, report.notes⟩
        options.applyCompletionOutcome task report.outcome
        if report.outcome = .done then
          Command.attempt (options.onStore (cascadeOnCompletion report.taskId))
        else pure ()
      else pure ()

/-- A workflow's session logs none of its transitions. -/
def visitSession (options : TaskStoreOptions) (task : Task) (executor : Option SpawnResult)
    (timestamp : String) : Command Journal Unit := do
  match ← options.onStore (Store.readRunResult task.id) with
  | none => pure ()
  | some runResult =>
      if task.workflow.isSome then
        Command.attempt (options.onStore (completeDAGSession task runResult executor timestamp))
      else do
        options.applyCompletionOutcome task runResult.outcome
        if runResult.outcome = .done then
          Command.attempt (options.onStore (cascadeOnCompletion task.id))
        else pure ()

def visitCurrent (options : TaskStoreOptions) (taskId : String) (executor : Option SpawnResult)
    (timestamp : String) : Command Journal Unit := do
  match ← options.onStore (Store.get taskId) with
  | none => pure ()
  | some task =>
      if task.status = .inProgress then options.visitSession task executor timestamp else pure ()

/-- The dependents are blocked before the block of the task itself is logged. -/
def handleStatusUpdate (options : TaskStoreOptions) (taskId : String) (targetStatus : TaskStatus)
    (cascadeBlocks : Bool) : Command Journal Unit := do
  match ← options.onStore (Store.get taskId) with
  | none => pure ()
  | some task =>
      if task.status = targetStatus then pure ()
      else if isValidTransition task.status targetStatus then do
        let _ ← options.transition taskId targetStatus
        options.onStore
          (if targetStatus = .blocked ∧ cascadeBlocks then cascadeOnBlock taskId else pure ())
        logTransition taskId task.status targetStatus
      else pure ()

/-- The rejection is logged as a transition whether or not the task has moved. -/
def rejectHandoff (options : TaskStoreOptions) (taskId fromAgent : String) :
    Command Journal Unit := do
  match ← options.onStore (Store.get taskId) with
  | none => pure ()
  | some childTask =>
      if checkAuthorization fromAgent childTask then do
        if childTask.status = .blocked ∨ ¬isValidTransition childTask.status .blocked then
          logTransition taskId childTask.status .blocked
        else do
          let _ ← options.transition taskId .blocked
          logTransition taskId childTask.status .blocked
      else pure ()

def dispatchReview (options : TaskStoreOptions) (input : PollInput) (spawn : String → SpawnResult)
    (review : MurmurReview) : Command Journal Unit := do
  let _ ← options.onStore (Store.acquireLease review.reviewTaskId review.orchestrator input.now
    input.defaultLeaseTtlMs)
  match spawn review.reviewTaskId with
  | .success _ => pure ()
  | .failure _ => do
      let _ ← options.transition review.reviewTaskId .ready

def evaluateMurmurTrigger (options : TaskStoreOptions) (input : PollInput) (currentInProgress : Nat)
    (review : MurmurReview) : Command Journal Unit :=
  if input.config.maxDispatches ≤ currentInProgress ∨ input.config.dryRun then pure ()
  else
    Command.attempt do
      options.onStore (Store.create review.task)
      let _ ← options.transition review.reviewTaskId .ready
      match input.executor with
      | none => pure ()
      | some spawn => Command.attempt (options.dispatchReview input spawn review)

def command (options : TaskStoreOptions) : SchedulerOperation → Command Journal Unit
  | .complete taskId => options.aofTaskComplete taskId
  | .report message => options.handleCompletionReport message
  | .statusUpdate taskId targetStatus cascadeBlocks =>
      options.handleStatusUpdate taskId targetStatus cascadeBlocks
  | .cancel taskId => options.cancel taskId
  | .visit taskId executor timestamp => options.visitCurrent taskId executor timestamp
  | .review input currentInProgress team =>
      options.evaluateMurmurTrigger input currentInProgress team
  | other => options.onStore other.command

end TaskStoreOptions

structure JournalState where
  journal : Journal
  planned : List SchedulerAction

/-- Besides the events of the scheduler, a handoff may be turned down, and another store of the
service may write to the log. -/
inductive JournalEvent where
  | scheduler (event : SchedulerEvent)
  | rejectHandoff (taskId fromAgent : String)
  | elsewhere (events : List StatusChange)

def journalStep (options : TaskStoreOptions) (state : JournalState) :
    JournalEvent → Option JournalState
  | .scheduler (.plan input) =>
      if state.planned = [] then
        some
          { state with
            planned :=
              if input.config.dryRun then []
              else plannedActions input state.journal.state.tasks.values }
      else none
  | .scheduler (.execute conduct) =>
      match state.planned with
      | [] => none
      | action :: rest =>
          some
            { journal := (options.handler conduct action).after state.journal
              planned := rest }
  | .scheduler (.operate operation) =>
      some { state with journal := (options.command operation).after state.journal }
  | .rejectHandoff taskId fromAgent =>
      some { state with journal := (options.rejectHandoff taskId fromAgent).after state.journal }
  | .elsewhere events =>
      some { state with journal := { state.journal with log := state.journal.log ++ events } }

end Aof
