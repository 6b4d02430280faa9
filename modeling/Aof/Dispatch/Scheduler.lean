import Aof.Dispatch.TaskDispatcher

/-!
# The poll of a store

What one poll does to the tasks of a store, from `dispatch/scheduler.ts`,
`dispatch/scheduler-helpers.ts`, `dispatch/promotion.ts` and `dispatch/murmur-integration.ts`.  The
clock, the executor, the heartbeats on disk and the state of the murmur triggers answer through
arguments.
-/

namespace Aof

/-- A team with an orchestrator whose murmur trigger fires, and the id of the task that is created
for the review. -/
structure MurmurReview where
  team : String
  orchestrator : String
  reviewTaskId : String
  deriving DecidableEq, Repr

/-- What a poll reads besides the store; the executor, if there is one, answers for each task. -/
structure PollInput where
  config : DispatchConfig
  maxDispatchRetries : Option Nat := none
  defaultLeaseTtlMs : Nat := 600000
  executor : Option (String → SpawnResult) := none
  teams : Option (List OrgTeam) := none
  throttle : ThrottleState := {}
  now : Nat := 0
  timestamp : String := ""
  staleHeartbeats : List (String × String) := []
  hopTimedOut : String → String → Bool := fun _ _ => false
  backoffElapsed : String → Bool := fun _ => true
  reviews : List MurmurReview := []

def withStatus (status : TaskStatus) (allTasks : List Task) : List Task :=
  allTasks.filter fun task => task.status = status

def childrenOf (allTasks : List Task) (parentId : String) : List Task :=
  allTasks.filter fun task => truthy task.parentId = some parentId

def incompleteParents (allTasks : List Task) : List String :=
  (allTasks.filter fun task => task.status ≠ .done).filterMap fun task => truthy task.parentId

def buildResourceOccupancyMap (allTasks : List Task) : Dict String String :=
  (withStatus .inProgress allTasks).foldl
    (fun occupied task =>
      match truthy task.resource with
      | some resource => occupied.set resource task.id
      | none => occupied)
    .empty

def findTask (allTasks : List Task) (taskId : String) : Option Task :=
  allTasks.find? fun task => task.id = taskId

/-- The entry of `taskMap` for an id: the last task of the scan that has it. -/
def taskMap (allTasks : List Task) (taskId : String) : Option Task :=
  findTask allTasks.reverse taskId

/-- `globalVisited` and `circularDeps`. -/
structure CycleScan where
  visited : List String := []
  circular : List String := []

/-- The fuel bounds the stack, which holds a task at most once. -/
def detectCircularDeps (allTasks : List Task) :
    Nat → List String → CycleScan → String → CycleScan
  | 0, _, scan, _ => scan
  | fuel + 1, stack, scan, taskId =>
      if taskId ∈ stack then
        { scan with circular := scan.circular ++ stack.dropWhile fun id => id ≠ taskId }
      else if taskId ∈ scan.visited then scan
      else
        (((taskMap allTasks taskId).map Task.dependsOn).getD []).foldl
          (detectCircularDeps allTasks fuel (stack ++ [taskId]))
          { scan with visited := taskId :: scan.visited }

def circularDeps (allTasks : List Task) : List String :=
  (allTasks.foldl
    (fun scan task =>
      if task.id ∈ scan.visited then scan
      else detectCircularDeps allTasks (allTasks.length + 2) [] scan task.id)
    {}).circular

def dispatchMetrics (allTasks : List Task) : DispatchMetrics where
  currentInProgress := (withStatus .inProgress allTasks).length
  blockedBySubtasks := incompleteParents allTasks
  circularDeps := circularDeps allTasks
  occupiedResources := buildResourceOccupancyMap allTasks
  inProgressTasks := withStatus .inProgress allTasks

def PollInput.dispatchEnv (input : PollInput) (allTasks : List Task) : DispatchEnv where
  config := input.config
  metrics := dispatchMetrics allTasks
  teams := input.teams
  throttle := input.throttle
  now := input.now

/-- `DEFAULT_MAX_DISPATCH_RETRIES` unless the configuration says otherwise. -/
def PollInput.maxRetries (input : PollInput) : Nat := input.maxDispatchRetries.getD 3

def leaseExpired (lease : Option TaskLease) (now : Nat) : Bool :=
  lease.any fun lease => lease.expiresAt ≤ now

def checkExpiredLeases (input : PollInput) (allTasks : List Task) : List SchedulerAction :=
  ((withStatus .inProgress allTasks ++ withStatus .blocked allTasks).filter fun task =>
    leaseExpired task.lease input.now).map fun task =>
      .expireLease task.id allTasks input.maxRetries (input.backoffElapsed task.id)

/-- Heartbeats of tasks that the scan has not seen are passed over. -/
def staleHeartbeatActions (input : PollInput) (allTasks : List Task) : List SchedulerAction :=
  (input.staleHeartbeats.filter fun heartbeat => (findTask allTasks heartbeat.1).isSome).map
    fun heartbeat => .staleHeartbeat heartbeat.1 (truthy (some heartbeat.2))

def hasTarget (routing : TaskRouting) : Bool :=
  (truthy routing.agent).isSome || (truthy routing.role).isSome || (truthy routing.team).isSome

def checkPromotionEligibility (allTasks : List Task) (now : Nat) (task : Task) : Bool :=
  allDependenciesDone allTasks task &&
    (childrenOf allTasks task.id).all (fun subtask => subtask.status = .done) &&
    hasTarget task.routing && !Store.leaseActive task.lease now

def checkBacklogPromotion (input : PollInput) (allTasks : List Task) : List SchedulerAction :=
  ((withStatus .backlog allTasks).filter (checkPromotionEligibility allTasks input.now)).map
    fun task => .promote task.id

def recoverBlocked (input : PollInput) (allTasks : List Task) (task : Task) :
    Option SchedulerAction :=
  let children := childrenOf allTasks task.id
  if task.metadata.blockReason.any fun reason => includes reason "spawn_failed" then
    match shouldAllowSpawnFailedRequeue task input.maxRetries (input.backoffElapsed task.id) with
    | .allow => some (.requeue task.id)
    | .shouldDeadletter => some (.deadletter task.id)
    | .wait => none
  else if task.dependsOn = [] ∧ children = [] then none
  else if allDependenciesDone allTasks task ∧ children.all fun child => child.status = .done then
    some (.requeue task.id)
  else none

def checkBlockedTaskRecovery (input : PollInput) (allTasks : List Task) : List SchedulerAction :=
  (withStatus .blocked allTasks).filterMap (recoverBlocked input allTasks)

/-- An assignment does nothing without an executor, and an alert changes no task. -/
def PlannedAction.toAction (input : PollInput) (allTasks : List Task) (action : PlannedAction) :
    Option SchedulerAction :=
  match action.type, action.agent, input.executor with
  | .assign, some agent, some spawn =>
      some (.assign action.taskId agent allTasks (spawn action.taskId) input.now
        input.defaultLeaseTtlMs)
  | .block, _, _ => some (.block action.taskId)
  | _, _, _ => none

def dispatchActions (input : PollInput) (allTasks : List Task) : List SchedulerAction :=
  (buildDispatchActions (input.dispatchEnv allTasks) (withStatus .ready allTasks)
    allTasks).filterMap (PlannedAction.toAction input allTasks)

def plannedActions (input : PollInput) (allTasks : List Task) : List SchedulerAction :=
  checkExpiredLeases input allTasks ++ staleHeartbeatActions input allTasks ++
    checkBacklogPromotion input allTasks ++ dispatchActions input allTasks ++
    checkBlockedTaskRecovery input allTasks

def checkHopTimeout (input : PollInput) (task : Task) (hop : Hop) : Command Store Task :=
  if input.config.dryRun = false ∧ input.hopTimedOut task.id hop.id ∧
      (task.workflow.bind fun workflow => statusOf workflow.state.hops hop.id) =
        some .dispatched then
    escalateHopTimeout task hop.id (input.executor.map fun spawn => spawn task.id) input.timestamp
  else pure task

def checkHopTimeouts (input : PollInput) : Command Store Unit := do
  let tasks ← Store.listByStatus .inProgress
  tasks.forM fun task => do
    let _ ← ((task.workflow.map fun workflow => workflow.definition.hops).getD []).foldlM
      (checkHopTimeout input) task

def readyHop (task : Task) : Option String := do
  let workflow ← task.workflow
  if task.status ≠ .inProgress ∨ hasDispatched workflow.state then none
  else (workflow.state.hops.objectEntries.find? fun entry => entry.2.status = .ready).map Prod.fst

def dispatchReadyHops (input : PollInput) (allTasks : List Task) : Command Store Unit :=
  match input.config.dryRun, input.executor with
  | false, some spawn =>
      allTasks.forM fun task =>
        match readyHop task with
        | some hopId => Command.attempt (pollDispatch task.id hopId (spawn task.id) input.timestamp)
        | none => pure ()
  | _, _ => pure ()

namespace Store

/-- The store chooses an id that no task has. -/
def create (task : Task) : Command Store Unit := do
  match ← get task.id with
  | some _ => .throw
  | none => save task

end Store

def MurmurReview.task (review : MurmurReview) : Task where
  id := review.reviewTaskId
  status := .backlog
  priority := .high
  routing := { agent := some review.orchestrator, team := some review.team }

def dispatchReview (input : PollInput) (spawn : String → SpawnResult) (review : MurmurReview) :
    Command Store Unit := do
  let _ ← Store.acquireLease review.reviewTaskId review.orchestrator input.now
    input.defaultLeaseTtlMs
  match spawn review.reviewTaskId with
  | .success _ => pure ()
  | .failure _ => do
      let _ ← Store.transition review.reviewTaskId .ready

/-- One team of `evaluateMurmurTriggers`; the count of tasks in progress is that of the start. -/
def evaluateMurmurTrigger (input : PollInput) (currentInProgress : Nat) (review : MurmurReview) :
    Command Store Unit :=
  if input.config.maxDispatches ≤ currentInProgress ∨ input.config.dryRun then pure ()
  else
    Command.attempt do
      Store.create review.task
      let _ ← Store.transition review.reviewTaskId .ready
      match input.executor with
      | none => pure ()
      | some spawn => Command.attempt (dispatchReview input spawn review)

/-- An assignment counts as executed when its session was spawned. -/
def executes (store : Store) : SchedulerAction → Bool
  | .assign taskId _ allTasks (.success _) now _ =>
      (store.tasks.get? taskId).any fun latest =>
        latest.status = .ready && !Store.leaseActive latest.lease now &&
          (findTask allTasks taskId).isSome
  | _ => false

def executeInOrder : List SchedulerAction → Command Store Nat
  | [] => pure 0
  | action :: rest => do
      let store ← Command.read
      executeAction action
      let executed ← executeInOrder rest
      pure (if executes store action then executed + 1 else executed)

def executeActions (input : PollInput) (actions : List SchedulerAction) : Command Store Nat :=
  if input.config.dryRun then pure 0 else executeInOrder actions

/-- The statistics are taken again if an action was executed. -/
def currentInProgress (allTasks : List Task) (actionsExecuted : Nat) : Command Store Nat :=
  if 0 < actionsExecuted then do
    let updatedTasks ← Store.list
    pure (withStatus .inProgress updatedTasks).length
  else pure (withStatus .inProgress allTasks).length

def poll (input : PollInput) : Command Store Unit := do
  let allTasks ← Store.list
  checkHopTimeouts input
  let actionsExecuted ← executeActions input (plannedActions input allTasks)
  dispatchReadyHops input allTasks
  let inProgress ← currentInProgress allTasks actionsExecuted
  input.reviews.forM (evaluateMurmurTrigger input inProgress)

end Aof

/-!
## Polls under the throttle

The plans of `dispatch/task-dispatcher.ts` and their assignments one after the other, with the
throttle state that outlives a poll.  `executeAssignAction` is cut where it waits for the executor,
so that time passes and tasks change while it does.
-/

namespace Aof

/-- Up to the call of the executor; without a task nothing is spawned. -/
def beginAssign (taskId agent : String) (allTasks : List Task) (now ttlMs : Nat) :
    Command Store (Option Task) := do
  match ← Store.get taskId with
  | none => pure none
  | some latest =>
      if latest.status ≠ .ready ∨ Store.leaseActive latest.lease now ∨
          ¬allTasks.any fun task => task.id = taskId then pure none
      else do
        let leasedTask ← Store.acquireLease taskId agent now ttlMs
        Store.save leasedTask
        pure (some leasedTask)

def endAssign (taskId agent : String) : SpawnResult → Command Store Unit
  | .success sessionId => Store.patch taskId fun task => task.withSession sessionId
  | .failure error =>
      if error = "no-plugin-attached" then Command.attempt (Store.releaseLease taskId agent)
      else do
        Store.patch taskId fun task => task.withSpawnFailure error
        if classifySpawnError error = "permanent" then transitionToDeadletter taskId
        else do
          let _ ← Store.transition taskId .blocked

def executeInParts (taskId agent : String) (allTasks : List Task) (spawn : SpawnResult)
    (now ttlMs : Nat) : Command Store Unit := do
  match ← beginAssign taskId agent allTasks now ttlMs with
  | none => pure ()
  | some _ => endAssign taskId agent spawn

theorem executeInParts_eq (taskId agent : String) (allTasks : List Task) (spawn : SpawnResult)
    (now ttlMs : Nat) : executeInParts taskId agent allTasks spawn now ttlMs =
      executeAssignAction taskId agent allTasks spawn now ttlMs := by
  funext store
  change (executeInParts taskId agent allTasks spawn now ttlMs).run store =
    (executeAssignAction taskId agent allTasks spawn now ttlMs).run store
  unfold executeInParts beginAssign executeAssignAction
  have hget : (Store.get taskId).run store = (some (store.tasks.get? taskId), store) := rfl
  cases hfound : store.tasks.get? taskId with
  | none =>
      rw [hfound] at hget
      rw [Command.run_bind_of_some hget, Command.run_bind, Command.run_bind_of_some hget]
      rfl
  | some latest =>
      rw [hfound] at hget
      rw [Command.run_bind_of_some hget, Command.run_bind, Command.run_bind_of_some hget]
      dsimp only
      by_cases hstop : latest.status ≠ .ready ∨ Store.leaseActive latest.lease now ∨
          ¬allTasks.any fun task => task.id = taskId
      · rw [if_pos hstop, if_pos hstop]
        rfl
      · rw [if_neg hstop, if_neg hstop]
        cases hleased : (Store.acquireLease taskId agent now ttlMs).run store with
        | mk result t =>
            cases result with
            | none =>
                rw [Command.run_bind_of_none hleased, Command.run_bind_of_none hleased]
            | some leasedTask =>
                rw [Command.run_bind_of_some hleased, Command.run_bind_of_some hleased]
                cases spawn with
                | success sessionId => rfl
                | failure error => rfl

/-- A successful dispatch: the team of the task that was leased, and when the executor answered. -/
structure Dispatch where
  taskId : String
  team : Option String
  time : Nat
  deriving DecidableEq, Repr

structure DispatchPolicy where
  config : DispatchConfig
  teams : Option (List OrgTeam) := none
  leaseTtlMs : Nat := 600000

inductive DispatchStage where
  | idle
  | spawning (taskId agent : String) (team : Option String)
  | recording (taskId agent sessionId : String) (team : Option String)

/-- Between the steps, with the scan and the open assignments of the current poll and the
dispatches of this poll and of earlier ones, latest first. -/
structure DispatchState where
  store : Store
  throttle : ThrottleState := {}
  clock : Nat
  readyTasks : List Task := []
  allTasks : List Task := []
  plan : List PlannedAction := []
  stage : DispatchStage := .idle
  current : List Dispatch := []
  earlier : List Dispatch := []

/-- Time passes, anything else writes tasks, a poll plans, and the first open assignment is
executed; the executor throws where it has no answer. -/
inductive DispatchMove where
  | wait (ms : Nat)
  | write (store : Store)
  | poll (readyTasks allTasks : List Task) (metrics : DispatchMetrics)
  | start
  | answer (spawn : Option SpawnResult)
  | record

namespace DispatchPolicy

def env (policy : DispatchPolicy) (state : DispatchState) (metrics : DispatchMetrics) :
    DispatchEnv where
  config := policy.config
  metrics := metrics
  teams := policy.teams
  throttle := state.throttle
  now := state.clock

def planned (policy : DispatchPolicy) (state : DispatchState) (readyTasks allTasks : List Task)
    (metrics : DispatchMetrics) : List PlannedAction :=
  (buildDispatchActions (policy.env state metrics) readyTasks allTasks).filter fun action =>
    action.type = .assign

def poll (policy : DispatchPolicy) (state : DispatchState) (readyTasks allTasks : List Task)
    (metrics : DispatchMetrics) : Option DispatchState :=
  match state.plan, state.stage with
  | [], .idle =>
      some { state with
        readyTasks, allTasks
        plan := policy.planned state readyTasks allTasks metrics
        current := []
        earlier := state.current ++ state.earlier }
  | _, _ => none

def start (policy : DispatchPolicy) (state : DispatchState) : Option DispatchState :=
  match state.plan, state.stage with
  | action :: rest, .idle =>
      let agent := action.agent.getD ""
      match (beginAssign action.taskId agent state.allTasks state.clock policy.leaseTtlMs).run
        state.store with
      | (some (some leasedTask), store) =>
          some { state with
            store
            plan := rest
            stage := .spawning action.taskId agent leasedTask.routing.team }
      | (_, store) => some { state with store, plan := rest }
  | _, _ => none

def answer (state : DispatchState) (spawn : Option SpawnResult) : Option DispatchState :=
  match state.stage, spawn with
  | .spawning taskId agent team, some (.success sessionId) =>
      some { state with
        stage := .recording taskId agent sessionId team
        current := ⟨taskId, team, state.clock⟩ :: state.current }
  | .spawning taskId agent _, some spawn =>
      some { state with
        store := (endAssign taskId agent spawn).after state.store
        stage := .idle }
  | .spawning .., none => some { state with stage := .idle }
  | _, _ => none

/-- The task is read back, and the throttle state updated if it is there. -/
def record (state : DispatchState) : Option DispatchState :=
  match state.stage with
  | .recording taskId agent sessionId _ =>
      let store := (endAssign taskId agent (.success sessionId)).after state.store
      some { state with
        store
        stage := .idle
        throttle :=
          match store.tasks.get? taskId with
          | some dispatchedTask =>
              updateThrottleState state.throttle dispatchedTask.routing.team state.clock
          | none => state.throttle }
  | _ => none

def step (policy : DispatchPolicy) (state : DispatchState) : DispatchMove → Option DispatchState
  | .wait ms => some { state with clock := state.clock + ms }
  | .write store => some { state with store }
  | .poll readyTasks allTasks metrics => policy.poll state readyTasks allTasks metrics
  | .start => policy.start state
  | .answer spawn => answer state spawn
  | .record => record state

end DispatchPolicy

end Aof
