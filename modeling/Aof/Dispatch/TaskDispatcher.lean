import Aof.Dispatch.ActionExecutor

/-!
# Task dispatcher

The plan of a poll for the ready tasks, from `dispatch/task-dispatcher.ts`.  The org chart, the
throttle state and the clock are arguments.
-/

/-!
## Throttle

The limits on concurrent dispatches and on the time between dispatches, from `dispatch/throttle.ts`.
-/

namespace Aof

def truthy (text : Option String) : Option String := text.filter fun text => text ≠ ""

structure ThrottleState where
  lastDispatchAt : Nat := 0
  lastDispatchByTeam : Dict String Nat := .empty

structure ThrottleCheckParams where
  team : Option String
  currentInProgress : Nat
  pendingDispatches : Nat
  maxDispatches : Nat
  teamInProgress : Option Nat
  teamMaxConcurrent : Option Nat
  minDispatchIntervalMs : Option Nat
  teamMinIntervalMs : Option Nat
  dispatchesThisPoll : Nat
  maxDispatchesPerPoll : Nat

structure ThrottleCheckResult where
  allowed : Bool
  reason : Option String := none
  waitTimeMs : Option Int := none
  deriving DecidableEq, Repr

namespace ThrottleCheckParams

def checkConcurrency (params : ThrottleCheckParams) : Option ThrottleCheckResult :=
  let running := params.currentInProgress + params.pendingDispatches
  if params.maxDispatches ≤ running then
    some
      { allowed := false
        reason := some ("global concurrency " ++ toString running ++ "/" ++
          toString params.maxDispatches) }
  else none

def checkTeamConcurrency (params : ThrottleCheckParams) : Option ThrottleCheckResult := do
  let team ← truthy params.team
  let running ← params.teamInProgress
  let limit ← params.teamMaxConcurrent
  if limit ≤ running then
    some
      { allowed := false
        reason := some ("team " ++ team ++ " concurrency " ++ toString running ++ "/" ++
          toString limit) }
  else none

/-- Too little time has passed since the last dispatch of `name`; zero stands for none. -/
def checkElapsed (name : String) (now last interval : Nat) : Option ThrottleCheckResult :=
  let elapsed : Int := now - last
  if 0 < interval ∧ 0 < last ∧ elapsed < interval then
    some
      { allowed := false
        reason := some (name ++ " interval " ++ toString elapsed ++ "ms < " ++ toString interval ++
          "ms, wait " ++ toString (interval - elapsed) ++ "ms")
        waitTimeMs := some (interval - elapsed) }
  else none

def checkInterval (params : ThrottleCheckParams) (state : ThrottleState) (now : Nat) :
    Option ThrottleCheckResult := do
  let interval ← params.minDispatchIntervalMs
  checkElapsed "global" now state.lastDispatchAt interval

def checkTeamInterval (params : ThrottleCheckParams) (state : ThrottleState) (now : Nat) :
    Option ThrottleCheckResult := do
  let team ← truthy params.team
  let interval ← params.teamMinIntervalMs
  checkElapsed ("team " ++ team) now ((state.lastDispatchByTeam.get? team).getD 0) interval

def checkPollCycle (params : ThrottleCheckParams) : Option ThrottleCheckResult :=
  if params.maxDispatchesPerPoll ≤ params.dispatchesThisPoll then
    some
      { allowed := false
        reason := some ("poll cycle limit " ++ toString params.dispatchesThisPoll ++ "/" ++
          toString params.maxDispatchesPerPoll) }
  else none

end ThrottleCheckParams

def checkThrottle (state : ThrottleState) (now : Nat) (params : ThrottleCheckParams) :
    ThrottleCheckResult :=
  (params.checkConcurrency <|> params.checkTeamConcurrency <|> params.checkInterval state now <|>
    params.checkTeamInterval state now <|> params.checkPollCycle).getD { allowed := true }

def updateThrottleState (state : ThrottleState) (team : Option String) (now : Nat) :
    ThrottleState :=
  { lastDispatchAt := now
    lastDispatchByTeam :=
      match truthy team with
      | some team => state.lastDispatchByTeam.set team now
      | none => state.lastDispatchByTeam }

end Aof

namespace Aof

structure TeamDispatchConfig where
  maxConcurrent : Option Nat := none
  minIntervalMs : Option Nat := none
  deriving DecidableEq, Repr

/-- A team of the org chart; its schema requires an id. -/
structure OrgTeam where
  id : String
  named : id ≠ ""
  lead : Option String := none
  orchestrator : Option String := none
  dispatch : Option TeamDispatchConfig := none
  deriving DecidableEq

structure DispatchConfig where
  dryRun : Bool := false
  maxConcurrentDispatches : Option Nat := none
  minDispatchIntervalMs : Option Nat := none
  maxDispatchesPerPoll : Option Nat := none
  deriving DecidableEq, Repr

def DispatchConfig.maxDispatches (config : DispatchConfig) : Nat :=
  config.maxConcurrentDispatches.getD 3

def DispatchConfig.perPoll (config : DispatchConfig) : Nat := config.maxDispatchesPerPoll.getD 10

structure DispatchMetrics where
  currentInProgress : Nat
  blockedBySubtasks : List String
  circularDeps : List String
  occupiedResources : Dict String String
  inProgressTasks : List Task

structure DispatchEnv where
  config : DispatchConfig
  metrics : DispatchMetrics
  teams : Option (List OrgTeam)
  throttle : ThrottleState
  now : Nat

inductive ActionType where
  | assign
  | block
  | alert
  deriving DecidableEq, Repr

structure PlannedAction where
  type : ActionType
  taskId : String
  agent : Option String := none
  reason : String
  fromStatus : Option TaskStatus := none
  deriving DecidableEq, Repr

structure DispatchPlan where
  actions : List PlannedAction := []
  pendingDispatches : Nat := 0
  dispatchesThisPoll : Nat := 0
  inProgressByTeam : Dict String Nat

/-- `teamConfigMap`: a later team replaces an earlier one with the same id. -/
def teamConfigMap (teams : Option (List OrgTeam)) : Dict String TeamDispatchConfig :=
  (teams.getD []).foldl
    (fun configs team =>
      match team.dispatch with
      | some dispatch => configs.set team.id dispatch
      | none => configs)
    .empty

def countTeam (counts : Dict String Nat) (team : Option String) : Dict String Nat :=
  match truthy team with
  | some team => counts.set team ((counts.get? team).getD 0 + 1)
  | none => counts

def inProgressByTeam (tasks : List Task) : Dict String Nat :=
  tasks.foldl (fun counts task => countTeam counts task.routing.team) .empty

def unresolvedDeps (allTasks : List Task) (task : Task) : List String :=
  task.dependsOn.filter fun depId =>
    !(allTasks.find? fun other => other.id = depId).any fun dep => dep.status = .done

def resourceOccupied (metrics : DispatchMetrics) (task : Task) : Bool :=
  (truthy task.resource).any fun resource => metrics.occupiedResources.has resource

def throttleParams (env : DispatchEnv) (plan : DispatchPlan) (task : Task) : ThrottleCheckParams :=
  let team := task.routing.team
  let teamConfig := (truthy team).bind (teamConfigMap env.teams).get?
  { team
    currentInProgress := env.metrics.currentInProgress
    pendingDispatches := plan.pendingDispatches
    maxDispatches := env.config.maxDispatches
    teamInProgress := (truthy team).map fun team => (plan.inProgressByTeam.get? team).getD 0
    teamMaxConcurrent := teamConfig.bind TeamDispatchConfig.maxConcurrent
    minDispatchIntervalMs := env.config.minDispatchIntervalMs.filter fun interval => 0 < interval
    teamMinIntervalMs := teamConfig.bind TeamDispatchConfig.minIntervalMs
    dispatchesThisPoll := plan.dispatchesThisPoll
    maxDispatchesPerPoll := env.config.perPoll }

/-- The agent that the routing names; a team stands for its orchestrator or lead. -/
def routingTarget (teams : Option (List OrgTeam)) (routing : TaskRouting) : Option String := do
  let target ← truthy (routing.agent <|> routing.role <|> routing.team)
  let resolved := (teams.getD []).find? (fun team => team.id = target) |>.bind fun team =>
    truthy (team.orchestrator <|> team.lead)
  some (resolved.getD target)

def DispatchPlan.push (plan : DispatchPlan) (action : PlannedAction) : DispatchPlan :=
  { plan with actions := plan.actions ++ [action] }

/-- The assignment is planned, and holds its slots for the rest of the plan. -/
def DispatchPlan.assign (plan : DispatchPlan) (dryRun : Bool) (task : Task) (target : String) :
    DispatchPlan :=
  { actions := plan.actions ++
      [{ type := .assign, taskId := task.id, agent := some target
         reason := "Pending task with routing target: " ++ target }]
    pendingDispatches := plan.pendingDispatches + 1
    dispatchesThisPoll := plan.dispatchesThisPoll + 1
    inProgressByTeam :=
      if dryRun then plan.inProgressByTeam else countTeam plan.inProgressByTeam task.routing.team }

def unroutedReason (routing : TaskRouting) : String :=
  if routing.tags = [] then "Pending task with no routing target — needs manual assignment"
  else "Task has tags (" ++ String.intercalate ", " routing.tags ++
    ") but no routing target — needs explicit agent/role/team assignment"

/-- The gates before the throttle: subtasks, dependencies, lease and resource. -/
def passesGates (env : DispatchEnv) (allTasks : List Task) (task : Task) : Bool :=
  unresolvedDeps allTasks task = [] && !Store.leaseActive task.lease env.now &&
    !resourceOccupied env.metrics task

/-- One turn of the loop over the ready tasks, and whether the loop goes on after it. -/
def visitReady (env : DispatchEnv) (allTasks : List Task) (plan : DispatchPlan) (task : Task) :
    DispatchPlan × Bool :=
  if task.id ∈ env.metrics.blockedBySubtasks then (plan, true)
  else if task.id ∈ env.metrics.circularDeps then
    (plan.push
      { type := .block, taskId := task.id, reason := "Circular dependency detected"
        fromStatus := some task.status }, true)
  else if !passesGates env allTasks task then (plan, true)
  else
    let check := checkThrottle env.throttle env.now (throttleParams env plan task)
    if !check.allowed then
      -- the interval between dispatches holds back all remaining tasks
      (plan, !check.reason.any fun reason => includes reason "global interval")
    else
      match routingTarget env.teams task.routing with
      | some target => (plan.assign env.config.dryRun task target, true)
      | none =>
          (plan.push { type := .alert, taskId := task.id, reason := unroutedReason task.routing },
            true)

def planReady (env : DispatchEnv) (allTasks : List Task) : DispatchPlan → List Task → DispatchPlan
  | plan, [] => plan
  | plan, task :: rest =>
      match visitReady env allTasks plan task with
      | (next, true) => planReady env allTasks next rest
      | (next, false) => next

def blockParents (metrics : DispatchMetrics) (allTasks : List Task) : List PlannedAction :=
  (allTasks.filter fun task =>
    task.id ∈ metrics.blockedBySubtasks ∧ task.status ≠ .blocked ∧ task.status ≠ .done).map
    fun task =>
      { type := .block, taskId := task.id, reason := "Parent task has incomplete subtasks"
        fromStatus := some task.status }

def initialPlan (metrics : DispatchMetrics) : DispatchPlan :=
  { inProgressByTeam := inProgressByTeam metrics.inProgressTasks }

def buildDispatchActions (env : DispatchEnv) (readyTasks allTasks : List Task) :
    List PlannedAction :=
  (planReady env allTasks (initialPlan env.metrics) readyTasks).actions ++
    blockParents env.metrics allTasks

end Aof
