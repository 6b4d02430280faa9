import Aof.Schemas.Task
import Aof.Lib.ReadModifyWrite

/-!
# The murmur state of a team

The state that `murmur/state-manager.ts` keeps in one file per team, what each operation of the
manager changes in it, and the triggers of `murmur/trigger-evaluator.ts` that read it.  Times are in
milliseconds.
-/

namespace Aof

structure MurmurState where
  teamId : String
  lastReviewAt : Option Nat := none
  completionsSinceLastReview : Nat := 0
  failuresSinceLastReview : Nat := 0
  currentReviewTaskId : Option String := none
  reviewStartedAt : Option Nat := none
  lastTriggeredBy : Option String := none
  deriving DecidableEq, Repr

namespace MurmurState

def incrementCompletions (state : MurmurState) : MurmurState :=
  { state with completionsSinceLastReview := state.completionsSinceLastReview + 1 }

def incrementFailures (state : MurmurState) : MurmurState :=
  { state with failuresSinceLastReview := state.failuresSinceLastReview + 1 }

def startReview (state : MurmurState) (taskId triggeredBy : String) (now : Nat) : MurmurState :=
  { state with
    currentReviewTaskId := some taskId
    reviewStartedAt := some now
    lastReviewAt := some now
    lastTriggeredBy := some triggeredBy
    completionsSinceLastReview := 0
    failuresSinceLastReview := 0 }

def endReview (state : MurmurState) : MurmurState :=
  { state with
    currentReviewTaskId := none
    reviewStartedAt := none }

end MurmurState

inductive MurmurTriggerKind where
  | queueEmpty
  | completionBatch
  | interval
  | failureBatch
  deriving DecidableEq, Repr

structure MurmurTrigger where
  kind : MurmurTriggerKind
  threshold : Option Nat := none
  intervalMs : Option Nat := none
  deriving DecidableEq, Repr

/-- The tasks of a team that wait for an agent, and those that have one. -/
structure TaskStats where
  ready : Nat
  inProgress : Nat
  deriving DecidableEq, Repr

structure TriggerResult where
  triggeredBy : String
  reason : String
  deriving DecidableEq, Repr

def evaluateQueueEmpty (taskStats : TaskStats) : Option TriggerResult :=
  if taskStats.ready = 0 ∧ taskStats.inProgress = 0 then
    some ⟨"queueEmpty", "Both ready and in-progress queues are empty"⟩
  else none

def evaluateCompletionBatch (trigger : MurmurTrigger) (state : MurmurState) :
    Option TriggerResult := do
  let threshold ← trigger.threshold
  let completions := state.completionsSinceLastReview
  if threshold ≤ completions then
    some ⟨"completionBatch", s!"Completed {completions} tasks (threshold: {threshold})"⟩
  else none

def evaluateInterval (trigger : MurmurTrigger) (state : MurmurState) (now : Nat) :
    Option TriggerResult := do
  let intervalMs ← trigger.intervalMs
  match state.lastReviewAt with
  | none => some ⟨"interval", "No review has occurred yet"⟩
  | some lastReviewMs =>
      let elapsedMs := now - lastReviewMs
      if intervalMs ≤ elapsedMs then
        some ⟨"interval", s!"{elapsedMs / 1000}s elapsed since last review " ++
          s!"(interval: {intervalMs / 1000}s)"⟩
      else none

def evaluateFailureBatch (trigger : MurmurTrigger) (state : MurmurState) :
    Option TriggerResult := do
  let threshold ← trigger.threshold
  let failures := state.failuresSinceLastReview
  if threshold ≤ failures then
    some ⟨"failureBatch", s!"{failures} task failures (threshold: {threshold})"⟩
  else none

def evaluateSingleTrigger (trigger : MurmurTrigger) (state : MurmurState) (taskStats : TaskStats)
    (now : Nat) : Option TriggerResult :=
  match trigger.kind with
  | .queueEmpty => evaluateQueueEmpty taskStats
  | .completionBatch => evaluateCompletionBatch trigger state
  | .interval => evaluateInterval trigger state now
  | .failureBatch => evaluateFailureBatch trigger state

/-- The first trigger that fires; none does while a review is in progress. -/
def evaluateTriggers (triggers : List MurmurTrigger) (state : MurmurState) (taskStats : TaskStats)
    (now : Nat) : Option TriggerResult :=
  if state.currentReviewTaskId.isSome then none
  else triggers.findSome? fun trigger => evaluateSingleTrigger trigger state taskStats now

end Aof

/-!
## The managers of a murmur state

Several instances of `MurmurStateManager` over the state file of one team.  Each instance has a lock
of its own, so that its calls wait for each other, and not for those of other instances.
-/

namespace Aof

inductive MurmurUpdate where
  | incrementCompletions
  | incrementFailures
  | startReview (taskId triggeredBy : String) (now : Nat)
  | endReview
  deriving DecidableEq, Repr

def MurmurUpdate.apply (state : MurmurState) : MurmurUpdate → MurmurState
  | .incrementCompletions => state.incrementCompletions
  | .incrementFailures => state.incrementFailures
  | .startReview taskId triggeredBy now => state.startReview taskId triggeredBy now
  | .endReview => state.endReview

structure ManagerCall where
  manager : Nat
  update : MurmurUpdate
  deriving DecidableEq, Repr

/-- The state file, absent if it does not exist or cannot be parsed. -/
abbrev MurmurFile := Option MurmurState

namespace ManagerCall

/-- A load, an update and a save; a state of another team is not saved. -/
def edit (teamId : String) (call : ManagerCall) (file : MurmurFile) : Option MurmurFile :=
  let state := file.getD { teamId }
  if state.teamId ≠ teamId then none else some (some (call.update.apply state))

def excludes (call other : ManagerCall) : Bool := call.manager = other.manager

end ManagerCall

def managerStep (teamId : String) :=
  ReadModifyWrite.step (ManagerCall.edit teamId) ManagerCall.excludes

end Aof

/-!
## The review cycle

The murmur states of the teams next to their tasks: the hook on the store's transitions
(`dispatch/murmur-hooks.ts`), the cleanup of stale reviews (`murmur/cleanup.ts`) and the evaluation
of the triggers (`dispatch/murmur-integration.ts`), one after the other.
-/

namespace Aof

open StepSystem

def TaskStatus.terminal : TaskStatus → Bool
  | done | cancelled | deadletter => true
  | _ => false

/-- What the cycle reads of a task: its team, and whether its kind is `orchestration_review`. -/
structure MurmurTask where
  team : String
  isReview : Bool := false
  status : TaskStatus
  deriving DecidableEq, Repr

/-- What an evaluation is given for a team that has triggers and an orchestrator. -/
structure MurmurOptions where
  triggers : List MurmurTrigger
  dryRun : Bool := false
  maxConcurrentDispatches : Nat := 3
  currentInProgress : Nat := 0
  deriving DecidableEq, Repr

/-- The start of a review, with the earlier reviews of the team that were still open then and
younger than the timeout. -/
structure ReviewStart where
  taskId : String
  team : String
  startedAt : Nat
  alive : List String
  deriving DecidableEq, Repr

/-- The completion of a review task that cleared the marker of its team. -/
structure MarkerClear where
  taskId : String
  marker : String
  deriving DecidableEq, Repr

/-- The clock, the tasks and the state files, with a record of the starts of reviews and of the
completions that ended one, newest first. -/
structure ReviewCycle where
  now : Nat := 0
  tasks : Dict String MurmurTask := .empty
  files : Dict String MurmurState := .empty
  starts : List ReviewStart := []
  clears : List MarkerClear := []

namespace ReviewCycle

def load (cycle : ReviewCycle) (team : String) : MurmurState :=
  (cycle.files.get? team).getD { teamId := team }

/-- The id belongs to a task, or to one that was reviewed and deleted; no id is given out twice. -/
def used (cycle : ReviewCycle) (taskId : String) : Bool :=
  cycle.tasks.has taskId || cycle.starts.any fun start => start.taskId = taskId

/-- A load, an edit and a save, while nobody else is at the file. -/
def edit (cycle : ReviewCycle) (team : String) (change : MurmurState → MurmurState) : ReviewCycle :=
  { cycle with files := cycle.files.set team (change (cycle.load team)) }

def marker (cycle : ReviewCycle) (team : String) : Option String :=
  (cycle.load team).currentReviewTaskId

/-- A review task that is done ends the review of its team. -/
def completeReview (cycle : ReviewCycle) (taskId team : String) : ReviewCycle :=
  { cycle.edit team MurmurState.endReview with
    clears := (cycle.marker team).toList.map (MarkerClear.mk taskId) ++ cycle.clears }

def murmurHook (cycle : ReviewCycle) (taskId : String) (task : MurmurTask) : ReviewCycle :=
  if task.team = "" then cycle
  else if task.status = .done then
    if task.isReview then cycle.completeReview taskId task.team
    else cycle.edit task.team MurmurState.incrementCompletions
  else if task.status = .deadletter then cycle.edit task.team MurmurState.incrementFailures
  else cycle

def setStatus (cycle : ReviewCycle) (taskId : String) (task : MurmurTask) (status : TaskStatus) :
    ReviewCycle :=
  { cycle with tasks := cycle.tasks.set taskId { task with status := status } }

def transition (cycle : ReviewCycle) (taskId : String) (newStatus : TaskStatus) :
    Option ReviewCycle := do
  let task ← cycle.tasks.get? taskId
  if task.status.terminal ∨ ¬isValidTransition task.status newStatus then none
  else
    some ((cycle.setStatus taskId task newStatus).murmurHook taskId
      { task with status := newStatus })

def cleanupReason (cycle : ReviewCycle) (reviewTimeoutMs : Nat) (state : MurmurState)
    (reviewTaskId : String) : Option String :=
  match cycle.tasks.get? reviewTaskId with
  | none => some "task_not_found"
  | some task =>
      match task.status with
      | .done => some "task_done"
      | .cancelled => some "task_cancelled"
      | .deadletter => some "task_deadlettered"
      | _ =>
          match state.reviewStartedAt with
          | none => none
          | some startedMs =>
              if reviewTimeoutMs ≤ cycle.now - startedMs then some "timeout" else none

/-- `cleanupStaleReview`, with the state that was loaded before. -/
def cleanupStaleReview (cycle : ReviewCycle) (reviewTimeoutMs : Nat) (team : String)
    (state : MurmurState) (dryRun : Bool) : ReviewCycle :=
  match state.currentReviewTaskId with
  | none => cycle
  | some reviewTaskId =>
      if (cycle.cleanupReason reviewTimeoutMs state reviewTaskId).isNone ∨ dryRun then cycle
      else cycle.edit team MurmurState.endReview

def taskStats (cycle : ReviewCycle) (team : String) : TaskStats where
  ready := (cycle.tasks.values.filter fun task => task.team = team ∧ task.status = .ready).length
  inProgress :=
    (cycle.tasks.values.filter fun task => task.team = team ∧ task.status = .inProgress).length

def isOpen (cycle : ReviewCycle) (taskId : String) : Bool :=
  (cycle.tasks.get? taskId).any fun task => !task.status.terminal

def alive (cycle : ReviewCycle) (reviewTimeoutMs : Nat) (team : String) : List String :=
  (cycle.starts.filter fun start => start.team = team ∧
    cycle.now - start.startedAt < reviewTimeoutMs ∧ cycle.isOpen start.taskId).map
      ReviewStart.taskId

def createReview (cycle : ReviewCycle) (team taskId : String) : ReviewCycle :=
  { cycle with
    tasks := cycle.tasks.set taskId { team := team, isReview := true, status := .ready } }

def startReview (cycle : ReviewCycle) (reviewTimeoutMs : Nat) (team taskId triggeredBy : String) :
    ReviewCycle :=
  { (cycle.createReview team taskId).edit team fun state =>
      state.startReview taskId triggeredBy cycle.now with
    starts := ⟨taskId, team, cycle.now, cycle.alive reviewTimeoutMs team⟩ :: cycle.starts }

/-- `evaluateMurmurTriggers` for one team, with the id that a created review task gets.  The state
that the triggers see is the one from before the cleanup. -/
def evaluateTeam (cycle : ReviewCycle) (reviewTimeoutMs : Nat) (team taskId : String)
    (options : MurmurOptions) : Option ReviewCycle :=
  let state := cycle.load team
  let cleaned := cycle.cleanupStaleReview reviewTimeoutMs team state options.dryRun
  match evaluateTriggers options.triggers state (cycle.taskStats team) cycle.now with
  | none => some cleaned
  | some trigger =>
      if options.maxConcurrentDispatches ≤ options.currentInProgress ∨ options.dryRun then
        some cleaned
      else if cleaned.used taskId then none
      else some (cleaned.startReview reviewTimeoutMs team taskId trigger.triggeredBy)

end ReviewCycle

inductive MurmurEvent where
  | elapse (ms : Nat)
  | create (taskId : String) (task : MurmurTask)
  | delete (taskId : String)
  | transition (taskId : String) (newStatus : TaskStatus)
  | cleanup (team : String)
  | evaluate (team taskId : String) (options : MurmurOptions)

def murmurStep (reviewTimeoutMs : Nat) (cycle : ReviewCycle) : MurmurEvent → Option ReviewCycle
  | .elapse ms => some { cycle with now := cycle.now + ms }
  | .create taskId task =>
      if cycle.used taskId then none
      else some { cycle with tasks := cycle.tasks.set taskId task }
  | .delete taskId => some { cycle with tasks := cycle.tasks.erase taskId }
  | .transition taskId newStatus => cycle.transition taskId newStatus
  | .cleanup team =>
      some (cycle.cleanupStaleReview reviewTimeoutMs team (cycle.load team) false)
  | .evaluate team taskId options => cycle.evaluateTeam reviewTimeoutMs team taskId options

end Aof
