import Aof.Lib.KeyedLock
import Aof.Dispatch.DagTransitionHandler

/-!
# Protocol router

The ends of sessions and the completion reports of agents, from `protocol/router.ts`,
`protocol/router-helpers.ts`, `protocol/completion-utils.ts` and `dispatch/dep-cascader.ts`.  The
logger is taken to be present.
-/

/-!
## Locks of the protocol

`InMemoryTaskLockManager.withLock` as far as promises go.  Every `catch`, `then` and `finally` of a
call makes a promise of its own, and so does the handler of `finally`; the lock of a task is the
last promise of its last call.
-/

namespace Aof

namespace InMemoryTaskLockManager

open KeyedLock

/-- The promises of a call: what `currentLock.catch` and the two `then` before `resolve` make, the
one that `fn()` returns, `resultPromise`, what its `catch` makes, the two of `finally`, of which the
second is `nextLock`, and the one that `withLock` returns. -/
inductive LockPromise where
  | caught
  | ran
  | fn
  | resultPromise
  | survived
  | passed
  | nextLock
  | returned
  deriving DecidableEq, Repr

inductive LockReaction where
  | continueChain
  | callFn
  | follow
  | resolve
  | keepAlive
  | answer
  | cleanUp
  | pass
  | close
  | tell
  deriving DecidableEq, Repr

variable {Value Error : Type} [Inhabited Value]

abbrev State (Value Error : Type) := LockState LockPromise LockReaction String Value Error

/-- A handler of `catch` that only writes to the log; `undefined` is the default value. -/
def logged : Except Error Value → Value
  | .ok value => value
  | .error _ => default

def created : LockPromise → Option (Promises.Settlement LockReaction (Except Error Value))
  | .fn => none
  | .passed => none
  | _ => some (.pending [])

def withLock (state : State Value Error) (taskId : String) (thrown : Option Error) :
    State Value Error :=
  let call := state.calls.length
  let currentLock := state.entries taskId
  let state := state.enter taskId thrown created
  let state := match currentLock with
    | some earlier => state.subscribe earlier .nextLock (call, .continueChain)
    -- `Promise.resolve()` has settled
    | none => state.enqueue call (.react .continueChain (.ok default))
  let state := state.subscribe call .caught (call, .callFn)
  let state := state.subscribe call .ran (call, .resolve)
  let state := state.subscribe call .resultPromise (call, .keepAlive)
  let state := state.subscribe call .survived (call, .cleanUp)
  let state := state.setEntry taskId call
  let state := state.enqueue call (.adopt .resultPromise .answer)
  state.subscribe call .returned (call, .tell)

def react (state : State Value Error) (call : Nat) :
    LockReaction → Except Error Value → State Value Error
  | .continueChain, outcome => state.settle call .caught (.ok (logged outcome))
  | .callFn, .ok _ => state.start call .fn .ran .follow
  | .callFn, .error error => state.settle call .ran (.error error)
  | .follow, outcome => state.settle call .ran outcome
  | .resolve, outcome => state.settle call .resultPromise outcome
  | .keepAlive, outcome => state.settle call .survived (.ok (logged outcome))
  | .answer, outcome => state.settle call .returned outcome
  -- `finally` hands on the outcome in a promise that the lock follows
  | .cleanUp, outcome =>
      let state := state.deleteEntry call
      let state := { state with heap := state.heap.create call .passed }
      (state.enqueue call (.react .pass outcome)).enqueue call (.adopt .passed .close)
  | .pass, outcome => state.settle call .passed outcome
  | .close, outcome => state.settle call .nextLock outcome
  | .tell, outcome => state.tell call outcome

def program : LockProgram LockPromise LockReaction String Value Error where
  body := .fn
  run := withLock
  react := react

end InMemoryTaskLockManager

end Aof

namespace Aof

def resolveCompletionTransitions (task : Task) (outcome : CompletionOutcome) : List TaskStatus :=
  match outcome with
  | .done =>
      if task.status = .done then []
      else if task.metadata.reviewRequired ≠ some false then [.review]
      else [.review, .done]
  | .blocked => [.blocked]
  | .needsReview => [.review]
  | .partiallyDone => [.review]

/-- One turn of the loop of `applyCompletionOutcome`. -/
def applyCompletionTransition (current : Task) (nextStatus : TaskStatus) : Command Store Task :=
  if current.status = nextStatus then pure current
  else if isValidTransition current.status nextStatus then Store.transition current.id nextStatus
  else pure current

def applyCompletionOutcome (task : Task) (outcome : CompletionOutcome) : Command Store Unit := do
  let _ ← (resolveCompletionTransitions task outcome).foldlM applyCompletionTransition task

def completionDependents (completedTaskId : String) (allTasks : List Task) : List Task :=
  allTasks.filter fun task =>
    completedTaskId ∈ task.dependsOn ∧ (task.status = .backlog ∨ task.status = .blocked)

def allDependenciesDone (allTasks : List Task) (task : Task) : Bool :=
  task.dependsOn.all fun depId =>
    (allTasks.find? fun other => other.id = depId).any fun dep => dep.status = .done

def cascadeOnCompletion (completedTaskId : String) : Command Store Unit := do
  let allTasks ← Store.list
  (completionDependents completedTaskId allTasks).forM fun dependent =>
    if allDependenciesDone allTasks dependent then do
      let _ ← Store.transition dependent.id .ready
    else pure ()

/-- The DAG branch of `handleSessionEnd`, inside the lock of the task.  The executor's answer to
the next dispatch is an argument, absent if there is no executor. -/
def completeDAGSession (task : Task) (runResult : RunResult) (executor : Option SpawnResult)
    (timestamp : String) : Command Store Unit := do
  let (result, task) ← handleDAGHopCompletion task runResult timestamp
  if result.dagComplete then
    if runResult.outcome = .done then do
      let _ ← Store.transition task.id .review
      Command.attempt (cascadeOnCompletion task.id)
    else do
      let _ ← Store.transition task.id .blocked
  else if result.reviewRequired then do
    let _ ← Store.transition task.id .review
  else
    match result.readyHops, executor with
    | hopId :: _, some spawn => do
        let _ ← dispatchDAGHop task hopId spawn timestamp
    | _, _ => pure ()

/-- One turn of the loop of `handleSessionEnd`, for a task object of the scan. -/
def visitSession (task : Task) (executor : Option SpawnResult) (timestamp : String) :
    Command Store Unit := do
  match ← Store.readRunResult task.id with
  | none => pure ()
  | some runResult =>
      if task.workflow.isSome then
        Command.attempt (completeDAGSession task runResult executor timestamp)
      else do
        applyCompletionOutcome task runResult.outcome
        if runResult.outcome = .done then Command.attempt (cascadeOnCompletion task.id)
        else pure ()

/-- The answers of the executor and of the clock are given for each task. -/
def handleSessionEnd (executor : String → Option SpawnResult) (clock : String → String) :
    Command Store Unit := do
  let inProgress ← Store.listByStatus .inProgress
  inProgress.forM fun task => visitSession task (executor task.id) (clock task.id)

structure CompletionReport where
  taskId : String
  fromAgent : String
  outcome : CompletionOutcome
  notes : String
  deriving DecidableEq, Repr

/-- The agent of the lease, else that of the routing. -/
def resolveAuthorizedAgent (task : Task) : Option String :=
  match task.lease with
  | some lease => some lease.agent
  | none => task.routing.agent

/-- An empty name authorizes nobody. -/
def checkAuthorization (fromAgent : String) (task : Task) : Bool :=
  (resolveAuthorizedAgent task).filter (fun agent => agent ≠ "") = some fromAgent

def handleCompletionReport (report : CompletionReport) : Command Store Unit := do
  match ← Store.get report.taskId with
  | none => pure ()
  | some task =>
      if checkAuthorization report.fromAgent task then do
        Store.writeRunResult report.taskId
          ⟨report.taskId, report.fromAgent, report.outcome, report.notes⟩
        applyCompletionOutcome task report.outcome
        if report.outcome = .done then Command.attempt (cascadeOnCompletion report.taskId)
        else pure ()
      else pure ()

end Aof
