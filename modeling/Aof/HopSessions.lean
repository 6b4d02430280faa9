import Aof.Lib.Interleaving
import Aof.ResultLedger

/-!
# The sessions of a workflow

One task with a workflow, and the asynchronous calls that act on it: the hop dispatch and the
timeouts of a poll, `handleSessionEnd`, the callback of a run that ended, and every other call that
rewrites the task.  A call runs alone between two of its awaits.  The task comes with a record of
the run, which the program does not read.
-/

namespace Aof

open Interleaving (Pool Turn)

namespace HopSessions

/-- The task on disk, its result file and the lock of the router.  The rest is the record of the
run: the hops that were spawned and whose outcome is not recorded yet, the dispatches between their
last read and their save, the saves and hop completions so far, and whether a dispatch has saved
over a completion. -/
structure TaskState where
  disk : Task
  runResult : Option RunResult := none
  locked : Bool := false
  unrecorded : List String := []
  underWay : Nat := 0
  saves : Nat := 0
  completions : Nat := 0
  overwritten : Bool := false

/-- A task object in memory, with the saves and completions there were when it was read. -/
structure Copy where
  task : Task
  saves : Nat
  completions : Nat

inductive Process where
  /-- The hop dispatch of a poll: before the scan, before the fresh read, at the spawn, and at the
  save. -/
  | poll
  | scanned (task : Task)
  | dispatching (copy : Copy) (hop : Hop) (holdsLock : Bool)
  | dispatched (copy : Copy) (holdsLock : Bool)
  /-- The timeouts of a poll: before the scan, between two hops, at the spawn, and at the save. -/
  | checkTimeouts
  | timedOut (copy : Copy)
  | escalating (copy : Copy) (hopId : String)
  | escalated (copy : Copy)
  /-- `handleSessionEnd`: before the scan, before the result is read, before the lock, at the save
  of the evaluated workflow, and after it. -/
  | sessionEnd
  | ended (copy : Copy)
  | answered (copy : Copy) (runResult : RunResult)
  | completing (copy : Copy) (hopId : String) (result : DAGHopCompletionResult)
      (outcome : CompletionOutcome)
  | completed (copy : Copy) (result : DAGHopCompletionResult) (outcome : CompletionOutcome)
  /-- The callback of a run: before the read, at the save of the failure count, before the second
  read, and at the save of the failed hop. -/
  | runComplete (hopId : String)
  | counting (copy : Copy) (hopId : String)
  | counted (hopId : String)
  | enforcing (copy : Copy) (hopId : String)
  /-- A transition, and any other change of status, lease and metadata: before the read, and at the
  save. -/
  | moving (newStatus : TaskStatus) (holdsLock : Bool)
  | rewrite (status : TaskStatus) (lease : Option TaskLease) (metadata : TaskMetadata)
  | rewriting (copy : Copy) (holdsLock : Bool)
  /-- A session writes its result. -/
  | report (runResult : RunResult)
  | finished

/-- What the environment answers: the executor to a spawn, the clock, and which hop has timed
out. -/
structure Answer where
  spawn : SpawnResult := .failure ""
  timestamp : String := ""
  timedOut : Option String := none

def hopStatus (task : Task) (hopId : String) : Option HopStatus :=
  task.workflow.bind fun workflow => statusOf workflow.state.hops hopId

namespace TaskState

def read (state : TaskState) : Copy := ⟨state.disk, state.saves, state.completions⟩

def save (state : TaskState) (copy : Copy) : TaskState :=
  { state with disk := copy.task, saves := state.saves + 1 }

def saveCompletion (state : TaskState) (copy : Copy) (hopId : String) : TaskState :=
  { state.save copy with
    unrecorded := state.unrecorded.filter (· ≠ hopId)
    completions := state.completions + 1 }

def beginDispatch (state : TaskState) : TaskState := { state with underWay := state.underWay + 1 }

def endDispatch (state : TaskState) : TaskState := { state with underWay := state.underWay - 1 }

def spawn (state : TaskState) (hopId : String) : TaskState :=
  { state with unrecorded := state.unrecorded ++ [hopId] }

/-- The session of a hop that is escalated no longer counts. -/
def forceComplete (state : TaskState) (hopId : String) : TaskState :=
  { state with unrecorded := state.unrecorded.filter (· ≠ hopId) }

def saveDispatch (state : TaskState) (copy : Copy) : TaskState :=
  { (state.save copy).endDispatch with
    overwritten := state.overwritten || decide (copy.completions < state.completions) }

def lock (state : TaskState) : TaskState := { state with locked := true }

def release (state : TaskState) (holdsLock : Bool) : TaskState :=
  { state with locked := state.locked && !holdsLock }

end TaskState

def Copy.saved (copy : Copy) (state : TaskState) : Copy :=
  { copy with saves := state.saves, completions := state.completions }

def Copy.dispatch (copy : Copy) (hop : Hop) (sessionId timestamp : String) : Copy :=
  { copy with
    task := match copy.task.workflow with
      | some workflow =>
          copy.task.withWorkflowState (markDispatched hop workflow.state sessionId timestamp)
      | none => copy.task }

def firstReady (state : WorkflowState) : Option String :=
  (state.hops.objectEntries.find? fun entry => entry.2.status = .ready).map Prod.fst

/-- The hop that a poll dispatches: the first ready one of the scan, if no hop was dispatched in the
scan and none is in the fresh read. -/
def pollHop (scanned fresh : Task) : Option Hop := do
  let scannedWorkflow ← scanned.workflow
  let freshWorkflow ← fresh.workflow
  if hasDispatched scannedWorkflow.state ∨ hasDispatched freshWorkflow.state then none
  else (firstReady scannedWorkflow.state).bind freshWorkflow.definition.findHop

/-- The role that a timed-out hop is escalated to; a hop is escalated once. -/
def escalation (task : Task) (hopId : String) : Option (TaskWorkflow × HopState × String) := do
  let workflow ← task.workflow
  let hopState ← workflow.state.hops.get? hopId
  let escalateToRole ← (workflow.definition.findHop hopId).bind Hop.escalateTo
  if hopState.status ≠ .dispatched ∨ hopState.escalated = some true then none
  else some (workflow, hopState, escalateToRole)

def Copy.escalate (copy : Copy) (hopId : String) (spawn : SpawnResult) (timestamp : String) :
    Copy :=
  match escalation copy.task hopId with
  | some (workflow, hopState, role) =>
      { copy with
        task := copy.task.withWorkflowState
          { workflow.state with
            hops := workflow.state.hops.set hopId
              (escalatedHop hopState role (some spawn) timestamp) } }
  | none => copy

/-- The hop that a run result completes in a task object, with the evaluated workflow and the answer
of `handleDAGHopCompletion`; absent if there is no such hop or the evaluation throws. -/
def evaluation (task : Task) (runResult : RunResult) (timestamp : String) :
    Option (String × WorkflowState × DAGHopCompletionResult) := do
  let workflow ← task.workflow
  let hopId ← findDispatchedHop workflow
  let hopDef := workflow.definition.findHop hopId
  let event := mapRunResultToHopEvent runResult hopId hopDef
  let result ← evaluateDAG workflow.definition workflow.state event (buildEvalContext task)
    timestamp
  some (hopId, result.state,
    { readyHops := result.readyHops
      dagComplete := result.taskStatus.isSome
      reviewRequired := event.outcome = .complete ∧ hopDef.any fun hop => !hop.autoAdvance })

def completionStatus (result : DAGHopCompletionResult) (outcome : CompletionOutcome) :
    Option TaskStatus :=
  if result.dagComplete then some (if outcome = .done then .review else .blocked)
  else if result.reviewRequired then some .review
  else none

def nextHop (task : Task) (result : DAGHopCompletionResult) : Option Hop := do
  let workflow ← task.workflow
  result.readyHops.head?.bind workflow.definition.findHop

def advance (answer : Answer) (state : TaskState) : Process → Option (TaskState × Process)
  | .poll =>
      some (state, if state.disk.status = .inProgress then .scanned state.disk else .finished)
  | .scanned task =>
      match pollHop task state.disk with
      | some hop => some (state.beginDispatch, .dispatching state.read hop false)
      | none => some (state, .finished)
  | .dispatching copy hop holdsLock =>
      match answer.spawn with
      | .success sessionId =>
          some (state.spawn hop.id,
            .dispatched (copy.dispatch hop sessionId answer.timestamp) holdsLock)
      | .failure _ => some (state.endDispatch.release holdsLock, .finished)
  | .dispatched copy holdsLock => some ((state.saveDispatch copy).release holdsLock, .finished)
  | .checkTimeouts =>
      some (state, if state.disk.status = .inProgress then .timedOut state.read else .finished)
  | .timedOut copy =>
      match answer.timedOut with
      | some hopId =>
          if (escalation copy.task hopId).isSome then
            some (state.beginDispatch.forceComplete hopId, .escalating copy hopId)
          else some (state, .timedOut copy)
      | none => some (state, .finished)
  | .escalating copy hopId =>
      some
        (match answer.spawn with
          | .success _ => state.spawn hopId
          | .failure _ => state,
        .escalated (copy.escalate hopId answer.spawn answer.timestamp))
  | .escalated copy =>
      let state := state.saveDispatch copy
      some (state, .timedOut (copy.saved state))
  | .sessionEnd =>
      some (state, if state.disk.status = .inProgress then .ended state.read else .finished)
  | .ended copy =>
      match state.runResult with
      | some runResult => some (state, .answered copy runResult)
      | none => some (state, .finished)
  | .answered copy runResult =>
      if state.locked then none
      else
        match evaluation copy.task runResult answer.timestamp with
        | some (hopId, workflowState, result) =>
            some (state.lock,
              .completing { copy with task := copy.task.withWorkflowState workflowState } hopId
                result runResult.outcome)
        | none => some (state, .finished)
  | .completing copy hopId result outcome =>
      let state := state.saveCompletion copy hopId
      some (state, .completed (copy.saved state) result outcome)
  | .completed copy result outcome =>
      match completionStatus result outcome, nextHop copy.task result with
      | some newStatus, _ => some (state, .moving newStatus true)
      | none, some hop => some (state.beginDispatch, .dispatching copy hop true)
      | none, none => some (state.release true, .finished)
  | .runComplete hopId =>
      if hopStatus state.disk hopId = some .dispatched then
        some (state, .counting { state.read with task := state.disk.withDispatchFailure } hopId)
      else some (state, .finished)
  | .counting copy hopId => some (state.save copy, .counted hopId)
  | .counted hopId =>
      if shouldTransitionToDeadletter state.disk then some (state, .moving .deadletter false)
      else
        match state.disk.workflow with
        | some workflow =>
            some (state, .enforcing
              { state.read with
                task := state.disk.withWorkflowState
                  (enforceFailure workflow.state hopId answer.timestamp) } hopId)
        | none => some (state, .finished)
  | .enforcing copy hopId => some (state.saveCompletion copy hopId, .finished)
  | .moving newStatus holdsLock =>
      if state.disk.status ≠ newStatus ∧ isValidTransition state.disk.status newStatus then
        some (state,
          .rewriting { state.read with task := Store.transitioned state.disk newStatus } holdsLock)
      else some (state.release holdsLock, .finished)
  | .rewrite status lease metadata =>
      some (state, .rewriting { state.read with task := { state.disk with status, lease, metadata } }
        false)
  | .rewriting copy holdsLock => some ((state.save copy).release holdsLock, .finished)
  | .report runResult => some ({ state with runResult := some runResult }, .finished)
  | .finished => none

def Process.New : Process → Prop
  | .poll | .checkTimeouts | .sessionEnd | .runComplete _ | .rewrite .. | .report _ => True
  | _ => False

/-- The task before any of the calls: at most one hop is in flight, and no other hop has a session
whose outcome is not recorded. -/
structure Quiet (state : TaskState) : Prop where
  one : OneHopInFlight state.disk
  once : state.unrecorded.Nodup
  inFlight : ∀ hopId ∈ state.unrecorded, hopStatus state.disk hopId = some .dispatched
  unlocked : state.locked = false
  idle : state.underWay = 0
  kept : state.overwritten = false

def Begins (pool : Pool TaskState Process) : Prop :=
  Quiet pool.shared ∧ ∀ process ∈ pool.processes, process.New

/-- At most one hop is in flight, no hop is spawned again before its outcome is recorded, and no
dispatch has saved over a hop completion. -/
structure OneSession (state : TaskState) : Prop where
  one : OneHopInFlight state.disk
  once : state.unrecorded.Nodup
  kept : state.overwritten = false

/-- A dispatch or an escalation begins only while no other one is between its read and its save, and
a spawn is answered and a task object is saved only if nothing was saved since it was read. -/
def Allowed (answer : Answer) (state : TaskState) : Process → Prop
  | .scanned task => (pollHop task state.disk).isSome → state.underWay = 0
  | .completed copy result outcome =>
      completionStatus result outcome = none → (nextHop copy.task result).isSome →
        state.underWay = 0
  | .timedOut copy =>
      ∀ hopId, answer.timedOut = some hopId → (escalation copy.task hopId).isSome →
        state.underWay = 0
  | .dispatching copy _ _ | .dispatched copy _ | .escalating copy _ | .escalated copy
  | .completing copy _ _ _ | .counting copy _ | .enforcing copy _ | .rewriting copy _ =>
      copy.saves = state.saves
  | _ => True

def Uncontended (pool : Pool TaskState Process) (turn : Turn Answer) : Prop :=
  ∀ process, pool.processes[turn.index]? = some process →
    Allowed turn.event pool.shared process

end HopSessions

end Aof
