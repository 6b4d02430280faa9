import Aof.Dispatch.DagEvaluator
import Aof.Store.TaskStore
import Mathlib.Logic.Function.Basic

/-!
# DAG transition handler

How the outcome of a run reaches the evaluator, how a hop is dispatched, and what happens when its
agent leaves without a report, from `dispatch/dag-transition-handler.ts`.
-/

/-!
## The rules of a workflow

What an outcome does to the statuses of the hops, stated without the data structures of the
evaluator: some hops fall with a failed one, some are declined by their conditions, and the joins
that are satisfied open.
-/

namespace Aof

/-- A pending hop falls with `source` when every predecessor has failed, was skipped or falls too,
and the source reaches it through one of them. -/
inductive Falls (definition : WorkflowDefinition) (statuses : Statuses) (source : String) :
    String → Prop
  | intro {hop : Hop} {dep : String} :
      hop ∈ definition.hops → statuses hop.id = some .pending →
      dep ∈ hop.dependsOn → (dep ≠ source → Falls definition statuses source dep) →
      (∀ other ∈ hop.dependsOn, ¬IsNonSuccess (statuses other) →
        Falls definition statuses source other) →
      Falls definition statuses source hop.id

def recordStatus (statuses : Statuses) (hopId : String) (status : HopStatus) : Statuses :=
  Function.update statuses hopId (some status)

open Classical in
noncomputable def fall (definition : WorkflowDefinition) (statuses : Statuses)
    (source : String) : Statuses := fun id =>
  if Falls definition statuses source id then some .skipped else statuses id

noncomputable def afterEvent (definition : WorkflowDefinition) (statuses : Statuses)
    (hopId : String) (status : HopStatus) : Statuses :=
  if status = .complete then recordStatus statuses hopId status
  else fall definition (recordStatus statuses hopId status) hopId

section Conditions

abbrev ConditionReader := ConditionExpr → Statuses → Bool

variable (holds : ConditionReader)

def Declines (hop : Hop) (statuses : Statuses) : Prop :=
  statuses hop.id = some .pending ∧ AllTerminal hop statuses ∧
    ∃ condition, hop.condition = some condition ∧ holds condition statuses = false

def decline (statuses : Statuses) (hop : Hop) : Statuses :=
  recordStatus statuses hop.id .skipped

open Classical in
/-- The conditions are read hop by hop, in the order of the list. -/
noncomputable def declinePass (hops : List Hop) (statuses : Statuses) : Statuses :=
  hops.foldl
    (fun statuses hop => if Declines holds hop statuses then decline statuses hop else statuses)
    statuses

noncomputable def settle (definition : WorkflowDefinition) (statuses : Statuses)
    (hopId : String) (status : HopStatus) : Statuses :=
  declinePass holds definition.hops (afterEvent definition statuses hopId status)

end Conditions

def Opens (hop : Hop) (statuses : Statuses) : Prop :=
  statuses hop.id = some .pending ∧ hop.isRoot = false ∧ JoinSatisfied hop statuses

open Classical in
noncomputable def openJoins (definition : WorkflowDefinition) (statuses : Statuses) :
    Statuses := fun id =>
  if ∃ hop ∈ definition.hops, hop.id = id ∧ Opens hop statuses then some .ready else statuses id

noncomputable def advance (holds : ConditionReader) (definition : WorkflowDefinition)
    (statuses : Statuses) (hopId : String) (status : HopStatus) : Statuses :=
  openJoins definition (settle holds definition statuses hopId status)

def freshStatus (hop : Hop) : HopStatus := if hop.isRoot then .ready else .pending

def restart (definition : WorkflowDefinition) (statuses : Statuses) : Statuses := fun id =>
  match definition.findHop id with
  | some hop => some (freshStatus hop)
  | none => statuses id

def restartPredecessors (definition : WorkflowDefinition) (rejectedHop : Hop)
    (statuses : Statuses) : Statuses := fun id =>
  if id ∈ resetSet rejectedHop then
    (definition.findHop id).map (resetStatus (resetSet rejectedHop) statuses)
  else statuses id

end Aof

/-!
## Runs of a workflow

The workflow state as a state machine: a ready hop is marked as dispatched, and the outcome of a
dispatched hop is evaluated.
-/

namespace Aof

inductive WorkflowStep where
  | dispatch (hopId sessionId timestamp : String)
  | evaluate (event : HopEvent) (task : TaskMeta) (timestamp : String)

/-- What `dispatchDAGHop` writes once the session is spawned. -/
def markDispatched (hop : Hop) (state : WorkflowState) (sessionId timestamp : String) :
    WorkflowState :=
  { state with
    hops := state.hops.set hop.id
      { (state.hops.get? hop.id).getD { status := .dispatched } with
        status := .dispatched
        startedAt := some timestamp
        agent := some hop.role
        correlationId := some sessionId } }

def outcomeAllowed (hop : Hop) : HopOutcome → Bool
  | .complete | .failed => true
  | .rejected => hop.canReject
  | .skipped => false

def workflowStep (definition : WorkflowDefinition) (state : WorkflowState) :
    WorkflowStep → Option WorkflowState
  | .dispatch hopId sessionId timestamp => do
      let hop ← definition.findHop hopId
      if statusOf state.hops hopId = some .ready then
        some (markDispatched hop state sessionId timestamp)
      else none
  | .evaluate event task timestamp => do
      let hop ← definition.findHop event.hopId
      if statusOf state.hops event.hopId = some .dispatched ∧ outcomeAllowed hop event.outcome then
        (evaluateDAG definition state event task timestamp).map DAGEvaluationResult.state
      else none

def Reachable (definition : WorkflowDefinition) (state : WorkflowState) : Prop :=
  ∃ steps, StepSystem.FreeRun (workflowStep definition) (initializeWorkflowState definition)
    steps state

end Aof

/-!
## Failure tracker

Counting failed dispatches and giving up on a task, from `dispatch/failure-tracker.ts`.
-/

namespace Aof

def MAX_DISPATCH_FAILURES : Nat := 3

def Task.withDispatchFailure (task : Task) : Task :=
  { task with
    metadata := { task.metadata with
      dispatchFailures := some (task.metadata.dispatchFailures.getD 0 + 1) } }

def trackDispatchFailure (taskId : String) : Command Store Unit := do
  match ← Store.get taskId with
  | none => .throw
  | some task => Store.save task.withDispatchFailure

/-- Two error classes give up at once; otherwise the failures are counted. -/
def shouldTransitionToDeadletter (task : Task) : Bool :=
  task.metadata.errorClass = some "permanent" ∨
    task.metadata.errorClass = some "model_silent_failure" ∨
    MAX_DISPATCH_FAILURES ≤ task.metadata.dispatchFailures.getD 0

def transitionToDeadletter (taskId : String) : Command Store Unit := do
  match ← Store.get taskId with
  | none => .throw
  | some _ => do
      let _ ← Store.transition taskId .deadletter

end Aof

namespace Aof

structure DAGHopCompletionResult where
  readyHops : List String
  dagComplete : Bool
  reviewRequired : Bool
  deriving DecidableEq, Repr

inductive SpawnResult where
  | success (sessionId : String)
  | failure (error : String)
  deriving DecidableEq, Repr

def findDispatchedHop (workflow : TaskWorkflow) : Option String :=
  (workflow.state.hops.objectEntries.find? fun entry => entry.2.status = .dispatched).map Prod.fst

def mapRunResultToHopEvent (runResult : RunResult) (hopId : String) (hopDef : Option Hop) :
    HopEvent :=
  { hopId
    outcome :=
      match runResult.outcome with
      | .done => .complete
      | .needsReview => if hopDef.any Hop.canReject then .rejected else .complete
      | .blocked | .partiallyDone => .failed
    result := if runResult.notes = "" then none else some [("notes", .str runResult.notes)] }

def buildEvalContext (task : Task) : TaskMeta :=
  { status := task.status.toString
    tags := task.routing.tags
    priority := task.priority.toString
    routing := task.routing.toObject }

def Task.withWorkflowState (task : Task) (state : WorkflowState) : Task :=
  { task with workflow := task.workflow.map fun workflow => { workflow with state } }

/-- The task object is changed in place; the changed one is returned. -/
def persistWorkflowState (task : Task) (newState : WorkflowState) : Command Store Task := do
  Store.save (task.withWorkflowState newState)
  pure (task.withWorkflowState newState)

def handleDAGHopCompletion (task : Task) (runResult : RunResult) (timestamp : String) :
    Command Store (DAGHopCompletionResult × Task) :=
  match task.workflow.bind fun workflow =>
    (findDispatchedHop workflow).map fun hopId => (workflow, hopId) with
  | none => pure (⟨[], false, false⟩, task)
  | some (workflow, hopId) =>
      let hopDef := workflow.definition.findHop hopId
      let event := mapRunResultToHopEvent runResult hopId hopDef
      match evaluateDAG workflow.definition workflow.state event (buildEvalContext task)
        timestamp with
      | none => .throw
      | some result => do
          let task ← persistWorkflowState task result.state
          pure (
            { readyHops := result.readyHops
              dagComplete := result.taskStatus.isSome
              reviewRequired := event.outcome = .complete ∧ hopDef.any fun hop => !hop.autoAdvance },
            task)

/-- The session is spawned from the caller's task object, and that object is saved. -/
def dispatchDAGHop (task : Task) (hopId : String) (spawn : SpawnResult) (timestamp : String) :
    Command Store Bool :=
  match task.workflow with
  | none => .throw
  | some workflow =>
      match workflow.definition.findHop hopId, spawn with
      | some hop, .success sessionId => do
          let _ ← persistWorkflowState task (markDispatched hop workflow.state sessionId timestamp)
          pure true
      | _, _ => pure false

def enforceFailure (state : WorkflowState) (hopId timestamp : String) : WorkflowState :=
  { state with
    hops := state.hops.set hopId
      { (state.hops.get? hopId).getD { status := .failed } with
        status := .failed
        completedAt := some timestamp } }

/-- The `onRunComplete` callback of `dispatchDAGHop`: a hop whose agent left without a report. -/
def onRunComplete (taskId hopId timestamp : String) : Command Store Unit := do
  match ← Store.get taskId with
  | none => pure ()
  | some freshTask =>
      if (freshTask.workflow.bind fun workflow => statusOf workflow.state.hops hopId) =
          some .dispatched then
        Command.attempt do
          trackDispatchFailure taskId
          match ← Store.get taskId with
          | none => pure ()
          | some updatedTask =>
              if shouldTransitionToDeadletter updatedTask then transitionToDeadletter taskId
              else
                match updatedTask.workflow with
                | none => pure ()
                | some workflow => do
                    let _ ← persistWorkflowState updatedTask
                      (enforceFailure workflow.state hopId timestamp)
      else pure ()

end Aof
