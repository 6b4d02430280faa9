import Aof.Tools.TaskFileTools
import Aof.Dispatch.PlanExecution

/-!
# The service

The polls and completions of one store in sequence, and the polls of all the stores that the service
polls in a cycle, from `service/aof-service.ts`.
-/

namespace Aof

/-- A poll, or a completion: the agent's tool call or report, the end of a session, and the callback
of a run that ended.  An agent leaves its run result in between. -/
inductive StoreEvent where
  | poll (input : PollInput)
  | complete (taskId : String)
  | report (report : CompletionReport)
  | sessionEnd (executor : String → Option SpawnResult) (clock : String → String)
  | runComplete (taskId : String) (errorClass : Option String)
  | hopComplete (taskId hopId timestamp : String)
  | sessionWrites (taskId : String) (result : RunResult)

def StoreEvent.command : StoreEvent → Command Store Unit
  | .poll input => Aof.poll input
  | .complete taskId => aofTaskComplete taskId
  | .report message => handleCompletionReport message
  | .sessionEnd executor clock => handleSessionEnd executor clock
  | .runComplete taskId errorClass => handleRunComplete taskId errorClass
  | .hopComplete taskId hopId timestamp => onRunComplete taskId hopId timestamp
  | .sessionWrites taskId result => Store.writeRunResult taskId result

def storeStep (store : Store) (event : StoreEvent) : Option Store :=
  some (event.command.after store)

/-- The poll of one store, apart from the configuration. -/
structure ProjectPoll where
  index : Nat
  input : PollInput

def PollInput.withConfig (input : PollInput) (config : DispatchConfig) : PollInput :=
  { input with config }

def pollProject (config : DispatchConfig) (stores : List Store) (turn : ProjectPoll) :
    Option (List Store) := do
  let store ← stores[turn.index]?
  some (stores.set turn.index ((poll (turn.input.withConfig config)).after store))

/-- A cycle polls the root store and then each project store; an error of one of them does not stop
the others. -/
def pollAllProjects (config : DispatchConfig) (inputs : List PollInput) (stores : List Store) :
    List Store :=
  List.zipWith (fun input store => (poll (input.withConfig config)).after store) inputs stores

def cycle (inputs : List PollInput) (start : Nat) : List ProjectPoll :=
  (inputs.zipIdx start).map fun entry => ⟨entry.2, entry.1⟩

theorem exec_cycle (config : DispatchConfig) (inputs : List PollInput) (polled stores : List Store)
    (hlength : inputs.length = stores.length) :
    StepSystem.exec (pollProject config) (polled ++ stores) (cycle inputs polled.length) =
      some (polled ++ pollAllProjects config inputs stores) := by
  induction inputs generalizing polled stores with
  | nil =>
      obtain rfl : stores = [] := List.length_eq_zero_iff.mp hlength.symm
      rfl
  | cons input inputs ih =>
      cases stores with
      | nil => cases hlength
      | cons store stores =>
          have hstep : pollProject config (polled ++ store :: stores) ⟨polled.length, input⟩ =
              some (polled ++ (poll (input.withConfig config)).after store :: stores) := by
            simp [pollProject]
          have hrest := ih (polled ++ [(poll (input.withConfig config)).after store]) stores
            (Nat.succ.inj hlength)
          rw [List.length_append, List.length_singleton, List.append_assoc,
            List.append_assoc] at hrest
          rw [cycle, List.zipIdx_cons, List.map_cons, StepSystem.exec_cons, hstep, Option.bind_some]
          exact hrest

end Aof

/-!
## The scheduler among other operations

A poll of a store cut into its parts: the plan, and its actions one after the other.  The other
operations on tasks may come between them: those of agents and operators, the callbacks of sessions,
and the parts of a poll that belong to no plan.
-/

namespace Aof

namespace Store

def unblock (id : String) : Command Store Unit := do
  match ← get id with
  | none => .throw
  | some task =>
      if task.status ≠ .blocked then .throw
      else do
        save { task with metadata := { task.metadata with blockReason := none, retryCount := none } }
        let _ ← transition id .ready

def cancel (id : String) : Command Store Unit := do
  match ← get id with
  | none => .throw
  | some task =>
      if task.status = .done ∨ task.status = .cancelled then .throw
      else save { task with status := .cancelled, lease := none }

end Store

def blockDependents (blockedTaskId : String) (allTasks : List Task) : List Task :=
  allTasks.filter fun task =>
    blockedTaskId ∈ task.dependsOn ∧ (task.status = .backlog ∨ task.status = .ready)

def upstreamReason (blockedTaskId : String) : String := "upstream blocked: " ++ blockedTaskId

def cascadeOnBlock (blockedTaskId : String) : Command Store Unit := do
  let allTasks ← Store.list
  (blockDependents blockedTaskId allTasks).forM fun dependent =>
    Store.block dependent.id (upstreamReason blockedTaskId)

/-- A `status.update` message with a status; the block of the dependents is opt-in. -/
def handleStatusUpdate (taskId : String) (targetStatus : TaskStatus) (cascadeBlocks : Bool) :
    Command Store Unit := do
  match ← Store.get taskId with
  | none => pure ()
  | some task =>
      if task.status = targetStatus then pure ()
      else if isValidTransition task.status targetStatus then do
        let _ ← Store.transition taskId targetStatus
        if targetStatus = .blocked ∧ cascadeBlocks then cascadeOnBlock taskId else pure ()
      else pure ()

/-- One turn of the loop of `handleSessionEnd`, for a task that is still in progress. -/
def visitCurrent (taskId : String) (executor : Option SpawnResult) (timestamp : String) :
    Command Store Unit := do
  match ← Store.get taskId with
  | none => pure ()
  | some task =>
      if task.status = .inProgress then visitSession task executor timestamp else pure ()

def checkTaskTimeouts (input : PollInput) (taskId : String) : Command Store Unit := do
  match ← Store.get taskId with
  | none => pure ()
  | some task =>
      if task.status = .inProgress then do
        let _ ← ((task.workflow.map fun workflow => workflow.definition.hops).getD []).foldlM
          (checkHopTimeout input) task
      else pure ()

inductive SchedulerOperation where
  | complete (taskId : String)
  | report (report : CompletionReport)
  | statusUpdate (taskId : String) (targetStatus : TaskStatus) (cascadeBlocks : Bool)
  | writeResult (taskId : String) (result : RunResult)
  | block (taskId reason : String)
  | unblock (taskId : String)
  | cancel (taskId : String)
  | cascade (completedTaskId : String)
  | visit (taskId : String) (executor : Option SpawnResult) (timestamp : String)
  | runComplete (taskId : String) (errorClass : Option String)
  | hopComplete (taskId hopId timestamp : String)
  | hopTimeouts (input : PollInput) (taskId : String)
  | hopDispatch (taskId hopId : String) (spawn : SpawnResult) (timestamp : String)
  | review (input : PollInput) (currentInProgress : Nat) (review : MurmurReview)

def SchedulerOperation.command : SchedulerOperation → Command Store Unit
  | .complete taskId => aofTaskComplete taskId
  | .report message => handleCompletionReport message
  | .statusUpdate taskId targetStatus cascadeBlocks =>
      handleStatusUpdate taskId targetStatus cascadeBlocks
  | .writeResult taskId result => Store.writeRunResult taskId result
  | .block taskId reason => Store.block taskId reason
  | .unblock taskId => Store.unblock taskId
  | .cancel taskId => Store.cancel taskId
  | .cascade completedTaskId => cascadeOnCompletion completedTaskId
  | .visit taskId executor timestamp => visitCurrent taskId executor timestamp
  | .runComplete taskId errorClass => handleRunComplete taskId errorClass
  | .hopComplete taskId hopId timestamp => onRunComplete taskId hopId timestamp
  | .hopTimeouts input taskId => checkTaskTimeouts input taskId
  | .hopDispatch taskId hopId spawn timestamp => pollDispatch taskId hopId spawn timestamp
  | .review input currentInProgress team => evaluateMurmurTrigger input currentInProgress team

def SchedulerOperation.taskId : SchedulerOperation → String
  | .complete taskId | .statusUpdate taskId .. | .writeResult taskId _ | .block taskId _
  | .unblock taskId | .cancel taskId | .cascade taskId | .visit taskId .. | .runComplete taskId _
  | .hopComplete taskId .. | .hopTimeouts _ taskId | .hopDispatch taskId .. => taskId
  | .report message => message.taskId
  | .review _ _ team => team.reviewTaskId

/-- A store, and the actions that are left of the plan of its current poll. -/
structure SchedulerState where
  store : Store
  planned : List SchedulerAction

inductive SchedulerEvent where
  | plan (input : PollInput)
  | execute (conduct : ExecutorConduct)
  | operate (operation : SchedulerOperation)

/-- A poll begins when the one before it is over. -/
def schedulerStep (state : SchedulerState) : SchedulerEvent → Option SchedulerState
  | .plan input =>
      if state.planned = [] then
        some
          { state with
            planned :=
              if input.config.dryRun then [] else plannedActions input state.store.tasks.values }
      else none
  | .execute conduct =>
      match state.planned with
      | [] => none
      | action :: rest =>
          some { store := (action.handler conduct).after state.store, planned := rest }
  | .operate operation => some { state with store := operation.command.after state.store }

end Aof
