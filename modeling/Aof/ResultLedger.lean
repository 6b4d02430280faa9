import Aof.Program

/-!
# The ledger of run results

A run of the program with a record of which session wrote each `run_result.json`, and which file
was consumed for which session.  The program itself keeps no such record and does not read this
one.
-/

namespace Aof

/-- The session a task was last given to: that of its hop in flight, or that of the task itself if
it has no workflow. -/
def sessionOf (task : Task) : Option String :=
  match task.workflow with
  | some workflow =>
      (findDispatchedHop workflow).bind fun hopId =>
        (workflow.state.hops.get? hopId).bind HopState.correlationId
  | none => task.metadata.sessionId

structure ResultFile where
  serial : Nat
  writer : String
  result : RunResult
  deriving DecidableEq, Repr

/-- A hop completion or a transition that came of a result file, if one was on record, and the
session it was taken for. -/
structure Consumption where
  file : Option ResultFile
  target : Option String
  deriving DecidableEq, Repr

/-- `answered` tells whether a result was written since the task was last started. -/
structure Ledger where
  written : Nat
  files : String → Option ResultFile
  answered : String → Bool
  consumed : List Consumption

namespace Ledger

def empty : Ledger := ⟨0, fun _ => none, fun _ => false, []⟩

def write (ledger : Ledger) (result : RunResult) (session : String) : Ledger :=
  { ledger with
    written := ledger.written + 1
    files := fun id =>
      if id = result.taskId then some ⟨ledger.written, session, result⟩ else ledger.files id
    answered := fun id => if id = result.taskId then true else ledger.answered id }

def consume (ledger : Ledger) (task : Task) : Ledger :=
  { ledger with consumed := ledger.consumed ++ [⟨ledger.files task.id, sessionOf task⟩] }

def restart (ledger : Ledger) (restarted : String → Bool) : Ledger :=
  { ledger with answered := fun id => ledger.answered id && !restarted id }

end Ledger

def CompletionReport.toResult (report : CompletionReport) : RunResult :=
  ⟨report.taskId, report.fromAgent, report.outcome, report.notes⟩

def writesResult (store : Store) : Operation → Option RunResult
  | .report report => do
      let task ← store.tasks.get? report.taskId
      if checkAuthorization report.fromAgent task then some report.toResult else none
  | .sessionWrites taskId result => do
      let _ ← store.tasks.get? taskId
      if result.taskId = taskId then some result else none
  | _ => none

/-- A run result completes the hop in flight of a task object. -/
def completesHop (task : Task) (runResult : RunResult) (timestamp : String) : Bool :=
  task.workflow.any fun workflow =>
    (findDispatchedHop workflow).any fun hopId =>
      (evaluateDAG workflow.definition workflow.state
        (mapRunResultToHopEvent runResult hopId (workflow.definition.findHop hopId))
        (buildEvalContext task) timestamp).isSome

def statusChanged (before after : Store) (id : String) : Bool :=
  (before.tasks.get? id).map Task.status ≠ (after.tasks.get? id).map Task.status

/-- The task object for which the operation consumes a result: a session end that completes a hop
or moves the task, a recovery or a report that moves it. -/
def consumesResult (world : World) (after : Store) : Operation → Option Task
  | .visit index _ timestamp => do
      let task ← world.scanned[index]?
      let _ ← world.store.tasks.get? task.id
      let runResult ← world.store.runResults.get? task.id
      if statusChanged world.store after task.id ∨ completesHop task runResult timestamp then
        some task
      else none
  | .schedule (.staleHeartbeat taskId _) => do
      let task ← world.store.tasks.get? taskId
      let _ ← world.store.runResults.get? taskId
      if statusChanged world.store after taskId then some task else none
  | .report report => do
      let task ← world.store.tasks.get? report.taskId
      if statusChanged world.store after report.taskId then some task else none
  | _ => none

def restarted (before after : Store) (id : String) : Bool :=
  (after.tasks.get? id).any fun task =>
    decide (task.status = .inProgress ∧
        (before.tasks.get? id).map Task.status ≠ some .inProgress) ||
      decide ((sessionOf task).isSome ∧ (before.tasks.get? id).bind sessionOf ≠ sessionOf task)

structure AuditedWorld where
  world : World
  ledger : Ledger

/-- An operation, with the session that acts in it if it writes a result. -/
structure AuditedOperation where
  operation : Operation
  session : String := ""

def auditedStep (audited : AuditedWorld) (step : AuditedOperation) : Option AuditedWorld := do
  let next ← programStep audited.world step.operation
  let written := match writesResult audited.world.store step.operation with
    | some result => audited.ledger.write result step.session
    | none => audited.ledger
  let consumed := match consumesResult audited.world next.store step.operation with
    | some task => written.consume task
    | none => written
  some ⟨next, consumed.restart (restarted audited.world.store next.store)⟩

/-- No file is consumed twice, and each is consumed for the session that wrote it. -/
structure ConsumedOnce (consumed : List Consumption) : Prop where
  once : (consumed.map fun entry => entry.file.map ResultFile.serial).Nodup
  attributed : ∀ entry ∈ consumed, ∃ file, entry.file = some file ∧
    entry.target = some file.writer

/-- The stored task is in progress, with the workflow and the session of the task object. -/
def CurrentObject (store : Store) (task : Task) : Prop :=
  ∃ stored, store.tasks.get? task.id = some stored ∧ stored.status = .inProgress ∧
    stored.workflow = task.workflow ∧ stored.metadata.sessionId = task.metadata.sessionId

/-- A task object that a session end acts on: it has no workflow, or a hop in flight. -/
def Awaits (task : Task) : Prop :=
  ∀ workflow, task.workflow = some workflow → (findDispatchedHop workflow).isSome

def OneHopInFlight (task : Task) : Prop :=
  ∀ workflow, task.workflow = some workflow → ∀ id id',
    statusOf workflow.state.hops id = some .dispatched →
    statusOf workflow.state.hops id' = some .dispatched → id = id'

/-- Results are written by the session the task was last given to.  A session end or a recovery
that finds a result finds one that was written since the task was last started; the task object of
the session end is still current, with one hop in flight, and the session it goes on with is a new
one. -/
def Timely (audited : AuditedWorld) (step : AuditedOperation) : Prop :=
  match step.operation with
  | .visit index executor _ =>
      ∀ task, audited.world.scanned[index]? = some task → Awaits task →
        (audited.world.store.runResults.get? task.id).isSome →
        task.status = .inProgress ∧ CurrentObject audited.world.store task ∧
          audited.ledger.answered task.id = true ∧ (sessionOf task).isSome ∧
          OneHopInFlight task ∧
          ∀ session, executor = some (.success session) → sessionOf task ≠ some session
  | .schedule (.staleHeartbeat taskId _) =>
      ∀ task, audited.world.store.tasks.get? taskId = some task → task.status = .inProgress →
        (audited.world.store.runResults.get? taskId).isSome →
        audited.ledger.answered taskId = true ∧ (sessionOf task).isSome
  | operation =>
      ∀ result, writesResult audited.world.store operation = some result →
        ∀ task, audited.world.store.tasks.get? result.taskId = some task →
          sessionOf task = some step.session

end Aof
