import Aof.Events.TransitionLog

/-!
# The messages of the protocol

`ProtocolRouter.route` and its handlers, on the stores of several projects.  A project has the task
store, what a task file holds besides, and the files next to it that the handlers write.  The log
and the notifications are left out.
-/

namespace Aof

structure HandoffRequest where
  taskId : String
  parentTaskId : String
  fromAgent : String
  toAgent : String
  acceptanceCriteria : List String := []
  expectedOutputs : List String := []
  contextRefs : List String := []
  constraints : List String := []
  dueBy : String
  deriving DecidableEq, Repr

structure HandoffAck where
  taskId : String
  accepted : Bool
  reason : Option String := none
  deriving DecidableEq, Repr

structure StatusUpdate where
  taskId : String
  agentId : String
  status : Option TaskStatus := none
  progress : Option String := none
  blockers : Option (List String) := none
  notes : Option String := none
  deriving DecidableEq, Repr

structure CompletionPayload where
  outcome : CompletionOutcome
  notes : String
  deriving DecidableEq, Repr

/-- The type of a message with its payload. -/
inductive ProtocolMessage where
  | completionReport (payload : CompletionPayload)
  | statusUpdate (payload : StatusUpdate)
  | handoffRequest (payload : HandoffRequest)
  | handoffAccepted (payload : HandoffAck)
  | handoffRejected (payload : HandoffAck)
  deriving DecidableEq, Repr

structure ProtocolEnvelope where
  projectId : String
  taskId : String
  fromAgent : String
  toAgent : String
  message : ProtocolMessage
  deriving DecidableEq, Repr

inductive RunStatus where
  | running
  | completed
  | failed
  | abandoned
  deriving DecidableEq, Repr

/-- The task store, the bodies and the delegation depths of the task files, the run artifacts, and
the handoffs that were filed.  The accepted handoffs, each with its parent, are a record that the
program does not keep. -/
structure ProtocolProject where
  store : Store
  bodies : String → String := fun _ => ""
  delegationDepth : String → Option Int := fun _ => none
  runs : String → Option RunStatus := fun _ => none
  handoffs : String → Option HandoffRequest := fun _ => none
  delegations : List (String × String) := []

namespace ProtocolProject

def onStore {α : Type} (command : Command Store α) : Command ProtocolProject α := fun project =>
  let (result, store) := command.run project.store
  (result, { project with store })

def getTask (id : String) : Command ProtocolProject (Option Task) := onStore (Store.get id)

def completeRunArtifact (taskId : String) : Command ProtocolProject Unit :=
  Command.modify fun project =>
    if (project.store.tasks.get? taskId).isSome ∧ (project.runs taskId).isSome then
      { project with runs := Function.update project.runs taskId (some .completed) }
    else project

def handleCompletionReport (envelope : ProtocolEnvelope) (payload : CompletionPayload) :
    Command ProtocolProject Unit := do
  match ← getTask envelope.taskId with
  | none => pure ()
  | some task =>
      if checkAuthorization envelope.fromAgent task then do
        onStore (Store.writeRunResult envelope.taskId
          ⟨envelope.taskId, envelope.fromAgent, payload.outcome, payload.notes⟩)
        onStore (applyCompletionOutcome task payload.outcome)
        completeRunArtifact envelope.taskId
        if payload.outcome = .done then
          Command.attempt (onStore (cascadeOnCompletion envelope.taskId))
        else pure ()
      else pure ()

end ProtocolProject

/-- `payload.blockers && payload.blockers.length > 0` -/
def StatusUpdate.namedBlockers (payload : StatusUpdate) : Option (List String) :=
  payload.blockers.filter fun blockers => blockers ≠ []

def shouldAppendWorkLog (payload : StatusUpdate) : Bool :=
  (truthy payload.progress).isSome || (truthy payload.notes).isSome ||
    payload.namedBlockers.isSome

def buildWorkLogEntry (payload : StatusUpdate) (now : String) : Option String :=
  let details :=
    ((truthy payload.progress).map ("Progress: " ++ ·)).toList ++
      ((truthy payload.notes).map ("Notes: " ++ ·)).toList ++
      (payload.namedBlockers.map fun blockers =>
        "Blockers: " ++ String.intercalate ", " blockers).toList
  if details.isEmpty then none
  else some ("- " ++ now ++ " " ++ String.intercalate " | " details)

def appendSection (body title : String) (lines : List String) : String :=
  if lines.isEmpty then body
  else
    let sectionText := String.intercalate "\n" (("## " ++ title) :: lines)
    if jsTrim body = "" then sectionText else jsTrim body ++ "\n\n" ++ sectionText

namespace ProtocolProject

/-- The body that is written back loses the blanks around it. -/
def appendWorkLog (taskId : String) (payload : StatusUpdate) (now : String) :
    Command ProtocolProject Unit :=
  match buildWorkLogEntry payload now with
  | none => pure ()
  | some entry => Command.modify fun project =>
      { project with
        bodies := Function.update project.bodies taskId
          (jsTrim (appendSection (project.bodies taskId) "Work Log" [entry])) }

def transitionTask (task : Task) (status : TaskStatus) : Command ProtocolProject Task :=
  if task.status = status then pure task
  else if isValidTransition task.status status then onStore (Store.transition task.id status)
  else pure task

def applyStatus (task : Task) : Option TaskStatus → Command ProtocolProject Task
  | none => pure task
  | some targetStatus => transitionTask task targetStatus

def handleStatusUpdate (cascadeBlocks : Bool) (now : String) (envelope : ProtocolEnvelope)
    (payload : StatusUpdate) : Command ProtocolProject Unit := do
  match ← getTask envelope.taskId with
  | none => pure ()
  | some task => do
      let updatedTask ← applyStatus task payload.status
      if updatedTask.status ≠ task.status then
        if updatedTask.status = .blocked ∧ cascadeBlocks then onStore (cascadeOnBlock task.id)
        else pure ()
      else if shouldAppendWorkLog payload then
        appendWorkLog envelope.taskId payload now
      else pure ()

/-- A parent without a depth counts as not delegated. -/
def parentDepth (project : ProtocolProject) (parentTaskId : String) : Int :=
  (project.delegationDepth parentTaskId).getD 0

def delegate (project : ProtocolProject) (childTask : Task) (payload : HandoffRequest) :
    ProtocolProject :=
  { project with
    store := project.store.put
      { childTask with routing := { childTask.routing with agent := some payload.toAgent } }
    delegationDepth := Function.update project.delegationDepth childTask.id
      (some (project.parentDepth payload.parentTaskId + 1))
    handoffs := Function.update project.handoffs childTask.id (some payload)
    delegations := project.delegations ++ [(childTask.id, payload.parentTaskId)] }

def handleHandoffRequest (envelope : ProtocolEnvelope) (payload : HandoffRequest) :
    Command ProtocolProject Unit := do
  if payload.taskId ≠ envelope.taskId then pure ()
  else
    match ← getTask envelope.taskId with
    | none => pure ()
    | some childTask =>
        if checkAuthorization envelope.fromAgent childTask then do
          match ← getTask payload.parentTaskId with
          | none => pure ()
          | some _ => Command.modify fun project =>
              if 1 < project.parentDepth payload.parentTaskId + 1 then project
              else project.delegate childTask payload
        else pure ()

/-- An acceptance is only logged. -/
def handleHandoffAck (envelope : ProtocolEnvelope) (rejects : Bool) :
    Command ProtocolProject Unit :=
  if rejects then onStore (Aof.rejectHandoff envelope.taskId envelope.fromAgent) else pure ()

def handle (cascadeBlocks : Bool) (now : String) (envelope : ProtocolEnvelope) :
    Command ProtocolProject Unit :=
  match envelope.message with
  | .completionReport payload => handleCompletionReport envelope payload
  | .statusUpdate payload => handleStatusUpdate cascadeBlocks now envelope payload
  | .handoffRequest payload => handleHandoffRequest envelope payload
  | .handoffAccepted _ => handleHandoffAck envelope false
  | .handoffRejected _ => handleHandoffAck envelope true

end ProtocolProject

/-- The stores of the router by their roots, and the store that a project id stands for. -/
structure ProtocolRouter where
  projects : String → ProtocolProject
  resolveProjectStore : String → Option String
  cascadeBlocks : Bool := false

/-- A message for an unknown project or task is only logged. -/
def ProtocolRouter.route (router : ProtocolRouter) (now : String) (envelope : ProtocolEnvelope) :
    ProtocolRouter :=
  match router.resolveProjectStore envelope.projectId with
  | none => router
  | some root =>
      if ((router.projects root).store.tasks.get? envelope.taskId).isNone then router
      else
        { router with
          projects := Function.update router.projects root
            ((ProtocolProject.handle router.cascadeBlocks now envelope).after
              (router.projects root)) }

end Aof
