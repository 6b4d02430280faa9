import Mathlib.Data.List.Infix
import Aof.Dispatch.TaskDispatcher

/-!
# Permissions

`PermissionAwareTaskStore` from `permissions/task-permissions.ts`: the roles of an org chart, what
each may do with a task, and the operations of the store that change tasks, with the checks that
stand before them.
-/

namespace Aof

open TaskFiles (quietly)

structure OrgAgent where
  id : String
  team : Option String := none
  deriving DecidableEq, Repr

structure OrgUnit where
  id : String
  leadId : Option String := none
  deriving DecidableEq, Repr

structure OrgChart where
  agents : List OrgAgent := []
  teams : List OrgTeam := []
  orgUnits : List OrgUnit := []
  deriving DecidableEq

inductive AgentRole where
  | admin
  | orchestrator
  | worker
  | unknown
  deriving DecidableEq, Repr

structure RoleInfo where
  role : AgentRole
  team : Option String := none
  orchestratorTeams : List String := []
  deriving DecidableEq, Repr

/-- `agentId.toLowerCase().includes("human")` -/
def isHuman (agentId : String) : Bool :=
  "human".toList <:+: agentId.toList.map Char.toLower

def determineRole (agentId : String) (orgChart : OrgChart) : RoleInfo :=
  if agentId = "main" ∨ isHuman agentId then { role := .admin }
  else
    match orgChart.agents.find? fun agent => agent.id = agentId with
    | none => { role := .unknown }
    | some agent =>
        let orchestratorTeams :=
          ((orgChart.teams.filter fun team => team.lead = some agentId).map OrgTeam.id) ++
            (orgChart.orgUnits.filter fun unit => unit.leadId = some agentId).map OrgUnit.id
        if orchestratorTeams ≠ [] then
          { role := .orchestrator, team := agent.team, orchestratorTeams := orchestratorTeams }
        else { role := .worker, team := agent.team }

inductive CheckedOperation where
  | list
  | get
  | create
  | close
  | transition
  | cancel
  | update
  | updateBody
  | delete
  | addDep
  | removeDep
  | block
  | unblock
  deriving DecidableEq, Repr

def CheckedOperation.name : CheckedOperation → String
  | .list => "list"
  | .get => "get"
  | .create => "create"
  | .close => "close"
  | .transition => "transition"
  | .cancel => "cancel"
  | .update => "update"
  | .updateBody => "updateBody"
  | .delete => "delete"
  | .addDep => "addDep"
  | .removeDep => "removeDep"
  | .block => "block"
  | .unblock => "unblock"

structure PermissionCheck where
  allowed : Bool
  reason : Option String := none
  deriving DecidableEq, Repr

def allow : PermissionCheck where
  allowed := true

def deny (reason : String) : PermissionCheck where
  allowed := false
  reason := some reason

/-- `routing.agent || lease?.agent` -/
def taskAssignee (task : Document) : Option String :=
  truthy task.routing.agent <|> task.lease.map Lease.agent

def checkWorker (operation : CheckedOperation) (agentId id : String) (task : Document) :
    PermissionCheck :=
  if operation = .get then allow
  else if operation = .close ∨ operation = .update ∨ operation = .updateBody then
    if taskAssignee task = some agentId then allow
    else
      let assignee := (truthy (taskAssignee task)).getD "no one"
      deny s!"Agent {agentId} cannot {operation.name} task {id}: task is assigned to {assignee}"
  else
    deny (s!"Agent {agentId} cannot {operation.name} task {id}: " ++
      "workers can only close or update their own tasks")

/-- An orchestrator may do anything with the tasks of its teams, and with those that have an
assignee and no team. -/
def checkOrchestrator (operation : CheckedOperation) (agentId id : String) (task : Document)
    (orchestratorTeams : List String) : PermissionCheck :=
  if operation = .get then allow
  else if (truthy task.routing.team).any orchestratorTeams.contains then allow
  else if (truthy task.routing.team).isNone ∧ (truthy (taskAssignee task)).isSome then allow
  else
    let team := (truthy task.routing.team).getD "unassigned"
    deny (s!"Agent {agentId} cannot {operation.name} task {id}: " ++
      s!"not the orchestrator for team {team}")

def checkPermission (operation : CheckedOperation) (agentId id : String) (task : Option Document)
    (roleInfo : RoleInfo) : PermissionCheck :=
  if roleInfo.role = .admin then allow
  else if roleInfo.role = .unknown then
    if operation = .list ∨ operation = .get then allow
    else deny s!"Agent {agentId} is not found in the org chart"
  else if operation = .list then allow
  else if operation = .create then
    if roleInfo.role = .orchestrator then allow
    else deny s!"Agent {agentId} cannot create tasks: only team orchestrators can create tasks"
  else
    match task with
    | none => deny "Task not found"
    | some task =>
        if roleInfo.role = .worker then checkWorker operation agentId id task
        else checkOrchestrator operation agentId id task roleInfo.orchestratorTeams

/-- `delete`: the copy that a get finds is removed. -/
def deleteTask : TaskProgram Unit := do
  match ← get with
  | none => pure ()
  | some task => TaskProgram.rm task.path

structure PermissionAwareTaskStore where
  orgChart : OrgChart
  agentId : String

namespace PermissionAwareTaskStore

def roleInfo (store : PermissionAwareTaskStore) : RoleInfo :=
  determineRole store.agentId store.orgChart

def guarded (store : PermissionAwareTaskStore) (operation : CheckedOperation) (id : String)
    (program : TaskProgram Unit) : TaskProgram Unit := do
  let task ← Aof.get
  if (checkPermission operation store.agentId id (task.map TaskObject.document)
      store.roleInfo).allowed then program
  else .throw

variable (store : PermissionAwareTaskStore) (id : String)

/-- A transition to `done` is a close. -/
def transition (newStatus : TaskStatus) (metadataPatch : Dict String JsValue) (now : Nat) :
    TaskProgram Unit :=
  store.guarded (if newStatus = .done then .close else .transition) id
    (StoreCall.transition newStatus metadataPatch now).program

def cancel (reason : Option String) (now : Nat) : TaskProgram Unit :=
  store.guarded .cancel id (StoreCall.cancel reason now).program

def updateBody (body : String) (now : Nat) : TaskProgram Unit :=
  store.guarded .updateBody id (StoreCall.updateBody body now).program

def update (patch : UpdatePatch) (now : Nat) : TaskProgram Unit :=
  store.guarded .update id (StoreCall.update patch now).program

def delete : TaskProgram Unit := store.guarded .delete id deleteTask

def addDep (blocker : Blocker) (now : Nat) : TaskProgram Unit :=
  store.guarded .addDep id (StoreCall.addDep blocker now).program

def removeDep (blockerId : String) (now : Nat) : TaskProgram Unit :=
  store.guarded .removeDep id (StoreCall.removeDep blockerId now).program

def block (reason : String) (now : Nat) : TaskProgram Unit :=
  store.guarded .block id (StoreCall.block reason now).program

def unblock (now : Nat) : TaskProgram Unit :=
  store.guarded .unblock id (StoreCall.unblock now).program

end PermissionAwareTaskStore

structure TaskPath where
  id : String
  dir : TaskStatus
  deriving DecidableEq, Repr

/-- A task object that is saved at its own path, or where its id and its status put it. -/
structure SavedTask where
  id : String
  document : Document
  path : Option TaskPath := none

def SavedTask.target (task : SavedTask) : TaskPath := task.path.getD ⟨task.id, task.document.status⟩

inductive GuardedCall where
  | transition (newStatus : TaskStatus) (metadataPatch : Dict String JsValue) (now : Nat)
  | cancel (reason : Option String) (now : Nat)
  | updateBody (body : String) (now : Nat)
  | update (patch : UpdatePatch) (now : Nat)
  | delete
  | addDep (blocker : Blocker) (now : Nat)
  | removeDep (blockerId : String) (now : Nat)
  | block (reason : String) (now : Nat)
  | unblock (now : Nat)

def GuardedCall.program (store : PermissionAwareTaskStore) (id : String) :
    GuardedCall → TaskProgram Unit
  | .transition newStatus metadataPatch now => store.transition id newStatus metadataPatch now
  | .cancel reason now => store.cancel id reason now
  | .updateBody body now => store.updateBody id body now
  | .update patch now => store.update id patch now
  | .delete => store.delete id
  | .addDep blocker now => store.addDep id blocker now
  | .removeDep blockerId now => store.removeDep id blockerId now
  | .block reason now => store.block id reason now
  | .unblock now => store.unblock id now

/-- A call that changes tasks; a task is created under a new id. -/
inductive PermissionedCall where
  | create (id : String) (opts : CreateOpts) (now : Nat)
  | on (id : String) (call : GuardedCall)
  | save (task : SavedTask)
  | saveToPath (document : Document) (path : TaskPath)

abbrev TaskDirectory := String → TaskFiles

def TaskDirectory.run (files : TaskDirectory) (id : String) (program : TaskProgram Unit) :
    Option TaskDirectory :=
  (program.attempt.alone quietly (files id)).map fun result =>
    Function.update files id result.2

namespace PermissionAwareTaskStore

/-- One call after another; `save` and `saveToPath` are not checked. -/
def step (store : PermissionAwareTaskStore) (files : TaskDirectory) :
    PermissionedCall → Option TaskDirectory
  | .create id opts now =>
      if (checkPermission .create store.agentId id none store.roleInfo).allowed then
        if STATUS_DIRS.all fun dir => ((files id).copies dir).isNone then
          some (Function.update files id (opts.files now))
        else none
      else some files
  | .on id call => files.run id (call.program store id)
  | .save task =>
      files.run task.target.id (TaskProgram.writeFileAtomic task.target.dir task.document)
  | .saveToPath document path => files.run path.id (TaskProgram.writeFileAtomic path.dir document)

end PermissionAwareTaskStore

end Aof
