import Aof.Lib.LineText
import Aof.Store.TaskFiles

/-!
# The calls of the file store

The operations on one task from `store/task-store.ts`, `store/task-mutations.ts`,
`store/task-lifecycle.ts`, `store/task-deps.ts` and `store/lease.ts`, as programs that wait for the
file system.  The times that a call reads off the clock are arguments of it.
-/

namespace Aof

abbrev TaskProgram := Async TaskOp TaskReply

namespace TaskProgram

def perform (op : TaskOp) : TaskProgram (TaskReply op) := Async.perform op

def readFile (dir : TaskStatus) : TaskProgram (Option Document) := perform (.readFile dir)

def stat (dir : TaskStatus) : TaskProgram (Option Nat) := perform (.stat dir)

def rm (dir : TaskStatus) : TaskProgram Unit := perform (.rm dir)

def unlink (dir : TaskStatus) : TaskProgram Errno := perform (.unlink dir)

def moveCompanion : TaskProgram Errno := perform .moveCompanion

def finish : TaskProgram Unit := perform .finish

def orThrow (program : TaskProgram Bool) : TaskProgram Unit := do
  if ← program then pure () else .throw

def mkdir : TaskProgram Unit := orThrow (perform .mkdir)

def writeFileAtomic (dir : TaskStatus) (document : Document) (ahead : Bool := false) :
    TaskProgram Unit :=
  orThrow (perform (.writeFile dir document ahead))

def rename (source target : TaskStatus) : TaskProgram Unit :=
  orThrow (perform (.rename source target))

/-- `TaskLocks.run`: the lock is given back after a throw too. -/
def locked {α : Type} (program : TaskProgram α) : TaskProgram α := do
  perform .lock
  let result ← program.attempt
  perform .unlock
  match result with
  | some value => pure value
  | none => .throw

end TaskProgram

open TaskProgram

/-- A copy that a get has found. -/
structure Match where
  task : TaskObject
  mtimeMs : Nat

/-- The copies in the given directories; a modification time that cannot be read counts as zero. -/
def findMatches : List TaskStatus → TaskProgram (List Match)
  | [] => pure []
  | dir :: dirs => do
      match ← readFile dir with
      | none => findMatches dirs
      | some document => do
          let mtimeMs ← stat dir
          let others ← findMatches dirs
          pure (⟨⟨document, dir⟩, mtimeMs.getD 0⟩ :: others)

/-- `matches.sort((a, b) => b.mtimeMs - a.mtimeMs)` -/
def newestFirst (found : List Match) : List Match :=
  found.insertionSort fun a b => b.mtimeMs ≤ a.mtimeMs

def removeStale : List Match → TaskProgram Unit
  | [] => pure ()
  | stale :: others => do
      rm stale.task.path
      removeStale others

/-- `get`: the newest copy is the task, and the others are removed. -/
def get : TaskProgram (Option TaskObject) := do
  let found ← findMatches STATUS_DIRS
  if found.length ≤ 1 then pure (found.head?.map Match.task)
  else do
    let sorted := newestFirst found
    removeStale sorted.tail
    pure (sorted.head?.map Match.task)

def getOrThrow : TaskProgram TaskObject := do
  match ← get with
  | some task => pure task
  | none => .throw

def Document.transitioned (document : Document) (newStatus : TaskStatus)
    (metadataPatch : Dict String JsValue) (now : Nat) : Document :=
  { document with
    status := newStatus
    updatedAt := now
    lastTransitionAt := now
    metadata := document.metadata.merge metadataPatch
    lease := if newStatus = .done ∨ newStatus = .ready ∨ newStatus = .backlog then none
      else document.lease }

/-- The new copy is written, the companion directory follows, and the old copy is removed. -/
def relocate (oldPath newPath : TaskStatus) (document : Document) : TaskProgram Unit := do
  mkdir
  writeFileAtomic newPath document
  match ← moveCompanion with
  | .other => do
      let _ ← unlink newPath
      .throw
  | _ => do
      match ← stat newPath with
      | some _ => do
          let _ ← unlink oldPath
          pure ()
      | none => pure ()

def place (oldPath newPath : TaskStatus) (document : Document) : TaskProgram Unit :=
  if oldPath ≠ newPath then relocate oldPath newPath document
  else writeFileAtomic newPath document

def transitionTask (newStatus : TaskStatus) (metadataPatch : Dict String JsValue) (now : Nat) :
    TaskProgram TaskObject := do
  let task ← getOrThrow
  if task.document.status = newStatus then pure task
  else if isValidTransition task.document.status newStatus then do
    place task.path newStatus (task.document.transitioned newStatus metadataPatch now)
    pure ⟨task.document.transitioned newStatus metadataPatch now, newStatus⟩
  else .throw

def transition (newStatus : TaskStatus) (metadataPatch : Dict String JsValue) (now : Nat) :
    TaskProgram TaskObject :=
  locked (transitionTask newStatus metadataPatch now)

/-- The document that `cancelTask` writes; an empty reason is not kept. -/
def Document.cancelled (document : Document) (reason : Option String) (now : Nat) : Document :=
  { document with
    status := .cancelled
    updatedAt := now
    lastTransitionAt := now
    lease := none
    metadata :=
      match reason.filter (· ≠ "") with
      | some reason => document.metadata.set "cancellationReason" (.str reason)
      | none => document.metadata }

/-- `cancelTask`: the old copy is rewritten and then renamed. -/
def cancelTask (reason : Option String) (now : Nat) : TaskProgram Unit := do
  let task ← getOrThrow
  if task.document.status = .done ∨ task.document.status = .cancelled then .throw
  else if task.path ≠ .cancelled then do
    writeFileAtomic task.path (task.document.cancelled reason now)
    rename task.path .cancelled
    let _ ← moveCompanion
  else writeFileAtomic .cancelled (task.document.cancelled reason now)

def isJsSpace (char : Char) : Bool :=
  char.toNat ∈ [9, 10, 11, 12, 13, 32, 160, 5760, 8232, 8233, 8239, 8287, 12288, 65279] ∨
    (8192 ≤ char.toNat ∧ char.toNat ≤ 8202)

/-- `String.prototype.trim` -/
def jsTrim (text : String) : String :=
  String.ofList ((text.toList.dropWhile isJsSpace).reverse.dropWhile isJsSpace).reverse

theorem toList_jsTrim (text : String) : (jsTrim text).toList = Trim.trim isJsSpace text.toList :=
  String.toList_ofList

theorem jsTrim_jsTrim (text : String) : jsTrim (jsTrim text) = jsTrim text := by
  apply String.toList_inj.mp
  rw [toList_jsTrim, toList_jsTrim, Trim.trim_trim]

structure RoutingPatch where
  role : Option String := none
  team : Option String := none
  agent : Option String := none
  tags : Option (List String) := none

structure UpdatePatch where
  title : Option Title := none
  description : Option String := none
  priority : Option TaskPriority := none
  routing : RoutingPatch := {}

def Document.updated (document : Document) (patch : UpdatePatch) (now : Nat) : Document :=
  { document with
    title := patch.title.getD document.title
    body := (patch.description.map jsTrim).getD document.body
    priority := patch.priority.getD document.priority
    routing :=
      { document.routing with
        role := patch.routing.role <|> document.routing.role
        team := patch.routing.team <|> document.routing.team
        agent := patch.routing.agent <|> document.routing.agent
        tags := patch.routing.tags.getD document.routing.tags }
    updatedAt := now }

def updateTask (patch : UpdatePatch) (now : Nat) : TaskProgram Unit := do
  let task ← getOrThrow
  if task.document.status = .done then .throw
  else writeFileAtomic task.path (task.document.updated patch now)

def Document.withBody (document : Document) (body : String) (now : Nat) : Document :=
  { document with
    body := jsTrim body
    updatedAt := now }

def updateBody (body : String) (now : Nat) : TaskProgram Unit := do
  let task ← getOrThrow
  writeFileAtomic task.path (task.document.withBody body now)

/-- What the other task files answer about a blocker: whether it is the task itself, whether it
exists, and whether it depends on the task. -/
structure Blocker where
  id : String
  isTask : Bool
  found : Bool
  closesCycle : Bool

def Document.dependingOn (document : Document) (blockerId : String) (now : Nat) : Document :=
  { document with
    dependsOn := document.dependsOn ++ [blockerId]
    updatedAt := now }

def blockerFound (blocker : Blocker) : TaskProgram Bool :=
  if blocker.isTask then do
    let task ← get
    pure task.isSome
  else pure blocker.found

def addDependency (blocker : Blocker) (now : Nat) : TaskProgram Unit := do
  let task ← getOrThrow
  let found ← blockerFound blocker
  if !found then .throw
  else if task.document.status = .done ∨ task.document.status = .cancelled then .throw
  else if blocker.isTask then .throw
  else if task.document.dependsOn.contains blocker.id then pure ()
  else if blocker.closesCycle then .throw
  else writeFileAtomic task.path (task.document.dependingOn blocker.id now)

def Document.independentOf (document : Document) (blockerId : String) (now : Nat) : Document :=
  { document with
    dependsOn := document.dependsOn.erase blockerId
    updatedAt := now }

def removeDependency (blockerId : String) (now : Nat) : TaskProgram Unit := do
  let task ← getOrThrow
  if task.document.status = .done ∨ task.document.status = .cancelled then .throw
  else if task.document.dependsOn.contains blockerId then
    writeFileAtomic task.path (task.document.independentOf blockerId now)
  else pure ()

/-- What a task is created with; `rest` are the fields that do not change afterwards. -/
structure CreateOpts where
  title : Title
  body : String := ""
  priority : Option TaskPriority := none
  routing : RoutingPatch := {}
  metadata : Option (Dict String JsValue) := none
  dependsOn : Option (List String) := none
  initialStatus : Option TaskStatus := none
  rest : JsObject := []

def CreateOpts.document (opts : CreateOpts) (now : Nat) : Document where
  title := opts.title
  status := opts.initialStatus.getD .backlog
  priority := opts.priority.getD .normal
  routing :=
    { role := opts.routing.role
      team := opts.routing.team
      agent := opts.routing.agent
      tags := opts.routing.tags.getD [] }
  updatedAt := now
  lastTransitionAt := now
  dependsOn := opts.dependsOn.getD []
  metadata := opts.metadata.getD .empty
  rest := opts.rest
  body := jsTrim opts.body

/-- The files of a task that has been created: one copy, in the directory of its status. -/
def CreateOpts.files (opts : CreateOpts) (now : Nat) : TaskFiles where
  copies dir := if dir = (opts.document now).status then some ⟨opts.document now, 1⟩ else none
  clock := 1

def Document.withBlockReason (document : Document) (reason : String) : Document :=
  { document with metadata := document.metadata.set "blockReason" (.str reason) }

def blockTask (reason : String) (now : Nat) : TaskProgram Unit := do
  let task ← getOrThrow
  if task.document.status = .blocked ∨ task.document.status = .done ∨
      task.document.status = .cancelled ∨ task.document.status = .deadletter then .throw
  else do
    writeFileAtomic task.path (task.document.withBlockReason reason) true
    let _ ← transition .blocked .empty now
    finish

def Document.withoutBlockReason (document : Document) : Document :=
  { document with metadata := (document.metadata.erase "blockReason").erase "retryCount" }

def unblockTask (now : Nat) : TaskProgram Unit := do
  let task ← getOrThrow
  if task.document.status ≠ .blocked then .throw
  else do
    writeFileAtomic task.path task.document.withoutBlockReason true
    let _ ← transition .ready .empty now
    finish

/-- `LeaseOptions`, without the artifacts' own times. -/
structure LeaseOptions where
  ttlMs : Nat := 600000
  maxRenewals : Nat := 3
  writeRunArtifacts : Bool := true
  deriving DecidableEq, Repr

/-- The three times that `acquireLease` and its transition read off the clock. -/
structure LeaseTimes where
  checked : Nat
  granted : Nat
  moved : Nat
  deriving DecidableEq, Repr

def Document.leasedToOther (document : Document) (agentId : String) (now : Nat) : Bool :=
  document.lease.any fun lease => now < lease.expiresAt ∧ lease.agent ≠ agentId

def Document.leasedTo (document : Document) (agentId : String) (ttlMs now : Nat) : Document :=
  { document with
    lease := some { agent := agentId, acquiredAt := now, expiresAt := now + ttlMs }
    updatedAt := now }

def beginWork (status : TaskStatus) (now : Nat) : TaskProgram Unit :=
  if status = .ready then do
    let _ ← transition .inProgress .empty now
    pure ()
  else pure ()

/-- The run artifact and the heartbeat: each is filed in the directory of the task, which is looked
up first. -/
def writeArtifacts (opts : LeaseOptions) : TaskProgram Unit :=
  if opts.writeRunArtifacts then do
    let _ ← getOrThrow
    let _ ← getOrThrow
    pure ()
  else pure ()

def acquireLease (agentId : String) (opts : LeaseOptions) (times : LeaseTimes) :
    TaskProgram Unit := do
  let task ← getOrThrow
  if task.document.status ≠ .ready ∧ task.document.status ≠ .inProgress then .throw
  else if task.document.leasedToOther agentId times.checked then .throw
  else do
    writeFileAtomic task.path (task.document.leasedTo agentId opts.ttlMs times.granted) true
    beginWork task.document.status times.moved
    writeArtifacts opts
    finish

def Document.renewed (document : Document) (lease : Lease) (ttlMs now : Nat) : Document :=
  { document with
    lease := some { lease with
      expiresAt := now + ttlMs
      renewCount := lease.renewCount + 1 }
    updatedAt := now }

def renewLease (agentId : String) (opts : LeaseOptions) (now : Nat) : TaskProgram Unit := do
  let task ← getOrThrow
  match task.document.lease with
  | none => .throw
  | some lease =>
      if lease.agent ≠ agentId then .throw
      else if opts.maxRenewals ≤ lease.renewCount then .throw
      else writeFileAtomic task.path (task.document.renewed lease opts.ttlMs now)

def releaseLease (agentId : String) (now : Nat) : TaskProgram Unit := do
  let task ← getOrThrow
  if task.document.lease.any fun lease => lease.agent = agentId then do
    let _ ← transition .ready .empty now
    pure ()
  else .throw

def reader : TaskProgram Unit := do
  let _ ← get

/-- A call of the store's interface that changes the task. -/
inductive StoreCall where
  | transition (newStatus : TaskStatus) (metadataPatch : Dict String JsValue) (now : Nat)
  | cancel (reason : Option String) (now : Nat)
  | update (patch : UpdatePatch) (now : Nat)
  | updateBody (body : String) (now : Nat)
  | addDep (blocker : Blocker) (now : Nat)
  | removeDep (blockerId : String) (now : Nat)
  | block (reason : String) (now : Nat)
  | unblock (now : Nat)
  | acquireLease (agentId : String) (opts : LeaseOptions) (times : LeaseTimes)
  | renewLease (agentId : String) (opts : LeaseOptions) (now : Nat)
  | releaseLease (agentId : String) (now : Nat)

def StoreCall.program : StoreCall → TaskProgram Unit
  | .transition newStatus metadataPatch now => do
      let _ ← Aof.transition newStatus metadataPatch now
  | .cancel reason now => locked (cancelTask reason now)
  | .update patch now => locked (updateTask patch now)
  | .updateBody body now => locked (Aof.updateBody body now)
  | .addDep blocker now => locked (addDependency blocker now)
  | .removeDep blockerId now => locked (removeDependency blockerId now)
  | .block reason now => blockTask reason now
  | .unblock now => unblockTask now
  | .acquireLease agentId opts times => Aof.acquireLease agentId opts times
  | .renewLease agentId opts now => Aof.renewLease agentId opts now
  | .releaseLease agentId now => Aof.releaseLease agentId now

end Aof
