import Aof.Lib.Command
import Aof.Store.FilesystemTaskStore

/-!
# Task store

The task files and the result files next to them, with the operations of
`store/task-mutations.ts`, `store/task-lifecycle.ts`, `store/lease.ts` and
`recovery/run-artifacts.ts`.  A task is filed under its own id.
-/

namespace Aof

structure Store where
  tasks : Dict String Task
  runResults : Dict String RunResult
  keyed : ∀ id task, tasks.get? id = some task → task.id = id

namespace Store

def put (store : Store) (task : Task) : Store :=
  { store with
    tasks := store.tasks.set task.id task
    keyed := by
      intro id other hget
      rw [Dict.get?_set] at hget
      split at hget
      · rename_i heq
        obtain rfl : task = other := by simpa using hget
        exact heq
      · exact store.keyed id other hget }

/-- A store of the tasks alone; a later one replaces an earlier one with its id. -/
def ofTasks (tasks : List Task) : Store :=
  tasks.foldl put
    { tasks := .empty
      runResults := .empty
      keyed := by
        intro id task hget
        rw [Dict.get?_empty] at hget
        cases hget }

def get (id : String) : Command Store (Option Task) :=
  fun store => (some (store.tasks.get? id), store)

def list : Command Store (List Task) :=
  fun store => (some store.tasks.values, store)

def listByStatus (status : TaskStatus) : Command Store (List Task) :=
  fun store => (some (store.tasks.values.filter fun task => task.status = status), store)

def save (task : Task) : Command Store Unit :=
  Command.modify fun store => store.put task

/-- A stored task is read, changed and saved. -/
def patch (id : String) (change : Task → Task) : Command Store Unit := do
  match ← get id with
  | none => pure ()
  | some task => save (change task)

/-- What `transitionTask` writes: the lease does not survive `done`, `ready` and `backlog`. -/
def transitioned (task : Task) (newStatus : TaskStatus) : Task :=
  { task with
    status := newStatus
    lease := if newStatus = .done ∨ newStatus = .ready ∨ newStatus = .backlog then none
      else task.lease }

def transition (id : String) (newStatus : TaskStatus) : Command Store Task := do
  match ← get id with
  | none => .throw
  | some task =>
      if task.status = newStatus then pure task
      else if isValidTransition task.status newStatus then do
        save (transitioned task newStatus)
        pure (transitioned task newStatus)
      else .throw

def block (id reason : String) : Command Store Unit := do
  match ← get id with
  | none => .throw
  | some task =>
      if task.status = .blocked ∨ task.status = .done ∨ task.status = .cancelled ∨
          task.status = .deadletter then .throw
      else do
        save { task with metadata := { task.metadata with blockReason := some reason } }
        let _ ← transition id .blocked

def readRunResult (taskId : String) : Command Store (Option RunResult) :=
  fun store =>
    (some ((store.tasks.get? taskId).bind fun _ => store.runResults.get? taskId), store)

def writeRunResult (taskId : String) (result : RunResult) : Command Store Unit := do
  match ← get taskId with
  | none => .throw
  | some _ =>
      if result.taskId = taskId then
        Command.modify fun store =>
          { store with runResults := store.runResults.set taskId result }
      else .throw

def leaseActive (lease : Option TaskLease) (now : Nat) : Bool :=
  lease.any fun lease => now < lease.expiresAt

def leased (task : Task) (agentId : String) (now ttlMs : Nat) : Task :=
  { task with lease := some ⟨agentId, now + ttlMs⟩ }

def acquireLease (taskId agentId : String) (now ttlMs : Nat) : Command Store Task := do
  match ← get taskId with
  | none => .throw
  | some task =>
      if task.status ≠ .ready ∧ task.status ≠ .inProgress then .throw
      else if task.lease.any fun lease => now < lease.expiresAt ∧ lease.agent ≠ agentId then .throw
      else do
        save (leased task agentId now ttlMs)
        if task.status = .ready then transition taskId .inProgress
        else pure (leased task agentId now ttlMs)

def releaseLease (taskId agentId : String) : Command Store Unit := do
  match ← get taskId with
  | none => .throw
  | some task =>
      if task.lease.any fun lease => lease.agent = agentId then do
        let _ ← transition taskId .ready
      else .throw

variable {store : Store}

@[simp]
theorem tasks_put (store : Store) (task : Task) (id : String) :
    (store.put task).tasks.get? id = if task.id = id then some task else store.tasks.get? id :=
  Dict.get?_set ..

@[simp]
theorem runResults_put (store : Store) (task : Task) :
    (store.put task).runResults = store.runResults := rfl

@[simp]
theorem run_get (id : String) : (get id).run store = (some (store.tasks.get? id), store) := rfl

@[simp]
theorem run_list : list.run store = (some store.tasks.values, store) := rfl

@[simp]
theorem run_save (task : Task) : (save task).run store = (some (), store.put task) := rfl

@[simp]
theorem run_readRunResult (taskId : String) : (readRunResult taskId).run store =
    (some ((store.tasks.get? taskId).bind fun _ => store.runResults.get? taskId), store) := rfl

theorem run_transition {id : String} {newStatus : TaskStatus} {task : Task}
    (hget : store.tasks.get? id = some task) (hvalid : isValidTransition task.status newStatus)
    (hne : task.status ≠ newStatus) : (transition id newStatus).run store =
      (some (transitioned task newStatus), store.put (transitioned task newStatus)) := by
  rw [transition, Command.run_bind_of_some (run_get id), hget]
  simp only [hne, ↓reduceIte, hvalid]
  rfl

theorem transition_cases (store : Store) (id : String) (newStatus : TaskStatus) :
    ((transition id newStatus).run store).2 = store ∨
      ∃ task, store.tasks.get? id = some task ∧ isValidTransition task.status newStatus ∧
        task.status ≠ newStatus ∧ (transition id newStatus).run store =
          (some (transitioned task newStatus), store.put (transitioned task newStatus)) := by
  cases hget : store.tasks.get? id with
  | none =>
      left
      rw [transition, Command.run_bind_of_some (run_get id), hget]
      rfl
  | some task =>
      by_cases heq : task.status = newStatus
      · left
        rw [transition, Command.run_bind_of_some (run_get id), hget]
        simp only [heq, ↓reduceIte]
        rfl
      · by_cases hvalid : isValidTransition task.status newStatus
        · exact .inr ⟨task, rfl, hvalid, heq, run_transition hget hvalid heq⟩
        · left
          rw [transition, Command.run_bind_of_some (run_get id), hget]
          simp only [heq, ↓reduceIte, hvalid]
          rfl

end Store

end Aof

/-!
## Reconciliation at start-up

`reconcileDrift` of `store/task-store.ts` with the part of `lintTasks` that it uses, on the files of
all tasks.  The file system answers the listings and does not fail.
-/

namespace Aof

/-- The files of the tasks, and the names that a listing of each status directory returns. -/
structure TaskDisk where
  files : String → TaskFiles
  listing : TaskStatus → List String
  nodup : ∀ dir, (listing dir).Nodup
  listed : ∀ dir id, id ∈ listing dir ↔ ((files id).copies dir).isSome

/-- A file whose status does not match its directory: the task, the directory and the status. -/
structure StatusMismatch where
  id : String
  dir : TaskStatus
  status : TaskStatus
  deriving DecidableEq, Repr

def lintFile (files : String → TaskFiles) (dir : TaskStatus) (id : String) :
    Option StatusMismatch := do
  let file ← (files id).copies dir
  if file.document.status ≠ dir then some ⟨id, dir, file.document.status⟩ else none

/-- All files are read before the first one is renamed. -/
def lintTasks (disk : TaskDisk) : List StatusMismatch :=
  STATUS_DIRS.flatMap fun dir => (disk.listing dir).filterMap (lintFile disk.files dir)

/-- The files after a rename; one that fails is logged. -/
def TaskFiles.renamed (files : TaskFiles) (source target : TaskStatus) : TaskFiles :=
  match TaskFiles.quietly (.rename source target) files with
  | some (_, after) => after
  | none => files

def reconcileFile (files : String → TaskFiles) (issue : StatusMismatch) : String → TaskFiles :=
  Function.update files issue.id ((files issue.id).renamed issue.dir issue.status)

def reconcileDrift (disk : TaskDisk) : String → TaskFiles :=
  (lintTasks disk).foldl reconcileFile disk.files

end Aof
