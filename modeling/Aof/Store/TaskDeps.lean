import Aof.Lib.Acyclic
import Aof.Lib.DepthFirst
import Aof.Lib.Interleaving
import Aof.Store.FilesystemTaskStore

/-!
# Calls that change dependencies

`addDep` and `removeDep` on all the tasks of a project, as processes that wait at their awaits.  No
such call moves a file, so a get is one read.  The recursion of `hasCycle` is a list of the tasks it
still has to visit: the rest of each of its loops, innermost first.
-/

namespace Aof

/-- The files of the tasks, and the tasks whose lock is taken. -/
structure Project where
  tasks : String → Option Document
  locked : String → Bool := fun _ => false

namespace Project

def Depends (project : Project) (taskId blockerId : String) : Prop :=
  ∃ task, project.tasks taskId = some task ∧ blockerId ∈ task.dependsOn

/-- A read that fails finds no task. -/
def get (project : Project) (fails : Bool) (id : String) : Option Document :=
  if fails then none else project.tasks id

def lock (project : Project) (id : String) : Project :=
  { project with locked := Function.update project.locked id true }

def unlock (project : Project) (id : String) : Project :=
  { project with locked := Function.update project.locked id false }

def write (project : Project) (id : String) (task : Document) : Project :=
  { project with tasks := Function.update project.tasks id (some task) }

def dependenciesOf (project : Project) (id : String) : List String :=
  ((project.tasks id).map Document.dependsOn).getD []

def ClosesCycle (project : Project) (taskId blockerId : String) : Prop :=
  Relation.ReflTransGen (fun id dep => project.Depends id dep ∨ id = taskId ∧ dep = blockerId)
    blockerId taskId

/-- `hasCycle` on files that do not change meanwhile, with a bound on the depth of `dfs`. -/
def hasCycle (project : Project) (taskId blockerId : String) (depth : Nat) : Option Bool :=
  (DepthFirst.search project.dependenciesOf taskId depth blockerId []).map Prod.fst

end Project

namespace DependencyCalls

/-- The arguments of a call, and the time that it reads off the clock. -/
structure Edit where
  taskId : String
  blockerId : String
  now : Nat
  deriving DecidableEq, Repr

inductive Call where
  | addDep (edit : Edit)
  | removeDep (edit : Edit)
  deriving DecidableEq, Repr

def Call.edit : Call → Edit
  | .addDep edit | .removeDep edit => edit

/-- How `hasCycle` goes on after a get. -/
inductive Search where
  | cyclic
  | acyclic
  | visit (currentId : String) (pending : List String)

/-- The calls of `dfs` up to the next get. -/
def nextVisit (taskId : String) (visited : List String) : List String → Search
  | [] => .acyclic
  | currentId :: pending =>
      if currentId = taskId then .cyclic
      else if currentId ∈ visited then nextVisit taskId visited pending
      else .visit currentId pending

/-- Where a call waits: for the lock, at the get of its task, at the get of the blocker, at a get of
`hasCycle`, at the write, and before it gives the lock back.  The visited tasks come with the
dependencies that were read there, which the program does not keep. -/
inductive Process where
  | waiting (call : Call)
  | reading (call : Call)
  | readingBlocker (edit : Edit) (task : Document)
  | searching (edit : Edit) (task : Document) (visited : List (String × List String))
      (currentId : String) (pending : List String)
  | writing (taskId : String) (task : Document) (visited : List (String × List String))
  | releasing (taskId : String) (succeeded : Bool)
  | finished (succeeded : Bool)

def search (edit : Edit) (task : Document) (visited : List (String × List String))
    (pending : List String) : Process :=
  match nextVisit edit.taskId (visited.map Prod.fst) pending with
  | .cyclic => .releasing edit.taskId false
  | .acyclic => .writing edit.taskId (task.dependingOn edit.blockerId edit.now) visited
  | .visit currentId pending => .searching edit task visited currentId pending

/-- `addDependency` after its two gets. -/
def addDependency (edit : Edit) (task : Document) (blocker : Option Document) : Process :=
  if blocker.isNone then .releasing edit.taskId false
  else if task.status = .done ∨ task.status = .cancelled then .releasing edit.taskId false
  else if edit.taskId = edit.blockerId then .releasing edit.taskId false
  else if task.dependsOn.contains edit.blockerId then .releasing edit.taskId true
  else search edit task [] [edit.blockerId]

def removeDependency (edit : Edit) (task : Document) : Process :=
  if task.status = .done ∨ task.status = .cancelled then .releasing edit.taskId false
  else if task.dependsOn.contains edit.blockerId then
    .writing edit.taskId (task.independentOf edit.blockerId edit.now) []
  else .releasing edit.taskId true

/-- A call goes on to its next await; the answer says whether the file system fails. -/
def advance (fails : Bool) (project : Project) : Process → Option (Project × Process)
  | .waiting call =>
      if project.locked call.edit.taskId then none
      else some (project.lock call.edit.taskId, .reading call)
  | .reading call =>
      match project.get fails call.edit.taskId, call with
      | none, _ => some (project, .releasing call.edit.taskId false)
      | some task, .addDep edit => some (project, .readingBlocker edit task)
      | some task, .removeDep edit => some (project, removeDependency edit task)
  | .readingBlocker edit task =>
      some (project, addDependency edit task (project.get fails edit.blockerId))
  | .searching edit task visited currentId pending =>
      let dependsOn := ((project.get fails currentId).map Document.dependsOn).getD []
      some (project,
        search edit task ((currentId, dependsOn) :: visited) (dependsOn ++ pending))
  | .writing taskId task _ =>
      if fails then some (project, .releasing taskId false)
      else some (project.write taskId task, .releasing taskId true)
  | .releasing taskId succeeded => some (project.unlock taskId, .finished succeeded)
  | .finished _ => none

/-- A search that ends in a write has seen every dependency that the tasks it visited have by
then. -/
def SawAll (pool : Interleaving.Pool Project Process) (turn : Interleaving.Turn Bool) : Prop :=
  ∀ taskId task visited, pool.processes[turn.index]? = some (.writing taskId task visited) →
    ∀ id dependsOn, (id, dependsOn) ∈ visited →
      ∀ blockerId, pool.shared.Depends id blockerId → blockerId ∈ dependsOn

end DependencyCalls

end Aof
