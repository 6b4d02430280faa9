import Aof.Dispatch.TaskDispatcher

/-!
# The task tools on the files

`aofTaskComplete` of `tools/task-workflow-tools.ts` and `aofTaskUpdate` of
`tools/task-crud-tools.ts`, as programs over the files of the task that they are called for.  The
event log is left out.
-/

namespace Aof.TaskFileTools

open TaskProgram

def updateBody (body : String) (now : Nat) : TaskProgram TaskObject :=
  locked do
    let task ← getOrThrow
    writeFileAtomic task.path (task.document.withBody body now)
    pure ⟨task.document.withBody body now, task.path⟩

structure CompletionTimes where
  summarized : Nat
  unblocked : Nat
  started : Nat
  reviewed : Nat
  completed : Nat

def withSummary (body summary : String) : String :=
  if body ≠ "" then body ++ "\n\n## Completion Summary\n" ++ summary
  else "## Completion Summary\n" ++ summary

/-- An empty summary is none. -/
def summarize (summary : Option String) (task : TaskObject) (now : Nat) : TaskProgram TaskObject :=
  match truthy summary with
  | some summary => updateBody (withSummary task.document.body summary) now
  | none => pure task

/-- Step 1: the task gets to `in-progress`, a blocked one through `ready`. -/
def startForCompletion (task : TaskObject) (times : CompletionTimes) : TaskProgram TaskObject :=
  if task.document.status ≠ .inProgress ∧ task.document.status ≠ .review then do
    if task.document.status = .blocked then do
      let _ ← transition .ready .empty times.unblocked
    transition .inProgress .empty times.started
  else pure task

/-- Step 2: a task in progress is reviewed. -/
def reviewForCompletion (task : TaskObject) (times : CompletionTimes) : TaskProgram TaskObject :=
  if task.document.status = .inProgress then transition .review .empty times.reviewed
  else pure task

def aofTaskComplete (summary : Option String) (times : CompletionTimes) :
    TaskProgram TaskObject := do
  let task ← getOrThrow
  if task.document.status = .done then .throw
  else do
    let summarized ← summarize summary task times.summarized
    if summarized.document.status ≠ .done then do
      let started ← startForCompletion summarized times
      let _ ← reviewForCompletion started times
      transition .done .empty times.completed
    else pure summarized

def replaceBody (body : Option String) (task : TaskObject) (now : Nat) : TaskProgram TaskObject :=
  match body with
  | some body => updateBody body now
  | none => pure task

def aofTaskUpdate (body : Option String) (status : Option TaskStatus) (edited moved : Nat) :
    TaskProgram TaskObject := do
  let task ← getOrThrow
  let updated ← replaceBody body task edited
  match status.filter (· ≠ updated.document.status) with
  | some status => transition status .empty moved
  | none => pure updated

end Aof.TaskFileTools

/-!
## Task completion tool

`aofTaskComplete` of `tools/task-workflow-tools.ts`: any task is walked to `done`.  The task is
given by its full id, and its body is not modelled.
-/

namespace Aof

/-- Step 1: the task gets to `in-progress`, a blocked one through `ready`. -/
def startForCompletion (task : Task) : Command Store Task := do
  if task.status = .inProgress ∨ task.status = .review then pure task
  else do
    if task.status = .blocked then do
      let _ ← Store.transition task.id .ready
    Store.transition task.id .inProgress

def aofTaskComplete (taskId : String) : Command Store Unit := do
  match ← Store.get taskId with
  | none => .throw
  | some task =>
      if task.status = .done then .throw
      else do
        let started ← startForCompletion task
        if started.status = .inProgress then do
          let _ ← Store.transition taskId .review
        let _ ← Store.transition taskId .done

end Aof
