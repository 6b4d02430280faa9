import Aof.Lib.KeyedLock
import Aof.Store.FilesystemTaskStore

/-!
# Block, unblock and cancel

The calls of `store/task-lifecycle.ts` together with what they write to the event log.  A log that
cannot be written throws, as a call of the file system does.
-/

/-!
## Locks of the task store

`TaskLocks.run` as far as promises go.  A call awaits the promise `ours` of the call before it on
the id, and a second function awaits its own `ours` and clears the slot.
-/

namespace Aof

namespace TaskLocks

open KeyedLock

/-- The promises of a call: `ours`, the one that `op()` returns, and the result of `run`. -/
inductive LockPromise where
  | ours
  | op
  | result
  deriving DecidableEq, Repr

/-- `resume` and `leave` go on after `await prior` and `await ours`; `follow` settles `ours` with
what `op()` settled to, and `tell` is the caller's. -/
inductive LockReaction where
  | resume
  | follow
  | leave
  | tell
  deriving DecidableEq, Repr

variable {Value Error : Type}

abbrev State (Value Error : Type) := LockState LockPromise LockReaction String Value Error

def callOp (state : State Value Error) (call : Nat) : State Value Error :=
  state.start call .op .ours .follow

def created : LockPromise → Option (Promises.Settlement LockReaction (Except Error Value))
  | .op => none
  | _ => some (.pending [])

/-- Up to the first wait. -/
def run (state : State Value Error) (id : String) (thrown : Option Error) : State Value Error :=
  let call := state.calls.length
  let prior := state.entries id
  let state := state.enter id thrown created
  let state := match prior with
    | some earlier => state.subscribe earlier .ours (call, .resume)
    | none => callOp state call
  let state := state.setEntry id call
  (state.subscribe call .ours (call, .leave)).subscribe call .result (call, .tell)

def react (state : State Value Error) (call : Nat) :
    LockReaction → Except Error Value → State Value Error
  -- a failure of the prior operation does not block this one
  | .resume, _ => callOp state call
  | .follow, outcome => state.settle call .ours outcome
  | .leave, outcome => (state.deleteEntry call).settle call .result outcome
  | .tell, outcome => state.tell call outcome

def program : LockProgram LockPromise LockReaction String Value Error where
  body := .op
  run := run
  react := react

end TaskLocks

end Aof

namespace Aof.TaskLifecycle

inductive LifecycleOp where
  | file (op : TaskOp)
  | log (event : String)

abbrev LifecycleReply : LifecycleOp → Type
  | .file op => TaskReply op
  | .log _ => Bool

abbrev LifecycleProgram := Async LifecycleOp LifecycleReply

def onFiles {α : Type} : TaskProgram α → LifecycleProgram α
  | .ret value => .ret value
  | .throw => .throw
  | .await op rest => .await (.file op) fun reply => onFiles (rest reply)

def log (event : String) : LifecycleProgram Unit := do
  if ← Async.perform (.log event) then pure () else .throw

/-- `TaskLocks.run` -/
def locked {α : Type} (program : LifecycleProgram α) : LifecycleProgram α := do
  onFiles (TaskProgram.perform .lock)
  let result ← program.attempt
  onFiles (TaskProgram.perform .unlock)
  match result with
  | some value => pure value
  | none => .throw

/-- A transition without an agent, from a store without hooks. -/
def transitionTask (newStatus : TaskStatus) (now : Nat) : LifecycleProgram TaskObject := do
  let task ← onFiles getOrThrow
  if task.document.status = newStatus then pure task
  else if isValidTransition task.document.status newStatus then do
    onFiles (place task.path newStatus (task.document.transitioned newStatus .empty now))
    log "task.transitioned"
    pure ⟨task.document.transitioned newStatus .empty now, newStatus⟩
  else .throw

def transition (newStatus : TaskStatus) (now : Nat) : LifecycleProgram TaskObject :=
  locked (transitionTask newStatus now)

/-- The metadata is written first, and then the task is moved. -/
def writeAndMove (refused : TaskStatus → Bool) (written : Document → Document)
    (newStatus : TaskStatus) (event : String) (now : Nat) : LifecycleProgram Unit := do
  let task ← onFiles getOrThrow
  if refused task.document.status then .throw
  else do
    onFiles (TaskProgram.writeFileAtomic task.path (written task.document) true)
    let _ ← transition newStatus now
    log event

def cannotBlock (status : TaskStatus) : Bool :=
  status = .blocked ∨ status = .done ∨ status = .cancelled ∨ status = .deadletter

def blockTask (reason : String) (now : Nat) : LifecycleProgram Unit :=
  writeAndMove cannotBlock (fun document => document.withBlockReason reason) .blocked
    "task.blocked" now

def unblockTask (now : Nat) : LifecycleProgram Unit :=
  writeAndMove (· ≠ .blocked) Document.withoutBlockReason .ready "task.unblocked" now

def cancelTask (reason : Option String) (now : Nat) : LifecycleProgram Unit :=
  locked do
    onFiles (Aof.cancelTask reason now)
    log "task.cancelled"

/-- The program where every log entry is written. -/
def unlogged {α : Type} : LifecycleProgram α → TaskProgram α
  | .ret value => .ret value
  | .throw => .throw
  | .await (.file op) rest => .await op fun reply => unlogged (rest reply)
  | .await (.log _) rest => unlogged (rest true)

section Unlogged

variable {α β : Type}

theorem unlogged_onFiles (program : TaskProgram α) : unlogged (onFiles program) = program := by
  induction program with
  | ret value => rfl
  | throw => rfl
  | await op rest ih =>
      rw [onFiles, unlogged]
      congr 1
      funext reply
      exact ih reply

theorem unlogged_bind (program : LifecycleProgram α) (next : α → LifecycleProgram β) :
    unlogged (program >>= next) = unlogged program >>= fun value => unlogged (next value) := by
  induction program with
  | ret value => rfl
  | throw => rfl
  | await op rest ih =>
      cases op with
      | file op =>
          rw [Async.await_bind, unlogged, unlogged, Async.await_bind]
          congr 1
          funext reply
          exact ih reply
      | log event => exact ih true

theorem unlogged_attempt (program : LifecycleProgram α) :
    unlogged program.attempt = (unlogged program).attempt := by
  induction program with
  | ret value => rfl
  | throw => rfl
  | await op rest ih =>
      cases op with
      | file op =>
          rw [Async.attempt, unlogged, unlogged, Async.attempt]
          congr 1
          funext reply
          exact ih reply
      | log event => exact ih true

theorem unlogged_locked (program : LifecycleProgram α) :
    unlogged (locked program) = TaskProgram.locked (unlogged program) := by
  rw [locked, unlogged_bind, unlogged_onFiles, TaskProgram.locked]
  congr 1
  funext _
  rw [unlogged_bind, unlogged_attempt]
  congr 1
  funext result
  rw [unlogged_bind, unlogged_onFiles]
  cases result <;> rfl

theorem unlogged_ite {condition : Prop} [Decidable condition] (yes no : LifecycleProgram α) :
    unlogged (if condition then yes else no) =
      if condition then unlogged yes else unlogged no := by
  split <;> rfl

theorem unlogged_transition (newStatus : TaskStatus) (now : Nat) :
    unlogged (transition newStatus now) = Aof.transition newStatus .empty now := by
  rw [transition, unlogged_locked, transitionTask, unlogged_bind, unlogged_onFiles, Aof.transition,
    Aof.transitionTask]
  congr 2
  funext task
  rw [unlogged_ite, unlogged_ite, unlogged_bind, unlogged_onFiles]
  rfl

theorem unlogged_writeAndMove (refused : TaskStatus → Bool) (written : Document → Document)
    (newStatus : TaskStatus) (event : String) (now : Nat) :
    (unlogged (writeAndMove refused written newStatus event now) >>= fun _ => TaskProgram.finish) =
      getOrThrow >>= fun task =>
        if refused task.document.status then .throw
        else TaskProgram.writeFileAtomic task.path (written task.document) true >>= fun _ =>
          Aof.transition newStatus .empty now >>= fun _ => TaskProgram.finish := by
  rw [writeAndMove, unlogged_bind, unlogged_onFiles, Async.bind_assoc]
  congr 1
  funext task
  rw [unlogged_ite]
  split
  · rfl
  · rw [unlogged_bind, unlogged_onFiles, Async.bind_assoc]
    congr 1
    funext _
    rw [unlogged_bind, unlogged_transition, Async.bind_assoc]
    rfl

end Unlogged

/-- The calls are those of the file store, whose programs also note where they end. -/
theorem unlogged_blockTask (reason : String) (now : Nat) :
    (unlogged (blockTask reason now) >>= fun _ => TaskProgram.finish) =
      Aof.blockTask reason now := by
  rw [blockTask, unlogged_writeAndMove, Aof.blockTask]
  congr 1
  funext task
  simp only [cannotBlock, decide_eq_true_eq]

theorem unlogged_unblockTask (now : Nat) :
    (unlogged (unblockTask now) >>= fun _ => TaskProgram.finish) = Aof.unblockTask now := by
  rw [unblockTask, unlogged_writeAndMove, Aof.unblockTask]
  congr 1
  funext task
  simp only [decide_eq_true_eq]

theorem unlogged_cancelTask (reason : Option String) (now : Nat) :
    unlogged (cancelTask reason now) = TaskProgram.locked (Aof.cancelTask reason now) := by
  rw [cancelTask, unlogged_locked, unlogged_bind, unlogged_onFiles]
  congr 1
  exact Async.bind_ret _

inductive Syscall where
  | readFile (dir : TaskStatus)
  | stat (dir : TaskStatus)
  | rm (dir : TaskStatus)
  | mkdir
  | writeFile (dir : TaskStatus)
  | moveCompanion
  | unlink (dir : TaskStatus)
  | rename
  | log (event : String)
  deriving DecidableEq, Repr

def syscall : LifecycleOp → Option Syscall
  | .file (.readFile dir) => some (.readFile dir)
  | .file (.stat dir) => some (.stat dir)
  | .file (.rm dir) => some (.rm dir)
  | .file .mkdir => some .mkdir
  | .file (.writeFile dir _ _) => some (.writeFile dir)
  | .file .moveCompanion => some .moveCompanion
  | .file (.unlink dir) => some (.unlink dir)
  | .file (.rename _ _) => some .rename
  | .file .lock | .file .unlock | .file .finish => none
  | .log event => some (.log event)

/-- How the operating system answers a call, by the number of writes and renames before it. -/
abbrev Answers := Nat → Syscall → OsAnswer

def perform (answers : Answers) : (op : LifecycleOp) → TaskFiles →
    Option (LifecycleReply op × TaskFiles)
  | .file op, files =>
      TaskFiles.perform 0 ((syscall (.file op)).elim {} (answers files.record.writes)) op files
  | .log event, files => some (!(answers files.record.writes (.log event)).fails, files)

end Aof.TaskLifecycle
