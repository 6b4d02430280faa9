import Aof.Dispatch.HandlerPrograms
import Aof.Murmur.MurmurState

/-!
# Terminal tasks

A task that is done, cancelled or dead-lettered has left the scheduler's hands.  The handlers act on
what they have read some turns before, so the two ways back are followed here: a snapshot that is
saved over the task, and a transition to `ready` that only an operator should ask for.
-/

namespace Aof

open Async StepSystem

variable {store before after : Store}

def Store.KeepsTerminal (before after : Store) : Prop :=
  ∀ id task, before.tasks.get? id = some task → task.status.terminal = true →
    ∃ task', after.tasks.get? id = some task' ∧ task'.status = task.status

theorem Store.KeepsTerminal.refl (store : Store) : store.KeepsTerminal store :=
  fun _ task hget _ => ⟨task, hget, rfl⟩

theorem Store.KeepsTerminal.trans {middle : Store} (hfirst : before.KeepsTerminal middle)
    (hsecond : middle.KeepsTerminal after) : before.KeepsTerminal after := by
  intro id task hget hterminal
  obtain ⟨task', hget', hstatus⟩ := hfirst id task hget hterminal
  obtain ⟨task'', hget'', hstatus'⟩ := hsecond id task' hget' (by rw [hstatus, hterminal])
  exact ⟨task'', hget'', hstatus'.trans hstatus⟩

theorem Store.keepsTerminal_put {task : Task}
    (hsame : ∀ old, store.tasks.get? task.id = some old → old.status.terminal = true →
      task.status = old.status) : store.KeepsTerminal (store.put task) := by
  intro id old hget hterminal
  rw [Store.tasks_put]
  split
  · rename_i heq
    exact ⟨task, rfl, hsame old (heq ▸ hget) hterminal⟩
  · exact ⟨old, hget, rfl⟩

theorem ready_of_terminal {source target : TaskStatus}
    (hvalid : isValidTransition source target = true) (hterminal : source.terminal = true) :
    source = .deadletter ∧ target = .ready := by
  revert hvalid hterminal
  cases source <;> cases target <;> decide

/-- A handler saves the task that it has read with its id and its status. -/
def StoreOp.KeepsStatus : StoreOp → Prop
  | .save read saved => saved.id = read.id ∧ saved.status = read.status
  | _ => True

/-- A snapshot is not saved over a task that has become terminal in the meantime, and a task that is
dead-lettered is not asked to become ready. -/
def StoreOp.upToDate (store : Store) : StoreOp → Bool
  | .save read _ => (store.tasks.get? read.id).all fun task =>
      !task.status.terminal || read.status = task.status
  | .transition id status => (store.tasks.get? id).all fun task =>
      !(task.status = .deadletter && status = .ready)
  | _ => true

theorem Store.keepsTerminal_transition {id : String} {status : TaskStatus}
    (hcurrent : (StoreOp.transition id status).upToDate store = true) :
    store.KeepsTerminal ((Store.transition id status).run store).2 := by
  rcases Store.transition_cases store id status with hsame | ⟨task, hget, hvalid, -, hrun⟩
  · rw [hsame]
    exact .refl store
  · rw [hrun]
    apply Store.keepsTerminal_put
    intro old hold hterminal
    have hid : (Store.transitioned task status).id = id := store.keyed id task hget
    obtain rfl : task = old := by
      rw [hid, hget] at hold
      exact Option.some.inj hold
    obtain ⟨hdeadletter, rfl⟩ := ready_of_terminal hvalid hterminal
    simp [StoreOp.upToDate, hget, hdeadletter] at hcurrent

theorem Store.keepsTerminal_respond {op : StoreOp} (hkeeps : op.KeepsStatus)
    (hcurrent : op.upToDate store = true) : store.KeepsTerminal (store.respond op).2 := by
  cases op with
  | save read saved =>
      apply Store.keepsTerminal_put
      intro old hold hterminal
      rw [hkeeps.1] at hold
      have hread : read.status = old.status := by
        simpa [StoreOp.upToDate, hold, hterminal] using hcurrent
      exact hkeeps.2.trans hread
  | transition id status => exact Store.keepsTerminal_transition hcurrent
  | get id => exact .refl store
  | list => exact .refl store
  | readRunResult id => exact .refl store

namespace StoreProgram

/-- Each save of the program is of a task that it has read, with its status. -/
abbrev KeepsStatus {α : Type} (program : StoreProgram α) : Prop :=
  Async.Uses StoreOp.KeepsStatus program

theorem keepsStatus_get (id : String) : (get id).KeepsStatus := uses_perform trivial

theorem keepsStatus_list : list.KeepsStatus := uses_perform trivial

theorem keepsStatus_readRunResult (id : String) : (readRunResult id).KeepsStatus :=
  uses_perform trivial

theorem keepsStatus_save {read saved : Task} (hid : saved.id = read.id)
    (hstatus : saved.status = read.status) : (save read saved).KeepsStatus :=
  uses_perform ⟨hid, hstatus⟩

theorem keepsStatus_transition (id : String) (status : TaskStatus) :
    (transition id status).KeepsStatus := by
  apply (uses_perform trivial).bind
  intro reply
  cases reply <;> trivial

theorem keepsStatus_transition' (id : String) (status : TaskStatus) :
    (do let _ ← transition id status : StoreProgram Unit).KeepsStatus :=
  (keepsStatus_transition id status).bind fun _ => trivial

theorem keepsStatus_of_get {α : Type} {id : String} {next : Option Task → StoreProgram α}
    (hnone : (next none).KeepsStatus) (hsome : ∀ task, (next (some task)).KeepsStatus) :
    (get id >>= next).KeepsStatus := by
  apply (keepsStatus_get id).bind
  intro task
  cases task with
  | none => exact hnone
  | some task => exact hsome task

theorem keepsStatus_patch {id : String} {change : Task → Task}
    (hid : ∀ task, (change task).id = task.id)
    (hstatus : ∀ task, (change task).status = task.status) : (patch id change).KeepsStatus := by
  apply keepsStatus_of_get
  · trivial
  · intro task
    exact keepsStatus_save (hid task) (hstatus task)

theorem keepsStatus_forEach {α : Type} {body : α → StoreProgram Unit} (items : List α)
    (hbody : ∀ item, (body item).KeepsStatus) : (forEach body items).KeepsStatus := by
  induction items with
  | nil => trivial
  | cons item rest ih => exact (hbody item).bind fun _ => ih

theorem keepsStatus_trackDispatchFailure (taskId : String) :
    (trackDispatchFailure taskId).KeepsStatus := by
  apply keepsStatus_of_get
  · trivial
  · intro task
    exact keepsStatus_save rfl rfl

theorem keepsStatus_transitionToDeadletter (taskId : String) :
    (transitionToDeadletter taskId).KeepsStatus := by
  apply keepsStatus_of_get
  · trivial
  · intro task
    exact keepsStatus_transition' taskId .deadletter

theorem keepsStatus_block (id reason : String) : (block id reason).KeepsStatus := by
  apply keepsStatus_of_get
  · trivial
  · intro task
    dsimp only
    split
    · trivial
    · exact (keepsStatus_save rfl rfl).bind fun _ => keepsStatus_transition' id .blocked

theorem keepsStatus_acquireLease (taskId agentId : String) (now ttlMs : Nat) :
    (acquireLease taskId agentId now ttlMs).KeepsStatus := by
  apply keepsStatus_of_get
  · trivial
  · intro task
    dsimp only
    split
    · trivial
    split
    · trivial
    apply (keepsStatus_save rfl rfl).bind
    intro _
    split
    · exact keepsStatus_transition taskId .inProgress
    · trivial

theorem keepsStatus_releaseLease (taskId agentId : String) :
    (releaseLease taskId agentId).KeepsStatus := by
  apply keepsStatus_of_get
  · trivial
  · intro task
    dsimp only
    split
    · exact keepsStatus_transition' taskId .ready
    · trivial

theorem keepsStatus_cascadeOnCompletion (completedTaskId : String) :
    (cascadeOnCompletion completedTaskId).KeepsStatus := by
  apply keepsStatus_list.bind
  intro allTasks
  apply keepsStatus_forEach
  intro dependent
  split
  · exact keepsStatus_transition' dependent.id .ready
  · trivial

theorem keepsStatus_cascadeOnBlock (blockedTaskId : String) :
    (cascadeOnBlock blockedTaskId).KeepsStatus := by
  apply keepsStatus_list.bind
  intro allTasks
  apply keepsStatus_forEach
  intro dependent
  exact keepsStatus_block dependent.id _

theorem keepsStatus_handleExpireLease (taskId : String) (allTasks : List Task) (maxRetries : Nat)
    (backoffElapsed : Bool) :
    (handleExpireLease taskId allTasks maxRetries backoffElapsed).KeepsStatus := by
  apply keepsStatus_of_get
  · trivial
  · intro task
    apply (keepsStatus_save rfl rfl).bind
    intro _
    split
    · split
      · split
        · exact keepsStatus_transitionToDeadletter taskId
        · exact keepsStatus_transition' taskId .ready
        · trivial
      · split
        · exact keepsStatus_transition' taskId .ready
        · trivial
    · exact keepsStatus_transition' taskId .ready

theorem keepsStatus_executeAssignAction (taskId agent : String) (allTasks : List Task)
    (spawn : Option SpawnResult) (now ttlMs : Nat) :
    (executeAssignAction taskId agent allTasks spawn now ttlMs).KeepsStatus := by
  apply keepsStatus_of_get
  · trivial
  · intro latest
    dsimp only
    split
    · trivial
    apply (keepsStatus_acquireLease taskId agent now ttlMs).bind
    intro leasedTask
    apply (keepsStatus_save rfl rfl).bind
    intro _
    split
    · trivial
    · exact keepsStatus_patch (fun _ => rfl) fun _ => rfl
    · split
      · exact (keepsStatus_releaseLease taskId agent).attempt.bind fun _ => trivial
      · apply Uses.bind
        · exact keepsStatus_patch (fun _ => rfl) fun _ => rfl
        · intro _
          split
          · exact keepsStatus_transitionToDeadletter taskId
          · exact keepsStatus_transition' taskId .blocked

theorem keepsStatus_handleRunComplete (taskId : String) (errorClass : Option String) :
    (handleRunComplete taskId errorClass).KeepsStatus := by
  apply keepsStatus_of_get
  · trivial
  · intro currentTask
    dsimp only
    split
    · trivial
    apply Uses.bind
    · exact keepsStatus_patch (fun _ => rfl) fun _ => rfl
    · intro _
      apply (keepsStatus_trackDispatchFailure taskId).bind
      intro _
      apply keepsStatus_of_get
      · exact keepsStatus_transition' taskId .blocked
      · intro updatedTask
        dsimp only
        split
        · exact keepsStatus_transitionToDeadletter taskId
        · exact keepsStatus_transition' taskId .blocked

theorem keepsStatus_recoverByResult (taskId : String) (staleTask : Task)
    (runResult : Option RunResult) : (recoverByResult taskId staleTask runResult).KeepsStatus := by
  cases runResult with
  | none => exact keepsStatus_transition' taskId .ready
  | some runResult =>
      apply (keepsStatus_forEach _ fun status => keepsStatus_transition' taskId status).bind
      intro _
      split
      · exact (keepsStatus_cascadeOnCompletion taskId).attempt.bind fun _ => trivial
      · trivial

theorem keepsStatus_handleStaleHeartbeat (taskId : String) (agent : Option String)
    (forces : Bool) : (handleStaleHeartbeat taskId agent forces).KeepsStatus := by
  apply keepsStatus_of_get
  · trivial
  · intro staleTask
    dsimp only
    split
    · trivial
    split
    · trivial
    apply Uses.bind
    · rw [forceCompleteSession]
      split
      · exact (keepsStatus_handleRunComplete staleTask.id none).attempt.bind fun _ => trivial
      · trivial
    · intro _
      apply (keepsStatus_readRunResult taskId).bind
      exact keepsStatus_recoverByResult taskId staleTask

end StoreProgram

open StoreProgram

theorem HandlerCall.program_keepsStatus (call : HandlerCall) : call.program.KeepsStatus := by
  cases call with
  | promote taskId => exact keepsStatus_transition' taskId .ready
  | block taskId => exact keepsStatus_transition' taskId .blocked
  | requeue taskId =>
      apply Uses.bind
      · exact keepsStatus_patch (fun _ => rfl) fun _ => rfl
      · exact fun _ => keepsStatus_transition' taskId .ready
  | deadletter taskId => exact keepsStatus_transitionToDeadletter taskId
  | expireLease taskId allTasks maxRetries backoffElapsed =>
      exact keepsStatus_handleExpireLease taskId allTasks maxRetries backoffElapsed
  | staleHeartbeat taskId agent forces =>
      exact keepsStatus_handleStaleHeartbeat taskId agent forces
  | assign taskId agent allTasks spawn now ttlMs =>
      exact keepsStatus_executeAssignAction taskId agent allTasks spawn now ttlMs
  | runComplete taskId errorClass => exact keepsStatus_handleRunComplete taskId errorClass
  | cascadeOnCompletion taskId => exact keepsStatus_cascadeOnCompletion taskId
  | cascadeOnBlock taskId => exact keepsStatus_cascadeOnBlock taskId

theorem handlerPool_keepsStatus (store : Store) (calls : List HandlerCall)
    (others : List (StoreProgram Unit)) :
    (handlerPool store calls others).Uses (· < calls.length) StoreOp.KeepsStatus := by
  intro index program hindex hprogram
  have hlt : index < (calls.map HandlerCall.program).length := by simpa using hindex
  rw [handlerPool, List.getElem?_append_left hlt, List.getElem?_map,
    Option.map_eq_some_iff] at hprogram
  obtain ⟨call, -, rfl⟩ := hprogram
  exact call.program_keepsStatus

/-- The guard of a turn: the handlers are the programs below the index. -/
def UpToDate (handlers index : Nat) (_ : Unit) (op : StoreOp) (store : Store) : Prop :=
  index < handlers → op.upToDate store = true

def statusIn (pool : HandlerPool) (id : String) : Option TaskStatus :=
  (pool.shared.tasks.get? id).map Task.status

def upToDateTurn (pool : HandlerPool) (turn : Turn Unit) : Bool :=
  pool.tested (fun _ _ op store => op.upToDate store) turn

theorem guarded_of_upToDateTurn {handlers : Nat} (pool : HandlerPool) (turn : Turn Unit)
    (htest : upToDateTurn pool turn = true) : Guarded (UpToDate handlers) pool turn :=
  guarded_of_tested (fun _ _ _ _ hcurrent _ => hcurrent) htest

def failingTask : Task where
  id := "T"
  status := .inProgress
  lease := some ⟨"a", 100⟩
  metadata := { dispatchFailures := some 2, sessionId := some "s" }

end Aof
