import Aof.Dispatch.HandlerPrograms

/-!
# Handlers without interruption

A handler whose operations follow each other without a turn of anybody else is the command of the
scheduler's poll.
-/

namespace Aof

namespace StoreProgram

variable {α β : Type}

def uninterrupted : StoreProgram α → Command Store α
  | .ret value => pure value
  | .throw => .throw
  | .await op rest => fun store => uninterrupted (rest (store.respond op).1) (store.respond op).2

@[simp]
theorem uninterrupted_ret (value : α) :
    uninterrupted (.ret value : StoreProgram α) = pure value := rfl

@[simp]
theorem uninterrupted_throw : uninterrupted (.throw : StoreProgram α) = Command.throw := rfl

@[simp]
theorem uninterrupted_bind (program : StoreProgram α) (next : α → StoreProgram β) :
    (program >>= next).uninterrupted =
      program.uninterrupted >>= fun value => (next value).uninterrupted := by
  induction program with
  | ret value => rfl
  | throw => rfl
  | await op rest ih =>
      funext store
      exact congrFun (ih (store.respond op).1) (store.respond op).2

@[simp]
theorem uninterrupted_attempt (program : StoreProgram α) :
    (uninterrupted program.attempt >>= fun _ => pure ()) = program.uninterrupted.attempt := by
  induction program with
  | ret value => rfl
  | throw => rfl
  | await op rest ih =>
      funext store
      exact congrFun (ih (store.respond op).1) (store.respond op).2

@[simp]
theorem uninterrupted_get (id : String) : (get id).uninterrupted = Store.get id := rfl

@[simp]
theorem uninterrupted_save (read saved : Task) :
    (save read saved).uninterrupted = Store.save saved := rfl

@[simp]
theorem uninterrupted_list : list.uninterrupted = Store.list := rfl

@[simp]
theorem uninterrupted_readRunResult (id : String) :
    (readRunResult id).uninterrupted = Store.readRunResult id := rfl

@[simp]
theorem uninterrupted_transition (id : String) (status : TaskStatus) :
    (transition id status).uninterrupted = Store.transition id status := by
  funext store
  rw [transition, uninterrupted_bind]
  have hreply : (uninterrupted (perform (.transition id status))).run store =
      (some ((Store.transition id status).run store).1,
        ((Store.transition id status).run store).2) := rfl
  apply (Command.run_bind_of_some hreply).trans
  match hrun : (Store.transition id status).run store with
  | (some task, next) => exact hrun.symm
  | (none, next) => exact hrun.symm

theorem uninterrupted_forEach (body : α → StoreProgram Unit) (items : List α) :
    (forEach body items).uninterrupted = items.forM fun item => (body item).uninterrupted := by
  induction items with
  | nil => rfl
  | cons item rest ih =>
      rw [forEach, uninterrupted_bind, ih]
      rfl

@[simp]
theorem uninterrupted_ite (condition : Prop) [Decidable condition] (first second : StoreProgram α) :
    uninterrupted (if condition then first else second) =
      if condition then first.uninterrupted else second.uninterrupted :=
  apply_ite uninterrupted condition first second

theorem uninterrupted_of_get {id : String} {next : Option Task → StoreProgram α}
    {command : Option Task → Command Store α}
    (hnext : ∀ task, (next task).uninterrupted = command task) :
    (get id >>= next).uninterrupted = Store.get id >>= command := by
  rw [uninterrupted_bind, funext hnext]
  rfl

@[simp]
theorem uninterrupted_patch (id : String) (change : Task → Task) :
    (patch id change).uninterrupted = Store.patch id change := by
  apply uninterrupted_of_get
  intro task
  cases task <;> rfl

@[simp]
theorem uninterrupted_trackDispatchFailure (taskId : String) :
    (trackDispatchFailure taskId).uninterrupted = Aof.trackDispatchFailure taskId := by
  apply uninterrupted_of_get
  intro task
  cases task <;> rfl

@[simp]
theorem uninterrupted_transitionToDeadletter (taskId : String) :
    (transitionToDeadletter taskId).uninterrupted = Aof.transitionToDeadletter taskId := by
  apply uninterrupted_of_get
  intro task
  cases task <;> simp

@[simp]
theorem uninterrupted_block (id reason : String) :
    (block id reason).uninterrupted = Store.block id reason := by
  apply uninterrupted_of_get
  intro task
  cases task <;> simp

@[simp]
theorem uninterrupted_acquireLease (taskId agentId : String) (now ttlMs : Nat) :
    (acquireLease taskId agentId now ttlMs).uninterrupted =
      Store.acquireLease taskId agentId now ttlMs := by
  apply uninterrupted_of_get
  intro task
  cases task <;> simp

@[simp]
theorem uninterrupted_releaseLease (taskId agentId : String) :
    (releaseLease taskId agentId).uninterrupted = Store.releaseLease taskId agentId := by
  apply uninterrupted_of_get
  intro task
  cases task <;> simp

@[simp]
theorem uninterrupted_cascadeOnCompletion (completedTaskId : String) :
    (cascadeOnCompletion completedTaskId).uninterrupted =
      Aof.cascadeOnCompletion completedTaskId := by
  simp [cascadeOnCompletion, Aof.cascadeOnCompletion, uninterrupted_forEach]

@[simp]
theorem uninterrupted_cascadeOnBlock (blockedTaskId : String) :
    (cascadeOnBlock blockedTaskId).uninterrupted = Aof.cascadeOnBlock blockedTaskId := by
  simp [cascadeOnBlock, Aof.cascadeOnBlock, uninterrupted_forEach]

theorem uninterrupted_handleExpireLease (taskId : String) (allTasks : List Task)
    (maxRetries : Nat) (backoffElapsed : Bool) :
    (handleExpireLease taskId allTasks maxRetries backoffElapsed).uninterrupted =
      Aof.handleExpireLease taskId allTasks maxRetries backoffElapsed := by
  apply uninterrupted_of_get
  intro task
  cases task with
  | none => rfl
  | some task =>
      dsimp only
      cases shouldAllowSpawnFailedRequeue task maxRetries backoffElapsed <;> simp

@[simp]
theorem uninterrupted_handleRunComplete (taskId : String) (errorClass : Option String) :
    (handleRunComplete taskId errorClass).uninterrupted =
      Aof.handleRunComplete taskId errorClass := by
  apply uninterrupted_of_get
  intro task
  cases task with
  | none => rfl
  | some task =>
      dsimp only
      rw [uninterrupted_ite, uninterrupted_bind, uninterrupted_patch]
      apply ite_congr rfl fun _ => rfl
      intro _
      congr 1
      funext _
      rw [uninterrupted_bind, uninterrupted_trackDispatchFailure]
      congr 1
      funext _
      apply uninterrupted_of_get
      intro updatedTask
      cases updatedTask <;> simp

theorem uninterrupted_assign (taskId agent : String) (allTasks : List Task)
    (spawn : Option SpawnResult) (now ttlMs : Nat) :
    (executeAssignAction taskId agent allTasks spawn now ttlMs).uninterrupted =
      assignWith taskId agent allTasks spawn now ttlMs := by
  cases spawn with
  | none =>
      apply uninterrupted_of_get
      intro latest
      cases latest with
      | none => rfl
      | some latest => simp [Command.bind_unit, -bind_pure_comp]
  | some spawn =>
      apply uninterrupted_of_get
      intro latest
      cases latest with
      | none => rfl
      | some latest =>
          cases spawn with
          | success sessionId => simp [-bind_pure_comp]
          | failure error => simp [-bind_pure_comp]

theorem uninterrupted_recoverByResult (taskId : String) (staleTask : Task)
    (runResult : Option RunResult) : (recoverByResult taskId staleTask runResult).uninterrupted =
      Aof.recoverByResult taskId staleTask runResult := by
  cases runResult with
  | none => simp [recoverByResult, Aof.recoverByResult]
  | some runResult =>
      simp [recoverByResult, Aof.recoverByResult, uninterrupted_forEach, -bind_pure_comp]

theorem uninterrupted_handleStaleHeartbeat (taskId : String) (agent : Option String)
    (forces : Bool) : (handleStaleHeartbeat taskId agent forces).uninterrupted =
      recoverWith taskId agent forces := by
  apply uninterrupted_of_get
  intro staleTask
  cases staleTask with
  | none => rfl
  | some staleTask =>
      simp [forceCompleteSession, Aof.forceCompleteSession, uninterrupted_recoverByResult,
        -bind_pure_comp]

end StoreProgram

/-- The handler of a poll, or the operation beside one. -/
def HandlerCall.command : HandlerCall → Command Store Unit
  | promote taskId => handlePromote taskId
  | block taskId => handleBlock taskId
  | requeue taskId => handleRequeue taskId
  | deadletter taskId => handleDeadletter taskId
  | expireLease taskId allTasks maxRetries backoffElapsed =>
      handleExpireLease taskId allTasks maxRetries backoffElapsed
  | staleHeartbeat taskId agent forces => recoverWith taskId agent forces
  | assign taskId agent allTasks spawn now ttlMs =>
      assignWith taskId agent allTasks spawn now ttlMs
  | runComplete taskId errorClass => handleRunComplete taskId errorClass
  | cascadeOnCompletion taskId => Aof.cascadeOnCompletion taskId
  | cascadeOnBlock taskId => Aof.cascadeOnBlock taskId

open StoreProgram in
theorem HandlerCall.uninterrupted_program (call : HandlerCall) :
    call.program.uninterrupted = call.command := by
  cases call with
  | promote taskId => simp [program, command, StoreProgram.handlePromote, handlePromote]
  | block taskId => simp [program, command, StoreProgram.handleBlock, handleBlock]
  | requeue taskId => simp [program, command, StoreProgram.handleRequeue, handleRequeue]
  | deadletter taskId => exact uninterrupted_transitionToDeadletter taskId
  | expireLease taskId allTasks maxRetries backoffElapsed =>
      exact uninterrupted_handleExpireLease taskId allTasks maxRetries backoffElapsed
  | staleHeartbeat taskId agent forces =>
      exact uninterrupted_handleStaleHeartbeat taskId agent forces
  | assign taskId agent allTasks spawn now ttlMs =>
      exact uninterrupted_assign taskId agent allTasks spawn now ttlMs
  | runComplete taskId errorClass => exact uninterrupted_handleRunComplete taskId errorClass
  | cascadeOnCompletion taskId => exact uninterrupted_cascadeOnCompletion taskId
  | cascadeOnBlock taskId => exact uninterrupted_cascadeOnBlock taskId

end Aof
