import Aof.Proof.Recovery
import Aof.Service.AofService

/-!
# Ordinary changes

All commands but a few make the same small changes to the tasks they are about.  A relation between
stores that allows these changes is kept by every command.
-/

namespace Aof

/-- A change to a stored task that leaves the reason of a block alone. -/
inductive Ordinary (task : Task) : Task → Prop
  | transition {newStatus : TaskStatus} (hvalid : isValidTransition task.status newStatus = true) :
      Ordinary task (Store.transitioned task newStatus)
  | lease (lease : Option TaskLease) : Ordinary task { task with lease }
  | session (sessionId : String) : Ordinary task (task.withSession sessionId)
  | errorClass (errorClass : Option String) : Ordinary task (task.withErrorClass errorClass)
  | dispatchFailure : Ordinary task task.withDispatchFailure
  | workflow (state : WorkflowState) : Ordinary task (task.withWorkflowState state)
  | same : Ordinary task task

theorem Ordinary.id_eq {task changed : Task}
    (h : Ordinary task changed) : changed.id = task.id := by
  cases h <;> rfl

/-- The relation allows ordinary changes to the tasks under the given ids, new tasks and run
results. -/
structure AdmitsOwn (R : Store → Store → Prop) (own : String → Prop) : Prop where
  put : ∀ store old new, store.tasks.get? new.id = some old → Ordinary old new → own new.id →
    R store (store.put new)
  create : ∀ store task, store.tasks.get? task.id = none → task.metadata = {} → own task.id →
    R store (store.put task)
  result : ∀ store taskId result, own taskId →
    R store { store with runResults := store.runResults.set taskId result }

/-- It allows the cascades of their completions as well. -/
structure Admits (R : Store → Store → Prop) (own : String → Prop) : Prop extends
    AdmitsOwn R own where
  cascade : ∀ completedTaskId store, own completedTaskId →
    Command.Relates R (cascadeOnCompletion completedTaskId) store

section

variable {R : Store → Store → Prop} [IsPreorder Store R] {own : String → Prop} {store : Store}
variable {taskId : String}

omit [IsPreorder Store R] in
theorem relates_get_then {α : Type} {next : Option Task → Command Store α}
    (hnone : store.tasks.get? taskId = none → Command.Relates R (next none) store)
    (hsome : ∀ task, store.tasks.get? taskId = some task → task.id = taskId →
      Command.Relates R (next (some task)) store) :
    Command.Relates R (Store.get taskId >>= next) store := by
  show Command.Relates R (next (store.tasks.get? taskId)) store
  cases hget : store.tasks.get? taskId with
  | none => exact hnone hget
  | some task => exact hsome task hget (store.keyed taskId task hget)

variable {next : Option Task → Command Store Unit} {agent : String} {now ttlMs : Nat}
  {conduct : ExecutorConduct}

theorem after_get_none (hget : store.tasks.get? taskId = none) :
    (Store.get taskId >>= next).after store = (next none).after store := by
  show (next (store.tasks.get? taskId)).after store = _
  rw [hget]

variable {task : Task}

theorem after_get_some (hget : store.tasks.get? taskId = some task) :
    (Store.get taskId >>= next).after store = (next (some task)).after store := by
  show (next (store.tasks.get? taskId)).after store = _
  rw [hget]

section

variable (hadmits : AdmitsOwn R own) (hown : own taskId)
include hadmits hown

omit [IsPreorder Store R] in
theorem AdmitsOwn.save {old new : Task} (hget : store.tasks.get? taskId = some old)
    (hordinary : Ordinary old new) : Command.Relates R (Store.save new) store := by
  have hid : new.id = taskId := hordinary.id_eq.trans (store.keyed taskId old hget)
  exact hadmits.put store old new (hid ▸ hget) hordinary (hid ▸ hown)

theorem AdmitsOwn.patch {change : Task → Task} (hchange : ∀ task, Ordinary task (change task)) :
    Command.Relates R (Store.patch taskId change) store := by
  apply relates_get_then
  · exact fun _ => .pure () store
  · exact fun task hget _ => hadmits.save hown hget (hchange task)

theorem AdmitsOwn.transition (newStatus : TaskStatus) :
    Command.Relates R (Store.transition taskId newStatus) store := by
  unfold Command.Relates
  rcases Store.transition_cases store taskId newStatus with hsame | ⟨task, hget, hvalid, -, hrun⟩
  · rw [hsame]
    exact refl_of R store
  · rw [hrun]
    have hid : task.id = taskId := store.keyed taskId task hget
    exact hadmits.put store task _ (hid ▸ hget) (.transition hvalid) (hid ▸ hown)

theorem AdmitsOwn.transition_then (newStatus : TaskStatus) :
    Command.Relates R (do let _ ← Store.transition taskId newStatus) store :=
  (hadmits.transition hown newStatus).bind fun _ t _ => .pure () t

theorem AdmitsOwn.transitionToDeadletter :
    Command.Relates R (transitionToDeadletter taskId) store := by
  apply relates_get_then
  · exact fun _ => .throw store
  · exact fun _ _ _ => hadmits.transition_then hown .deadletter

theorem AdmitsOwn.trackDispatchFailure : Command.Relates R (trackDispatchFailure taskId) store := by
  apply relates_get_then
  · exact fun _ => .throw store
  · exact fun task hget _ => hadmits.save hown hget .dispatchFailure

theorem AdmitsOwn.handleExpireLease (allTasks : List Task) (maxRetries : Nat)
    (backoffElapsed : Bool) :
    Command.Relates R (handleExpireLease taskId allTasks maxRetries backoffElapsed) store := by
  apply relates_get_then
  · exact fun _ => .pure () store
  intro task hget _
  refine Command.Relates.bind (hadmits.save hown hget (.lease none)) fun _ t _ => ?_
  split
  · split
    · split
      · exact hadmits.transitionToDeadletter hown
      · exact hadmits.transition_then hown .ready
      · exact .pure () t
    · split
      · exact hadmits.transition_then hown .ready
      · exact .pure () t
  · exact hadmits.transition_then hown .ready

theorem AdmitsOwn.handleRequeue : Command.Relates R (handleRequeue taskId) store := by
  apply (hadmits.patch hown fun _ => .same).bind
  exact fun _ t _ => hadmits.transition_then hown .ready

theorem AdmitsOwn.acquireLease (agentId : String) (now ttlMs : Nat) :
    Command.Relates R (Store.acquireLease taskId agentId now ttlMs) store := by
  apply relates_get_then
  · exact fun _ => .throw store
  intro task hget _
  dsimp only
  split
  · exact .throw store
  split
  · exact .throw store
  refine Command.Relates.bind (hadmits.save hown hget (.lease _)) fun _ t _ => ?_
  split
  · exact hadmits.transition hown .inProgress
  · exact .pure _ t

theorem AdmitsOwn.releaseLease (agentId : String) :
    Command.Relates R (Store.releaseLease taskId agentId) store := by
  apply relates_get_then
  · exact fun _ => .throw store
  intro task _ _
  dsimp only
  split
  · exact hadmits.transition_then hown .ready
  · exact .throw store

end

section

variable (hadmits : AdmitsOwn R own) (hown : own taskId)
include hadmits hown

omit [IsPreorder Store R] in
theorem AdmitsOwn.leased {t : Store}
    (hleased : (Store.acquireLease taskId agent now ttlMs).run store = (some task, t)) :
    Command.Relates R (Store.save task) t :=
  hadmits.save hown (id_of_acquireLease hleased ▸ acquireLease_stored hleased) .same

theorem AdmitsOwn.assignWith {agent : String} {allTasks : List Task} {spawn : Option SpawnResult}
    {now ttlMs : Nat}
    (hspawn : ∀ error, spawn = some (.failure error) → error ≠ "no-plugin-attached" → ∀ t : Store,
      Command.Relates R (Store.patch taskId fun task => task.withSpawnFailure error) t) :
    Command.Relates R (assignWith taskId agent allTasks spawn now ttlMs) store := by
  cases spawn with
  | none =>
      apply relates_get_then
      · exact fun _ => .pure () store
      intro task _ _
      dsimp only
      split
      · exact .pure () store
      exact (hadmits.acquireLease hown agent now ttlMs).bind fun _ t hleased =>
        hadmits.leased hown hleased
  | some spawn =>
      apply relates_get_then
      · exact fun _ => .pure () store
      intro task _ _
      dsimp only
      split
      · exact .pure () store
      refine (hadmits.acquireLease hown agent now ttlMs).bind fun leasedTask t hleased => ?_
      refine (hadmits.leased hown hleased).bind fun _ u _ => ?_
      split
      · exact hadmits.patch hown fun _ => .session _
      · rename_i error
        split
        · exact (hadmits.releaseLease hown agent).attempt
        · rename_i hplugin
          refine (hspawn error rfl hplugin u).bind fun _ v _ => ?_
          split
          · exact hadmits.transitionToDeadletter hown
          · exact hadmits.transition_then hown .blocked

theorem AdmitsOwn.handleRunComplete (errorClass : Option String) :
    Command.Relates R (handleRunComplete taskId errorClass) store := by
  apply relates_get_then
  · exact fun _ => .pure () store
  intro task _ _
  dsimp only
  split
  · exact .pure () store
  refine (hadmits.patch hown fun _ => .errorClass errorClass).bind fun _ t _ => ?_
  refine (hadmits.trackDispatchFailure hown).bind fun _ u _ => ?_
  apply relates_get_then
  · exact fun _ => hadmits.transition_then hown .blocked
  intro updatedTask _ _
  dsimp only
  split
  · exact hadmits.transitionToDeadletter hown
  · exact hadmits.transition_then hown .blocked

theorem AdmitsOwn.transitions (statuses : List TaskStatus) :
    Command.Relates R (statuses.forM fun targetStatus => do
      let _ ← Store.transition taskId targetStatus) store :=
  .forM statuses (fun targetStatus _ _ => hadmits.transition_then hown targetStatus) store

end

theorem Admits.recoverWith (hadmits : Admits R own) (hown : own taskId) (agent : Option String)
    (forces : Bool) : Command.Relates R (recoverWith taskId agent forces) store := by
  apply relates_get_then
  · exact fun _ => .pure () store
  intro staleTask _ hid
  dsimp only
  split
  · exact .pure () store
  split
  · exact .pure () store
  have hforced : Command.Relates R (forceCompleteSession staleTask forces) store := by
    unfold forceCompleteSession
    rw [hid]
    split
    · exact (hadmits.handleRunComplete hown none).attempt
    · exact .pure () store
  refine hforced.bind fun _ t _ => ?_
  refine Command.Relates.bind (refl_of R t) fun runResult u _ => ?_
  unfold recoverByResult
  split
  · exact hadmits.transition_then hown .ready
  · refine (hadmits.transitions hown _).bind fun _ v _ => ?_
    split
    · exact (hadmits.cascade taskId v hown).attempt
    · exact .pure () v

section

variable (hadmits : AdmitsOwn R own)
include hadmits

theorem AdmitsOwn.persistWorkflowState (hown : own task.id)
    (hget : store.tasks.get? task.id = some task) (state : WorkflowState) :
    Command.Relates R (persistWorkflowState task state) store :=
  (hadmits.save hown hget (.workflow state)).bind fun _ t _ => .pure _ t

theorem AdmitsOwn.dispatchDAGHop (hown : own task.id)
    (hget : store.tasks.get? task.id = some task) (hopId : String) (spawn : SpawnResult)
    (timestamp : String) : Command.Relates R (dispatchDAGHop task hopId spawn timestamp) store := by
  unfold Aof.dispatchDAGHop
  split
  · exact .throw store
  split
  · exact (hadmits.persistWorkflowState hown hget _).bind fun _ t _ => .pure true t
  · exact .pure false store

theorem AdmitsOwn.pollDispatch (hown : own taskId) (hopId : String) (spawn : SpawnResult)
    (timestamp : String) : Command.Relates R (pollDispatch taskId hopId spawn timestamp) store := by
  apply relates_get_then
  · exact fun _ => .pure () store
  rintro task hget rfl
  dsimp only
  split
  · exact .pure () store
  split
  · exact .pure () store
  exact (hadmits.dispatchDAGHop hown hget hopId spawn timestamp).bind fun _ t _ => .pure () t

theorem AdmitsOwn.onRunComplete (hown : own taskId) (hopId timestamp : String) :
    Command.Relates R (onRunComplete taskId hopId timestamp) store := by
  apply relates_get_then
  · exact fun _ => .pure () store
  intro task _ _
  dsimp only
  split
  swap
  · exact .pure () store
  apply Command.Relates.attempt
  refine (hadmits.trackDispatchFailure hown).bind fun _ t _ => ?_
  apply relates_get_then
  · exact fun _ => .pure () t
  rintro updatedTask hget rfl
  dsimp only
  split
  · exact hadmits.transitionToDeadletter hown
  split
  · exact .pure () t
  · exact (hadmits.persistWorkflowState hown hget _).bind fun _ u _ => .pure () u

theorem AdmitsOwn.handleDAGHopCompletion (hown : own task.id)
    (hget : store.tasks.get? task.id = some task) (runResult : RunResult) (timestamp : String) :
    Command.Relates R (handleDAGHopCompletion task runResult timestamp) store ∧
      ∀ answer changed t, (handleDAGHopCompletion task runResult timestamp).run store =
        (some (answer, changed), t) →
        changed.id = task.id ∧ t.tasks.get? task.id = some changed := by
  unfold Command.Relates
  rcases handleDAGHopCompletion_cases task runResult timestamp store with
    hrun | hrun | ⟨workflow, hopId, result, hcompletion⟩
  · rw [hrun]
    refine ⟨refl_of R store, fun answer changed t hsame => ?_⟩
    cases hsame
    exact ⟨rfl, hget⟩
  · rw [hrun]
    exact ⟨refl_of R store, fun answer changed t hsame => nomatch hsame⟩
  · rw [hcompletion.run]
    refine ⟨hadmits.put store task _ hget (.workflow _) hown, fun answer changed t hsame => ?_⟩
    cases hsame
    exact ⟨rfl, (Store.tasks_put ..).trans (if_pos rfl)⟩

end

theorem Admits.completeDAGSession (hadmits : Admits R own) (hown : own task.id)
    (hget : store.tasks.get? task.id = some task) (runResult : RunResult)
    (executor : Option SpawnResult) (timestamp : String) :
    Command.Relates R (completeDAGSession task runResult executor timestamp) store := by
  obtain ⟨hcompletes, hstored⟩ := hadmits.handleDAGHopCompletion hown hget runResult timestamp
  refine hcompletes.bind fun answer t hrun => ?_
  obtain ⟨result, changed⟩ := answer
  obtain ⟨hid, hchanged⟩ := hstored result changed t hrun
  rw [← hid] at hown hchanged
  dsimp only
  split
  · split
    · refine (hadmits.transition hown .review).bind fun _ u _ => ?_
      exact (hadmits.cascade changed.id u hown).attempt
    · exact hadmits.transition_then hown .blocked
  split
  · exact hadmits.transition_then hown .review
  split
  · exact (hadmits.dispatchDAGHop hown hchanged _ _ timestamp).bind fun _ u _ => .pure () u
  · exact .pure () t

section

variable (hadmits : AdmitsOwn R own)
include hadmits

theorem AdmitsOwn.checkHopTimeouts (input : PollInput) (hops : List Hop) (hown : own task.id)
    (hget : store.tasks.get? task.id = some task) :
    Command.Relates R (hops.foldlM (checkHopTimeout input) task) store :=
  relates_foldlM_checkHopTimeout
    (fun s changed state hid hget => hadmits.put s changed _ hget (.workflow state) (hid ▸ hown))
    input hops hget rfl

theorem AdmitsOwn.checkTaskTimeouts (hown : own taskId) (input : PollInput) :
    Command.Relates R (checkTaskTimeouts input taskId) store := by
  apply relates_get_then
  · exact fun _ => .pure () store
  rintro task hget rfl
  dsimp only
  split
  · exact (hadmits.checkHopTimeouts input _ hown hget).bind fun _ t _ => .pure () t
  · exact .pure () store

theorem AdmitsOwn.applyCompletionOutcome (hown : own task.id) (outcome : CompletionOutcome) :
    Command.Relates R (applyCompletionOutcome task outcome) store := by
  have hfold : ∀ (statuses : List TaskStatus) (current : Task) (s : Store), own current.id →
      Command.Relates R (statuses.foldlM applyCompletionTransition current) s := by
    intro statuses
    induction statuses with
    | nil => exact fun current s _ => .pure current s
    | cons status rest ih =>
        intro current s hcurrent
        rw [List.foldlM_cons]
        unfold applyCompletionTransition
        split
        · exact ih current s hcurrent
        · split
          · refine (hadmits.transition hcurrent status).bind fun next t hrun => ?_
            exact ih next t (transition_id hrun ▸ hcurrent)
          · exact ih current s hcurrent
  exact (hfold _ task store hown).bind fun _ t _ => .pure () t

theorem AdmitsOwn.writeRunResult (hown : own taskId) (result : RunResult) :
    Command.Relates R (Store.writeRunResult taskId result) store := by
  apply relates_get_then
  · exact fun _ => .throw store
  intro task _ _
  dsimp only
  split
  · exact hadmits.result store taskId result hown
  · exact .throw store

end

theorem Admits.handleCompletionReport (hadmits : Admits R own) {report : CompletionReport}
    (hown : own report.taskId) : Command.Relates R (handleCompletionReport report) store := by
  apply relates_get_then
  · exact fun _ => .pure () store
  intro task _ hid
  dsimp only
  split
  swap
  · exact .pure () store
  refine (hadmits.writeRunResult hown _).bind fun _ t _ => ?_
  refine (hadmits.applyCompletionOutcome (hid ▸ hown) report.outcome).bind fun _ u _ => ?_
  split
  · exact (hadmits.cascade report.taskId u hown).attempt
  · exact .pure () u

theorem Admits.visitSession (hadmits : Admits R own) (hown : own task.id)
    (hget : store.tasks.get? task.id = some task) (executor : Option SpawnResult)
    (timestamp : String) : Command.Relates R (visitSession task executor timestamp) store := by
  refine Command.Relates.bind (refl_of R store) fun runResult t hread => ?_
  rw [Store.run_readRunResult] at hread
  obtain ⟨-, rfl⟩ := Prod.mk.inj hread
  split
  · exact .pure () store
  split
  · exact (hadmits.completeDAGSession hown hget _ executor timestamp).attempt
  · refine (hadmits.applyCompletionOutcome hown _).bind fun _ u _ => ?_
    split
    · exact (hadmits.cascade task.id u hown).attempt
    · exact .pure () u

theorem Admits.visitCurrent (hadmits : Admits R own) (hown : own taskId)
    (executor : Option SpawnResult) (timestamp : String) :
    Command.Relates R (visitCurrent taskId executor timestamp) store := by
  apply relates_get_then
  · exact fun _ => .pure () store
  rintro task hget rfl
  dsimp only
  split
  · exact hadmits.visitSession hown hget executor timestamp
  · exact .pure () store

theorem AdmitsOwn.aofTaskComplete (hadmits : AdmitsOwn R own) (hown : own taskId) :
    Command.Relates R (aofTaskComplete taskId) store := by
  apply relates_get_then
  · exact fun _ => .throw store
  rintro task - rfl
  dsimp only
  split
  · exact .throw store
  have hstart : Command.Relates R (startForCompletion task) store := by
    unfold startForCompletion
    split
    · exact .pure task store
    · split
      · refine (hadmits.transition hown .ready).bind fun _ t _ => ?_
        exact hadmits.transition hown .inProgress
      · exact hadmits.transition hown .inProgress
  refine hstart.bind fun started t _ => ?_
  split
  · refine (hadmits.transition hown .review).bind fun _ u _ => ?_
    exact hadmits.transition_then hown .done
  · exact hadmits.transition_then hown .done

theorem AdmitsOwn.createTask (hadmits : AdmitsOwn R own) (hown : own task.id)
    (hnew : task.metadata = {}) : Command.Relates R (Store.create task) store := by
  apply relates_get_then
  · exact fun hnone => hadmits.create store task hnone hnew hown
  · exact fun _ _ _ => .throw store

theorem AdmitsOwn.evaluateMurmurTrigger (hadmits : AdmitsOwn R own) {review : MurmurReview}
    (hown : own review.reviewTaskId) (input : PollInput) (currentInProgress : Nat) :
    Command.Relates R (evaluateMurmurTrigger input currentInProgress review) store := by
  unfold Aof.evaluateMurmurTrigger
  split
  · exact .pure () store
  apply Command.Relates.attempt
  refine (hadmits.createTask hown rfl).bind fun _ t _ => ?_
  refine (hadmits.transition hown .ready).bind fun _ u _ => ?_
  split
  · exact .pure () u
  apply Command.Relates.attempt
  refine (hadmits.acquireLease hown _ _ _).bind fun _ v _ => ?_
  split
  · exact .pure () v
  · exact hadmits.transition_then hown .ready

/-- The commands that may announce the completion of their task to the others. -/
def SchedulerAction.announces : SchedulerAction → Bool
  | .staleHeartbeat .. => true
  | _ => false

def SchedulerOperation.announces : SchedulerOperation → Bool
  | .report _ | .visit .. | .cascade _ => true
  | _ => false

section

variable {action : SchedulerAction} {conduct : ExecutorConduct} (hown : own action.taskId)
  (hspawn : ∀ error, action.failedSpawn conduct = some error → ∀ t : Store,
    Command.Relates R (Store.patch action.taskId fun task => task.withSpawnFailure error) t)
include hown hspawn

theorem AdmitsOwn.handler (hadmits : AdmitsOwn R own) (hquiet : action.announces = false) :
    Command.Relates R (action.handler conduct) store := by
  cases action with
  | expireLease taskId allTasks maxRetries backoffElapsed =>
      exact hadmits.handleExpireLease hown allTasks maxRetries backoffElapsed
  | staleHeartbeat => cases hquiet
  | requeue taskId => exact hadmits.handleRequeue hown
  | promote taskId => exact hadmits.transition_then hown .ready
  | assign taskId agent allTasks spawn now ttlMs =>
      apply hadmits.assignWith hown
      intro error hanswer hplugin
      apply hspawn
      split at hanswer
      · cases hanswer
      · rename_i hthrows
        cases hanswer
        rw [SchedulerAction.failedSpawn, if_neg]
        rintro (h | h)
        · exact hthrows h
        · exact hplugin h
  | deadletter taskId => exact hadmits.transitionToDeadletter hown
  | block taskId => exact hadmits.transition_then hown .blocked
  | runComplete taskId errorClass => exact (hadmits.handleRunComplete hown errorClass).attempt
  | hopDispatch taskId hopId spawn timestamp =>
      exact (hadmits.pollDispatch hown hopId spawn timestamp).attempt
  | hopComplete taskId hopId timestamp => exact (hadmits.onRunComplete hown hopId timestamp).attempt

theorem Admits.handler (hadmits : Admits R own) :
    Command.Relates R (action.handler conduct) store := by
  cases action with
  | staleHeartbeat taskId agent => exact hadmits.recoverWith hown agent _
  | _ => exact hadmits.toAdmitsOwn.handler hown hspawn rfl

end

def SchedulerOperation.ordinary : SchedulerOperation → Bool
  | .block .. | .unblock _ | .cancel _ | .statusUpdate .. => false
  | _ => true

variable {operation : SchedulerOperation}

theorem AdmitsOwn.operate (hadmits : AdmitsOwn R own) (hown : own operation.taskId)
    (hordinary : operation.ordinary = true) (hquiet : operation.announces = false) :
    Command.Relates R operation.command store := by
  cases operation with
  | complete taskId => exact hadmits.aofTaskComplete hown
  | writeResult taskId result => exact hadmits.writeRunResult hown result
  | runComplete taskId errorClass => exact hadmits.handleRunComplete hown errorClass
  | hopComplete taskId hopId timestamp => exact hadmits.onRunComplete hown hopId timestamp
  | hopTimeouts input taskId => exact hadmits.checkTaskTimeouts hown input
  | hopDispatch taskId hopId spawn timestamp =>
      exact hadmits.pollDispatch hown hopId spawn timestamp
  | review input currentInProgress team =>
      exact hadmits.evaluateMurmurTrigger hown input currentInProgress
  | report | visit | cascade => cases hquiet
  | statusUpdate | block | unblock | cancel => cases hordinary

theorem Admits.operate (hadmits : Admits R own) (hown : own operation.taskId)
    (hordinary : operation.ordinary = true) : Command.Relates R operation.command store := by
  cases operation with
  | report message => exact hadmits.handleCompletionReport hown
  | visit taskId executor timestamp => exact hadmits.visitCurrent hown executor timestamp
  | cascade completedTaskId => exact hadmits.cascade completedTaskId store hown
  | statusUpdate | block | unblock | cancel => cases hordinary
  | _ => exact hadmits.toAdmitsOwn.operate hown rfl rfl

inductive Marked (task : Task) : Task → Prop
  | reason (blockReason : Option String) (retryCount : Option Nat) :
      Marked task { task with metadata := { task.metadata with blockReason, retryCount } }
  | cancelled : Marked task { task with status := .cancelled, lease := none }

def AdmitsMarks (R : Store → Store → Prop) (own : String → Prop) : Prop :=
  ∀ store old new, store.tasks.get? new.id = some old → Marked old new → own new.id →
    R store (store.put new)

theorem AdmitsOwn.block (hadmits : AdmitsOwn R own) (hmarks : AdmitsMarks R own) (hown : own taskId)
    (reason : String) : Command.Relates R (Store.block taskId reason) store := by
  apply relates_get_then
  · exact fun _ => .throw store
  rintro task hget rfl
  dsimp only
  split
  · exact .throw store
  have hsave : Command.Relates R (Store.save
      { task with metadata := { task.metadata with blockReason := some reason } }) store :=
    hmarks store task _ hget (.reason (some reason) task.metadata.retryCount) hown
  exact hsave.bind fun _ t _ => hadmits.transition_then hown .blocked

theorem AdmitsOwn.unblock (hadmits : AdmitsOwn R own) (hmarks : AdmitsMarks R own)
    (hown : own taskId) : Command.Relates R (Store.unblock taskId) store := by
  apply relates_get_then
  · exact fun _ => .throw store
  rintro task hget rfl
  dsimp only
  split
  · exact .throw store
  have hsave : Command.Relates R (Store.save
      { task with metadata := { task.metadata with blockReason := none, retryCount := none } })
      store := hmarks store task _ hget (.reason none none) hown
  exact hsave.bind fun _ t _ => hadmits.transition_then hown .ready

omit [IsPreorder Store R] in
theorem AdmitsMarks.cancel [IsPreorder Store R] (hmarks : AdmitsMarks R own) (hown : own taskId) :
    Command.Relates R (Store.cancel taskId) store := by
  apply relates_get_then
  · exact fun _ => .throw store
  rintro task hget rfl
  dsimp only
  split
  · exact .throw store
  · exact hmarks store task _ hget .cancelled hown

end

section Hand

variable {id : String} {runResult : Option RunResult} {task : Task} {store : Store}

def Task.blockedFor (task : Task) (reason : String) : Task :=
  Store.transitioned
    { task with metadata := { task.metadata with blockReason := some reason } } .blocked

theorem does_block (reason : String) : Does id runResult task (Store.block id reason)
      (if task.status ∈ [TaskStatus.blocked, .done, .cancelled, .deadletter] then none else some ())
      (if task.status ∈ [TaskStatus.blocked, .done, .cancelled, .deadletter] then task
        else task.blockedFor reason) := by
  apply does_get.bind
  dsimp only
  by_cases hover : task.status ∈ [TaskStatus.blocked, .done, .cancelled, .deadletter]
  · rw [if_pos hover, if_pos hover, if_pos (by simpa using hover)]
    exact does_throw
  · rw [if_neg hover, if_neg hover, if_neg (by simpa using hover)]
    refine Does.bind (does_save rfl) ?_
    have hlegal : isValidTransition task.status .blocked = true ∧ task.status ≠ .blocked := by
      revert hover
      cases task.status <;> decide
    exact does_transition_valid hlegal.1 hlegal.2

theorem only_block (reason : String) : Command.Relates (Only id) (Store.block id reason) store := by
  apply only_get
  split
  · exact .throw store
  rename_i task hget
  split
  · exact .throw store
  · refine Command.Relates.bind (only_save (store.keyed id task hget)) fun _ t _ => ?_
    exact only_transition_then .blocked

def Task.unblocked (task : Task) : Task :=
  Store.transitioned
    { task with metadata := { task.metadata with blockReason := none, retryCount := none } } .ready

theorem does_unblock : Does id runResult task (Store.unblock id)
      (if task.status = .blocked then some () else none)
      (if task.status = .blocked then task.unblocked else task) := by
  apply does_get.bind
  dsimp only
  by_cases hblocked : task.status = .blocked
  · rw [if_neg (not_not_intro hblocked), if_pos hblocked, if_pos hblocked]
    refine Does.bind (does_save rfl) ?_
    exact does_transition_valid (by rw [hblocked]; rfl) (by rw [hblocked]; decide)
  · rw [if_pos hblocked, if_neg hblocked, if_neg hblocked]
    exact does_throw

theorem only_unblock : Command.Relates (Only id) (Store.unblock id) store := by
  apply only_get
  split
  · exact .throw store
  rename_i task hget
  split
  · exact .throw store
  · refine Command.Relates.bind (only_save (store.keyed id task hget)) fun _ t _ => ?_
    exact only_transition_then .ready

def Task.cancelled (task : Task) : Task :=
  if task.status = .done ∨ task.status = .cancelled then task
  else { task with status := .cancelled, lease := none }

theorem does_cancel : Does id runResult task (Store.cancel id)
      (if task.status = .done ∨ task.status = .cancelled then none else some ())
      task.cancelled := by
  apply does_get.bind
  unfold Task.cancelled
  dsimp only
  by_cases hover : task.status = .done ∨ task.status = .cancelled
  · rw [if_pos hover, if_pos hover, if_pos hover]
    exact does_throw
  · rw [if_neg hover, if_neg hover, if_neg hover]
    exact does_save rfl

theorem only_cancel : Command.Relates (Only id) (Store.cancel id) store := by
  apply only_get
  split
  · exact .throw store
  rename_i task hget
  split
  · exact .throw store
  · exact only_save (store.keyed id task hget)

def Task.upstreamBlocked (task : Task) (blockedTaskId : String) : Task :=
  if blockedTaskId ∈ task.dependsOn ∧ (task.status = .backlog ∨ task.status = .ready) then
    task.blockedFor (upstreamReason blockedTaskId)
  else task

theorem run_cascadeOnBlock (blockedTaskId : String) (store : Store) :
    ((cascadeOnBlock blockedTaskId).run store).1 = some () ∧
      (∀ id, ((cascadeOnBlock blockedTaskId).run store).2.tasks.get? id =
        (store.tasks.get? id).map fun task => task.upstreamBlocked blockedTaskId) ∧
      ∀ id, ((cascadeOnBlock blockedTaskId).run store).2.runResults.get? id =
        store.runResults.get? id := by
  have hdoes : ∀ task : Task, (blockedTaskId ∈ task.dependsOn ∧
      (task.status = .backlog ∨ task.status = .ready)) → ∀ runResult,
      Does task.id runResult task (Store.block task.id (upstreamReason blockedTaskId)) (some ())
        (task.upstreamBlocked blockedTaskId) := by
    intro task hwaits runResult
    have hopen : task.status ∉ [TaskStatus.blocked, .done, .cancelled, .deadletter] := by
      rcases hwaits.2 with h | h <;> simp [h]
    have hblocks : Does task.id runResult task
        (Store.block task.id (upstreamReason blockedTaskId)) _ _ :=
      does_block _
    rw [if_neg hopen, if_neg hopen] at hblocks
    rwa [Task.upstreamBlocked, if_pos hwaits]
  have hrun : (cascadeOnBlock blockedTaskId).run store =
      ((blockDependents blockedTaskId store.tasks.values).forM fun dependent =>
        Store.block dependent.id (upstreamReason blockedTaskId)).run store :=
    Command.run_bind_of_some Store.run_list
  obtain ⟨hreturns, heffects, hresults⟩ := run_forM_scanned
    (fun task htask => hdoes task (of_decide_eq_true htask)) (fun task s => only_block _)
  rw [hrun]
  refine ⟨hreturns, fun id => (heffects id).trans ?_, hresults⟩
  congr 1
  funext task
  split
  · rfl
  · rename_i hother
    rw [Task.upstreamBlocked, if_neg fun hwaits => hother (decide_eq_true hwaits)]

end Hand

end Aof
