import Aof.Proof.FaithfulLog
import Aof.Proof.FinalStatus

/-!
# The log of a run

Which steps the log tells rightly of a task, by what is stored when the step is taken, and that a
run of such steps tells the whole way of the task.
-/

namespace Aof

open Command StepSystem

/-- The task waits for nothing but this completion. -/
def Store.waitsOnlyFor (store : Store) (id completed : String) : Bool :=
  (store.tasks.get? id).any fun task =>
    completed ∈ task.dependsOn && (task.status = .backlog || task.status = .blocked) &&
      task.dependsOn.all fun dep => dep = completed || store.isDone dep

def Task.endsDone (task : Task) : Bool :=
  task.status = .done || (task.metadata.reviewRequired = some false &&
    (task.status = .inProgress || task.status = .review))

def SchedulerAction.completes (conduct : ExecutorConduct) (runResult : Option RunResult)
    (task : Task) : SchedulerAction → Bool
  | .staleHeartbeat taskId agent =>
      task.status = .inProgress && task.heldBy agent && !task.forced (conduct.forces taskId) &&
        task.skipsReview runResult
  | _ => false

def SchedulerOperation.completes (runResult : Option RunResult) (task : Task) :
    SchedulerOperation → Bool
  | .report message =>
      checkAuthorization message.fromAgent task && message.outcome = .done && task.endsDone
  | .visit .. => task.status = .inProgress && task.workflow.isNone && task.skipsReview runResult
  | .cascade _ => task.status = .done
  | _ => false

def SchedulerOperation.blocksAlso (store : Store) (id : String) : SchedulerOperation → Bool
  | .statusUpdate taskId targetStatus cascadeBlocks =>
      targetStatus = .blocked && cascadeBlocks &&
        (store.tasks.get? taskId).any (fun task => isValidTransition task.status .blocked) &&
        (store.tasks.get? id).any fun task =>
          taskId ∈ task.dependsOn && (task.status = .backlog || task.status = .ready)
  | _ => false

/-- A review that is made is moved by the poll. -/
def SchedulerOperation.createsNothing : SchedulerOperation → Bool
  | .review input currentInProgress _ =>
      input.config.maxDispatches ≤ currentInProgress || input.config.dryRun
  | _ => true

def SchedulerAction.recorded (options : TaskStoreOptions) (conduct : ExecutorConduct)
    (store : Store) (id : String) (action : SchedulerAction) : Bool :=
  if action.taskId = id then
    (store.tasks.get? id).all (action.tells options conduct (store.runResults.get? id))
  else
    options.once || !(store.waitsOnlyFor id action.taskId &&
      (store.tasks.get? action.taskId).any
        (action.completes conduct (store.runResults.get? action.taskId)))

def SchedulerOperation.recorded (options : TaskStoreOptions) (store : Store) (id : String)
    (operation : SchedulerOperation) : Bool :=
  if operation.taskId = id then
    match store.tasks.get? id with
    | some task => operation.tells options (store.runResults.get? id) task
    | none => options.once || operation.createsNothing
  else
    options.once || !(operation.blocksAlso store id ||
      (store.waitsOnlyFor id operation.taskId &&
        (store.tasks.get? operation.taskId).any
          (operation.completes (store.runResults.get? operation.taskId))))

/-- What the step does to the task, and what is written of it, are one and the same. -/
def JournalEvent.recorded (options : TaskStoreOptions) (id : String) (state : JournalState) :
    JournalEvent → Bool
  | .scheduler (.plan _) => true
  | .scheduler (.execute conduct) =>
      match state.planned with
      | [] => true
      | action :: _ => action.recorded options conduct state.journal.state id
  | .scheduler (.operate operation) => operation.recorded options state.journal.state id
  | .rejectHandoff taskId fromAgent =>
      taskId ≠ id || (state.journal.state.tasks.get? id).all fun task =>
        !checkAuthorization fromAgent task ||
          (options.silent && isValidTransition task.status .blocked)
  | .elsewhere events => events.all fun event => event.taskId ≠ id

section

variable {options : TaskStoreOptions} {id taskId : String} {j : Journal} {α : Type}

theorem saysNothing_absent {command : Command Store α} (hnone : j.state.tasks.get? id = none) :
    Relates (SaysNothing id) (options.onStore command) j := by
  apply saysNothing_recording
  intro old new hold _
  rw [hnone] at hold
  cases hold

theorem saysNothing_get_absent {next : Option Task → Command Journal α}
    (hnone : j.state.tasks.get? id = none)
    (hnext : ∀ t : Journal, t.state = j.state → Relates (SaysNothing id) (next none) t) :
    Relates (SaysNothing id) (options.onStore (Store.get id) >>= next) j := by
  apply (saysNothing_absent hnone).bind
  intro stored t hrun
  obtain ⟨rfl, hstate⟩ := of_run_get hrun
  rw [hnone]
  exact hnext t hstate

theorem saysNothing_move_absent {next : Task → Command Journal α} {newStatus : TaskStatus}
    (hnone : j.state.tasks.get? id = none) :
    Relates (SaysNothing id) (options.transition id newStatus >>= next) j := by
  apply (saysNothing_absent hnone).bind
  intro moved t hrun
  have hthrows : (Store.transition id newStatus).run j.state = (some moved, t.state) :=
    of_run_onStore hrun
  rw [Store.transition, run_bind_of_some (Store.run_get id), hnone] at hthrows
  cases hthrows

variable {conduct : ExecutorConduct} {action : SchedulerAction} {operation : SchedulerOperation}
  {task : Task} {completed : String}

theorem saysNothing_handler_absent (hid : action.taskId = id)
    (hnone : j.state.tasks.get? id = none) :
    Relates (SaysNothing id) (options.handler conduct action) j := by
  subst hid
  cases action with
  | expireLease | staleHeartbeat => exact saysNothing_get_absent hnone fun t _ => .pure () t
  | promote | block => exact saysNothing_move_absent hnone
  | requeue taskId =>
      apply (saysNothing_absent hnone).bind
      intro _ t hrun
      have hpatched := of_run_onStore hrun
      rw [Store.patch, run_bind_of_some (Store.run_get taskId),
        show j.state.tasks.get? taskId = none from hnone] at hpatched
      have hstate : j.state = t.state := congrArg Prod.snd hpatched
      exact saysNothing_move_absent (hstate ▸ hnone)
  | assign taskId agent allTasks spawn now ttlMs =>
      show Relates _ (options.assignWith _ _ _ (if conduct.throws taskId then none else some spawn)
        _ _) _
      split
      · exact saysNothing_absent hnone
      · exact saysNothing_get_absent hnone fun t _ => .pure () t
  | deadletter | runComplete | hopDispatch | hopComplete => exact saysNothing_absent hnone

theorem saysNothing_command_absent (hid : operation.taskId = id)
    (hnone : j.state.tasks.get? id = none) (hcreates : operation.createsNothing = true) :
    Relates (SaysNothing id) (options.command operation) j := by
  subst hid
  cases operation with
  | complete => exact saysNothing_get_absent hnone fun t _ => .throw t
  | report | statusUpdate | visit => exact saysNothing_get_absent hnone fun t _ => .pure () t
  | cancel taskId =>
      apply saysNothing_recording
      intro old new hold _
      rw [hnone] at hold
      cases hold
  | review input currentInProgress team =>
      show Relates _ (options.evaluateMurmurTrigger _ _ _) _
      unfold TaskStoreOptions.evaluateMurmurTrigger
      rw [if_pos (by simpa [SchedulerOperation.createsNothing] using hcreates)]
      exact .pure () j
  | writeResult | block | unblock | cascade | runComplete | hopComplete | hopTimeouts |
    hopDispatch => exact saysNothing_absent hnone

theorem endsDone_of_outcome
    (hdone : ((resolveCompletionTransitions task .done).foldl Task.advanced task).status = .done) :
    task.endsDone = true := by
  by_cases hover : task.status = .done
  · simp [Task.endsDone, hover]
  rw [resolveCompletionTransitions, if_neg hover] at hdone
  split at hdone
  · simp only [List.foldl_cons, List.foldl_nil, Task.advanced] at hdone
    split at hdone
    · cases hdone
    · exact absurd hdone hover
  · rename_i hreview
    rw [ne_eq, not_not] at hreview
    revert hdone
    rw [Task.endsDone, hreview]
    simp only [List.foldl_cons, List.foldl_nil, Task.advanced]
    cases hstatus : task.status <;> simp [hstatus, isValidTransition, VALID_TRANSITIONS]

theorem waitsOnlyFor_of_woken {before after : Store} (honly : Only completed before after)
    (hne : completed ≠ id) (hget : after.tasks.get? id = some task)
    (hwoken : task.wokenBy completed after.tasks.values = true) :
    before.waitsOnlyFor id completed = true ∧ after.isDone completed = true := by
  simp only [Task.wokenBy, decide_eq_true_eq] at hwoken
  obtain ⟨hdepends, hwaits, hdone⟩ := hwoken
  have hdeps := allDependenciesDone_iff.mp hdone
  refine ⟨?_, hdeps completed hdepends⟩
  rw [Store.waitsOnlyFor, ← honly.others id hne.symm, hget, Option.any_some, Bool.and_eq_true,
    Bool.and_eq_true, List.all_eq_true]
  refine ⟨⟨decide_eq_true hdepends, by simpa using hwaits⟩, fun dep hdep => ?_⟩
  rw [Bool.or_eq_true]
  by_cases hsame : dep = completed
  · exact .inl (decide_eq_true hsame)
  · right
    have hother := hdeps dep hdep
    rwa [Store.isDone, honly.others dep hsame] at hother

theorem keepsFaith_cascade {completed : String}
    (hkeeps : options.once = true ∨ ∀ task, j.state.tasks.get? id = some task →
      task.wokenBy completed j.state.tasks.values = false) :
    Relates (KeepsFaith id) (options.onStore (cascadeOnCompletion completed)) j := by
  rcases hkeeps with honce | hsleeps
  · exact keepsFaith_once honce
  apply keepsFaith_of_saysNothing
  apply saysNothing_recording
  intro old new hold hnew
  obtain ⟨-, htasks, -⟩ := run_cascadeOnCompletion completed j.state
  rw [Command.after_eq, htasks, hold, Option.map_some, Task.cascaded, if_neg] at hnew
  · exact congrArg Task.status (Option.some.inj hnew)
  · rw [hsleeps old hold]
    exact Bool.false_ne_true

theorem not_done_after_session {store : Store} {result : RunResult}
    {executor : Option SpawnResult} {timestamp : String} (hworks : task.status = .inProgress)
    (hget : store.tasks.get? task.id = some task)
    (hresult : store.runResults.get? task.id = some result) :
    ((completeDAGSession task result executor timestamp).after store).isDone task.id = false := by
  have hbefore : store.isDone task.id = false := by
    rw [isDone_of_get hget, hworks]
    rfl
  rcases handleDAGHopCompletion_cases task result timestamp store with
    hrun | hrun | ⟨workflow, hopId, answer, hcompletion⟩
  · rw [Command.after_eq, completeDAGSession, run_bind_of_some hrun]
    exact hbefore
  · rw [Command.after_eq, completeDAGSession, run_bind_of_none hrun]
    exact hbefore
  · have hended := task_after_visitSession executor (by rw [hget]; rfl) hworks hresult hcompletion
    rw [after_visitSession executor (by rw [hget]; rfl) hresult hcompletion.workflow_eq] at hended
    rw [Command.after_eq, isDone_of_get hended, decide_eq_false_iff_not, endedTask]
    have hkept : (task.withWorkflowState answer.state).status = .inProgress := hworks
    split
    · split <;> exact fun h => by cases h
    · split
      · exact fun h => by cases h
      · split
        · exact fun h => by cases hkept.symm.trans h
        · exact fun h => by cases hkept.symm.trans h

section Other

variable (hne : taskId ≠ id)
include hne

theorem keepsFaith_cascade_after {before : Store} (honly : Only taskId before j.state)
    (hspares : options.once = true ∨ before.waitsOnlyFor id taskId = false ∨
      j.state.isDone taskId = false) :
    Relates (KeepsFaith id) (options.onStore (cascadeOnCompletion taskId)) j := by
  apply keepsFaith_cascade
  rcases hspares with honce | hspares
  · exact .inl honce
  right
  intro task hget
  rw [← Bool.not_eq_true]
  intro hwoken
  obtain ⟨hwaits, hdone⟩ := waitsOnlyFor_of_woken honly hne hget hwoken
  rcases hspares with h | h
  · rw [h] at hwaits
    cases hwaits
  · rw [h] at hdone
    cases hdone

theorem keepsFaith_outcome_cascade {task : Task} {before : Store} {outcome : CompletionOutcome}
    (honly : Only taskId before j.state) (hget : j.state.tasks.get? taskId = some task)
    (hspares : options.once = true ∨ before.waitsOnlyFor id taskId = false ∨
      outcome ≠ .done ∨ task.endsDone = false) :
    Relates (KeepsFaith id)
      (do
        options.applyCompletionOutcome task outcome
        if outcome = .done then Command.attempt (options.onStore (cascadeOnCompletion taskId))
        else pure ()) j := by
  have hid : task.id = taskId := j.state.keyed taskId task hget
  refine (keepsFaith_of_saysNothing (saysNothing_applyCompletionOutcome hne hid outcome)).bind
    fun _ t hrun => ?_
  split
  swap
  · exact .pure () t
  rename_i hdone
  have hrecords : Records (LeadsTask id) (options.applyCompletionOutcome task outcome)
      (applyCompletionOutcome task outcome) := records_applyCompletionOutcome task outcome
  have hstate : t.state = ((applyCompletionOutcome task outcome).run j.state).2 := by
    rw [← hrecords.state j, hrun]
  have hend : t.state.tasks.get? taskId =
      some ((resolveCompletionTransitions task outcome).foldl Task.advanced task) := by
    rw [hstate]
    exact ((does_applyCompletionOutcome outcome) j.state ⟨hget, rfl⟩).2.task
  have hlast : Only taskId j.state t.state := by
    rw [hstate]
    exact admitsOwn_only.applyCompletionOutcome hid outcome
  apply Relates.attempt
  apply keepsFaith_cascade_after hne (trans_of (Only taskId) honly hlast)
  refine hspares.imp_right fun h => h.imp_right fun hnot => ?_
  rw [isDone_of_get hend, decide_eq_false_iff_not]
  intro hover
  rw [hdone] at hover
  have hends := endsDone_of_outcome hover
  rcases hnot with h | h
  · exact h hdone
  · rw [h] at hends
    cases hends

omit hne in
theorem keepsFaith_get_then {next : Option Task → Command Journal α}
    (hnone : ∀ t : Journal, Relates (KeepsFaith id) (next none) t)
    (hsome : ∀ (task : Task) (t : Journal), j.state.tasks.get? taskId = some task →
      task.id = taskId → t.state = j.state → Relates (KeepsFaith id) (next (some task)) t) :
    Relates (KeepsFaith id) (options.onStore (Store.get taskId) >>= next) j := by
  apply (keepsFaith_of_saysNothing (saysNothing_get taskId)).bind
  intro stored t hrun
  obtain ⟨hstored, hstate⟩ := of_run_get hrun
  cases stored with
  | none => exact hnone t
  | some task =>
      exact hsome task t hstored.symm (j.state.keyed taskId task hstored.symm) hstate

theorem keepsFaith_handleCompletionReport {report : CompletionReport} (hid : report.taskId = taskId)
    (hspares : options.once = true ∨ j.state.waitsOnlyFor id taskId = false ∨
      ∀ task, j.state.tasks.get? taskId = some task →
        checkAuthorization report.fromAgent task = true →
        report.outcome ≠ .done ∨ task.endsDone = false) :
    Relates (KeepsFaith id) (options.handleCompletionReport report) j := by
  subst hid
  apply keepsFaith_get_then
  · exact fun t => .pure () t
  intro task t hget _ hstate
  dsimp only
  split
  swap
  · exact .pure () t
  rename_i hauthorized
  have hwrites : Relates (SaysNothing id) (options.onStore (Store.writeRunResult report.taskId
      ⟨report.taskId, report.fromAgent, report.outcome, report.notes⟩)) t :=
    saysNothing_of_keepsStatus (keepsStatus_writeRunResult _)
  refine (keepsFaith_of_saysNothing hwrites).bind fun _ u hrun => ?_
  have htasks := tasks_writeRunResult report.taskId
    ⟨report.taskId, report.fromAgent, report.outcome, report.notes⟩ t.state
  have honly : Only report.taskId t.state _ :=
    admitsOwn_only.writeRunResult rfl
      ⟨report.taskId, report.fromAgent, report.outcome, report.notes⟩
  rw [of_run_onStore hrun] at htasks honly
  rw [hstate] at honly htasks
  apply keepsFaith_outcome_cascade hne honly (htasks ▸ hget)
  exact hspares.imp_right fun h => h.imp_right fun h => h task hget hauthorized

theorem keepsFaith_recoverByResult {task : Task} {forces : Bool} {store : Store}
    (hid : task.id = taskId) (hworks : task.status = .inProgress)
    (honly : Only taskId store j.state) (hcurrent : Holds taskId (store.runResults.get? taskId)
      (if task.forced forces then task.afterRun none else task) j.state)
    (hspares : options.once = true ∨ store.waitsOnlyFor id taskId = false ∨
      (task.forced forces = false → task.skipsReview (store.runResults.get? taskId) = false)) :
    Relates (KeepsFaith id)
      (options.recoverByResult taskId task (store.runResults.get? taskId)) j := by
  subst hid
  unfold TaskStoreOptions.recoverByResult
  split
  · exact keepsFaith_of_saysNothing (saysNothing_move hne _ _ _)
  rename_i result hfound
  refine (keepsFaith_of_saysNothing (saysNothing_moves hne _ _)).bind fun _ w hmoves => ?_
  split
  swap
  · exact .pure () w
  rename_i hdone
  have hrecords : Records (LeadsTask id)
      ((resolveCompletionTransitions task result.outcome).forM fun targetStatus => do
        let _ ← options.transition task.id targetStatus
        logTransition task.id task.status targetStatus)
      ((resolveCompletionTransitions task result.outcome).forM fun targetStatus => do
        let _ ← Store.transition task.id targetStatus) :=
    Records.forM (leading_leadsTask id) (fun targetStatus => records_move task.id targetStatus _) _
  have hreturns := hrecords.result j
  have hlast := hrecords.state j
  rw [hmoves] at hreturns hlast
  have hmoved : Relates (Only task.id)
      ((resolveCompletionTransitions task result.outcome).forM fun targetStatus => do
        let _ ← Store.transition task.id targetStatus) j.state :=
    admitsOwn_only.transitions rfl _
  unfold Relates at hmoved
  rw [← show w.state = _ from hlast] at hmoved
  apply Relates.attempt
  apply keepsFaith_cascade_after hne (trans_of (Only task.id) honly hmoved)
  refine hspares.imp_right fun h => h.imp_right fun hskips => ?_
  cases hforces : task.forced forces with
  | true =>
      rw [hforces, if_pos rfl] at hcurrent
      have hidle : (task.afterRun none).status = .blocked ∨
          (task.afterRun none).status = .deadletter := by
        rw [afterRun_status]
        split
        · exact .inr rfl
        · exact .inl rfl
      have hforced : ∃ ended, Does task.id (store.runResults.get? task.id) (task.afterRun none)
          ((resolveCompletionTransitions task result.outcome).forM fun targetStatus => do
            let _ ← Store.transition task.id targetStatus) ended (task.afterRun none) ∧
            (result.outcome = .done → ended = none) :=
        does_outcome_forced _ hworks hidle result.outcome
      obtain ⟨ended, hdoes, hthrows⟩ := hforced
      rw [(hdoes j.state hcurrent).1, hthrows hdone] at hreturns
      cases hreturns
  | false =>
      rw [hforces, if_neg Bool.false_ne_true] at hcurrent
      have hend := ((does_outcome hworks _ result.outcome) j.state hcurrent).2
      rw [← show w.state = _ from hlast] at hend
      have hreview := hskips hforces
      rw [isDone_of_get hend.task, decide_eq_false_iff_not, hdone, resolveCompletionTransitions,
        if_neg (by rw [hworks]; decide), if_pos]
      · exact fun h => by cases h
      · intro hnot
        rw [hfound] at hreview
        simp [Task.skipsReview, hnot, hdone] at hreview

theorem keepsFaith_recoverWith {agent : Option String} {forces : Bool}
    (hspares : options.once = true ∨ j.state.waitsOnlyFor id taskId = false ∨
      ∀ task, j.state.tasks.get? taskId = some task → task.status = .inProgress →
        task.heldBy agent = true → task.forced forces = false →
        task.skipsReview (j.state.runResults.get? taskId) = false) :
    Relates (KeepsFaith id) (options.recoverWith taskId agent forces) j := by
  apply keepsFaith_get_then
  · exact fun t => .pure () t
  rintro task t hget rfl hstate
  dsimp only
  split
  · exact .pure () t
  rename_i hworks
  rw [ne_eq, not_not] at hworks
  split
  · exact .pure () t
  rename_i hagent
  have hheld : task.heldBy agent = true := by
    rw [not_and, ne_eq, not_not] at hagent
    cases agent with
    | none => rfl
    | some name => exact decide_eq_true (hagent rfl)
  have hholds : Holds task.id (j.state.runResults.get? task.id) task t.state := by
    rw [hstate]
    exact ⟨hget, rfl⟩
  have honlyForce : ∀ store, Relates (Only task.id) (forceCompleteSession task forces) store := by
    intro store
    unfold forceCompleteSession
    split
    · exact (only_handleRunComplete none).attempt
    · exact .pure () store
  refine (keepsFaith_of_saysNothing (saysNothing_other hne honlyForce)).bind fun _ u hforce => ?_
  have hforced : Does task.id (j.state.runResults.get? task.id) task
      (forceCompleteSession task forces) _ _ := does_forced hworks
  have hcurrent := (hforced t.state hholds).2
  have honly := honlyForce t.state
  unfold Relates at honly
  rw [of_run_onStore hforce] at hcurrent honly
  have hread : Relates (SaysNothing id) (options.onStore (Store.readRunResult task.id)) u := by
    apply saysNothing_of_keepsStatus
    exact refl_of (KeepsStatus id) u.state
  refine (keepsFaith_of_saysNothing hread).bind fun runResult v hrun => ?_
  have hresult := of_run_onStore hrun
  rw [Store.run_readRunResult, hcurrent.task, Option.bind_some, hcurrent.runResult] at hresult
  obtain ⟨rfl, hsame⟩ : j.state.runResults.get? task.id = runResult ∧ u.state = v.state := by
    simpa using hresult
  rw [hsame] at hcurrent honly
  rw [hstate] at honly
  apply keepsFaith_recoverByResult hne rfl hworks honly hcurrent
  exact hspares.imp_right fun h => h.imp_right fun hskips => hskips task hget hworks hheld

theorem keepsFaith_visitCurrent {executor : Option SpawnResult} {timestamp : String}
    (hspares : options.once = true ∨ j.state.waitsOnlyFor id taskId = false ∨
      ∀ task, j.state.tasks.get? taskId = some task → task.status = .inProgress →
        task.workflow = none → task.skipsReview (j.state.runResults.get? taskId) = false) :
    Relates (KeepsFaith id) (options.visitCurrent taskId executor timestamp) j := by
  apply keepsFaith_get_then
  · exact fun t => .pure () t
  rintro task t hget rfl hstate
  dsimp only
  split
  swap
  · exact .pure () t
  rename_i hworks
  have hread : Relates (SaysNothing id) (options.onStore (Store.readRunResult task.id)) t := by
    apply saysNothing_of_keepsStatus
    exact refl_of (KeepsStatus id) t.state
  refine (keepsFaith_of_saysNothing hread).bind fun runResult u hrun => ?_
  have hresult := of_run_onStore hrun
  rw [Store.run_readRunResult, hstate, hget, Option.bind_some] at hresult
  obtain ⟨hfound, hsame⟩ : j.state.runResults.get? task.id = runResult ∧ j.state = u.state := by
    simpa using hresult
  split
  · exact .pure () u
  rename_i result
  split
  · rename_i hworkflow
    have hstored : u.state.tasks.get? task.id = some task := hsame ▸ hget
    apply Relates.attempt
    apply keepsFaith_of_saysNothing
    apply saysNothing_recording
    intro old new hold hnew
    have hwakes : MayWake id task.id u.state
        ((completeDAGSession task result executor timestamp).after u.state) :=
      (admits_mayWake hne).completeDAGSession rfl hstored result executor timestamp
    rcases hwakes.task old hold with hkept | ⟨hdepends, -, hdone, -⟩
    · exact congrArg Task.status (Option.some.inj (hkept.symm.trans hnew))
    · have hover := hdone task.id hdepends
      rw [not_done_after_session hworks hstored (hsame ▸ hfound)] at hover
      cases hover
  · rename_i hworkflow
    have honly : Only task.id j.state u.state := by
      rw [hsame]
      exact refl_of (Only task.id) u.state
    apply keepsFaith_outcome_cascade hne honly (hsame ▸ hget)
    refine hspares.imp_right fun h => h.imp_right fun hskips => ?_
    have hreview := hskips task hget hworks (Option.not_isSome_iff_eq_none.mp hworkflow)
    by_cases hdone : result.outcome = .done
    · right
      rw [hfound] at hreview
      simpa [Task.endsDone, Task.skipsReview, hworks, hdone] using hreview
    · exact .inl hdone

theorem keepsFaith_handleStatusUpdate {targetStatus : TaskStatus} {cascadeBlocks : Bool}
    (hspares : options.once = true ∨
      (SchedulerOperation.statusUpdate taskId targetStatus cascadeBlocks).blocksAlso j.state id =
        false) :
    Relates (KeepsFaith id) (options.handleStatusUpdate taskId targetStatus cascadeBlocks) j := by
  apply keepsFaith_get_then
  · exact fun t => .pure () t
  rintro task t hget rfl hstate
  dsimp only
  split
  · exact .pure () t
  split
  swap
  · exact .pure () t
  rename_i hvalid
  refine (keepsFaith_of_saysNothing (saysNothing_transition hne targetStatus)).bind
    fun moved u hrun => ?_
  have honly : Only task.id t.state u.state := by
    have hmoved : Relates (Only task.id) (Store.transition task.id targetStatus) t.state :=
      only_transition targetStatus
    unfold Relates at hmoved
    rwa [of_run_onStore hrun] at hmoved
  have hblocks : Relates (KeepsFaith id) (options.onStore
      (if targetStatus = .blocked ∧ cascadeBlocks then cascadeOnBlock task.id else pure ())) u := by
    rcases hspares with honce | hspares
    · exact keepsFaith_once honce
    apply keepsFaith_of_saysNothing
    apply saysNothing_recording
    intro old new hold hnew
    split at hnew
    · rename_i hpasses
      obtain ⟨-, htasks, -⟩ := run_cascadeOnBlock task.id u.state
      rw [Command.after_eq, htasks, hold, Option.map_some, Task.upstreamBlocked, if_neg] at hnew
      · exact congrArg Task.status (Option.some.inj hnew)
      · intro hwaits
        have hbefore : j.state.tasks.get? id = some old := by
          rw [← hstate, ← honly.others id hne.symm]
          exact hold
        rw [hpasses.1] at hvalid
        rw [SchedulerOperation.blocksAlso, hget, hbefore, hpasses.1, hpasses.2, Option.any_some,
          Option.any_some, hvalid, decide_eq_true hwaits.1, Bool.true_and, Bool.and_true,
          ← Bool.decide_or, decide_eq_true hwaits.2] at hspares
        exact absurd hspares (by decide)
    · exact congrArg Task.status (Option.some.inj (hold.symm.trans hnew))
  exact hblocks.bind fun _ _ _ => keepsFaith_of_saysNothing (saysNothing_note hne _ _)

theorem keepsFaith_other_action {conduct : ExecutorConduct} {action : SchedulerAction}
    (hid : action.taskId = taskId)
    (hspares : options.once = true ∨ j.state.waitsOnlyFor id taskId = false ∨
      (j.state.tasks.get? taskId).any
        (action.completes conduct (j.state.runResults.get? taskId)) = false) :
    Relates (KeepsFaith id) (options.handler conduct action) j := by
  subst hid
  cases action with
  | staleHeartbeat taskId agent =>
      apply keepsFaith_recoverWith hne
      refine hspares.imp_right fun h => h.imp_right ?_
      intro hcompletes task hget hworks hheld hforced
      have hget' : j.state.tasks.get? (SchedulerAction.staleHeartbeat taskId agent).taskId =
          some task := hget
      rw [hget', Option.any_some] at hcompletes
      have hforced' : task.forced (conduct.forces taskId) = false := hforced
      simpa [SchedulerAction.completes, hworks, hheld, hforced'] using hcompletes
  | expireLease => exact keepsFaith_of_saysNothing (saysNothing_handleExpireLease hne _ _ _)
  | requeue => exact keepsFaith_of_saysNothing (saysNothing_handleRequeue hne)
  | promote => exact keepsFaith_of_saysNothing (saysNothing_move hne _ _ _)
  | block => exact keepsFaith_of_saysNothing (saysNothing_move hne _ _ _)
  | assign => exact keepsFaith_of_saysNothing (saysNothing_assignWith hne _ _ _ _ _)
  | deadletter | runComplete | hopDispatch | hopComplete =>
      apply keepsFaith_of_saysNothing
      apply saysNothing_other hne
      exact fun _ => admitsOwn_only.handler (by rfl) (fun _ hfails => nomatch hfails) rfl

theorem keepsFaith_other_operation {operation : SchedulerOperation}
    (hid : operation.taskId = taskId)
    (hspares : options.once = true ∨ operation.blocksAlso j.state id = false ∧
      (j.state.waitsOnlyFor id taskId = false ∨ (j.state.tasks.get? taskId).any
          (operation.completes (j.state.runResults.get? taskId)) = false)) :
    Relates (KeepsFaith id) (options.command operation) j := by
  subst hid
  cases operation with
  | complete => exact keepsFaith_of_saysNothing (saysNothing_aofTaskComplete hne)
  | report message =>
      apply keepsFaith_handleCompletionReport hne rfl
      refine hspares.imp_right fun h => h.2.imp_right ?_
      intro hcompletes task hget hauthorized
      have hget' : j.state.tasks.get? (SchedulerOperation.report message).taskId = some task := hget
      rw [hget', Option.any_some] at hcompletes
      simpa [SchedulerOperation.completes, hauthorized, or_iff_not_imp_left] using hcompletes
  | statusUpdate taskId targetStatus cascadeBlocks =>
      exact keepsFaith_handleStatusUpdate hne (hspares.imp_right And.left)
  | visit taskId executor timestamp =>
      apply keepsFaith_visitCurrent hne
      refine hspares.imp_right fun h => h.2.imp_right ?_
      intro hcompletes task hget hworks hworkflow
      have hget' : j.state.tasks.get? (SchedulerOperation.visit taskId executor timestamp).taskId =
          some task := hget
      rw [hget', Option.any_some] at hcompletes
      simpa [SchedulerOperation.completes, hworks, hworkflow] using hcompletes
  | cascade completedTaskId =>
      apply keepsFaith_cascade_after hne (refl_of (Only completedTaskId) j.state)
      refine hspares.imp_right fun h => h.2.imp_right fun hcompletes => ?_
      exact hcompletes
  | cancel taskId =>
      apply keepsFaith_of_saysNothing
      apply saysNothing_recording
      intro old new hold hnew
      have honly : Only taskId j.state ((Store.cancel taskId).after j.state) := only_cancel
      rw [honly.others id (fun h => hne h.symm), hold] at hnew
      exact congrArg Task.status (Option.some.inj hnew)
  | review input currentInProgress team =>
      exact keepsFaith_of_saysNothing (saysNothing_evaluateMurmurTrigger hne rfl _ _)
  | block taskId reason =>
      exact keepsFaith_of_saysNothing (saysNothing_other hne fun _ => only_block reason)
  | unblock => exact keepsFaith_of_saysNothing (saysNothing_other hne fun _ => only_unblock)
  | writeResult | runComplete | hopComplete | hopTimeouts | hopDispatch =>
      apply keepsFaith_of_saysNothing
      apply saysNothing_other hne
      exact fun _ => admitsOwn_only.operate rfl rfl rfl

end Other

theorem faithful_action (hrecorded : action.recorded options conduct j.state id = true) :
    Relates (KeepsFaith id) (options.handler conduct action) j := by
  unfold SchedulerAction.recorded at hrecorded
  by_cases hid : action.taskId = id
  · rw [if_pos hid] at hrecorded
    cases hget : j.state.tasks.get? id with
    | none => exact keepsFaith_of_saysNothing (saysNothing_handler_absent hid hget)
    | some task =>
        rw [hget, Option.all_some] at hrecorded
        exact tells_handler hid hrecorded j ⟨hget, rfl⟩
  · rw [if_neg hid, Bool.or_eq_true, Bool.not_eq_true', Bool.and_eq_false_iff] at hrecorded
    exact keepsFaith_other_action hid rfl hrecorded

theorem faithful_operation (hrecorded : operation.recorded options j.state id = true) :
    Relates (KeepsFaith id) (options.command operation) j := by
  unfold SchedulerOperation.recorded at hrecorded
  by_cases hid : operation.taskId = id
  · rw [if_pos hid] at hrecorded
    cases hget : j.state.tasks.get? id with
    | none =>
        rw [hget] at hrecorded
        cases hcreates : operation.createsNothing with
        | true => exact keepsFaith_of_saysNothing (saysNothing_command_absent hid hget hcreates)
        | false =>
            rw [hcreates, Bool.or_false] at hrecorded
            cases operation with
            | review input currentInProgress team =>
                exact keepsFaith_evaluateMurmurTrigger hrecorded input currentInProgress team j
            | _ => cases hcreates
    | some task =>
        rw [hget] at hrecorded
        exact tells_command hid hrecorded j ⟨hget, rfl⟩
  · rw [if_neg hid, Bool.or_eq_true, Bool.not_eq_true', Bool.or_eq_false_iff,
      Bool.and_eq_false_iff] at hrecorded
    exact keepsFaith_other_operation hid rfl hrecorded

theorem faithful_rejectHandoff {fromAgent : String}
    (hrecorded : (taskId ≠ id || (j.state.tasks.get? id).all fun task =>
      !checkAuthorization fromAgent task ||
        (options.silent && isValidTransition task.status .blocked)) = true) :
    Relates (KeepsFaith id) (options.rejectHandoff taskId fromAgent) j := by
  by_cases hid : taskId = id
  · subst hid
    rw [decide_eq_false (not_not_intro rfl), Bool.false_or] at hrecorded
    cases hget : j.state.tasks.get? taskId with
    | none =>
        apply keepsFaith_of_saysNothing
        exact saysNothing_get_absent hget fun t _ => .pure () t
    | some task =>
        rw [hget, Option.all_some] at hrecorded
        refine tells_rejectHandoff (fun hauthorized => ?_) j ⟨hget, rfl⟩
        simpa [hauthorized] using hrecorded
  · exact keepsFaith_of_saysNothing (saysNothing_rejectHandoff hid fromAgent)

theorem faithful_step {state next : JournalState} {event : JournalEvent}
    (hrecorded : event.recorded options id state = true)
    (hstep : journalStep options state event = some next)
    (hfaithful : FaithfulTo id state.journal) : FaithfulTo id next.journal := by
  cases event with
  | rejectHandoff taskId fromAgent =>
      obtain rfl := Option.some.inj hstep
      exact faithful_rejectHandoff hrecorded hfaithful
  | elsewhere events =>
      obtain rfl := Option.some.inj hstep
      have hnone : events.filter (StatusChange.about id) = [] := by
        rw [List.filter_eq_nil_iff]
        intro event hevent habout
        exact of_decide_eq_true (List.all_eq_true.mp hrecorded event hevent)
          (of_decide_eq_true habout)
      show List.filter _ (_ ++ events) = _
      rw [List.filter_append, hnone, List.append_nil, hfaithful]
  | scheduler event =>
      cases event with
      | plan input =>
          obtain ⟨-, hnext⟩ := Option.ite_none_right_eq_some.mp hstep
          obtain rfl := Option.some.inj hnext
          exact hfaithful
      | operate operation =>
          obtain rfl := Option.some.inj hstep
          exact faithful_operation hrecorded hfaithful
      | execute conduct =>
          cases hplanned : state.planned with
          | nil =>
              rw [journalStep, hplanned] at hstep
              cases hstep
          | cons action rest =>
              rw [journalStep, hplanned] at hstep
              rw [JournalEvent.recorded, hplanned] at hrecorded
              obtain rfl := Option.some.inj hstep
              exact faithful_action hrecorded hfaithful

def JournalState.opened (store : Store) : JournalState where
  journal := ⟨store, [], []⟩
  planned := []

theorem transitions_recorded {store : Store} {events : List JournalEvent} {finish : JournalState}
    (hrun : Run (journalStep options) (fun state event => event.recorded options id state = true)
      (.opened store) events finish) :
    changesOf id finish.journal.log = changesOf id finish.journal.changes ∧
      StatusPath (store.statusOf id) (changesOf id finish.journal.log)
        (finish.journal.state.statusOf id) := by
  have hopened : FaithfulTo id (JournalState.opened store).journal := rfl
  have hfaithful : FaithfulTo id finish.journal :=
    hrun.invariant (fun state : JournalState => FaithfulTo id state.journal)
      (fun _ _ _ hinv hok hstep => faithful_step hok hstep hinv) hopened
  have hchronicles : Chronicles id (store.statusOf id) finish :=
    hrun.invariant (Chronicles id (store.statusOf id))
      (fun _ _ _ hinv _ hstep => chronicles_step hstep hinv) .refl
  have hsame : changesOf id finish.journal.log = changesOf id finish.journal.changes := hfaithful
  rw [hsame]
  exact ⟨rfl, hchronicles⟩

end

def draftTask : Task := { id := "T", status := .backlog, routing := { agent := some "swe" } }

def walkedThrough : List JournalEvent :=
  [.scheduler (.plan { config := {} }), .scheduler (.execute {}),
    .scheduler (.operate (.statusUpdate "T" .inProgress false)),
    .elsewhere [⟨"U", .backlog, .ready⟩],
    .scheduler (.operate (.report ⟨"T", "swe", .done, ""⟩)),
    .scheduler (.operate (.complete "T"))]

theorem walk_recorded : ∃ finish, Run (journalStep unscopedStore)
      (fun (state : JournalState) (event : JournalEvent) =>
        event.recorded unscopedStore "T" state = true)
      (.opened (.ofTasks [draftTask])) walkedThrough finish ∧
      changesOf "T" finish.journal.log = changesOf "T" finish.journal.changes ∧
      StatusPath (some .backlog) (changesOf "T" finish.journal.log) (some .done) := by
  have hexec : (exec (checked (journalStep unscopedStore)
      fun (state : JournalState) (event : JournalEvent) =>
        event.recorded unscopedStore "T" state)
      (.opened (.ofTasks [draftTask])) walkedThrough).any (fun finish =>
        finish.journal.state.statusOf "T" = some .done) = true := by decide +kernel
  obtain ⟨finish, hfinish, hdone⟩ := (Option.any_eq_true _ _).mp hexec
  have hrun : Run (journalStep unscopedStore)
      (fun (state : JournalState) (event : JournalEvent) =>
        event.recorded unscopedStore "T" state = true)
      (.opened (.ofTasks [draftTask])) walkedThrough finish :=
    Run.of_exec (fun _ _ h => h) hfinish
  obtain ⟨hsame, hpath⟩ := transitions_recorded hrun
  rw [of_decide_eq_true hdone] at hpath
  exact ⟨finish, hrun, hsame, hpath⟩

def waitingTask : Task := { id := "T", status := .ready, routing := { agent := some "swe" } }

def answeringPoll : PollInput :=
  { config := {}, executor := some fun _ => .success "session" }

/-- The log of the task lists its changes, after any events. -/
def TransitionsRecorded (options : TaskStoreOptions) : Prop :=
  ∀ (id : String) (store : Store) (events : List JournalEvent) (finish : JournalState),
    FreeRun (journalStep options) (.opened store) events finish →
      changesOf id finish.journal.log = changesOf id finish.journal.changes

def assignedPoll : List JournalEvent :=
  [.scheduler (.plan answeringPoll), .scheduler (.execute {})]

theorem not_transitionsRecorded {options : TaskStoreOptions}
    (hexec : (exec (journalStep options) (.opened (.ofTasks [waitingTask])) assignedPoll).any
      (fun finish =>
        changesOf "T" finish.journal.log ≠ changesOf "T" finish.journal.changes) = true) :
    ¬ TransitionsRecorded options := by
  intro hclaim
  obtain ⟨finish, hfinish, hdiffers⟩ := (Option.any_eq_true _ _).mp hexec
  exact of_decide_eq_true hdiffers (hclaim "T" _ _ finish (freeRun_iff_exec.mpr hfinish))

theorem assignment_misrecorded :
    ¬ TransitionsRecorded unscopedStore ∧ ¬ TransitionsRecorded projectStore := by
  constructor
  · exact not_transitionsRecorded (by decide +kernel)
  · exact not_transitionsRecorded (by decide +kernel)

end Aof
