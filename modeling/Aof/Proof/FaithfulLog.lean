import Aof.Proof.ToldMoves

/-!
# The log tells each transition once

A run keeps the log faithful to a task as long as no step of it moves the task unseen, tells a move
twice, or tells one that the task has not made.
-/

namespace Aof

open Command StepSystem

def Task.skipsReview (task : Task) (runResult : Option RunResult) : Bool :=
  task.metadata.reviewRequired = some false && runResult.any fun result => result.outcome = .done

def Task.sessionMoves (task : Task) (runResult : RunResult) (timestamp : String) : Bool :=
  match task.workflow.bind fun workflow =>
    (findDispatchedHop workflow).map fun hopId => (workflow, hopId) with
  | none => false
  | some (workflow, hopId) =>
      let hopDef := workflow.definition.findHop hopId
      let event := mapRunResultToHopEvent runResult hopId hopDef
      (evaluateDAG workflow.definition workflow.state event (buildEvalContext task) timestamp).any
        fun result => result.taskStatus.isSome ||
          (event.outcome = .complete && hopDef.any fun hop => !hop.autoAdvance)

def SchedulerAction.tells (options : TaskStoreOptions) (conduct : ExecutorConduct)
    (runResult : Option RunResult) (task : Task) : SchedulerAction → Bool
  | .expireLease _ allTasks maxRetries backoffElapsed =>
      (task.expiryTarget allTasks maxRetries backoffElapsed).all fun toStatus =>
        task.tellsMove options (if task.status = .blocked then .blocked else .inProgress) toStatus
  | .staleHeartbeat taskId agent =>
      task.status ≠ .inProgress || !task.heldBy agent ||
        (options.silent && !task.forced (conduct.forces taskId) && !task.skipsReview runResult)
  | .requeue _ => task.tellsMove options .blocked .ready
  | .promote _ => task.tellsMove options .backlog .ready
  | .block _ => task.tellsMove options .ready .blocked
  | .assign _ _ allTasks _ now _ => options.once || !task.assignable allTasks now
  | .deadletter _ => options.once || !isValidTransition task.status .deadletter
  | .runComplete .. => options.once || task.status ≠ .inProgress
  | .hopDispatch .. => true
  | .hopComplete _ hopId _ => options.once || !task.givesUp hopId

def SchedulerOperation.tells (options : TaskStoreOptions) (runResult : Option RunResult)
    (task : Task) : SchedulerOperation → Bool
  | .complete _ =>
      options.silent || task.status ∉ [TaskStatus.ready, .inProgress, .blocked, .review]
  | .report message =>
      !checkAuthorization message.fromAgent task || options.silent ||
        !(resolveCompletionTransitions task message.outcome).any (isValidTransition task.status)
  | .statusUpdate _ targetStatus _ => options.silent || !isValidTransition task.status targetStatus
  | .block .. => options.once || task.status ∈ [TaskStatus.blocked, .done, .cancelled, .deadletter]
  | .unblock _ => options.once || task.status ≠ .blocked
  | .cancel _ => options.hooks || task.status = .done || task.status = .cancelled
  | .visit _ _ timestamp =>
      task.status ≠ .inProgress || runResult.all fun result =>
        if task.workflow.isSome then options.once || !task.sessionMoves result timestamp
        else options.silent
  | .runComplete .. => options.once || task.status ≠ .inProgress
  | .hopComplete _ hopId _ => options.once || !task.givesUp hopId
  | .writeResult .. | .cascade _ | .hopTimeouts .. | .hopDispatch .. | .review .. => true

section

variable {options : TaskStoreOptions} {id : String} {runResult : Option RunResult} {task : Task}

theorem tells_handleExpireLease {allTasks : List Task} {maxRetries : Nat} {backoffElapsed : Bool}
    (htells : (task.expiryTarget allTasks maxRetries backoffElapsed).all (fun toStatus =>
      task.tellsMove options (if task.status = .blocked then .blocked else .inProgress) toStatus) =
        true) :
    Tells id runResult task (options.handleExpireLease id allTasks maxRetries backoffElapsed) := by
  apply tells_get
  refine tells_onStore_bind (does_save rfl) rfl ?_
  rintro ⟨⟩ -
  unfold Task.expiryTarget Task.spawnFailed at htells
  by_cases hblocked : task.status = .blocked
  · simp only [if_pos hblocked] at htells ⊢
    by_cases hspawn :
        (task.metadata.blockReason.any fun reason => includes reason "spawn_failed") = true
    · rw [if_pos hspawn] at htells ⊢
      cases hguard : shouldAllowSpawnFailedRequeue task maxRetries backoffElapsed with
      | wait => exact tells_pure ()
      | allow =>
          rw [hguard] at htells
          exact tells_move htells (by decide)
      | shouldDeadletter =>
          rw [hguard] at htells
          exact tells_deadletter hblocked htells
    · rw [if_neg hspawn] at htells ⊢
      by_cases hdeps : allDependenciesDone allTasks task = true
      · rw [if_pos hdeps] at htells ⊢
        exact tells_move htells (by decide)
      · rw [if_neg hdeps]
        exact tells_pure ()
  · simp only [if_neg hblocked] at htells ⊢
    exact tells_move htells (by decide)

theorem tells_handleRequeue (htells : task.tellsMove options .blocked .ready = true) :
    Tells id runResult task (options.handleRequeue id) := by
  refine tells_onStore_bind (does_patch rfl) rfl ?_
  rintro ⟨⟩ -
  exact tells_move htells (by decide)

theorem keepsFaith_assignWith (honce : options.once = true) (taskId agent : String)
    (allTasks : List Task) (spawn : Option SpawnResult) (now ttlMs : Nat) (j : Journal) :
    Relates (KeepsFaith id) (options.assignWith taskId agent allTasks spawn now ttlMs) j := by
  cases spawn with
  | none => exact keepsFaith_once honce
  | some spawn =>
      apply (keepsFaith_once honce).bind
      rintro (_ | latest) t -
      · exact .pure () t
      dsimp only
      split
      · exact .pure () t
      refine (keepsFaith_once honce).bind fun leasedTask u _ => ?_
      refine (keepsFaith_once honce).bind fun _ v _ => ?_
      split
      · exact keepsFaith_once honce
      split
      · exact (keepsFaith_once honce).attempt
      refine (keepsFaith_once honce).bind fun _ w _ => ?_
      split
      · exact keepsFaith_once honce
      · exact (keepsFaith_once honce).bind fun _ x _ => .pure () x

theorem tells_assignWith_of_not {agent : String} {allTasks : List Task} {now : Nat}
    (hnot : task.assignable allTasks now = false) (spawn : Option SpawnResult) (ttlMs : Nat) :
    Tells id runResult task (options.assignWith id agent allTasks spawn now ttlMs) := by
  apply Tells.of_id
  rintro rfl
  cases spawn with
  | none =>
      have hdoes : Does task.id runResult task (assignWith task.id agent allTasks none now ttlMs)
          _ _ := does_assignWith
      rw [hnot] at hdoes
      exact tells_onStore hdoes rfl
  | some spawn =>
      apply tells_get
      dsimp only
      rw [if_pos]
      · exact tells_pure ()
      simp only [Task.assignable, Bool.and_eq_false_iff, decide_eq_false_iff_not,
        Bool.not_eq_false'] at hnot
      rcases hnot with (h | h) | h
      · exact .inl h
      · exact .inr (.inl h)
      · exact .inr (.inr (by rw [h]; exact Bool.false_ne_true))

theorem tells_recoverByResult (hsilent : options.silent = true)
    (hstatus : task.status = .inProgress) (hskips : task.skipsReview runResult = false) :
    Tells id runResult task (options.recoverByResult id task runResult) := by
  have htells : ∀ toStatus, task.tellsMove options task.status toStatus = true := by
    intro toStatus
    rw [Task.tellsMove, hsilent, Bool.true_and, decide_eq_true rfl, Bool.or_true]
  cases runResult with
  | none => exact tells_move (htells .ready) (by rw [hstatus]; decide)
  | some result =>
      have hmoves : Tells id (some result) task
          ((resolveCompletionTransitions task result.outcome).forM fun targetStatus => do
            let _ ← options.transition id targetStatus
            logTransition id task.status targetStatus) := by
        have hone : ∀ toStatus, task.status ≠ toStatus → Tells id (some result) task
            ([toStatus].forM fun targetStatus => do
              let _ ← options.transition id targetStatus
              logTransition id task.status targetStatus) := by
          intro toStatus hne
          have hmove : Tells id (some result) task _ := tells_move (htells toStatus) hne
          show Tells id (some result) task (_ >>= fun _ => pure ())
          rwa [bind_pure_unit]
        cases houtcome : result.outcome with
        | done =>
            rw [resolveCompletionTransitions, if_neg (by rw [hstatus]; decide), if_pos]
            · exact hone .review (by rw [hstatus]; decide)
            · intro hreview
              simp [Task.skipsReview, hreview, houtcome] at hskips
        | blocked => exact hone .blocked (by rw [hstatus]; decide)
        | needsReview => exact hone .review (by rw [hstatus]; decide)
        | partiallyDone => exact hone .review (by rw [hstatus]; decide)
      refine hmoves.bind
        (Records.forM (leading_leadsTask id) (fun targetStatus => records_move id targetStatus _) _)
        (does_outcome hstatus _ result.outcome) ?_
      rintro ⟨⟩ -
      split
      · rename_i hdone
        obtain ⟨hbacklog, hblocked⟩ := outcome_status hstatus hdone
        exact (tells_onStore (does_cascadeOnCompletion hbacklog hblocked) rfl).attempt
      · exact tells_pure ()

theorem tells_recoverWith {agent : Option String} {forces : Bool}
    (htells : (decide (task.status ≠ .inProgress) || !task.heldBy agent ||
      (options.silent && !task.forced forces && !task.skipsReview runResult)) = true) :
    Tells id runResult task (options.recoverWith id agent forces) := by
  apply tells_get
  dsimp only
  split
  · exact tells_pure ()
  rename_i hworks
  rw [not_not] at hworks
  split
  · exact tells_pure ()
  rename_i hagent
  have hheld : task.heldBy agent = true := by
    rw [not_and, not_not] at hagent
    cases agent with
    | none => rfl
    | some name => exact decide_eq_true (hagent rfl)
  simp only [hworks, ne_eq, not_true_eq_false, decide_false, hheld, Bool.not_true, Bool.or_false,
    Bool.false_or, Bool.and_eq_true, Bool.not_eq_true'] at htells
  obtain ⟨⟨hsilent, hforced⟩, hskips⟩ := htells
  have hforce : Does id runResult task (forceCompleteSession task forces) (some ()) _ :=
    does_forced hworks
  rw [hforced, if_neg Bool.false_ne_true] at hforce
  refine tells_onStore_bind hforce rfl ?_
  rintro ⟨⟩ -
  apply tells_readRunResult
  exact tells_recoverByResult hsilent hworks hskips

theorem tells_handler {conduct : ExecutorConduct} {action : SchedulerAction}
    (hid : action.taskId = id) (htells : action.tells options conduct runResult task = true) :
    Tells id runResult task (options.handler conduct action) := by
  subst hid
  cases action with
  | expireLease taskId allTasks maxRetries backoffElapsed => exact tells_handleExpireLease htells
  | staleHeartbeat taskId agent => exact tells_recoverWith htells
  | requeue taskId => exact tells_handleRequeue htells
  | promote taskId => exact tells_move htells (by decide)
  | block taskId => exact tells_move htells (by decide)
  | assign taskId agent allTasks spawn now ttlMs =>
      rcases (Bool.or_eq_true _ _).mp htells with honce | hnot
      · exact fun j _ => keepsFaith_assignWith honce taskId agent allTasks _ now ttlMs j
      · exact tells_assignWith_of_not ((Bool.not_eq_true' _).mp hnot) _ ttlMs
  | deadletter taskId =>
      rcases (Bool.or_eq_true _ _).mp htells with honce | hnot
      · exact tells_once honce
      · apply tells_of_keepsStatus
        exact fun _ hholds => keepsStatus_deadletter hholds.task ((Bool.not_eq_true' _).mp hnot)
  | runComplete taskId errorClass =>
      rcases (Bool.or_eq_true _ _).mp htells with honce | hidle
      · exact tells_once honce
      · exact tells_onStore (does_handleRunComplete_of_ne (of_decide_eq_true hidle)).attempt rfl
  | hopDispatch taskId hopId spawn timestamp =>
      apply tells_of_keepsStatus
      exact fun _ _ => (keepsStatus_pollDispatch hopId spawn timestamp).attempt
  | hopComplete taskId hopId timestamp =>
      rcases (Bool.or_eq_true _ _).mp htells with honce | hnot
      · exact tells_once honce
      · apply tells_of_keepsStatus
        intro _ hholds
        exact (keepsStatus_onRunComplete timestamp hholds ((Bool.not_eq_true' _).mp hnot)).attempt

def Task.advanced (task : Task) (nextStatus : TaskStatus) : Task :=
  if isValidTransition task.status nextStatus then Store.transitioned task nextStatus else task

theorem not_valid_self (status : TaskStatus) : isValidTransition status status = false := by
  cases status <;> rfl

theorem does_applyCompletionTransition (nextStatus : TaskStatus) :
    Does id runResult task (applyCompletionTransition task nextStatus)
      (some (task.advanced nextStatus)) (task.advanced nextStatus) := by
  apply Does.of_id
  rintro rfl
  unfold applyCompletionTransition Task.advanced
  by_cases hsame : task.status = nextStatus
  · rw [if_pos hsame, if_neg (by rw [hsame, not_valid_self]; exact Bool.false_ne_true)]
    exact does_pure task
  by_cases hvalid : isValidTransition task.status nextStatus = true
  · have hdoes : Does task.id runResult task (Store.transition task.id nextStatus) _ _ :=
      does_transition nextStatus
    rw [if_neg hsame, if_pos hvalid, if_pos hvalid]
    rwa [moved_valid hvalid hsame] at hdoes
  · rw [if_neg hsame, if_neg hvalid, if_neg hvalid]
    exact does_pure task

theorem does_applyCompletionTransitions (statuses : List TaskStatus) :
    Does id runResult task (statuses.foldlM applyCompletionTransition task)
      (some (statuses.foldl Task.advanced task)) (statuses.foldl Task.advanced task) := by
  induction statuses generalizing task with
  | nil => exact does_pure task
  | cons status rest ih => exact (does_applyCompletionTransition status).bind ih

theorem does_applyCompletionOutcome (outcome : CompletionOutcome) :
    Does id runResult task (applyCompletionOutcome task outcome) (some ())
      ((resolveCompletionTransitions task outcome).foldl Task.advanced task) :=
  (does_applyCompletionTransitions _).bind (does_pure ())

theorem tells_applyCompletionTransition {nextStatus : TaskStatus}
    (htells : options.silent = true ∨ isValidTransition task.status nextStatus = false) :
    Tells id runResult task (options.applyCompletionTransition task nextStatus) := by
  apply Tells.of_id
  rintro rfl
  unfold TaskStoreOptions.applyCompletionTransition
  split
  · exact tells_pure task
  rename_i hne
  split
  swap
  · exact tells_pure task
  rename_i hvalid
  have hsilent : options.silent = true := by
    apply htells.resolve_right
    rw [hvalid]
    exact Bool.false_ne_true.symm
  have hmove : task.tellsMove options task.status nextStatus = true := by
    rw [Task.tellsMove, hsilent, Bool.true_and, decide_eq_true rfl, Bool.or_true]
  intro j hholds
  have hdoes : Does task.id runResult task (Store.transition task.id nextStatus) _ _ :=
    does_transition nextStatus
  rw [moved_valid hvalid hne] at hdoes
  have htold : Tells task.id runResult task
      (options.onStore (Store.transition task.id nextStatus) >>= fun moved => pure () >>= fun _ =>
        logTransition task.id task.status nextStatus >>= fun _ => pure moved) :=
    tells_told (fun _ => pure ()) hsilent rfl hne hdoes (fun h => by cases h) (fun _ _ => rfl)
      (fun _ t hholds => passes_nothing t hholds) fun _ _ => tells_pure _
  have hfirst : (options.transition task.id nextStatus).run j =
      (some (Store.transitioned task nextStatus),
        ((options.transition task.id nextStatus).run j).2) :=
    Prod.ext (hdoes j.state hholds).1 rfl
  have hkeeps := htold j hholds
  unfold Relates at hkeeps ⊢
  rw [run_bind_of_some (show (options.onStore (Store.transition task.id nextStatus)).run j = _
    from hfirst)] at hkeeps
  rw [run_bind_of_some hfirst, if_neg
    (show ¬(Store.transitioned task nextStatus).status = task.status from fun h => hne h.symm)]
  exact hkeeps

theorem tells_applyCompletionTransitions {statuses : List TaskStatus}
    (htells : options.silent = true ∨
      ∀ status ∈ statuses, isValidTransition task.status status = false) :
    Tells id runResult task (statuses.foldlM options.applyCompletionTransition task) := by
  induction statuses generalizing task with
  | nil => exact tells_pure task
  | cons status rest ih =>
      refine Tells.bind (tells_applyCompletionTransition
        (htells.imp_right fun h => h status List.mem_cons_self))
        (records_applyCompletionTransition task status) (does_applyCompletionTransition status) ?_
      rintro moved ⟨⟩
      apply ih
      rcases htells with hsilent | hstays
      · exact .inl hsilent
      · right
        intro other hother
        rw [Task.advanced, hstays status List.mem_cons_self, if_neg Bool.false_ne_true]
        exact hstays other (List.mem_cons_of_mem _ hother)

theorem does_cascade_self : Does id runResult task (cascadeOnCompletion id) (some ()) task := by
  intro store hholds
  obtain ⟨hreturns, htasks, hresults⟩ := run_cascadeOnCompletion id store
  refine ⟨hreturns, ?_, (hresults id).trans hholds.runResult⟩
  rw [htasks, hholds.task, Option.map_some, Task.cascaded, if_neg]
  simp only [Task.wokenBy, decide_eq_true_eq]
  rintro ⟨hself, hwaits, hdone⟩
  have hover := allDependenciesDone_iff.mp hdone id hself
  rw [isDone_of_get hholds.task, decide_eq_true_eq] at hover
  rcases hwaits with h | h
  · exact absurd (hover.symm.trans h) (by decide)
  · exact absurd (hover.symm.trans h) (by decide)

theorem tells_outcome_cascade {outcome : CompletionOutcome}
    (htells : options.silent = true ∨
      ∀ status ∈ resolveCompletionTransitions task outcome,
        isValidTransition task.status status = false) :
    Tells id runResult task
      (do
        options.applyCompletionOutcome task outcome
        if outcome = .done then Command.attempt (options.onStore (cascadeOnCompletion id))
        else pure ()) := by
  have houtcome : Tells id runResult task (options.applyCompletionOutcome task outcome) :=
    (tells_applyCompletionTransitions htells).bind
      (Records.foldlM (leading_leadsTask id) records_applyCompletionTransition _ task)
      (does_applyCompletionTransitions _) fun _ _ => tells_pure ()
  refine houtcome.bind (records_applyCompletionOutcome task outcome)
    (does_applyCompletionOutcome outcome) ?_
  rintro ⟨⟩ -
  split
  · exact (tells_onStore does_cascade_self rfl).attempt
  · exact tells_pure ()

theorem tasks_writeRunResult (taskId : String) (result : RunResult) (store : Store) :
    ((Store.writeRunResult taskId result).run store).2.tasks = store.tasks := by
  rw [Store.writeRunResult, run_bind_of_some (Store.run_get taskId)]
  cases store.tasks.get? taskId with
  | none => rfl
  | some task =>
      dsimp only
      split <;> rfl

theorem tells_handleCompletionReport {report : CompletionReport} (hid : report.taskId = id)
    (htells : checkAuthorization report.fromAgent task = true → options.silent = true ∨
      ∀ status ∈ resolveCompletionTransitions task report.outcome,
        isValidTransition task.status status = false) :
    Tells id runResult task (options.handleCompletionReport report) := by
  subst hid
  apply tells_get
  dsimp only
  split
  · rename_i hauthorized
    intro j hholds
    have hwrites : Relates (SaysNothing report.taskId)
        (options.onStore (Store.writeRunResult report.taskId
          ⟨report.taskId, report.fromAgent, report.outcome, report.notes⟩)) j :=
      saysNothing_of_keepsStatus (keepsStatus_writeRunResult _)
    refine (keepsFaith_of_saysNothing hwrites).bind fun _ t hrun => ?_
    have htasks := tasks_writeRunResult report.taskId
      ⟨report.taskId, report.fromAgent, report.outcome, report.notes⟩ j.state
    rw [of_run_onStore hrun] at htasks
    exact tells_outcome_cascade (htells hauthorized) t ⟨htasks ▸ hholds.task, rfl⟩
  · exact tells_pure ()

theorem keepsStatus_completeDAGSession {result : RunResult} {timestamp : String} {store : Store}
    (hstays : task.sessionMoves result timestamp = false) (executor : Option SpawnResult)
    (hget : store.tasks.get? task.id = some task) :
    Relates (KeepsStatus id) (completeDAGSession task result executor timestamp) store := by
  unfold Relates completeDAGSession
  rcases handleDAGHopCompletion_cases task result timestamp store with
    hrun | hrun | ⟨workflow, hopId, answer, hcompletion⟩
  · rw [run_bind_of_some hrun]
    exact refl_of (KeepsStatus id) store
  · rw [run_bind_of_none hrun]
    exact refl_of (KeepsStatus id) store
  · have hput : KeepsStatus id store (store.put (task.withWorkflowState answer.state)) :=
      keepsStatus_put hget rfl
    have hneither : answer.taskStatus.isSome = false ∧
        ¬((mapRunResultToHopEvent result hopId (workflow.definition.findHop hopId)).outcome =
            .complete ∧
          (workflow.definition.findHop hopId).any (fun hop => !hop.autoAdvance) = true) := by
      simpa only [Task.sessionMoves, hcompletion.workflow_eq, Option.bind_some,
        hcompletion.dispatched, Option.map_some, hcompletion.evaluated, Option.any_some,
        Bool.or_eq_false_iff, Bool.and_eq_false_iff, decide_eq_false_iff_not, not_and_or,
        Bool.not_eq_true] using hstays
    rw [run_bind_of_some (hcompletion.run store)]
    dsimp only [HopCompletion.answer]
    rw [hneither.1, if_neg Bool.false_ne_true, if_neg (by rw [decide_eq_true_eq]; exact hneither.2)]
    refine trans_of (KeepsStatus id) hput ?_
    split
    · have hstored : (store.put (task.withWorkflowState answer.state)).tasks.get?
          (task.withWorkflowState answer.state).id = some (task.withWorkflowState answer.state) :=
        (Store.tasks_put ..).trans (if_pos rfl)
      exact (keepsStatus_dispatchDAGHop hstored _ _ timestamp).bind fun _ t _ => .pure () t
    · exact refl_of (KeepsStatus id) _

theorem tells_visitCurrent {executor : Option SpawnResult} {timestamp : String}
    (htells : task.status = .inProgress → ∀ result, runResult = some result →
      if task.workflow.isSome then
        options.once = true ∨ task.sessionMoves result timestamp = false
      else options.silent = true) :
    Tells id runResult task (options.visitCurrent id executor timestamp) := by
  apply Tells.of_id
  rintro rfl
  apply tells_get
  dsimp only
  split
  swap
  · exact tells_pure ()
  rename_i hworks
  apply tells_readRunResult
  cases hresult : runResult with
  | none => exact tells_pure ()
  | some result =>
      have hsession := htells hworks result hresult
      dsimp only
      split
      · rename_i hworkflow
        rw [if_pos hworkflow] at hsession
        apply Tells.attempt
        rcases hsession with honce | hstays
        · exact tells_once honce
        · apply tells_of_keepsStatus
          exact fun store hholds =>
            keepsStatus_completeDAGSession hstays executor hholds.task
      · rename_i hworkflow
        rw [if_neg hworkflow] at hsession
        exact tells_outcome_cascade (.inl hsession)

theorem tellsMove_of_silent (hsilent : options.silent = true) (toStatus : TaskStatus) :
    task.tellsMove options task.status toStatus = true := by
  rw [Task.tellsMove, hsilent, Bool.true_and, decide_eq_true rfl, Bool.or_true]

theorem does_startForCompletion : ∃ result after,
    Does id runResult task (startForCompletion task) result after ∧
      ∀ started, result = some started →
        started = after ∧ (after.status = .inProgress ∨ after.status = .review) := by
  have hstart : ∀ current : Task, ∃ result after,
      Does id runResult current (Store.transition id .inProgress) result after ∧
        ∀ started, result = some started →
          started = after ∧ (after.status = .inProgress ∨ after.status = .review) := by
    intro current
    refine ⟨_, _, does_transition .inProgress, fun started hstarted => ?_⟩
    rw [hstarted, Option.getD_some]
    refine ⟨rfl, .inl ?_⟩
    rcases moved_eq_some hstarted with ⟨hsame, rfl⟩ | ⟨-, rfl⟩
    · exact hsame
    · rfl
  by_cases hearly : task.status = .inProgress ∨ task.status = .review
  · refine ⟨some task, task, ?_, fun started hstarted => ?_⟩
    · unfold startForCompletion
      rw [if_pos hearly]
      exact does_pure task
    · obtain rfl := Option.some.inj hstarted
      exact ⟨rfl, hearly⟩
  by_cases hblocked : task.status = .blocked
  · obtain ⟨result, after, hdoes, hstarted⟩ := hstart (Store.transitioned task .ready)
    refine ⟨result, after, ?_, hstarted⟩
    apply Does.of_id
    rintro rfl
    have hready : Does task.id runResult task (Store.transition task.id .ready) _ _ :=
      does_transition .ready
    rw [moved_valid (by rw [hblocked]; rfl) (by rw [hblocked]; decide)] at hready
    unfold startForCompletion
    rw [if_neg hearly, if_pos hblocked]
    exact hready.bind hdoes
  · obtain ⟨result, after, hdoes, hstarted⟩ := hstart task
    refine ⟨result, after, ?_, hstarted⟩
    apply Does.of_id
    rintro rfl
    unfold startForCompletion
    rw [if_neg hearly, if_neg hblocked]
    exact hdoes

theorem tells_startForCompletion (hsilent : options.silent = true) :
    Tells id runResult task (options.startForCompletion task) := by
  apply Tells.of_id
  rintro rfl
  unfold TaskStoreOptions.startForCompletion
  split
  · exact tells_pure task
  rename_i hearly
  split
  · rename_i hblocked
    apply tells_move_then (tellsMove_of_silent hsilent .ready) (by rw [hblocked]; decide)
    intro _
    exact tells_move_then (tellsMove_of_silent hsilent .inProgress)
      (show TaskStatus.ready ≠ .inProgress by decide) fun _ => tells_pure _
  · exact tells_move_then (tellsMove_of_silent hsilent .inProgress)
      (fun h => hearly (.inl h)) fun _ => tells_pure _

theorem tells_aofTaskComplete (hsilent : options.silent = true) :
    Tells id runResult task (options.aofTaskComplete id) := by
  apply tells_get
  dsimp only
  split
  · exact tells_throw
  have hstarts : ∃ result after, Does id runResult task (startForCompletion task) result after ∧
      ∀ started, result = some started →
        started = after ∧ (after.status = .inProgress ∨ after.status = .review) :=
    does_startForCompletion
  obtain ⟨result, after, hdoes, hstarted⟩ := hstarts
  refine (tells_startForCompletion hsilent).bind (records_startForCompletion task) hdoes ?_
  intro started hresult
  obtain ⟨rfl, hstatus⟩ := hstarted started hresult
  have hreviewed : ∀ {current : Task}, current.status = .review → Tells id runResult current
      (do
        let _ ← options.transition id .done
        logTransition id .review .done) := by
    intro current hreview
    have htells : current.tellsMove options current.status .done = true :=
      tellsMove_of_silent hsilent .done
    rw [hreview] at htells
    exact tells_move htells (by decide)
  split
  · rename_i hworks
    have htells : started.tellsMove options started.status .review = true :=
      tellsMove_of_silent hsilent .review
    rw [hworks] at htells
    exact tells_move_then htells (by decide) fun _ => hreviewed rfl
  · rename_i hidle
    exact hreviewed (hstatus.resolve_left hidle)

theorem tells_aofTaskComplete_of_not
    (hnot : task.status ∉ [TaskStatus.ready, .inProgress, .blocked, .review]) :
    Tells id runResult task (options.aofTaskComplete id) := by
  simp only [List.mem_cons, List.not_mem_nil, or_false, not_or] at hnot
  apply Tells.of_id
  rintro rfl
  apply tells_get
  dsimp only
  split
  · exact tells_throw
  have hrefused : Does task.id runResult task (Store.transition task.id .inProgress) _ _ :=
    does_transition .inProgress
  have hmoved : task.moved .inProgress = none := by
    have hinvalid : ¬isValidTransition task.status .inProgress = true := by
      intro hvalid
      revert hvalid hnot
      cases task.status <;> simp [isValidTransition, VALID_TRANSITIONS]
    rw [Task.moved, if_neg hnot.2.1, if_neg hinvalid]
  rw [hmoved] at hrefused
  have hthrows : Tells task.id runResult task (options.startForCompletion task) := by
    unfold TaskStoreOptions.startForCompletion
    rw [if_neg (fun h => h.elim hnot.2.1 hnot.2.2.2), if_neg hnot.2.2.1]
    exact tells_onStore_bind hrefused rfl fun _ h => by cases h
  have hdoes : Does task.id runResult task (startForCompletion task) none task := by
    unfold startForCompletion
    rw [if_neg (fun h => h.elim hnot.2.1 hnot.2.2.2), if_neg hnot.2.2.1]
    exact hrefused
  exact hthrows.bind (records_startForCompletion task) hdoes fun _ h => by cases h

theorem does_cascadeOnBlock {blockedTaskId : String} (hblocked : task.status = .blocked) :
    Does id runResult task (cascadeOnBlock blockedTaskId) (some ()) task := by
  intro store hholds
  obtain ⟨hreturns, htasks, hresults⟩ := run_cascadeOnBlock blockedTaskId store
  refine ⟨hreturns, ?_, (hresults id).trans hholds.runResult⟩
  rw [htasks, hholds.task, Option.map_some, Task.upstreamBlocked, if_neg]
  rw [hblocked]
  rintro ⟨-, h | h⟩ <;> cases h

theorem tells_handleStatusUpdate {targetStatus : TaskStatus} (cascadeBlocks : Bool)
    (htells : options.silent = true ∨ isValidTransition task.status targetStatus = false) :
    Tells id runResult task (options.handleStatusUpdate id targetStatus cascadeBlocks) := by
  apply tells_get
  dsimp only
  split
  · exact tells_pure ()
  rename_i hne
  split
  swap
  · exact tells_pure ()
  rename_i hvalid
  have hsilent : options.silent = true := by
    apply htells.resolve_right
    rw [hvalid]
    exact Bool.false_ne_true.symm
  have hdoes : Does id runResult task (Store.transition id targetStatus) _ _ :=
    does_transition targetStatus
  rw [moved_valid hvalid hne] at hdoes
  have htold : Tells id runResult task
      (options.transition id targetStatus >>= fun _ =>
        options.onStore (if targetStatus = .blocked ∧ cascadeBlocks then cascadeOnBlock id
          else pure ()) >>= fun _ =>
        logTransition id task.status targetStatus >>= fun _ => pure ()) := by
    refine tells_told _ hsilent rfl hne hdoes (fun h => nomatch h) (fun _ _ => rfl) ?_
      fun _ _ => tells_pure ()
    intro _ t hholds
    split
    · rename_i hblocks
      have hcascade : Does id runResult (Store.transitioned task targetStatus) (cascadeOnBlock id)
          (some ()) (Store.transitioned task targetStatus) := does_cascadeOnBlock hblocks.1
      refine ⟨(hcascade t.state hholds).1, ?_, (hcascade t.state hholds).2⟩
      apply saysNothing_recording
      intro old new hold hnew
      have hsame := (hcascade t.state hholds).2.task
      obtain rfl := Option.some.inj (hholds.task.symm.trans hold)
      exact congrArg Task.status (Option.some.inj (hsame.symm.trans hnew))
    · refine ⟨rfl, ?_, hholds⟩
      exact saysNothing_of_keepsStatus (refl_of (KeepsStatus id) t.state)
  simpa only [bind_pure_unit] using htold

theorem tells_rejectHandoff {fromAgent : String}
    (htells : checkAuthorization fromAgent task = true →
      options.silent = true ∧ isValidTransition task.status .blocked = true) :
    Tells id runResult task (options.rejectHandoff id fromAgent) := by
  apply tells_get
  dsimp only
  split
  swap
  · exact tells_pure ()
  rename_i hauthorized
  obtain ⟨hsilent, hvalid⟩ := htells hauthorized
  have hne : task.status ≠ .blocked := by
    intro hblocked
    rw [hblocked] at hvalid
    cases hvalid
  rw [if_neg]
  · exact tells_move (tellsMove_of_silent hsilent .blocked) hne
  · rintro (h | h)
    · exact hne h
    · exact h hvalid

theorem keepsFaith_evaluateMurmurTrigger (honce : options.once = true) (input : PollInput)
    (currentInProgress : Nat) (review : MurmurReview) (j : Journal) : Relates (KeepsFaith id)
      (options.evaluateMurmurTrigger input currentInProgress review) j := by
  unfold TaskStoreOptions.evaluateMurmurTrigger
  split
  · exact .pure () j
  apply Relates.attempt
  refine (keepsFaith_once honce).bind fun _ t _ => ?_
  refine (keepsFaith_once honce).bind fun _ u _ => ?_
  split
  · exact .pure () u
  apply Relates.attempt
  refine (keepsFaith_once honce).bind fun _ v _ => ?_
  split
  · exact .pure () v
  · exact (keepsFaith_once honce).bind fun _ w _ => .pure () w

theorem tells_evaluateMurmurTrigger {input : PollInput} {currentInProgress : Nat}
    {review : MurmurReview} (hid : review.reviewTaskId = id) :
    Tells id runResult task (options.evaluateMurmurTrigger input currentInProgress review) := by
  unfold TaskStoreOptions.evaluateMurmurTrigger
  split
  · exact tells_pure ()
  apply Tells.attempt
  have hrefused : Does id runResult task (Store.create review.task) none task := by
    subst hid
    exact does_get.bind does_throw
  exact tells_onStore_bind hrefused rfl fun _ h => by cases h

theorem tells_command {operation : SchedulerOperation} (hid : operation.taskId = id)
    (htells : operation.tells options runResult task = true) :
    Tells id runResult task (options.command operation) := by
  subst hid
  cases operation with
  | complete taskId =>
      rcases (Bool.or_eq_true _ _).mp htells with hsilent | hnot
      · exact tells_aofTaskComplete hsilent
      · exact tells_aofTaskComplete_of_not (of_decide_eq_true hnot)
  | report message =>
      apply tells_handleCompletionReport rfl
      intro hauthorized
      simpa [SchedulerOperation.tells, hauthorized] using htells
  | statusUpdate taskId targetStatus cascadeBlocks =>
      apply tells_handleStatusUpdate
      simpa [SchedulerOperation.tells] using htells
  | writeResult taskId result =>
      exact tells_of_keepsStatus fun _ _ => keepsStatus_writeRunResult result
  | block taskId reason =>
      rcases (Bool.or_eq_true _ _).mp htells with honce | hnot
      · exact tells_once honce
      · have hdoes : Does taskId runResult task (Store.block taskId reason) _ _ := does_block reason
        rw [if_pos (of_decide_eq_true hnot), if_pos (of_decide_eq_true hnot)] at hdoes
        exact tells_onStore hdoes rfl
  | unblock taskId =>
      rcases (Bool.or_eq_true _ _).mp htells with honce | hnot
      · exact tells_once honce
      · have hdoes : Does taskId runResult task (Store.unblock taskId) _ _ := does_unblock
        rw [if_neg (of_decide_eq_true hnot), if_neg (of_decide_eq_true hnot)] at hdoes
        exact tells_onStore hdoes rfl
  | cancel taskId =>
      rw [SchedulerOperation.tells, Bool.or_assoc, Bool.or_eq_true] at htells
      rcases htells with hhooks | hover
      · exact fun _ _ => keeps_recording_once (by rw [hhooks]; rfl)
      · intro j hholds
        have hdoes : Does taskId runResult task (Store.cancel taskId) _ _ := does_cancel
        have hdone : task.status = .done ∨ task.status = .cancelled := by simpa using hover
        rw [if_pos hdone, Task.cancelled, if_pos hdone] at hdoes
        apply keepsFaith_of_saysNothing
        apply saysNothing_recording
        intro old new hold hnew
        obtain rfl := Option.some.inj (hholds.task.symm.trans hold)
        exact congrArg Task.status (Option.some.inj ((hdoes j.state hholds).2.task.symm.trans hnew))
  | cascade completedTaskId => exact tells_onStore does_cascade_self rfl
  | visit taskId executor timestamp =>
      apply tells_visitCurrent
      rintro hworks result rfl
      simp only [SchedulerOperation.tells, hworks, ne_eq, not_true_eq_false, decide_false,
        Bool.false_or, Option.all_some] at htells
      split at htells
      · rename_i hworkflow
        rw [if_pos hworkflow]
        simpa using htells
      · rename_i hworkflow
        rwa [if_neg hworkflow]
  | runComplete taskId errorClass =>
      rcases (Bool.or_eq_true _ _).mp htells with honce | hidle
      · exact tells_once honce
      · exact tells_onStore (does_handleRunComplete_of_ne (of_decide_eq_true hidle)) rfl
  | hopComplete taskId hopId timestamp =>
      rcases (Bool.or_eq_true _ _).mp htells with honce | hnot
      · exact tells_once honce
      · apply tells_of_keepsStatus
        intro _ hholds
        exact keepsStatus_onRunComplete timestamp hholds ((Bool.not_eq_true' _).mp hnot)
  | hopTimeouts input taskId =>
      exact tells_of_keepsStatus fun _ _ => keepsStatus_checkTaskTimeouts input
  | hopDispatch taskId hopId spawn timestamp =>
      exact tells_of_keepsStatus fun _ _ => keepsStatus_pollDispatch hopId spawn timestamp
  | review input currentInProgress team => exact tells_evaluateMurmurTrigger rfl

end

end Aof
