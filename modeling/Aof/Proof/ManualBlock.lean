import Aof.Proof.PlannedActions
import Aof.Proof.RetryClassification

/-!
# Blocks by hand

A task that was blocked by hand is brought back by the recovery of blocked tasks, by the end of its
lease and by the completion of its last dependency.  While none of the three looks at it that way it
stays blocked, with its reason.
-/

namespace Aof

open StepSystem (Run exec)

def BlockedWith (id reason : String) (store : Store) : Prop :=
  ∃ task, store.tasks.get? id = some task ∧ task.status = .blocked ∧
    task.metadata.blockReason = some reason

/-- An operator, an agent or a session of the task acts on it. -/
def SchedulerOperation.actsOn (id : String) : SchedulerOperation → Bool
  | .complete taskId | .statusUpdate taskId .. | .block taskId _ | .unblock taskId
  | .cancel taskId | .hopComplete taskId .. => taskId = id
  | .report message => message.taskId = id
  | _ => false

/-- The action gives the task up, which ends the block as `unblock` and `cancel` do. -/
def SchedulerAction.deadLetters (store : Store) (id : String) : SchedulerAction → Bool
  | .deadletter taskId => taskId = id
  | .expireLease taskId allTasks maxRetries backoffElapsed =>
      taskId = id && (store.tasks.get? id).any fun task =>
        task.expiryTarget allTasks maxRetries backoffElapsed = some .deadletter
  | _ => false

/-- The other planned actions move the task out of `blocked`. -/
def SchedulerAction.sparesBlocked : SchedulerAction → Bool
  | .expireLease .. | .staleHeartbeat .. | .assign .. | .deadletter _ | .block _ => true
  | _ => false

/-- Polls, completions of other tasks and cascades. -/
def SchedulerEvent.passesBy (id : String) (state : SchedulerState) : SchedulerEvent → Bool
  | .plan _ => true
  | .execute _ => !state.planned.head?.any (SchedulerAction.deadLetters state.store id)
  | .operate operation => !operation.actsOn id

/-- The event finds that the task can go on: the recovery plans to requeue it, the end of its lease
requeues it, or a task that it depends on announces its completion and no dependency is left. -/
def SchedulerEvent.requeues (id : String) (state : SchedulerState) (task : Task) :
    SchedulerEvent → Bool
  | .plan input =>
      (recoverBlocked input state.store.tasks.values task).any fun action =>
        !action.sparesBlocked
  | .execute conduct =>
      match state.planned.head? with
      | some (.expireLease taskId allTasks maxRetries backoffElapsed) =>
          taskId = id && task.expiryTarget allTasks maxRetries backoffElapsed = some .ready
      | some (.staleHeartbeat taskId agent) =>
          taskId ∈ task.dependsOn && allDependenciesDone
            (((SchedulerAction.staleHeartbeat taskId agent).handler conduct).after
              state.store).tasks.values task
      | _ => false
  | .operate operation =>
      operation.announces && operation.taskId ∈ task.dependsOn &&
        allDependenciesDone (operation.command.after state.store).tasks.values task

def SparesBlock (id : String) (state : SchedulerState) (event : SchedulerEvent) : Prop :=
  event.passesBy id state = true ∧
    ∀ task, state.store.tasks.get? id = some task → event.requeues id state task = false

def Store.isDone (store : Store) (id : String) : Bool :=
  (store.tasks.get? id).any fun task => task.status = .done

/-- The completion of the one task may wake the other one, if no dependency is left. -/
structure MayWake (id completed : String) (before after : Store) : Prop where
  done : ∀ other, before.isDone other = true → after.isDone other = true
  task : ∀ task, before.tasks.get? id = some task → after.tasks.get? id = some task ∨
    completed ∈ task.dependsOn ∧ (task.status = .backlog ∨ task.status = .blocked) ∧
      (∀ dep ∈ task.dependsOn, after.isDone dep = true) ∧
      after.tasks.get? id = some (Store.transitioned task .ready)
  result : after.runResults.get? id = before.runResults.get? id

instance (id completed : String) : IsPreorder Store (MayWake id completed) where
  refl _ := ⟨fun _ h => h, fun _ hget => .inl hget, rfl⟩
  trans _ _ _ hab hbc := by
    refine ⟨fun other h => hbc.done other (hab.done other h), fun task hget => ?_,
      hbc.result.trans hab.result⟩
    rcases hab.task task hget with hsame | ⟨hdepends, hwaits, hdone, hready⟩
    · exact hbc.task task hsame
    · have hkept := fun dep hdep => hbc.done dep (hdone dep hdep)
      rcases hbc.task _ hready with hsame | ⟨-, hagain, -⟩
      · exact .inr ⟨hdepends, hwaits, hkept, hsame⟩
      · rcases hagain with h | h <;> cases h

section

variable {id completed reason : String} {store before after : Store} {task : Task}

theorem Ordinary.done {changed : Task} (h : Ordinary task changed) (hdone : task.status = .done) :
    changed.status = .done := by
  cases h with
  | transition hvalid =>
      rw [hdone] at hvalid
      exact absurd hvalid (by simp [isValidTransition, VALID_TRANSITIONS])
  | _ => exact hdone

theorem find_list :
    (store.tasks.values.find? fun other => other.id = id) = store.tasks.get? id := by
  cases hfind : store.tasks.values.find? fun other => other.id = id with
  | some task =>
      obtain rfl : task.id = id := by simpa using List.find?_some hfind
      exact (mem_list_iff.mp (List.mem_of_find?_eq_some hfind)).symm
  | none =>
      symm
      rw [Option.eq_none_iff_forall_ne_some]
      rintro task hget
      obtain rfl : task.id = id := store.keyed id task hget
      rw [List.find?_eq_none] at hfind
      exact hfind task (mem_list_iff.mpr hget) (by simp)

theorem allDependenciesDone_iff : allDependenciesDone store.tasks.values task = true ↔
    ∀ dep ∈ task.dependsOn, store.isDone dep = true := by
  simp only [allDependenciesDone, List.all_eq_true, find_list, Store.isDone]

variable {new : Task} {other : String} {input : PollInput} {action : SchedulerAction}
  {runResult : Option RunResult} {allTasks : List Task} {conduct : ExecutorConduct}
  {operation : SchedulerOperation}

theorem isDone_put : (store.put new).isDone other =
    if new.id = other then decide (new.status = .done) else store.isDone other := by
  unfold Store.isDone
  rw [Store.tasks_put]
  split
  · rfl
  · rfl

theorem isDone_of_get (hget : store.tasks.get? other = some task) :
    store.isDone other = decide (task.status = .done) := by
  unfold Store.isDone
  rw [hget]
  rfl

theorem mayWake_put (hne : new.id ≠ id) (hdone : store.isDone new.id = true → new.status = .done) :
    MayWake id completed store (store.put new) := by
  constructor
  · intro other h
    rw [isDone_put]
    split
    · rename_i hid
      exact decide_eq_true (hdone (hid ▸ h))
    · exact h
  · intro task hget
    left
    rw [Store.tasks_put, if_neg hne, hget]
  · rw [Store.runResults_put]

theorem admits_mayWake (hne : completed ≠ id) :
    Admits (MayWake id completed) fun other => other = completed where
  put store old new hget hordinary hown := by
    refine mayWake_put (hown ▸ hne) fun hdone => hordinary.done ?_
    rw [isDone_of_get hget] at hdone
    exact of_decide_eq_true hdone
  create store task hnone _ hown := by
    refine mayWake_put (hown ▸ hne) fun hdone => ?_
    rw [Store.isDone, hnone] at hdone
    cases hdone
  result store taskId result hown :=
    ⟨fun _ h => h, fun _ hget => .inl hget, Dict.get?_set_of_ne _ result (hown ▸ hne)⟩
  cascade completedTaskId store hown := by
    obtain rfl : completedTaskId = completed := hown
    obtain ⟨-, htasks, hresults⟩ := run_cascadeOnCompletion completedTaskId store
    have hkept : ∀ other, store.isDone other = true →
        ((cascadeOnCompletion completedTaskId).after store).isDone other = true := by
      intro other h
      obtain ⟨task, hget, hstatus⟩ := (Option.any_eq_true _ _).mp h
      have hafter := htasks other
      rw [hget, Option.map_some, Task.cascaded, if_neg] at hafter
      · exact (isDone_of_get hafter).trans hstatus
      · simp [Task.wokenBy, of_decide_eq_true hstatus]
    refine ⟨hkept, fun task hget => ?_, hresults id⟩
    have hafter := htasks id
    rw [hget, Option.map_some, Task.cascaded] at hafter
    split at hafter
    · rename_i hwoken
      simp only [Task.wokenBy, decide_eq_true_eq] at hwoken
      right
      refine ⟨hwoken.1, hwoken.2.1, fun dep hdep => hkept dep ?_, hafter⟩
      exact allDependenciesDone_iff.mp hwoken.2.2 dep hdep
    · exact .inl hafter

theorem admitsOwn_only : AdmitsOwn (Only completed) fun other => other = completed where
  put store old new _ _ hown := only_put hown
  create store task _ _ hown := only_put hown
  result store taskId result hown := by
    refine ⟨fun _ _ => rfl, fun other hne => ?_⟩
    exact Dict.get?_set_of_ne _ result fun h => hne (h.symm.trans hown)

theorem BlockedWith.of_tasks (hblocked : BlockedWith id reason before)
    (htasks : after.tasks.get? id = before.tasks.get? id) : BlockedWith id reason after := by
  unfold BlockedWith
  rw [htasks]
  exact hblocked

theorem sparesBlocked_of_planned (hget : store.tasks.get? id = some task)
    (hstatus : task.status = .blocked)
    (hrecover : (recoverBlocked input store.tasks.values task).any (fun action =>
      !action.sparesBlocked) = false)
    (haction : action ∈ plannedActions input store.tasks.values) (hid : action.taskId = id) :
    action.sparesBlocked = true := by
  have hsame : ∀ {other}, other ∈ store.tasks.values → other.id = id → other = task := by
    rintro other hmem rfl
    rw [mem_list_iff.mp hmem] at hget
    exact Option.some.inj hget
  cases plans_of_mem haction with
  | promote htask hbacklog =>
      rw [hsame htask hid, hstatus] at hbacklog
      cases hbacklog
  | recover htask _ hfound =>
      rcases recoverBlocked_cases hfound with rfl | rfl
      · rw [hsame htask hid] at hfound
        rw [hfound] at hrecover
        cases hrecover
      · rfl
  | _ => rfl

theorem expiryTarget_cases (allTasks : List Task) (maxRetries : Nat) (backoffElapsed : Bool) :
    task.expiryTarget allTasks maxRetries backoffElapsed = none ∨
      task.expiryTarget allTasks maxRetries backoffElapsed = some .ready ∨
      task.expiryTarget allTasks maxRetries backoffElapsed = some .deadletter := by
  unfold Task.expiryTarget
  split
  · split
    · split
      · exact .inr (.inr rfl)
      · exact .inr (.inl rfl)
      · exact .inl rfl
    · split
      · exact .inr (.inl rfl)
      · exact .inl rfl
  · exact .inr (.inl rfl)

theorem does_handleExpireLease_none {maxRetries : Nat} {backoffElapsed : Bool}
    (hnowhere : task.expiryTarget allTasks maxRetries backoffElapsed = none) :
    Does id runResult task (handleExpireLease id allTasks maxRetries backoffElapsed) (some ())
      task.unleased := by
  have hdoes : Does id runResult task (handleExpireLease id allTasks maxRetries backoffElapsed)
    _ _ := does_handleExpireLease
  rwa [hnowhere] at hdoes

theorem does_assignWith_blocked {agent : String} {spawn : Option SpawnResult} {now ttlMs : Nat}
    (hstatus : task.status = .blocked) :
    Does id runResult task (assignWith id agent allTasks spawn now ttlMs) (some ()) task := by
  have hdoes : Does id runResult task (assignWith id agent allTasks spawn now ttlMs) _ _ :=
    does_assignWith
  rwa [Task.assignable, hstatus] at hdoes

theorem blockedWith_own (state : SchedulerState) {action : SchedulerAction}
    {conduct : ExecutorConduct} (hblocked : BlockedWith id reason state.store)
    (hid : action.taskId = id) (hhead : state.planned.head? = some action)
    (hspares : action.sparesBlocked = true) (hdead : action.deadLetters state.store id = false)
    (hrequeues : ∀ task, state.store.tasks.get? id = some task →
      (SchedulerEvent.execute conduct).requeues id state task = false) :
    BlockedWith id reason ((action.handler conduct).after state.store) := by
  obtain ⟨task, hget, hstatus, hreason⟩ := hblocked
  cases action with
  | expireLease taskId allTasks maxRetries backoffElapsed =>
      obtain rfl : taskId = id := hid
      have hlease := hrequeues task hget
      simp only [SchedulerEvent.requeues, hhead, decide_true, Bool.true_and,
        decide_eq_false_iff_not] at hlease
      simp only [SchedulerAction.deadLetters, hget, decide_true, Bool.true_and, Option.any_some,
        decide_eq_false_iff_not] at hdead
      have hnowhere := (expiryTarget_cases allTasks maxRetries backoffElapsed).resolve_right
        fun h => h.elim hlease hdead
      exact ⟨_, Does.after_task (fun _ => does_handleExpireLease_none hnowhere) hget, hstatus,
        hreason⟩
  | staleHeartbeat taskId agent =>
      obtain rfl : taskId = id := hid
      have hidle : task.status ≠ .inProgress := by
        rw [hstatus]
        decide
      exact ⟨task, Does.after_task (fun _ => does_recoverWith_of_not (.inl hidle)) hget, hstatus,
        hreason⟩
  | assign taskId agent allTasks spawn now ttlMs =>
      obtain rfl : taskId = id := hid
      exact ⟨task, Does.after_task (fun _ => does_assignWith_blocked hstatus) hget, hstatus,
        hreason⟩
  | deadletter taskId =>
      obtain rfl : taskId = id := hid
      simp [SchedulerAction.deadLetters] at hdead
  | block taskId =>
      obtain rfl : taskId = id := hid
      have hstays : ∀ runResult,
          Does taskId runResult task (handleBlock taskId) (some ()) task := by
        intro runResult
        have hdoes : Does taskId runResult task (handleBlock taskId) _ _ :=
          does_transition_then .blocked
        rwa [moved_same hstatus] at hdoes
      exact ⟨task, Does.after_task hstays hget, hstatus, hreason⟩
  | _ => cases hspares

theorem blockedWith_cascade_self (hblocked : BlockedWith id reason store) :
    BlockedWith id reason ((cascadeOnCompletion id).after store) := by
  obtain ⟨task, hget, hstatus, hreason⟩ := hblocked
  have hafter : ((cascadeOnCompletion id).after store).tasks.get? id =
      (store.tasks.get? id).map fun task => task.cascaded id store.tasks.values :=
    (run_cascadeOnCompletion id store).2.1 id
  rw [hget, Option.map_some, Task.cascaded, if_neg] at hafter
  · exact ⟨task, hafter, hstatus, hreason⟩
  · simp only [Task.wokenBy, decide_eq_true_eq]
    rintro ⟨hself, -, hdone⟩
    have hover := allDependenciesDone_iff.mp hdone id hself
    rw [isDone_of_get hget, hstatus] at hover
    cases hover

theorem blockedWith_pollDispatch (hblocked : BlockedWith id reason store) (hopId : String)
    (spawn : SpawnResult) (timestamp : String) :
    BlockedWith id reason ((pollDispatch id hopId spawn timestamp).after store) := by
  obtain ⟨task, hget, hstatus, hreason⟩ := hblocked
  have hid : task.id = id := store.keyed id task hget
  rw [pollDispatch, after_get_some hget]
  dsimp only
  split
  · exact ⟨task, hget, hstatus, hreason⟩
  split
  · exact ⟨task, hget, hstatus, hreason⟩
  unfold dispatchDAGHop
  split
  · exact ⟨task, hget, hstatus, hreason⟩
  split
  · exact ⟨_, (Store.tasks_put ..).trans (if_pos hid), hstatus, hreason⟩
  · exact ⟨task, hget, hstatus, hreason⟩

theorem after_evaluateMurmurTrigger_of_get {currentInProgress : Nat} {review : MurmurReview}
    (hget : store.tasks.get? review.reviewTaskId = some task) :
    (evaluateMurmurTrigger input currentInProgress review).after store = store := by
  have hfails : (Store.create review.task).run store = (none, store) := by
    rw [Store.create, Command.run_bind_of_some (Store.run_get review.task.id)]
    simp only [MurmurReview.task, hget]
    rfl
  unfold evaluateMurmurTrigger
  split
  · rfl
  · rw [Command.after_eq, Command.run_attempt, Command.run_bind_of_none hfails]

section Idle

variable {runResult : Option RunResult}

theorem does_visitCurrent_idle (hidle : task.status ≠ .inProgress)
    (executor : Option SpawnResult) (timestamp : String) :
    Does id runResult task (visitCurrent id executor timestamp) (some ()) task := by
  apply does_get.bind
  dsimp only
  rw [if_neg hidle]
  exact does_pure ()

theorem does_checkTaskTimeouts_idle (hidle : task.status ≠ .inProgress) (input : PollInput) :
    Does id runResult task (checkTaskTimeouts input id) (some ()) task := by
  apply does_get.bind
  dsimp only
  rw [if_neg hidle]
  exact does_pure ()

end Idle

theorem blockedWith_own_operation (hblocked : BlockedWith id reason store)
    (hid : operation.taskId = id) (hpasses : operation.actsOn id = false) :
    BlockedWith id reason (operation.command.after store) := by
  obtain ⟨task, hget, hstatus, hreason⟩ := hblocked
  have hidle : task.status ≠ .inProgress := by
    rw [hstatus]
    decide
  cases operation with
  | cascade completedTaskId =>
      obtain rfl : completedTaskId = id := hid
      exact blockedWith_cascade_self ⟨task, hget, hstatus, hreason⟩
  | hopDispatch taskId hopId spawn timestamp =>
      obtain rfl : taskId = id := hid
      exact blockedWith_pollDispatch ⟨task, hget, hstatus, hreason⟩ hopId spawn timestamp
  | visit taskId executor timestamp =>
      obtain rfl : taskId = id := hid
      exact ⟨task, Does.after_task (fun _ => does_visitCurrent_idle hidle executor timestamp) hget,
        hstatus, hreason⟩
  | runComplete taskId errorClass =>
      obtain rfl : taskId = id := hid
      exact ⟨task, Does.after_task (fun _ => does_handleRunComplete_of_ne hidle) hget, hstatus,
        hreason⟩
  | hopTimeouts input taskId =>
      obtain rfl : taskId = id := hid
      exact ⟨task, Does.after_task (fun _ => does_checkTaskTimeouts_idle hidle input) hget, hstatus,
        hreason⟩
  | writeResult taskId result =>
      obtain rfl : taskId = id := hid
      refine ⟨task, ?_, hstatus, hreason⟩
      rw [SchedulerOperation.command, Store.writeRunResult, after_get_some hget]
      dsimp only
      split
      · exact hget
      · exact hget
  | review input currentInProgress team =>
      obtain rfl : team.reviewTaskId = id := hid
      refine ⟨task, ?_, hstatus, hreason⟩
      rw [SchedulerOperation.command, after_evaluateMurmurTrigger_of_get hget, hget]
  | _ =>
      exact absurd hpasses (by simp [SchedulerOperation.actsOn, ← hid, SchedulerOperation.taskId])

theorem BlockedWith.of_mayWake (hblocked : BlockedWith id reason before)
    (hwake : MayWake id completed before after)
    (hopen : ∀ task, before.tasks.get? id = some task → completed ∈ task.dependsOn →
      allDependenciesDone after.tasks.values task = false) : BlockedWith id reason after := by
  obtain ⟨task, hget, hstatus, hreason⟩ := hblocked
  rcases hwake.task task hget with hsame | ⟨hdepends, -, hdone, -⟩
  · exact ⟨task, hsame, hstatus, hreason⟩
  · have hleft := hopen task hget hdepends
    rw [allDependenciesDone_iff.mpr hdone] at hleft
    cases hleft

theorem only_quietAction {action : SchedulerAction} {conduct : ExecutorConduct}
    (hannounces : action.announces = false) :
    Only action.taskId store ((action.handler conduct).after store) :=
  admitsOwn_only.handler (by rfl) (fun _ _ _ => only_patch fun _ => rfl) hannounces

theorem mayWake_announcedAction {action : SchedulerAction} {conduct : ExecutorConduct}
    (hne : action.taskId ≠ id) (hannounces : action.announces = true) :
    MayWake id action.taskId store ((action.handler conduct).after store) := by
  apply (admits_mayWake hne).handler (by rfl)
  intro error hfailed
  cases action with
  | staleHeartbeat => cases hfailed
  | _ => cases hannounces

theorem blockedWith_other_action (state : SchedulerState) {action : SchedulerAction}
    {conduct : ExecutorConduct} (hblocked : BlockedWith id reason state.store)
    (hne : action.taskId ≠ id) (hhead : state.planned.head? = some action)
    (hrequeues : ∀ task, state.store.tasks.get? id = some task →
      (SchedulerEvent.execute conduct).requeues id state task = false) :
    BlockedWith id reason ((action.handler conduct).after state.store) := by
  cases hannounces : action.announces with
  | false => exact hblocked.of_tasks ((only_quietAction hannounces).others id hne.symm)
  | true =>
      apply hblocked.of_mayWake (mayWake_announcedAction hne hannounces)
      intro task hget hdepends
      cases action with
      | staleHeartbeat taskId agent =>
          have hopen := hrequeues task hget
          simp only [SchedulerEvent.requeues, hhead, Bool.and_eq_false_iff,
            decide_eq_false_iff_not] at hopen
          exact hopen.resolve_left (not_not_intro hdepends)
      | _ => cases hannounces

theorem blockedWith_handleStatusUpdate {taskId : String} {targetStatus : TaskStatus}
    {cascadeBlocks : Bool} (hblocked : BlockedWith id reason store) (hne : taskId ≠ id) :
    BlockedWith id reason ((handleStatusUpdate taskId targetStatus cascadeBlocks).after store) := by
  obtain ⟨t, hmoved, hafter⟩ := handleStatusUpdate_cases taskId targetStatus cascadeBlocks store
  have hmiddle : BlockedWith id reason t := by
    rcases hmoved with rfl | ⟨task, hget, -, rfl⟩
    · exact hblocked
    · have hkey : task.id = taskId := store.keyed taskId task hget
      apply hblocked.of_tasks
      rw [Store.tasks_put, if_neg]
      exact fun h => hne (hkey.symm.trans h)
  rcases hafter with hafter | ⟨-, -, -, hafter⟩
  · exact hafter ▸ hmiddle
  · rw [hafter]
    obtain ⟨task, hget, hstatus, hreason⟩ := hmiddle
    have hcascaded : ((cascadeOnBlock taskId).after t).tasks.get? id =
        (t.tasks.get? id).map fun task => task.upstreamBlocked taskId :=
      (run_cascadeOnBlock taskId t).2.1 id
    rw [hget, Option.map_some, Task.upstreamBlocked, if_neg] at hcascaded
    · exact ⟨task, hcascaded, hstatus, hreason⟩
    · rw [hstatus]
      simp

theorem blockedWith_other_operation {operation : SchedulerOperation}
    (hblocked : BlockedWith id reason store) (hne : operation.taskId ≠ id)
    (hrequeues : ∀ task, store.tasks.get? id = some task → operation.announces = true →
      operation.taskId ∈ task.dependsOn →
      allDependenciesDone (operation.command.after store).tasks.values task = false) :
    BlockedWith id reason (operation.command.after store) := by
  by_cases hordinary : operation.ordinary = true
  · cases hannounces : operation.announces with
    | false =>
        have honly : Only operation.taskId store (operation.command.after store) :=
          admitsOwn_only.operate rfl hordinary hannounces
        exact hblocked.of_tasks (honly.others id hne.symm)
    | true =>
        have hwake : MayWake id operation.taskId store (operation.command.after store) :=
          (admits_mayWake hne).operate rfl hordinary
        exact hblocked.of_mayWake hwake fun task hget => hrequeues task hget hannounces
  · cases operation with
    | block taskId given =>
        have honly : Only taskId store ((Store.block taskId given).after store) := only_block given
        exact hblocked.of_tasks (honly.others id hne.symm)
    | unblock taskId =>
        have honly : Only taskId store ((Store.unblock taskId).after store) := only_unblock
        exact hblocked.of_tasks (honly.others id hne.symm)
    | cancel taskId =>
        have honly : Only taskId store ((Store.cancel taskId).after store) := only_cancel
        exact hblocked.of_tasks (honly.others id hne.symm)
    | statusUpdate taskId targetStatus cascadeBlocks =>
        exact blockedWith_handleStatusUpdate hblocked hne
    | _ => exact absurd rfl hordinary

theorem blockedWith_step {state next : SchedulerState} {event : SchedulerEvent}
    (hspares : SparesBlock id state event) (hstep : schedulerStep state event = some next)
    (hstate : BlockedWith id reason state.store ∧
      ∀ action ∈ state.planned, action.taskId = id → action.sparesBlocked = true) :
    BlockedWith id reason next.store ∧
      ∀ action ∈ next.planned, action.taskId = id → action.sparesBlocked = true := by
  obtain ⟨hpasses, hrequeues⟩ := hspares
  obtain ⟨hblocked, hplanned⟩ := hstate
  cases event with
  | plan input =>
      obtain ⟨-, hnext⟩ := Option.ite_none_right_eq_some.mp hstep
      cases hnext
      refine ⟨hblocked, fun action haction hid => ?_⟩
      obtain ⟨task, hget, hstatus, -⟩ := hblocked
      dsimp only at haction
      split at haction
      · cases haction
      · exact sparesBlocked_of_planned hget hstatus (hrequeues task hget) haction hid
  | execute conduct =>
      obtain ⟨store, planned⟩ := state
      cases planned with
      | nil => cases hstep
      | cons action rest =>
          cases hstep
          refine ⟨?_, fun other hother => hplanned other (List.mem_cons_of_mem _ hother)⟩
          by_cases hid : action.taskId = id
          · have hdead : action.deadLetters store id = false := by
              simpa [SchedulerEvent.passesBy] using hpasses
            exact blockedWith_own ⟨store, action :: rest⟩ hblocked hid rfl
              (hplanned action List.mem_cons_self hid) hdead hrequeues
          · exact blockedWith_other_action ⟨store, action :: rest⟩ hblocked hid rfl
              hrequeues
  | operate operation =>
      cases hstep
      refine ⟨?_, hplanned⟩
      by_cases hid : operation.taskId = id
      · apply blockedWith_own_operation hblocked hid
        simpa [SchedulerEvent.passesBy] using hpasses
      · apply blockedWith_other_operation hblocked hid
        intro task hget hannounces hdepends
        have hopen := hrequeues task hget
        simpa [SchedulerEvent.requeues, hannounces, hdepends] using hopen

end

/-- A task that is blocked by hand stays blocked with its reason through every run of polls,
completions of other tasks and cascades none of whose steps finds that it can go on, if no promotion
or requeue of it is left of an earlier plan. -/
theorem manual_block_holds {id reason : String} {store : Store} {planned : List SchedulerAction}
    {events : List SchedulerEvent} {finish : SchedulerState}
    (hblock : ((Store.block id reason).run store).1 = some ())
    (hplanned : ∀ action ∈ planned, action.taskId = id → action.sparesBlocked = true)
    (hrun : Run schedulerStep (SparesBlock id) ⟨(Store.block id reason).after store, planned⟩ events
      finish) : BlockedWith id reason finish.store := by
  have hblocked : BlockedWith id reason ((Store.block id reason).after store) := by
    cases hget : store.tasks.get? id with
    | none =>
        rw [Store.block, Command.run_bind_of_some (Store.run_get id), hget] at hblock
        cases hblock
    | some task =>
        obtain ⟨hresult, hholds⟩ := does_block reason store ⟨hget, rfl⟩
        rw [hblock] at hresult
        by_cases hover : task.status ∈ [TaskStatus.blocked, .done, .cancelled, .deadletter]
        · rw [if_pos hover] at hresult
          cases hresult
        · rw [if_neg hover] at hholds
          exact ⟨_, hholds.task, rfl, rfl⟩
  have hfinish := hrun.invariant (fun state => BlockedWith id reason state.store ∧
    ∀ action ∈ state.planned, action.taskId = id → action.sparesBlocked = true)
    (fun _ _ _ hstate hspares hstep => blockedWith_step hspares hstep hstate) ⟨hblocked, hplanned⟩
  exact hfinish.1

def sparesTest (id : String) (state : SchedulerState) (event : SchedulerEvent) : Bool :=
  event.passesBy id state &&
    (state.store.tasks.get? id).all fun task => !event.requeues id state task

theorem sparesBlock_of_test {id : String} {state : SchedulerState} {event : SchedulerEvent}
    (htest : sparesTest id state event = true) : SparesBlock id state event := by
  rw [sparesTest, Bool.and_eq_true] at htest
  refine ⟨htest.1, fun task hget => ?_⟩
  have hspares := htest.2
  rw [hget, Option.all_some, Bool.not_eq_true'] at hspares
  exact hspares

def leasedWork : Task :=
  { id := "T", status := .inProgress, lease := some { agent := "swe", expiresAt := 600000 } }

def latePoll : PollInput := { config := {}, now := 700000 }

theorem block_ends_with_lease : ¬ ∀ (id reason : String) (store : Store)
    (planned : List SchedulerAction) (events : List SchedulerEvent) (finish : SchedulerState),
    ((Store.block id reason).run store).1 = some () →
    (∀ action ∈ planned, action.taskId = id → action.sparesBlocked = true) →
    Run schedulerStep (fun state event => event.passesBy id state = true)
      ⟨(Store.block id reason).after store, planned⟩ events finish →
    BlockedWith id reason finish.store := by
  intro hall
  have hfinish : (exec (StepSystem.checked schedulerStep fun state event =>
      event.passesBy "T" state)
      ⟨(Store.block "T" "waiting for the customer").after (Store.ofTasks [leasedWork]), []⟩
      [.plan latePoll, .execute {}]).any (fun finish =>
        !finish.store.isBlocked "T") = true := by decide +kernel
  obtain ⟨finish, hexec, hready⟩ := (Option.any_eq_true _ _).mp hfinish
  have hrun := Run.of_exec (fun _ _ h => h) hexec
  obtain ⟨task, hget, hstatus, -⟩ := hall "T" "waiting for the customer" _ [] _ finish (by decide)
    (fun _ h => absurd h List.not_mem_nil) hrun
  rw [isBlocked_of_task hget, hstatus] at hready
  cases hready

def dependentWork : Store :=
  Store.ofTasks
    [{ leasedWork with dependsOn := ["D"] }, { id := "D", status := .backlog },
      { id := "E", status := .inProgress, lease := some { agent := "swe", expiresAt := 900000 } }]

def openDependency : List SchedulerEvent :=
  [.plan latePoll, .operate (.report ⟨"E", "swe", .done, ""⟩), .execute {}]

theorem dependent_block_holds : ∃ finish, Run schedulerStep (SparesBlock "T")
      ⟨(Store.block "T" "waiting for the customer").after dependentWork, []⟩ openDependency finish ∧
    BlockedWith "T" "waiting for the customer" finish.store := by
  have hfinish : (exec (StepSystem.checked schedulerStep (sparesTest "T"))
      ⟨(Store.block "T" "waiting for the customer").after dependentWork, []⟩
      openDependency).isSome = true := by decide +kernel
  obtain ⟨finish, hexec⟩ := Option.isSome_iff_exists.mp hfinish
  have hrun := Run.of_exec (fun _ _ h => sparesBlock_of_test h) hexec
  exact ⟨finish, hrun, manual_block_holds (by decide)
    (fun _ h => absurd h List.not_mem_nil) hrun⟩

end Aof
