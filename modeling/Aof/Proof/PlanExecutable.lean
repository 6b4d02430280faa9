import Aof.Proof.CascadeAgreement
import Aof.Proof.PlannedActions
import Aof.Proof.Recovery

/-!
# Planned actions can be executed

The parts of a plan look at one scan of the tasks, and the actions are executed one after the other.
A plan can be executed unless it blocks a parent that has been given up, or that a stale heartbeat
ends before its turn comes.
-/

namespace Aof

def Nudged (before after : Task) : Prop :=
  after = before ∨
    (before.status = .backlog ∨ before.status = .blocked) ∧ after = Store.transitioned before .ready

theorem Nudged.trans {a b c : Task} (hab : Nudged a b) (hbc : Nudged b c) : Nudged a c := by
  rcases hab with rfl | ⟨hwaits, rfl⟩
  · exact hbc
  · rcases hbc with rfl | ⟨hwaits', -⟩
    · exact .inr ⟨hwaits, rfl⟩
    · rcases hwaits' with h | h <;> cases h

structure Nudges (own : String) (before after : Store) : Prop where
  tasks : ∀ id task, id ≠ own → before.tasks.get? id = some task →
    ∃ next, after.tasks.get? id = some next ∧ Nudged task next
  runResults : ∀ id, id ≠ own → after.runResults.get? id = before.runResults.get? id

instance (own : String) : IsPreorder Store (Nudges own) where
  refl _ := ⟨fun _ task _ hget => ⟨task, hget, .inl rfl⟩, fun _ _ => rfl⟩
  trans _ _ _ hab hbc :=
    ⟨fun id task hne hget => by
      obtain ⟨middle, hmiddle, hfirst⟩ := hab.tasks id task hne hget
      obtain ⟨next, hnext, hsecond⟩ := hbc.tasks id middle hne hmiddle
      exact ⟨next, hnext, hfirst.trans hsecond⟩,
    fun id hne => (hbc.runResults id hne).trans (hab.runResults id hne)⟩

section Others

variable {taskId : String} {store : Store} {conduct : ExecutorConduct}

theorem Only.nudges {after : Store} (honly : Only taskId store after) : Nudges taskId store after :=
  ⟨fun id task hne hget => ⟨task, (honly.others id hne).trans hget, .inl rfl⟩, honly.runResults⟩

theorem nudges_cascadeOnCompletion (completedTaskId : String) :
    Command.Relates (Nudges taskId) (cascadeOnCompletion completedTaskId) store := by
  obtain ⟨-, htasks, hresults⟩ := run_cascadeOnCompletion completedTaskId store
  refine ⟨fun id task _ hget => ⟨task.cascaded completedTaskId store.tasks.values, ?_, ?_⟩,
    fun id _ => hresults id⟩
  · rw [htasks, hget, Option.map_some]
  · unfold Task.cascaded
    split
    · rename_i hwoken
      simp only [Task.wokenBy, decide_eq_true_eq] at hwoken
      exact .inr ⟨hwoken.2.1, rfl⟩
    · exact .inl rfl

theorem only_forM_transition {statuses : List TaskStatus} :
    Command.Relates (Only taskId) (statuses.forM fun targetStatus => do
      let _ ← Store.transition taskId targetStatus) store :=
  .forM statuses (fun targetStatus _ _ => only_transition_then targetStatus) store

theorem nudges_recoverWith (agent : Option String) (forces : Bool) :
    Command.Relates (Nudges taskId) (recoverWith taskId agent forces) store := by
  refine Command.Relates.bind (refl_of _ store) fun found t hget => ?_
  obtain ⟨rfl, rfl⟩ : store.tasks.get? taskId = found ∧ store = t := by simpa using hget
  split
  · exact .pure () store
  rename_i staleTask hstale
  split
  · exact .pure () store
  split
  · exact .pure () store
  have hforced : Command.Relates (Nudges taskId) (forceCompleteSession staleTask forces) store := by
    unfold forceCompleteSession
    rw [store.keyed taskId staleTask hstale]
    split
    · exact Only.nudges (only_handleRunComplete none)
    · exact .pure () store
  refine hforced.bind fun _ u _ => ?_
  refine Command.Relates.bind (refl_of _ u) fun runResult v _ => ?_
  unfold recoverByResult
  split
  · exact Only.nudges (only_transition_then .ready)
  · refine Command.Relates.bind (Only.nudges only_forM_transition) fun _ w _ => ?_
    split
    · exact (nudges_cascadeOnCompletion taskId).attempt
    · exact .pure () w

theorem only_assignWith (agent : String) (allTasks : List Task) (spawn : Option SpawnResult)
    (now ttlMs : Nat) :
    Command.Relates (Only taskId) (assignWith taskId agent allTasks spawn now ttlMs) store := by
  cases spawn with
  | some spawn => exact only_executeAssignAction agent allTasks spawn now ttlMs
  | none =>
      apply only_get
      split
      · exact .pure () store
      split
      · exact .pure () store
      apply (only_acquireLease agent now ttlMs).bind
      exact fun leasedTask t hleased => only_save (id_of_acquireLease hleased)

end Others

theorem nudges_handler {input : PollInput} {allTasks : List Task} {action : SchedulerAction}
    (hplans : Plans input allTasks action) (conduct : ExecutorConduct) (store : Store) :
    Command.Relates (Nudges action.taskId) (action.handler conduct) store := by
  cases hplans with
  | expireLease => exact Only.nudges (only_handleExpireLease _ _ _)
  | staleHeartbeat => exact nudges_recoverWith _ _
  | promote => exact Only.nudges (only_transition_then .ready)
  | assign => exact Only.nudges (only_assignWith _ _ _ _ _)
  | block => exact Only.nudges (only_transition_then .blocked)
  | recover _ _ hrecover =>
      rcases recoverBlocked_cases hrecover with rfl | rfl
      · exact Only.nudges only_handleRequeue
      · exact Only.nudges only_transitionToDeadletter

/-- The recovery of the task, which is at work, ends it: it is completed without a review, or given
up by the callback that the executor runs. -/
def Task.endsBy (task : Task) (forces : Bool) (runResult : Option RunResult) : Bool :=
  runResult.any fun runResult =>
    if task.forced forces then shouldTransitionToDeadletter task.withDispatchFailure
    else runResult.outcome = .done ∧ task.metadata.reviewRequired = some false

/-- A heartbeat of the task's own session has gone stale, and its lease has not expired. -/
def PollInput.recovers (input : PollInput) (task : Task) : Prop :=
  leaseExpired task.lease input.now = false ∧
    ∃ agent, (task.id, agent) ∈ input.staleHeartbeats ∧ task.heldBy (truthy (some agent)) = true

/-- A parent that waits for a subtask can be blocked: it has not been given up, and the recovery
does not end it before. -/
structure Blockable (input : PollInput) (conduct : ExecutorConduct) (store : Store) (task : Task) :
    Prop where
  active : task.status ≠ .cancelled ∧ task.status ≠ .deadletter
  unfinished : task.status = .inProgress → input.recovers task →
    task.endsBy (conduct.forces task.id) (store.runResults.get? task.id) = false

theorem recovered_status {task : Task} (hstatus : task.status = .inProgress) (forces : Bool)
    (runResult : Option RunResult) :
    if task.endsBy forces runResult then
      (task.recovered forces runResult).status = .done ∨
        (task.recovered forces runResult).status = .deadletter
    else (task.recovered forces runResult).status = .ready ∨
      (task.recovered forces runResult).status = .review ∨
      (task.recovered forces runResult).status = .blocked := by
  cases runResult with
  | none => exact .inl rfl
  | some runResult =>
      simp only [Task.endsBy, Task.recovered, Option.any_some]
      by_cases hforced : task.forced forces = true
      · simp only [hforced, ↓reduceIte, afterRun_status]
        have hclass : task.withErrorClass none = task := rfl
        rw [hclass]
        by_cases hdeadletter : shouldTransitionToDeadletter task.withDispatchFailure = true
        · simp [hdeadletter]
        · simp [hdeadletter]
      · simp only [hforced, Bool.false_eq_true, ↓reduceIte, decide_eq_true_eq]
        cases houtcome : runResult.outcome with
        | done =>
            by_cases hreview : task.metadata.reviewRequired = some false
            · simp [resolveCompletionTransitions, hstatus, hreview, Store.transitioned]
            · simp [resolveCompletionTransitions, hstatus, hreview, Store.transitioned]
        | blocked => simp [resolveCompletionTransitions, Store.transitioned]
        | needsReview => simp [resolveCompletionTransitions, Store.transitioned]
        | partiallyDone => simp [resolveCompletionTransitions, Store.transitioned]

section Fit

variable {input : PollInput} {allTasks : List Task} {rest : List SchedulerAction}
variable {task current : Task} {runResult : Option RunResult} {store : Store}

/-- What the current state of a task, as the scan had it, allows for the rest of the plan. -/
structure Fit (input : PollInput) (allTasks : List Task) (rest : List SchedulerAction)
    (task current : Task) : Prop where
  blockable : Blocks allTasks task → current.status ∉ [.done, .cancelled, .deadletter]
  backlog : task.status = .backlog → current.status ∈ [.backlog, .ready, .blocked]
  blocked : task.status = .blocked → current.status ∈ [.blocked, .ready, .deadletter]
  expiring : task.status = .inProgress → input.expiry allTasks task ∈ rest →
    current.status ∈ [.inProgress, .ready]
  working : Blocks allTasks task → current.status = .inProgress →
    current = task ∧ (leaseExpired task.lease input.now → input.expiry allTasks task ∈ rest)

theorem Fit.of_ready (hready : current.status = .ready) : Fit input allTasks rest task current := by
  constructor <;> simp [hready]

theorem Fit.of_blocked (hblocked : task.status = .blocked)
    (hstatus : current.status ∈ [TaskStatus.blocked, .ready, .deadletter]) :
    Fit input allTasks rest task current := by
  have hfree : ¬ Blocks allTasks task := by
    rintro (⟨h, -⟩ | ⟨-, h, -⟩)
    · rw [hblocked] at h
      cases h
    · exact h hblocked
  constructor
  · exact fun h => absurd h hfree
  · exact fun h => absurd (hblocked.symm.trans h) nofun
  · exact fun _ => hstatus
  · exact fun h => absurd (hblocked.symm.trans h) nofun
  · exact fun h => absurd h hfree

variable {action : SchedulerAction} {next : Task} {command : Command Store Unit} {maxRetries : Nat}
  {backoffElapsed : Bool} {agent : String}

theorem Fit.nudged (hfit : Fit input allTasks (action :: rest) task current)
    (hnudged : Nudged current next) (hother : action.taskId ≠ task.id) :
    Fit input allTasks rest task next := by
  rcases hnudged with rfl | ⟨-, rfl⟩
  · have hexpiry : input.expiry allTasks task ∈ action :: rest →
        input.expiry allTasks task ∈ rest := by
      intro hmem
      rcases List.mem_cons.mp hmem with rfl | hmem
      · exact absurd rfl hother
      · exact hmem
    constructor
    · exact hfit.blockable
    · exact hfit.backlog
    · exact hfit.blocked
    · exact fun h hmem => hfit.expiring h (List.mem_cons_of_mem _ hmem)
    · intro hblocks hstatus
      obtain ⟨hsame, hlease⟩ := hfit.working hblocks hstatus
      exact ⟨hsame, fun h => hexpiry (hlease h)⟩
  · exact .of_ready rfl

def Goes (input : PollInput) (allTasks : List Task) (rest : List SchedulerAction) (task : Task)
    (runResult : Option RunResult) (command : Command Store Unit) (store : Store) : Prop :=
  (command.run store).1.isSome ∧
    ∃ next, Holds task.id runResult next (command.after store) ∧ Fit input allTasks rest task next

theorem Does.goes (hdoes : Does task.id runResult current command (some ()) next)
    (hholds : Holds task.id runResult current store) (hfit : Fit input allTasks rest task next) :
    Goes input allTasks rest task runResult command store := by
  obtain ⟨hreturns, hafter⟩ := hdoes store hholds
  exact ⟨by rw [hreturns]; rfl, next, hafter, hfit⟩

theorem goes_ready
    (hdoes : Does task.id runResult current command ((current.moved .ready).map fun _ => ())
      ((current.moved .ready).getD current)) (hholds : Holds task.id runResult current store)
    (hstatus : current.status ∉ [TaskStatus.review, .done, .cancelled]) :
    Goes input allTasks rest task runResult command store := by
  by_cases hready : current.status = .ready
  · rw [moved_same hready] at hdoes
    exact hdoes.goes hholds (.of_ready hready)
  · have hvalid : isValidTransition current.status .ready = true := by
      revert hstatus hready
      cases current.status <;> decide
    rw [moved_valid hvalid hready] at hdoes
    exact hdoes.goes hholds (.of_ready rfl)

theorem expiryTarget_blocked (hblocked : current.status = .blocked) :
    current.expiryTarget allTasks maxRetries backoffElapsed ∈
      [none, some TaskStatus.ready, some .deadletter] := by
  simp only [Task.expiryTarget, hblocked, ↓reduceIte]
  split
  · split <;> simp
  · split <;> simp

theorem sent_blocked (allTasks : List Task) (hblocked : current.status = .blocked) :
    ∃ next, current.unleased.sentTo (current.expiryTarget allTasks maxRetries backoffElapsed) =
      some next ∧ next.status ∈ [TaskStatus.blocked, .ready, .deadletter] := by
  have hunleased : current.unleased.status = .blocked := hblocked
  have htarget : current.expiryTarget allTasks maxRetries backoffElapsed ∈ _ :=
    expiryTarget_blocked hblocked
  simp only [List.mem_cons, List.not_mem_nil, or_false] at htarget
  rcases htarget with h | h | h
  · exact ⟨current.unleased, by rw [h]; rfl, by simp [hunleased]⟩
  · refine ⟨Store.transitioned current.unleased .ready, ?_, by simp [Store.transitioned]⟩
    rw [h]
    exact moved_valid (by rw [hunleased]; rfl) (by rw [hunleased]; decide)
  · refine ⟨Store.transitioned current.unleased .deadletter, ?_, by simp [Store.transitioned]⟩
    rw [h]
    exact moved_valid (by rw [hunleased]; rfl) (by rw [hunleased]; decide)

theorem sent_ready (allTasks : List Task) (hblocked : current.status ≠ .blocked)
    (hstatus : current.status ∉ [TaskStatus.review, .done, .cancelled]) :
    ∃ next, current.unleased.sentTo (current.expiryTarget allTasks maxRetries backoffElapsed) =
      some next ∧ next.status = .ready := by
  rw [Task.expiryTarget, if_neg hblocked]
  by_cases hready : current.unleased.status = .ready
  · exact ⟨current.unleased, moved_same hready, hready⟩
  · refine ⟨Store.transitioned current.unleased .ready, moved_valid ?_ hready, rfl⟩
    have hunleased : current.unleased.status = current.status := rfl
    rw [hunleased] at hready ⊢
    revert hstatus hready hblocked
    cases current.status <;> decide

theorem goes_expireLease (hstatus : task.status = .inProgress ∨ task.status = .blocked)
    (hfit : Fit input allTasks (input.expiry allTasks task :: rest) task current)
    (hholds : Holds task.id runResult current store) : Goes input allTasks rest task runResult
      (handleExpireLease task.id allTasks input.maxRetries (input.backoffElapsed task.id))
        store := by
  have hdoes : Does task.id runResult current
      (handleExpireLease task.id allTasks input.maxRetries (input.backoffElapsed task.id)) _ _ :=
    does_handleExpireLease
  have hcases : current.status ∈ [TaskStatus.inProgress, .ready] ∨ task.status = .blocked ∧
      current.status ∈ [TaskStatus.blocked, .ready, .deadletter] := by
    rcases hstatus with h | h
    · exact .inl (hfit.expiring h List.mem_cons_self)
    · exact .inr ⟨h, hfit.blocked h⟩
  by_cases hblocked : current.status = .blocked
  · obtain ⟨htask, -⟩ := hcases.resolve_left (by simp [hblocked])
    obtain ⟨next, hsent, hnext⟩ := sent_blocked allTasks hblocked
    rw [hsent] at hdoes
    exact hdoes.goes hholds (.of_blocked htask hnext)
  · have hlegal : current.status ∉ [TaskStatus.review, .done, .cancelled] := by
      rcases hcases with h | ⟨-, h⟩
      · revert h
        cases current.status <;> decide
      · revert h
        cases current.status <;> decide
    obtain ⟨next, hsent, hnext⟩ := sent_ready allTasks hblocked hlegal
    rw [hsent] at hdoes
    exact hdoes.goes hholds (.of_ready hnext)

theorem Fit.idle {agent : Option String}
    (hfit : Fit input allTasks (.staleHeartbeat task.id agent :: rest) task current) :
    Fit input allTasks rest task current := by
  constructor
  · exact hfit.blockable
  · exact hfit.backlog
  · exact hfit.blocked
  · exact fun h hmem => hfit.expiring h (List.mem_cons_of_mem _ hmem)
  · intro hblocks hstatus
    obtain ⟨hsame, hlease⟩ := hfit.working hblocks hstatus
    exact ⟨hsame, fun h => (List.mem_cons.mp (hlease h)).resolve_left nofun⟩

theorem fit_staleHeartbeat {forces : Bool} (hheartbeat : (task.id, agent) ∈ input.staleHeartbeats)
    (hblockable : Blocks allTasks task → task.status = .inProgress → input.recovers task →
      task.endsBy forces runResult = false) (hlater : input.expiry allTasks task ∉ rest)
    (hfit : Fit input allTasks (.staleHeartbeat task.id (truthy (some agent)) :: rest) task current)
    (hholds : Holds task.id runResult current store) : ∃ next, Holds task.id runResult next
      ((recoverWith task.id (truthy (some agent)) forces).after store) ∧
      Fit input allTasks rest task next := by
  by_cases hnot : current.status ≠ .inProgress ∨ current.heldBy (truthy (some agent)) = false
  · exact ⟨current, (does_recoverWith_of_not hnot store hholds).2, hfit.idle⟩
  obtain ⟨hstatus, hheld⟩ := not_or.mp hnot
  rw [not_not] at hstatus
  rw [Bool.not_eq_false] at hheld
  obtain ⟨result, hdoes⟩ := does_recoverWith task.id runResult forces hstatus hheld
  refine ⟨_, (hdoes store hholds).2, ?_⟩
  have hmoves := recovered_status hstatus forces runResult
  have hidle : (current.recovered forces runResult).status ≠ .inProgress := by
    intro h
    split at hmoves
    · simp [h] at hmoves
    · simp [h] at hmoves
  constructor
  · intro hblocks
    obtain ⟨rfl, hlease⟩ := hfit.working hblocks hstatus
    have hunexpired : leaseExpired current.lease input.now = false := by
      rw [Bool.eq_false_iff]
      intro hexpired
      rcases List.mem_cons.mp (hlease hexpired) with h | h
      · cases h
      · exact hlater h
    have hends := hblockable hblocks hstatus ⟨hunexpired, agent, hheartbeat, hheld⟩
    rw [hends] at hmoves
    rcases hmoves with h | h | h <;> simp [h]
  · intro hbacklog
    have hwas := hfit.backlog hbacklog
    simp [hstatus] at hwas
  · intro hblocked
    have hwas := hfit.blocked hblocked
    simp [hstatus] at hwas
  · exact fun _ hmem => absurd hmem hlater
  · exact fun _ h => absurd h hidle

theorem goes_block (hblocks : Blocks allTasks task) (hlater : input.expiry allTasks task ∉ rest)
    (hfit : Fit input allTasks (action :: rest) task current)
    (hholds : Holds task.id runResult current store) :
    Goes input allTasks rest task runResult (handleBlock task.id) store := by
  have hdoes : Does task.id runResult current (handleBlock task.id) _ _ :=
    does_transition_then .blocked
  obtain ⟨next, hmoved, hnext⟩ : ∃ next, current.moved .blocked = some next ∧
      next.status = .blocked := by
    by_cases hsame : current.status = .blocked
    · exact ⟨current, moved_same hsame, hsame⟩
    · refine ⟨Store.transitioned current .blocked, moved_valid ?_ hsame, rfl⟩
      have hlegal := hfit.blockable hblocks
      revert hlegal hsame
      cases current.status <;> decide
  rw [hmoved] at hdoes
  apply hdoes.goes hholds
  constructor
  · simp [hnext]
  · simp [hnext]
  · simp [hnext]
  · exact fun _ hmem => absurd hmem hlater
  · simp [hnext]

theorem goes_deadletter (htask : task.status = .blocked)
    (hfit : Fit input allTasks (action :: rest) task current)
    (hholds : Holds task.id runResult current store) :
    Goes input allTasks rest task runResult (handleDeadletter task.id) store := by
  have hdoes : Does task.id runResult current (handleDeadletter task.id) _ _ :=
    does_transitionToDeadletter
  obtain ⟨next, hmoved, hnext⟩ : ∃ next, current.moved .deadletter = some next ∧
      next.status = .deadletter := by
    by_cases hsame : current.status = .deadletter
    · exact ⟨current, moved_same hsame, hsame⟩
    · refine ⟨Store.transitioned current .deadletter, moved_valid ?_ hsame, rfl⟩
      have hlegal := hfit.blocked htask
      revert hlegal hsame
      cases current.status <;> decide
  rw [hmoved] at hdoes
  exact hdoes.goes hholds (.of_blocked htask (by simp [hnext]))

theorem goes_assign {spawn : Option SpawnResult} {now ttlMs : Nat} (htask : task.status = .ready)
    (hfree : ¬ Blocks allTasks task) (hholds : Holds task.id runResult current store) :
    Goes input allTasks rest task runResult (assignWith task.id agent allTasks spawn now ttlMs)
      store := by
  have hdoes : Does task.id runResult current (assignWith task.id agent allTasks spawn now ttlMs)
      (some ()) _ := does_assignWith
  apply hdoes.goes hholds
  constructor
  · exact fun h => absurd h hfree
  · exact fun h => absurd (htask.symm.trans h) nofun
  · exact fun h => absurd (htask.symm.trans h) nofun
  · exact fun h => absurd (htask.symm.trans h) nofun
  · exact fun h => absurd h hfree

end Fit

section Run

variable {input : PollInput} {conduct : ExecutorConduct} {start store : Store}
variable {action : SchedulerAction} {rest : List SchedulerAction}

def Fits (input : PollInput) (start : Store) (rest : List SchedulerAction) (store : Store) : Prop :=
  ∀ task ∈ start.tasks.values, ∃ current,
    Holds task.id (start.runResults.get? task.id) current store ∧
      Fit input start.tasks.values rest task current

def ParentsBlockable (input : PollInput) (conduct : ExecutorConduct) (start : Store) : Prop :=
  ∀ task ∈ start.tasks.values, task.id ∈ incompleteParents start.tasks.values →
    Blockable input conduct start task

section

variable (hparents : ParentsBlockable input conduct start)
  (hplans : Plans input start.tasks.values action)
  (hsorted : ∀ later ∈ rest, action.part ≤ later.part)
  (hfits : Fits input start (action :: rest) store)
include hparents hplans hsorted hfits

theorem fits_own : ∃ task ∈ start.tasks.values, task.id = action.taskId ∧
      (action.isPlannedMove → ((action.handler conduct).run store).1.isSome) ∧
      ∃ next, Holds task.id (start.runResults.get? task.id) next
        ((action.handler conduct).after store) ∧ Fit input start.tasks.values rest task next := by
  have hlater : 0 < action.part → ∀ task, input.expiry start.tasks.values task ∉ rest := by
    intro hpart task hmem
    have hle : action.part ≤ 0 := hsorted _ hmem
    omega
  cases hplans with
  | @expireLease task htask hstatus =>
      obtain ⟨current, hholds, hfit⟩ := hfits task htask
      obtain ⟨hreturns, hnext⟩ := goes_expireLease hstatus hfit hholds
      exact ⟨task, htask, rfl, fun _ => hreturns, hnext⟩
  | @staleHeartbeat task agent htask hheartbeat =>
      obtain ⟨current, hholds, hfit⟩ := hfits task htask
      refine ⟨task, htask, rfl, nofun, ?_⟩
      refine fit_staleHeartbeat hheartbeat ?_ (hlater Nat.one_pos task) hfit hholds
      intro hblocks hstatus
      rcases hblocks with ⟨hready, -⟩ | ⟨hparent, -⟩
      · exact absurd (hstatus.symm.trans hready) nofun
      · exact (hparents task htask hparent).unfinished hstatus
  | @promote task htask hstatus =>
      obtain ⟨current, hholds, hfit⟩ := hfits task htask
      have hlegal : current.status ∉ [TaskStatus.review, .done, .cancelled] := by
        have hwas := hfit.backlog hstatus
        revert hwas
        cases current.status <;> decide
      obtain ⟨hreturns, hnext⟩ := goes_ready (does_transition_then .ready) hholds hlegal
      exact ⟨task, htask, rfl, fun _ => hreturns, hnext⟩
  | @assign task agent spawn htask hstatus hfree =>
      obtain ⟨current, hholds, -⟩ := hfits task htask
      obtain ⟨hreturns, hnext⟩ := goes_assign hstatus hfree hholds
      exact ⟨task, htask, rfl, fun _ => hreturns, hnext⟩
  | @block task htask hblocks =>
      obtain ⟨current, hholds, hfit⟩ := hfits task htask
      obtain ⟨hreturns, hnext⟩ := goes_block hblocks (hlater (Nat.succ_pos 2) task) hfit hholds
      exact ⟨task, htask, rfl, fun _ => hreturns, hnext⟩
  | @recover task action htask hstatus hrecover =>
      obtain ⟨current, hholds, hfit⟩ := hfits task htask
      rcases recoverBlocked_cases hrecover with rfl | rfl
      · have hlegal : current.status ∉ [TaskStatus.review, .done, .cancelled] := by
          have hwas := hfit.blocked hstatus
          revert hwas
          cases current.status <;> decide
        obtain ⟨hreturns, hnext⟩ := goes_ready does_handleRequeue hholds hlegal
        exact ⟨task, htask, rfl, fun _ => hreturns, hnext⟩
      · obtain ⟨hreturns, hnext⟩ := goes_deadletter hstatus hfit hholds
        exact ⟨task, htask, rfl, fun _ => hreturns, hnext⟩

theorem fits_step : (action.isPlannedMove → ((action.handler conduct).run store).1.isSome) ∧
      Fits input start rest ((action.handler conduct).after store) := by
  obtain ⟨own, hown, hid, hreturns, hnext⟩ := fits_own hparents hplans hsorted hfits
  refine ⟨hreturns, fun task htask => ?_⟩
  by_cases hsame : task.id = action.taskId
  · obtain rfl : task = own := eq_of_id hown htask (hsame.trans hid.symm)
    exact hnext
  · obtain ⟨current, hholds, hfit⟩ := hfits task htask
    have hnudges := nudges_handler hplans conduct store
    obtain ⟨next, hget, hnudged⟩ := hnudges.tasks task.id current hsame hholds.task
    exact ⟨next, ⟨hget, (hnudges.runResults task.id hsame).trans hholds.runResult⟩,
      hfit.nudged hnudged (Ne.symm hsame)⟩

end

theorem nothingThrows_of_fits (hparents : ParentsBlockable input conduct start)
    (hplans : ∀ action ∈ rest, Plans input start.tasks.values action)
    (hsorted : rest.Pairwise fun first second => first.part ≤ second.part)
    (hfits : Fits input start rest store) : NothingThrows conduct rest store := by
  induction rest generalizing store with
  | nil => trivial
  | cons action rest ih =>
      rw [List.pairwise_cons] at hsorted
      obtain ⟨hreturns, hnext⟩ := fits_step hparents (hplans action List.mem_cons_self) hsorted.1
        hfits
      refine ⟨hreturns, ih (fun other hother => ?_) hsorted.2 hnext⟩
      exact hplans other (List.mem_cons_of_mem _ hother)

theorem fits_start (hparents : ParentsBlockable input conduct start) :
    Fits input start (plannedActions input start.tasks.values) start := by
  intro task htask
  refine ⟨task, ⟨mem_list_iff.mp htask, rfl⟩, ?_⟩
  constructor
  · rintro (⟨hready, -⟩ | ⟨hparent, -, hdone⟩)
    · simp [hready]
    · have hactive := (hparents task htask hparent).active
      simp [hactive, hdone]
  · exact fun h => by simp [h]
  · exact fun h => by simp [h]
  · exact fun h _ => by simp [h]
  · exact fun _ hstatus => ⟨rfl, expiry_mem htask (.inl hstatus)⟩

/-- The task cannot be blocked any more, or a heartbeat that the rest of the plan recovers ends
it. -/
def Doomed (conduct : ExecutorConduct) (start : Store) (rest : List SchedulerAction)
    (task current : Task) : Prop :=
  current.status ∈ [TaskStatus.done, .cancelled, .deadletter] ∨
    current = task ∧ task.status = .inProgress ∧
      task.endsBy (conduct.forces task.id) (start.runResults.get? task.id) = true ∧
      ∃ agent, .staleHeartbeat task.id agent ∈ rest ∧ task.heldBy agent = true

/-- The actions that a plan may have for a task that it cannot block. -/
def OnlyBlocks (task : Task) (action : SchedulerAction) : Prop :=
  action.taskId = task.id → (∃ agent, action = .staleHeartbeat task.id agent) ∨
    action = .block task.id

variable {task current : Task}

theorem onlyBlocks_of_plans (htask : task ∈ start.tasks.values)
    (hstatus : task.status = .inProgress ∧ leaseExpired task.lease input.now = false ∨
      task.status = .cancelled ∨ task.status = .deadletter)
    (hplans : Plans input start.tasks.values action) : OnlyBlocks task action := by
  intro hid
  cases hplans with
  | @expireLease other hother hactive hlease =>
      obtain rfl : other = task := eq_of_id htask hother hid
      rcases hstatus with ⟨-, hunexpired⟩ | h | h
      · rw [hunexpired] at hlease
        cases hlease
      · rcases hactive with h' | h' <;> cases h'.symm.trans h
      · rcases hactive with h' | h' <;> cases h'.symm.trans h
  | @staleHeartbeat other agent hother =>
      obtain rfl : other = task := eq_of_id htask hother hid
      exact .inl ⟨_, rfl⟩
  | @promote other hother hbacklog =>
      obtain rfl : other = task := eq_of_id htask hother hid
      rcases hstatus with ⟨h, -⟩ | h | h <;> cases h.symm.trans hbacklog
  | @assign other _ _ hother hready =>
      obtain rfl : other = task := eq_of_id htask hother hid
      rcases hstatus with ⟨h, -⟩ | h | h <;> cases h.symm.trans hready
  | @block other hother =>
      obtain rfl : other = task := eq_of_id htask hother hid
      exact .inr rfl
  | @recover other action hother hblocked hrecover =>
      have hid' : other.id = task.id := by
        rcases recoverBlocked_cases hrecover with rfl | rfl
        · exact hid
        · exact hid
      obtain rfl : other = task := eq_of_id htask hother hid'
      rcases hstatus with ⟨h, -⟩ | h | h <;> cases h.symm.trans hblocked

theorem doomed_staleHeartbeat {agent : Option String}
    (hdoomed : Doomed conduct start (.staleHeartbeat task.id agent :: rest) task current)
    (hholds : Holds task.id (start.runResults.get? task.id) current store) :
    ∃ next, Holds task.id (start.runResults.get? task.id) next
      ((recoverWith task.id agent (conduct.forces task.id)).after store) ∧
      Doomed conduct start rest task next := by
  rcases hdoomed with hover | ⟨rfl, hstatus, hends, other, hother, hheld⟩
  · refine ⟨current, (does_recoverWith_of_not (.inl ?_) store hholds).2, .inl hover⟩
    intro hstatus
    simp [hstatus] at hover
  · by_cases hown : current.heldBy agent = true
    · obtain ⟨result, hdoes⟩ := does_recoverWith current.id
        (start.runResults.get? current.id) (conduct.forces current.id) hstatus hown
      refine ⟨_, (hdoes store hholds).2, .inl ?_⟩
      have hmoves := recovered_status hstatus (conduct.forces current.id)
        (start.runResults.get? current.id)
      rw [if_pos hends] at hmoves
      rcases hmoves with h | h <;> simp [h]
    · rw [Bool.not_eq_true] at hown
      refine ⟨current, (does_recoverWith_of_not (.inr hown) store hholds).2, .inr ?_⟩
      refine ⟨rfl, hstatus, hends, other, ?_, hheld⟩
      rcases List.mem_cons.mp hother with h | h
      · obtain ⟨-, rfl⟩ := SchedulerAction.staleHeartbeat.inj h
        rw [hown] at hheld
        cases hheld
      · exact h

theorem Doomed.nudged {next : Task} (hdoomed : Doomed conduct start (action :: rest) task current)
    (hnudged : Nudged current next) (hother : action.taskId ≠ task.id) :
    Doomed conduct start rest task next := by
  rcases hdoomed with hover | ⟨rfl, hstatus, hends, agent, hmem, hheld⟩
  · rcases hnudged with rfl | ⟨hwaits | hwaits, -⟩
    · exact .inl hover
    · simp [hwaits] at hover
    · simp [hwaits] at hover
  · rcases hnudged with rfl | ⟨hwaits | hwaits, -⟩
    · refine .inr ⟨rfl, hstatus, hends, agent, ?_, hheld⟩
      rcases List.mem_cons.mp hmem with rfl | h
      · exact absurd rfl hother
      · exact h
    · cases hstatus.symm.trans hwaits
    · cases hstatus.symm.trans hwaits

theorem block_throws (hdoomed : Doomed conduct start (.block task.id :: rest) task current)
    (hsorted : ∀ later ∈ rest, 3 ≤ later.part)
    (hholds : Holds task.id (start.runResults.get? task.id) current store) :
    ((handleBlock task.id).run store).1 = none := by
  rcases hdoomed with hover | ⟨-, -, -, agent, hmem, -⟩
  · have hdoes : Does task.id (start.runResults.get? task.id) current (handleBlock task.id) none _ :=
      does_transition_invalid
        (by revert hover; cases current.status <;> decide)
        (by revert hover; cases current.status <;> decide)
    exact (hdoes store hholds).1
  · rcases List.mem_cons.mp hmem with h | h
    · cases h
    · have hpart : 3 ≤ 1 := hsorted _ h
      omega

theorem throws_of_doomed (hplans : ∀ action ∈ rest, Plans input start.tasks.values action)
    (honly : ∀ action ∈ rest, OnlyBlocks task action)
    (hsorted : rest.Pairwise fun first second => first.part ≤ second.part)
    (hblock : .block task.id ∈ rest)
    (hholds : Holds task.id (start.runResults.get? task.id) current store)
    (hdoomed : Doomed conduct start rest task current) : ¬ NothingThrows conduct rest store := by
  induction rest generalizing store current with
  | nil => cases hblock
  | cons action rest ih =>
      rintro ⟨hreturns, hrest⟩
      rw [List.pairwise_cons] at hsorted
      have hplans' := fun other hother => hplans other (List.mem_cons_of_mem action hother)
      have honly' := fun other hother => honly other (List.mem_cons_of_mem action hother)
      by_cases hown : action.taskId = task.id
      · rcases honly action List.mem_cons_self hown with ⟨agent, rfl⟩ | rfl
        · obtain ⟨next, hnext, hdoomed'⟩ := doomed_staleHeartbeat hdoomed hholds
          exact ih hplans' honly' hsorted.2 ((List.mem_cons.mp hblock).resolve_left nofun) hnext
            hdoomed' hrest
        · have hthrows := block_throws hdoomed hsorted.1 hholds
          have hreturns' := hreturns rfl
          rw [show SchedulerAction.handler conduct (.block task.id) = handleBlock task.id from rfl,
            hthrows] at hreturns'
          cases hreturns'
      · have hnudges := nudges_handler (hplans action List.mem_cons_self) conduct store
        obtain ⟨next, hget, hnudged⟩ := hnudges.tasks task.id current (Ne.symm hown) hholds.task
        have hresult := (hnudges.runResults task.id (Ne.symm hown)).trans hholds.runResult
        have hblock' : .block task.id ∈ rest := by
          rcases List.mem_cons.mp hblock with rfl | h
          · exact absurd rfl hown
          · exact h
        exact ih hplans' honly' hsorted.2 hblock' ⟨hget, hresult⟩ (hdoomed.nudged hnudged hown) hrest

theorem blockable_of_nothingThrows
    (hnothing : NothingThrows conduct (plannedActions input start.tasks.values) start)
    (htask : task ∈ start.tasks.values) (hparent : task.id ∈ incompleteParents start.tasks.values) :
    Blockable input conduct start task := by
  have hthrows : ∀ (_ : task.status = .inProgress ∧ leaseExpired task.lease input.now = false ∨
      task.status = .cancelled ∨ task.status = .deadletter),
      ¬ Doomed conduct start (plannedActions input start.tasks.values) task task := by
    intro hstatus hdoomed
    have hblock : .block task.id ∈ plannedActions input start.tasks.values := by
      apply block_mem htask hparent
      · rcases hstatus with ⟨h, -⟩ | h | h <;> simp [h]
      · rcases hstatus with ⟨h, -⟩ | h | h <;> simp [h]
    exact throws_of_doomed (fun _ => plans_of_mem)
      (fun _ haction => onlyBlocks_of_plans htask hstatus (plans_of_mem haction))
      pairwise_plannedActions hblock ⟨mem_list_iff.mp htask, rfl⟩ hdoomed hnothing
  constructor
  · constructor
    · exact fun h => hthrows (.inr (.inl h)) (.inl (by simp [h]))
    · exact fun h => hthrows (.inr (.inr h)) (.inl (by simp [h]))
  · rintro hstatus ⟨hlease, agent, hheartbeat, hheld⟩
    rw [Bool.eq_false_iff]
    intro hends
    apply hthrows (.inl ⟨hstatus, hlease⟩)
    exact .inr ⟨rfl, hstatus, hends, _, staleHeartbeat_mem htask hheartbeat, hheld⟩

end Run

/-- The plan of a poll can be executed exactly when every parent that waits for a subtask can be
blocked. -/
theorem plan_executable_iff (input : PollInput) (conduct : ExecutorConduct) (store : Store) :
    NothingThrows conduct (plannedActions input store.tasks.values) store ↔
      ParentsBlockable input conduct store := by
  constructor
  · exact fun hnothing task htask hparent => blockable_of_nothingThrows hnothing htask hparent
  · intro hparents
    exact nothingThrows_of_fits hparents (fun _ => plans_of_mem) pairwise_plannedActions
      (fits_start hparents)

def cancelledParent : Task := { id := "A", status := .cancelled }

def openSubtask : Task := { id := "B", status := .backlog, parentId := some "A" }

/-- Every poll plans to block the cancelled parent. -/
theorem cancelled_parent_throws : ¬ ∀ input conduct store,
    NothingThrows conduct (plannedActions input store.tasks.values) store := by
  intro hnothing
  have hparents := (plan_executable_iff { config := {} } {}
    (Store.ofTasks [cancelledParent, openSubtask])).mp (hnothing _ _ _)
  have hblockable := hparents cancelledParent (mem_list_iff.mpr rfl) (by decide)
  exact hblockable.active.1 rfl

end Aof
