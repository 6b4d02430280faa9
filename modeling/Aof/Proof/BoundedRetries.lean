import Aof.Proof.ManualBlock

/-!
# Failed dispatches

A task can be dispatched again after a failure as long as its retries and its failed runs are not
used up.  A failed spawn and a run that ends without a completion are counted; a spawn that throws
and a session that dies are not, and neither is an attempt that a stale action undoes.
-/

namespace Aof

open StepSystem (Run exec)

def Task.exhausted (task : Task) (maxRetries : Nat) : Bool :=
  task.status = .blocked && task.spawnFailed && maxRetries ≤ task.metadata.retryCount.getD 0

def Task.spawnsLeft (task : Task) (maxRetries : Nat) : Nat :=
  max 1 (maxRetries - task.metadata.retryCount.getD 0)

def Task.runsLeft (task : Task) : Nat :=
  max 1 (MAX_DISPATCH_FAILURES - task.metadata.dispatchFailures.getD 0)

def Task.attemptsLeft (task : Task) (maxRetries : Nat) : Nat :=
  match task.status with
  | .done | .cancelled | .deadletter => 0
  | .inProgress => task.spawnsLeft maxRetries + task.runsLeft - 2
  | _ => if task.exhausted maxRetries then 0 else task.spawnsLeft maxRetries + task.runsLeft - 1

def maxAttempts (maxRetries : Nat) : Nat := max 1 maxRetries + MAX_DISPATCH_FAILURES - 1

def Task.isOpen (task : Task) (maxRetries : Nat) : Bool :=
  task.status ∉ [TaskStatus.done, .cancelled, .deadletter, .inProgress] &&
    !task.exhausted maxRetries

/-- A change that is paid for by the attempts that are left. -/
structure Spends (maxRetries attempts : Nat) (before after : Task) : Prop where
  left : after.attemptsLeft maxRetries + attempts ≤ before.attemptsLeft maxRetries
  workflow : before.workflow = none → after.workflow = none
  ended : after.status = .done ∨ after.status = .cancelled → after.status = before.status
  dead : before.status = .deadletter → after.status = .deadletter

section

variable {maxRetries : Nat} {task before after : Task}

theorem attemptsLeft_le (task : Task) (maxRetries : Nat) :
    task.attemptsLeft maxRetries ≤ task.spawnsLeft maxRetries + task.runsLeft - 1 := by
  unfold Task.attemptsLeft
  split
  · omega
  · omega
  · omega
  · omega
  · split
    · omega
    · omega

theorem attemptsLeft_of_isOpen (hopen : task.isOpen maxRetries = true) :
    task.attemptsLeft maxRetries = task.spawnsLeft maxRetries + task.runsLeft - 1 := by
  simp only [Task.isOpen, Bool.and_eq_true, decide_eq_true_eq, Bool.not_eq_true'] at hopen
  obtain ⟨hstatus, hleft⟩ := hopen
  unfold Task.attemptsLeft
  rw [hleft]
  cases h : task.status <;> simp_all

theorem attemptsLeft_le_max (task : Task) (maxRetries : Nat) :
    task.attemptsLeft maxRetries ≤ maxAttempts maxRetries := by
  refine (attemptsLeft_le task maxRetries).trans ?_
  unfold Task.spawnsLeft Task.runsLeft maxAttempts MAX_DISPATCH_FAILURES
  omega

theorem Spends.refl (task : Task) : Spends maxRetries 0 task task :=
  ⟨le_rfl, id, fun _ => rfl, id⟩

theorem attemptsLeft_congr (hstatus : after.status = before.status)
    (hmetadata : after.metadata = before.metadata) :
    after.attemptsLeft maxRetries = before.attemptsLeft maxRetries := by
  unfold Task.attemptsLeft Task.exhausted Task.spawnFailed Task.spawnsLeft Task.runsLeft
  rw [hstatus, hmetadata]

theorem spends_of_isOpen (hopen : before.isOpen maxRetries = true)
    (hspawns : after.metadata.retryCount = before.metadata.retryCount)
    (hruns : after.metadata.dispatchFailures = before.metadata.dispatchFailures)
    (hworkflow : after.workflow = before.workflow)
    (hstatus : after.status ≠ .done ∧ after.status ≠ .cancelled) :
    Spends maxRetries 0 before after := by
  refine ⟨?_, fun h => hworkflow.trans h, fun h => absurd h (not_or.mpr hstatus), fun h => ?_⟩
  · rw [attemptsLeft_of_isOpen hopen]
    have hleft := attemptsLeft_le after maxRetries
    unfold Task.spawnsLeft Task.runsLeft at hleft ⊢
    rw [hspawns, hruns] at hleft
    omega
  · rw [Task.isOpen, h] at hopen
    cases hopen

theorem Spends.trans {attempts : Nat} {middle : Task}
    (hab : Spends maxRetries attempts before middle)
    (hbc : Spends maxRetries 0 middle after) : Spends maxRetries attempts before after := by
  refine ⟨?_, fun h => hbc.workflow (hab.workflow h), fun h => ?_, fun h => hbc.dead (hab.dead h)⟩
  · have hfirst := hab.left
    have hsecond := hbc.left
    omega
  · have hsame := hbc.ended h
    exact hsame.trans (hab.ended (hsame ▸ h))

theorem spends_unleased (task : Task) : Spends maxRetries 0 task task.unleased :=
  ⟨(attemptsLeft_congr rfl rfl).le, id, fun _ => rfl, id⟩

theorem spends_moved {newStatus : TaskStatus} (hend : newStatus ≠ .done ∧ newStatus ≠ .cancelled)
    (hopen : isValidTransition task.status newStatus = true →
      newStatus = .deadletter ∨ task.isOpen maxRetries = true) :
    Spends maxRetries 0 task ((task.moved newStatus).getD task) := by
  cases hmoved : task.moved newStatus with
  | none => exact .refl task
  | some changed =>
      rcases moved_eq_some hmoved with ⟨-, rfl⟩ | ⟨hvalid, rfl⟩
      · exact .refl _
      · rcases hopen hvalid with rfl | hopen
        · exact ⟨Nat.zero_le _, id, nofun, fun _ => rfl⟩
        · exact spends_of_isOpen hopen rfl rfl rfl hend

theorem includes_append (pattern text : String) : includes (pattern ++ text) pattern = true := by
  unfold includes
  rw [String.toList_append]
  exact decide_eq_true (List.infix_append' [] _ _)

theorem attemptsLeft_spawnFailure (task : Task) (error : String) :
    (Store.transitioned (task.withSpawnFailure error) .blocked).attemptsLeft maxRetries + 1 ≤
      task.spawnsLeft maxRetries + task.runsLeft - 1 := by
  have hruns : 1 ≤ task.runsLeft := Nat.le_max_left _ _
  by_cases hlast : maxRetries ≤ task.metadata.retryCount.getD 0 + 1
  · have hexhausted : (Store.transitioned (task.withSpawnFailure error) .blocked).exhausted
        maxRetries = true := by
      have hreason : (Store.transitioned (task.withSpawnFailure error) .blocked).spawnFailed =
          true := includes_append "spawn_failed" (": " ++ error)
      rw [Task.exhausted, hreason]
      simpa [Store.transitioned, Task.withSpawnFailure] using hlast
    have hspawns : 1 ≤ task.spawnsLeft maxRetries := Nat.le_max_left _ _
    have hnone : (Store.transitioned (task.withSpawnFailure error) .blocked).attemptsLeft
        maxRetries = 0 := if_pos hexhausted
    omega
  · have hleft := attemptsLeft_le (Store.transitioned (task.withSpawnFailure error) .blocked)
      maxRetries
    have hspawns : (Store.transitioned (task.withSpawnFailure error) .blocked).spawnsLeft
        maxRetries = max 1 (maxRetries - (task.metadata.retryCount.getD 0 + 1)) := rfl
    have hsame : (Store.transitioned (task.withSpawnFailure error) .blocked).runsLeft =
      task.runsLeft := rfl
    rw [hspawns, hsame] at hleft
    unfold Task.spawnsLeft
    omega

theorem spends_assign (hready : before.status = .ready) (agent : String)
    {spawn : Option SpawnResult} (now ttlMs : Nat)
    (hplugin : spawn ≠ some (.failure "no-plugin-attached")) :
    Spends maxRetries 1 before (before.afterAssignWith agent spawn now ttlMs) := by
  have hopen : before.isOpen maxRetries = true := by
    rw [Task.isOpen, Task.exhausted, hready]
    rfl
  have hruns : 1 ≤ before.runsLeft := Nat.le_max_left _ _
  have hspawns : 1 ≤ before.spawnsLeft maxRetries := Nat.le_max_left _ _
  have hworks : ∀ after : Task, after.status = .inProgress →
      after.spawnsLeft maxRetries = before.spawnsLeft maxRetries →
      after.runsLeft = before.runsLeft → after.workflow = before.workflow →
      Spends maxRetries 1 before after := by
    intro after hstatus hspawnsLeft hrunsLeft hworkflow
    refine ⟨?_, hworkflow.trans, ?_, ?_⟩
    · rw [attemptsLeft_of_isOpen hopen, Task.attemptsLeft, hstatus]
      dsimp only
      omega
    · rw [hstatus]
      rintro (h | h) <;> cases h
    · rw [hready]
      nofun
  cases spawn with
  | none => exact hworks _ rfl rfl rfl rfl
  | some spawn =>
      cases spawn with
      | success sessionId => exact hworks _ rfl rfl rfl rfl
      | failure error =>
          have hother : error ≠ "no-plugin-attached" := fun h => hplugin (by rw [h])
          show Spends maxRetries 1 before (if error = "no-plugin-attached" then _ else _)
          rw [if_neg hother]
          split
          · refine ⟨?_, id, nofun, fun _ => rfl⟩
            rw [attemptsLeft_of_isOpen hopen]
            show 0 + 1 ≤ _
            omega
          · refine ⟨?_, id, nofun, ?_⟩
            · rw [attemptsLeft_of_isOpen hopen]
              exact attemptsLeft_spawnFailure (before.assignedTo agent now ttlMs) error
            · rw [hready]
              nofun

theorem runsLeft_afterRun {errorClass : Option String}
    (hblocked : (before.afterRun errorClass).status = .blocked) :
    (before.afterRun errorClass).runsLeft + 1 ≤ before.runsLeft := by
  have hfailures : before.metadata.dispatchFailures.getD 0 + 1 < MAX_DISPATCH_FAILURES := by
    by_contra hmany
    have hgivesUp : shouldTransitionToDeadletter
        (before.withErrorClass errorClass).withDispatchFailure = true :=
      decide_eq_true (.inr (.inr (Nat.le_of_not_lt hmany)))
    rw [afterRun_status, if_pos hgivesUp] at hblocked
    cases hblocked
  show max 1 (MAX_DISPATCH_FAILURES - (before.metadata.dispatchFailures.getD 0 + 1)) + 1 ≤
    max 1 (MAX_DISPATCH_FAILURES - before.metadata.dispatchFailures.getD 0)
  omega

theorem spends_afterRun (hworks : before.status = .inProgress) (errorClass : Option String) :
    Spends maxRetries 0 before (before.afterRun errorClass) := by
  have hcases : (before.afterRun errorClass).status = .deadletter ∨
      (before.afterRun errorClass).status = .blocked := by
    rw [afterRun_status]
    split
    · exact .inl rfl
    · exact .inr rfl
  refine ⟨?_, id, fun h => ?_, fun h => ?_⟩
  · rcases hcases with hstatus | hstatus
    · rw [Task.attemptsLeft, hstatus]
      exact Nat.zero_le _
    · have hleft := attemptsLeft_le (before.afterRun errorClass) maxRetries
      have hruns := runsLeft_afterRun hstatus
      have hspawns : (before.afterRun errorClass).spawnsLeft maxRetries =
        before.spawnsLeft maxRetries := rfl
      have hbefore : before.attemptsLeft maxRetries =
          before.spawnsLeft maxRetries + before.runsLeft - 2 := by
        rw [Task.attemptsLeft, hworks]
      omega
  · rcases hcases with hstatus | hstatus <;> rw [hstatus] at h <;> rcases h with h | h <;> cases h
  · rw [hworks] at h
    cases h

theorem spends_recovered {forces : Bool} (hworks : before.status = .inProgress)
    (hforced : before.forced forces = true) (hblocked : (before.afterRun none).status = .blocked) :
    Spends maxRetries 0 before (before.recovered forces none) := by
  have hrecovered : before.recovered forces none =
      Store.transitioned (before.afterRun none) .ready := by
    rw [Task.recovered, if_pos hforced]
  rw [hrecovered]
  refine ⟨?_, id, nofun, fun h => ?_⟩
  · have hleft := attemptsLeft_le (Store.transitioned (before.afterRun none) .ready) maxRetries
    have hruns := runsLeft_afterRun hblocked
    have hsame : (Store.transitioned (before.afterRun none) .ready).runsLeft =
      (before.afterRun none).runsLeft := rfl
    have hspawns : (Store.transitioned (before.afterRun none) .ready).spawnsLeft maxRetries =
      before.spawnsLeft maxRetries := rfl
    have hbefore : before.attemptsLeft maxRetries =
        before.spawnsLeft maxRetries + before.runsLeft - 2 := by
      rw [Task.attemptsLeft, hworks]
    omega
  · rw [hworks] at h
    cases h

end

def SchedulerAction.putOff (id : String) (conduct : ExecutorConduct) : SchedulerAction → Bool
  | .assign taskId _ _ (.failure error) _ _ =>
      taskId = id && !conduct.throws taskId && error = "no-plugin-attached"
  | _ => false

/-- Nobody acts on the task but the scheduler, and no attempt is put off. -/
def SchedulerEvent.unattended (id : String) (maxRetries : Nat) (state : SchedulerState) :
    SchedulerEvent → Bool
  | .plan input => input.maxRetries = maxRetries
  | .execute conduct => !state.planned.head?.any (SchedulerAction.putOff id conduct)
  | .operate (.writeResult taskId _) => taskId ≠ id
  | .operate operation => !operation.actsOn id

/-- The step brings the task back without a count: out of work, out of dead letter, or out of a
block whose retries are used up. -/
def SchedulerEvent.revives (id : String) (maxRetries : Nat) (state : SchedulerState) (task : Task) :
    SchedulerEvent → Bool
  | .plan _ => false
  | .execute conduct =>
      match state.planned.head? with
      | some (.expireLease taskId ..) =>
          taskId = id && (task.status = .inProgress || task.status = .deadletter)
      | some (.requeue taskId) | some (.promote taskId) =>
          taskId = id && (task.status = .inProgress || task.status = .deadletter ||
            task.exhausted maxRetries)
      | some (.block taskId) => taskId = id && task.status = .inProgress
      | some (.staleHeartbeat taskId agent) =>
          if taskId = id then
            task.status = .inProgress && task.heldBy agent &&
              !(task.forced (conduct.forces taskId) && (task.afterRun none).status = .blocked)
          else
            task.exhausted maxRetries && taskId ∈ task.dependsOn && allDependenciesDone
              (((SchedulerAction.staleHeartbeat taskId agent).handler conduct).after
                state.store).tasks.values task
      | _ => false
  | .operate operation =>
      task.exhausted maxRetries && operation.announces && operation.taskId ∈ task.dependsOn &&
        allDependenciesDone (operation.command.after state.store).tasks.values task

def SchedulerEvent.attempts (id : String) (state : SchedulerState) : SchedulerEvent → Bool
  | .execute _ =>
      match state.planned.head? with
      | some (.assign taskId _ allTasks _ now _) =>
          taskId = id && (state.store.tasks.get? id).any fun task => task.assignable allTasks now
      | _ => false
  | _ => false

/-- An attempt fails in the step, with an error that is classified as permanent. -/
def SchedulerEvent.failsPermanently (id : String) (state : SchedulerState) : SchedulerEvent → Bool
  | .execute conduct =>
      SchedulerEvent.attempts id state (.execute conduct) && state.planned.head?.any fun action =>
        (action.failedSpawn conduct).any fun error => classifySpawnError error = "permanent"
  | .operate (.runComplete taskId errorClass) =>
      taskId = id && errorClass = some "permanent" &&
        (state.store.tasks.get? id).any fun task => task.status = .inProgress
  | _ => false

/-- A state of the scheduler, with the number of attempts so far and whether one of them has failed
permanently. -/
structure RetryHistory where
  state : SchedulerState
  attempts : Nat := 0
  failedPermanently : Bool := false

def retryStep (id : String) (history : RetryHistory) (event : SchedulerEvent) :
    Option RetryHistory :=
  (schedulerStep history.state event).map fun state =>
    { state
      attempts := history.attempts + (event.attempts id history.state).toNat
      failedPermanently := history.failedPermanently || event.failsPermanently id history.state }

def Pays (id : String) (maxRetries attempts : Nat) (task : Task) (after : Store) : Prop :=
  ∃ changed, after.tasks.get? id = some changed ∧ after.runResults.get? id = none ∧
    Spends maxRetries attempts task changed

def SchedulerAction.plannedWith (maxRetries : Nat) : SchedulerAction → Bool
  | .expireLease _ _ limit _ => limit = maxRetries
  | .runComplete .. | .hopDispatch .. | .hopComplete .. => false
  | _ => true

section

variable {id : String} {maxRetries : Nat} {store : Store} {task : Task}

theorem pays_of_does {attempts : Nat} {command : Command Store Unit} {result : Option Unit}
    {changed : Task} (hget : store.tasks.get? id = some task)
    (hresult : store.runResults.get? id = none) (hdoes : Does id none task command result changed)
    (hspends : Spends maxRetries attempts task changed) :
    Pays id maxRetries attempts task (command.after store) := by
  obtain ⟨-, hholds⟩ := hdoes store ⟨hget, hresult⟩
  exact ⟨changed, hholds.task, hholds.runResult, hspends⟩

theorem isOpen_of_not {newStatus : TaskStatus} (hready : newStatus = .ready)
    (hvalid : isValidTransition task.status newStatus = true) (hworks : task.status ≠ .inProgress)
    (hdead : task.status ≠ .deadletter) (hretries : task.exhausted maxRetries = false) :
    task.isOpen maxRetries = true := by
  subst hready
  rw [Task.isOpen, hretries]
  cases h : task.status <;> simp_all [isValidTransition, VALID_TRANSITIONS]

variable {allTasks : List Task} {state next : SchedulerState} {action : SchedulerAction}
  {conduct : ExecutorConduct} {agent taskId : String} {spawn : SpawnResult} {now ttlMs : Nat}
  {after : Store} {operation : SchedulerOperation} {event : SchedulerEvent}

theorem spends_expired {backoffElapsed : Bool} (hworks : task.status ≠ .inProgress)
    (hdead : task.status ≠ .deadletter) : Spends maxRetries 0 task
      ((task.unleased.sentTo (task.expiryTarget allTasks maxRetries backoffElapsed)).getD
        task.unleased) := by
  apply (spends_unleased task).trans
  have hready : (task.status = .blocked → task.exhausted maxRetries = false) →
      Spends maxRetries 0 task.unleased ((task.unleased.moved .ready).getD task.unleased) := by
    intro hretries
    refine spends_moved (by decide) fun hvalid => ?_
    refine .inr (isOpen_of_not rfl hvalid hworks hdead ?_)
    by_cases hblocked : task.status = .blocked
    · exact hretries hblocked
    · have hother : task.unleased.status ≠ .blocked := hblocked
      simp [Task.exhausted, hother]
  unfold Task.expiryTarget
  split
  · rename_i hblocked
    split
    · rename_i hspawn
      split
      · exact spends_moved (by decide) fun _ => .inl rfl
      · rename_i hallow
        apply hready
        intro _
        have hfew : ¬maxRetries ≤ task.metadata.retryCount.getD 0 := by
          intro hmany
          unfold shouldAllowSpawnFailedRequeue at hallow
          rw [if_pos hmany, ite_self] at hallow
          cases hallow
        simp [Task.exhausted, hfew]
      · exact .refl _
    · rename_i hspawn
      split
      · apply hready
        intro _
        rw [Bool.not_eq_true] at hspawn
        simp [Task.exhausted, hspawn]
      · exact .refl _
  · rename_i hblocked
    exact hready fun h => absurd h hblocked

theorem pays_own_move (hget : state.store.tasks.get? id = some task)
    (hresult : state.store.runResults.get? id = none) (hid : action.taskId = id)
    (hhead : state.planned.head? = some action) (hplanned : action.plannedWith maxRetries = true)
    (hmoves : ∀ agent allTasks spawn now ttlMs, action ≠ .assign id agent allTasks spawn now ttlMs)
    (hrevives : (SchedulerEvent.execute conduct).revives id maxRetries state task = false) :
    Pays id maxRetries 0 task ((action.handler conduct).after state.store) := by
  cases action with
  | expireLease taskId allTasks limit backoffElapsed =>
      obtain rfl : taskId = id := hid
      obtain rfl : limit = maxRetries := of_decide_eq_true hplanned
      simp only [SchedulerEvent.revives, hhead, decide_true, Bool.true_and, Bool.or_eq_false_iff,
        decide_eq_false_iff_not] at hrevives
      exact pays_of_does hget hresult does_handleExpireLease
        (spends_expired hrevives.1 hrevives.2)
  | requeue taskId =>
      obtain rfl : taskId = id := hid
      simp only [SchedulerEvent.revives, hhead, decide_true, Bool.true_and, Bool.or_eq_false_iff,
        decide_eq_false_iff_not] at hrevives
      refine pays_of_does hget hresult does_handleRequeue
        (spends_moved (by decide) fun hvalid => ?_)
      exact .inr (isOpen_of_not rfl hvalid hrevives.1.1 hrevives.1.2 hrevives.2)
  | promote taskId =>
      obtain rfl : taskId = id := hid
      simp only [SchedulerEvent.revives, hhead, decide_true, Bool.true_and, Bool.or_eq_false_iff,
        decide_eq_false_iff_not] at hrevives
      refine pays_of_does hget hresult (does_transition_then .ready)
        (spends_moved (by decide) fun hvalid => ?_)
      exact .inr (isOpen_of_not rfl hvalid hrevives.1.1 hrevives.1.2 hrevives.2)
  | deadletter taskId =>
      obtain rfl : taskId = id := hid
      exact pays_of_does hget hresult does_transitionToDeadletter
        (spends_moved (by decide) fun _ => .inl rfl)
  | block taskId =>
      obtain rfl : taskId = id := hid
      simp only [SchedulerEvent.revives, hhead, decide_true, Bool.true_and,
        decide_eq_false_iff_not] at hrevives
      refine pays_of_does hget hresult (does_transition_then .blocked)
        (spends_moved (by decide) fun hvalid => .inr ?_)
      cases h : task.status <;>
        simp_all [Task.isOpen, Task.exhausted, isValidTransition, VALID_TRANSITIONS]
  | staleHeartbeat taskId agent =>
      obtain rfl : taskId = id := hid
      simp only [SchedulerEvent.revives, hhead, ↓reduceIte, Bool.and_eq_false_iff,
        decide_eq_false_iff_not, Bool.not_eq_false', Bool.and_eq_true, decide_eq_true_eq]
        at hrevives
      rcases hrevives with hnot | ⟨hforced, hblocked⟩
      · exact pays_of_does hget hresult (does_recoverWith_of_not hnot) (.refl task)
      · by_cases hworks : task.status = .inProgress ∧ task.heldBy agent = true
        · obtain ⟨result, hdoes⟩ :=
            does_recoverWith taskId none (conduct.forces taskId) hworks.1 hworks.2
          exact pays_of_does hget hresult hdoes (spends_recovered hworks.1 hforced hblocked)
        · rw [not_and_or, Bool.not_eq_true] at hworks
          exact pays_of_does hget hresult (does_recoverWith_of_not hworks) (.refl task)
  | assign taskId agent allTasks spawn now ttlMs =>
      obtain rfl : taskId = id := hid
      exact absurd rfl (hmoves agent allTasks spawn now ttlMs)
  | _ => cases hplanned

theorem pays_own_assign {state : SchedulerState} {conduct : ExecutorConduct} {agent : String}
    {allTasks : List Task} {spawn : SpawnResult} {now ttlMs : Nat}
    (hget : state.store.tasks.get? id = some task) (hresult : state.store.runResults.get? id = none)
    (hhead : state.planned.head? = some (.assign id agent allTasks spawn now ttlMs))
    (hplugin : SchedulerAction.putOff id conduct (.assign id agent allTasks spawn now ttlMs) =
      false) : Pays id maxRetries (SchedulerEvent.attempts id state (.execute conduct)).toNat task
      ((SchedulerAction.handler conduct (.assign id agent allTasks spawn now ttlMs)).after
        state.store) := by
  refine pays_of_does hget hresult does_assignWith ?_
  have hattempts : SchedulerEvent.attempts id state (.execute conduct) =
      task.assignable allTasks now := by
    simp [SchedulerEvent.attempts, hhead, hget]
  rw [hattempts]
  split
  · rename_i hassignable
    rw [hassignable]
    simp only [Task.assignable, Bool.and_eq_true, decide_eq_true_eq] at hassignable
    apply spends_assign hassignable.1.1
    intro hanswer
    split at hanswer
    · cases hanswer
    · rename_i hthrows
      cases hanswer
      simp [SchedulerAction.putOff, hthrows] at hplugin
  · rename_i hassignable
    rw [Bool.not_eq_true] at hassignable
    rw [hassignable]
    exact .refl task

theorem pays_of_only (hget : store.tasks.get? id = some task)
    (hresult : store.runResults.get? id = none) (hne : taskId ≠ id)
    (honly : Only taskId store after) : Pays id maxRetries 0 task after :=
  ⟨task, (honly.others id hne.symm).trans hget, (honly.runResults id hne.symm).trans hresult,
    .refl task⟩

theorem pays_of_mayWake {completed : String} {after : Store}
    (hget : store.tasks.get? id = some task) (hresult : store.runResults.get? id = none)
    (hwake : MayWake id completed store after)
    (hretries : task.exhausted maxRetries = true → completed ∈ task.dependsOn →
      allDependenciesDone after.tasks.values task = false) : Pays id maxRetries 0 task after := by
  rcases hwake.task task hget with hsame | ⟨hdepends, hwaits, hdone, hready⟩
  · exact ⟨task, hsame, hwake.result.trans hresult, .refl task⟩
  · refine ⟨_, hready, hwake.result.trans hresult, ?_⟩
    refine spends_of_isOpen ?_ rfl rfl rfl ⟨nofun, nofun⟩
    have hopen : task.exhausted maxRetries = false := by
      by_contra hexhausted
      rw [Bool.not_eq_false] at hexhausted
      have hleft := hretries hexhausted hdepends
      rw [allDependenciesDone_iff.mpr hdone] at hleft
      cases hleft
    rw [Task.isOpen, hopen]
    rcases hwaits with h | h
    · rw [h]
      rfl
    · rw [h]
      rfl

theorem pays_upstreamBlocked (blockedTaskId : String)
    (hget : after.tasks.get? id = some (task.upstreamBlocked blockedTaskId))
    (hresult : after.runResults.get? id = none) : Pays id maxRetries 0 task after := by
  refine ⟨_, hget, hresult, ?_⟩
  unfold Task.upstreamBlocked
  split
  · rename_i hwaits
    refine spends_of_isOpen ?_ rfl rfl rfl ⟨nofun, nofun⟩
    rcases hwaits.2 with h | h
    · simp [Task.isOpen, Task.exhausted, h]
    · simp [Task.isOpen, Task.exhausted, h]
  · exact .refl task

theorem pays_other_action (hget : state.store.tasks.get? id = some task)
    (hresult : state.store.runResults.get? id = none) (hne : action.taskId ≠ id)
    (hhead : state.planned.head? = some action)
    (hrevives : (SchedulerEvent.execute conduct).revives id maxRetries state task = false) :
    Pays id maxRetries 0 task ((action.handler conduct).after state.store) := by
  cases hannounces : action.announces with
  | false => exact pays_of_only hget hresult hne (only_quietAction hannounces)
  | true =>
      apply pays_of_mayWake hget hresult (mayWake_announcedAction hne hannounces)
      intro hexhausted hdepends
      cases action with
      | staleHeartbeat taskId agent =>
          have hother : taskId ≠ id := hne
          simpa [SchedulerEvent.revives, hhead, hother, hexhausted, show taskId ∈ task.dependsOn
            from hdepends] using hrevives
      | _ => cases hannounces

theorem pays_handleStatusUpdate {targetStatus : TaskStatus} {cascadeBlocks : Bool}
    (hget : store.tasks.get? id = some task) (hresult : store.runResults.get? id = none)
    (hne : taskId ≠ id) : Pays id maxRetries 0 task
      ((handleStatusUpdate taskId targetStatus cascadeBlocks).after store) := by
  obtain ⟨t, hmoved, hafter⟩ := handleStatusUpdate_cases taskId targetStatus cascadeBlocks store
  have hmiddle : t.tasks.get? id = some task ∧ t.runResults.get? id = none := by
    rcases hmoved with rfl | ⟨other, hother, -, rfl⟩
    · exact ⟨hget, hresult⟩
    · have hkey : other.id = taskId := store.keyed taskId other hother
      rw [Store.tasks_put, if_neg, Store.runResults_put]
      · exact ⟨hget, hresult⟩
      · exact fun h => hne (hkey.symm.trans h)
  rcases hafter with hafter | ⟨-, -, -, hafter⟩
  · rw [hafter]
    exact ⟨task, hmiddle.1, hmiddle.2, .refl task⟩
  · rw [hafter]
    obtain ⟨-, htasks, hresults⟩ := run_cascadeOnBlock taskId t
    have hblocked := htasks id
    rw [hmiddle.1, Option.map_some] at hblocked
    exact pays_upstreamBlocked taskId hblocked ((hresults id).trans hmiddle.2)

theorem pays_other_operation (hget : state.store.tasks.get? id = some task)
    (hresult : state.store.runResults.get? id = none) (hne : operation.taskId ≠ id)
    (hrevives : (SchedulerEvent.operate operation).revives id maxRetries state task = false) :
    Pays id maxRetries 0 task (operation.command.after state.store) := by
  by_cases hordinary : operation.ordinary = true
  · cases hannounces : operation.announces with
    | false =>
        have honly : Only operation.taskId state.store (operation.command.after state.store) :=
          admitsOwn_only.operate rfl hordinary hannounces
        exact pays_of_only hget hresult hne honly
    | true =>
        have hwake : MayWake id operation.taskId state.store
            (operation.command.after state.store) := (admits_mayWake hne).operate rfl hordinary
        apply pays_of_mayWake hget hresult hwake
        intro hexhausted hdepends
        simpa [SchedulerEvent.revives, hannounces, hexhausted, hdepends] using hrevives
  · cases operation with
    | block taskId given =>
        have honly : Only taskId state.store ((Store.block taskId given).after state.store) :=
          only_block given
        exact pays_of_only hget hresult hne honly
    | unblock taskId =>
        have honly : Only taskId state.store ((Store.unblock taskId).after state.store) :=
          only_unblock
        exact pays_of_only hget hresult hne honly
    | cancel taskId =>
        have honly : Only taskId state.store ((Store.cancel taskId).after state.store) :=
          only_cancel
        exact pays_of_only hget hresult hne honly
    | statusUpdate taskId targetStatus cascadeBlocks =>
        exact pays_handleStatusUpdate hget hresult hne
    | _ => exact absurd rfl hordinary

theorem pays_cascade_self (hget : store.tasks.get? id = some task)
    (hresult : store.runResults.get? id = none) :
    Pays id maxRetries 0 task ((cascadeOnCompletion id).after store) := by
  obtain ⟨-, htasks, hresults⟩ := run_cascadeOnCompletion id store
  have hafter := htasks id
  rw [hget, Option.map_some, Task.cascaded, if_neg] at hafter
  · exact ⟨task, hafter, (hresults id).trans hresult, .refl task⟩
  · simp only [Task.wokenBy, decide_eq_true_eq]
    rintro ⟨hself, hwaits, hdone⟩
    have hover := allDependenciesDone_iff.mp hdone id hself
    rw [isDone_of_get hget, decide_eq_true_eq] at hover
    rw [hover] at hwaits
    rcases hwaits with h | h <;> cases h

theorem pays_own_operation (hget : state.store.tasks.get? id = some task)
    (hresult : state.store.runResults.get? id = none) (hworkflow : task.workflow = none)
    (hid : operation.taskId = id)
    (hunattended : (SchedulerEvent.operate operation).unattended id maxRetries state = true) :
    Pays id maxRetries 0 task (operation.command.after state.store) := by
  cases operation with
  | cascade completedTaskId =>
      obtain rfl : completedTaskId = id := hid
      exact pays_cascade_self hget hresult
  | hopDispatch taskId hopId spawn timestamp =>
      obtain rfl : taskId = id := hid
      have hdoes : Does taskId none task (pollDispatch taskId hopId spawn timestamp) (some ())
          task := by
        apply does_get.bind
        dsimp only
        rw [hworkflow]
        exact does_pure ()
      exact pays_of_does hget hresult hdoes (.refl task)
  | visit taskId executor timestamp =>
      obtain rfl : taskId = id := hid
      have hdoes : Does taskId none task (visitCurrent taskId executor timestamp) (some ())
          task := by
        apply does_get.bind
        dsimp only
        split
        · apply Does.of_id
          rintro rfl
          exact does_readRunResult.bind (does_pure ())
        · exact does_pure ()
      exact pays_of_does hget hresult hdoes (.refl task)
  | runComplete taskId errorClass =>
      obtain rfl : taskId = id := hid
      by_cases hworks : task.status = .inProgress
      · exact pays_of_does hget hresult (does_handleRunComplete hworks)
          (spends_afterRun hworks errorClass)
      · exact pays_of_does hget hresult (does_handleRunComplete_of_ne hworks) (.refl task)
  | hopTimeouts input taskId =>
      obtain rfl : taskId = id := hid
      have hdoes : Does taskId none task (checkTaskTimeouts input taskId) (some ()) task := by
        apply does_get.bind
        dsimp only
        rw [hworkflow]
        split
        · exact (does_pure task).bind (does_pure ())
        · exact does_pure ()
      exact pays_of_does hget hresult hdoes (.refl task)
  | review input currentInProgress team =>
      obtain rfl : team.reviewTaskId = id := hid
      have hsame : (evaluateMurmurTrigger input currentInProgress team).after state.store =
          state.store := after_evaluateMurmurTrigger_of_get hget
      refine ⟨task, ?_, ?_, .refl task⟩
      · rw [SchedulerOperation.command, hsame, hget]
      · rw [SchedulerOperation.command, hsame, hresult]
  | writeResult taskId result =>
      obtain rfl : taskId = id := hid
      simp [SchedulerEvent.unattended] at hunattended
  | _ =>
      simp [SchedulerEvent.unattended, SchedulerOperation.actsOn, ← hid, SchedulerOperation.taskId]
        at hunattended

theorem attempts_of_other {state : SchedulerState} {action : SchedulerAction}
    {conduct : ExecutorConduct} (hhead : state.planned.head? = some action)
    (hother : ∀ agent allTasks spawn now ttlMs,
      action ≠ .assign id agent allTasks spawn now ttlMs) :
    SchedulerEvent.attempts id state (.execute conduct) = false := by
  rw [SchedulerEvent.attempts, hhead]
  cases action with
  | assign taskId agent allTasks spawn now ttlMs =>
      have hne : taskId ≠ id := by
        rintro rfl
        exact hother agent allTasks spawn now ttlMs rfl
      simp [hne]
  | _ => rfl

theorem pays_step (hstep : schedulerStep state event = some next)
    (hplanned : ∀ action ∈ state.planned, action.plannedWith maxRetries = true)
    (hunattended : event.unattended id maxRetries state = true)
    (hget : state.store.tasks.get? id = some task)
    (hresult : state.store.runResults.get? id = none) (hworkflow : task.workflow = none)
    (hrevives : event.revives id maxRetries state task = false) :
    Pays id maxRetries (event.attempts id state).toNat task next.store := by
  cases event with
  | plan input =>
      obtain ⟨-, hnext⟩ := Option.ite_none_right_eq_some.mp hstep
      cases hnext
      exact ⟨task, hget, hresult, .refl task⟩
  | operate operation =>
      cases hstep
      by_cases hid : operation.taskId = id
      · exact pays_own_operation hget hresult hworkflow hid hunattended
      · exact pays_other_operation hget hresult hid hrevives
  | execute conduct =>
      obtain ⟨store, planned⟩ := state
      cases planned with
      | nil => cases hstep
      | cons action rest =>
          cases hstep
          have hhead : (SchedulerState.mk store (action :: rest)).planned.head? = some action := rfl
          have hplugin : action.putOff id conduct = false := by
            simpa [SchedulerEvent.unattended] using hunattended
          by_cases hassign : ∃ agent allTasks spawn now ttlMs,
              action = .assign id agent allTasks spawn now ttlMs
          · obtain ⟨agent, allTasks, spawn, now, ttlMs, rfl⟩ := hassign
            exact pays_own_assign hget hresult hhead hplugin
          · have hmoves : ∀ agent allTasks spawn now ttlMs,
                action ≠ .assign id agent allTasks spawn now ttlMs := by
              intro agent allTasks spawn now ttlMs h
              exact hassign ⟨agent, allTasks, spawn, now, ttlMs, h⟩
            rw [attempts_of_other hhead hmoves]
            by_cases hid : action.taskId = id
            · exact pays_own_move hget hresult hid hhead (hplanned action List.mem_cons_self)
                hmoves hrevives
            · exact pays_other_action hget hresult hid hhead hrevives

theorem plannedWith_of_mem {input : PollInput} (haction : action ∈ plannedActions input allTasks) :
    action.plannedWith input.maxRetries = true := by
  cases plans_of_mem haction with
  | expireLease => exact decide_eq_true rfl
  | recover _ _ hrecover =>
      rcases recoverBlocked_cases hrecover with rfl | rfl
      · rfl
      · rfl
  | _ => rfl

theorem deadletter_assign {conduct : ExecutorConduct} {agent : String} {allTasks : List Task}
    {spawn : SpawnResult} {now ttlMs : Nat} (hget : store.tasks.get? id = some task)
    (hassignable : task.assignable allTasks now = true)
    (herror : ((SchedulerAction.assign id agent allTasks spawn now ttlMs).failedSpawn conduct).any
      (fun error => classifySpawnError error = "permanent") = true) :
    ∃ task, (((SchedulerAction.assign id agent allTasks spawn now ttlMs).handler conduct).after
      store).tasks.get? id = some task ∧ task.status = .deadletter := by
  cases spawn with
  | success sessionId => cases herror
  | failure error =>
      have hanswers : ¬(conduct.throws id = true ∨ error = "no-plugin-attached") := by
        intro h
        rw [SchedulerAction.failedSpawn, if_pos h] at herror
        cases herror
      rw [SchedulerAction.failedSpawn, if_neg hanswers, Option.any_some,
        decide_eq_true_eq] at herror
      rw [not_or, Bool.not_eq_true] at hanswers
      have hafter : ((assignWith id agent allTasks (some (.failure error)) now ttlMs).after
          store).tasks.get? id = some (if task.assignable allTasks now = true then
            task.afterAssignWith agent (some (.failure error)) now ttlMs else task) :=
        Does.after_task (fun _ => does_assignWith) hget
      rw [if_pos hassignable, Task.afterAssignWith, Task.afterAssign] at hafter
      simp only [if_neg hanswers.2, if_pos herror] at hafter
      rw [SchedulerAction.handler, hanswers.1]
      exact ⟨_, hafter, rfl⟩

theorem deadletter_of_failsPermanently (hstep : schedulerStep state event = some next)
    (hfails : event.failsPermanently id state = true) :
    ∃ task, next.store.tasks.get? id = some task ∧ task.status = .deadletter := by
  cases event with
  | plan => cases hfails
  | operate operation =>
      cases hstep
      cases operation with
      | runComplete taskId errorClass =>
          simp only [SchedulerEvent.failsPermanently, Bool.and_eq_true, decide_eq_true_eq] at hfails
          obtain ⟨⟨rfl, rfl⟩, hworks⟩ := hfails
          obtain ⟨task, hget, hstatus⟩ := (Option.any_eq_true _ _).mp hworks
          have hafter : ((handleRunComplete taskId (some "permanent")).after
              state.store).tasks.get? taskId = some (task.afterRun (some "permanent")) :=
            Does.after_task (fun _ => does_handleRunComplete (of_decide_eq_true hstatus)) hget
          refine ⟨_, hafter, ?_⟩
          rw [afterRun_status, if_pos]
          exact decide_eq_true (.inl rfl)
      | _ => cases hfails
  | execute conduct =>
      obtain ⟨store, planned⟩ := state
      cases planned with
      | nil => cases hstep
      | cons action rest =>
          cases hstep
          simp only [SchedulerEvent.failsPermanently, SchedulerEvent.attempts, List.head?_cons,
            Option.any_some, Bool.and_eq_true] at hfails
          obtain ⟨hattempts, herror⟩ := hfails
          cases action with
          | assign taskId agent allTasks spawn now ttlMs =>
              simp only [Bool.and_eq_true, decide_eq_true_eq] at hattempts
              obtain ⟨rfl, hassigned⟩ := hattempts
              obtain ⟨task, hget, hassignable⟩ := (Option.any_eq_true _ _).mp hassigned
              exact deadletter_assign hget hassignable herror
          | _ => cases hattempts

/-- What a run keeps of the task. -/
structure RetriesCounted (id : String) (maxRetries : Nat) (history : RetryHistory) : Prop where
  planned : ∀ action ∈ history.state.planned, action.plannedWith maxRetries = true
  result : history.state.store.runResults.get? id = none
  task : ∃ task, history.state.store.tasks.get? id = some task ∧ task.workflow = none ∧
    history.attempts + task.attemptsLeft maxRetries ≤ maxAttempts maxRetries ∧
    (task.status = .done ∨ task.status = .cancelled → history.attempts = 0) ∧
    (history.failedPermanently = true → task.status = .deadletter)

theorem plannedWith_step (hstep : schedulerStep state event = some next)
    (hunattended : event.unattended id maxRetries state = true)
    (hplanned : ∀ action ∈ state.planned, action.plannedWith maxRetries = true) :
    ∀ action ∈ next.planned, action.plannedWith maxRetries = true := by
  cases event with
  | plan input =>
      obtain ⟨-, hnext⟩ := Option.ite_none_right_eq_some.mp hstep
      cases hnext
      have hlimit : input.maxRetries = maxRetries := of_decide_eq_true hunattended
      intro action haction
      dsimp only at haction
      split at haction
      · cases haction
      · exact hlimit ▸ plannedWith_of_mem haction
  | operate operation =>
      cases hstep
      exact hplanned
  | execute conduct =>
      obtain ⟨store, planned⟩ := state
      cases planned with
      | nil => cases hstep
      | cons action rest =>
          cases hstep
          exact fun other hother => hplanned other (List.mem_cons_of_mem _ hother)

theorem counted_step {history next : RetryHistory}
    (hunattended : event.unattended id maxRetries history.state = true)
    (hrevives : ∀ task, history.state.store.tasks.get? id = some task →
      event.revives id maxRetries history.state task = false)
    (hstep : retryStep id history event = some next)
    (hcounted : RetriesCounted id maxRetries history) : RetriesCounted id maxRetries next := by
  obtain ⟨hplanned, hresult, task, hget, hworkflow, hattempts, hover, hpermanent⟩ := hcounted
  obtain ⟨state, hstate, rfl⟩ := Option.map_eq_some_iff.mp hstep
  obtain ⟨changed, hchanged, hleft, hspends⟩ := pays_step hstate hplanned hunattended hget hresult
    hworkflow (hrevives task hget)
  have hpaid := hspends.left
  refine ⟨plannedWith_step hstate hunattended hplanned, hleft, changed, hchanged,
    hspends.workflow hworkflow, ?_, ?_, ?_⟩
  · dsimp only
    omega
  · intro hend
    have hsame := hspends.ended hend
    rw [hsame] at hend
    have hnone : history.attempts = 0 := hover hend
    have hempty : task.attemptsLeft maxRetries = 0 := by
      rcases hend with h | h <;> rw [Task.attemptsLeft, h]
    dsimp only
    omega
  · intro hfails
    rw [Bool.or_eq_true] at hfails
    rcases hfails with hbefore | hnow
    · exact hspends.dead (hpermanent hbefore)
    · obtain ⟨last, hlast, hdead⟩ := deadletter_of_failsPermanently hstate hnow
      rw [hchanged] at hlast
      exact Option.some.inj hlast ▸ hdead

end

/-- The scheduler alone works on the task, every attempt fails, and the step brings the task back
only after a count. -/
def CountsReturn (id : String) (maxRetries : Nat) (history : RetryHistory)
    (event : SchedulerEvent) : Prop :=
  event.unattended id maxRetries history.state = true ∧
    ∀ task, history.state.store.tasks.get? id = some task →
      event.revives id maxRetries history.state task = false

/-- However long the scheduler goes on, it dispatches the task at most `maxAttempts` times; then the
task is blocked, in dead letter or in its last run, and after a permanent failure it is not
dispatched again. -/
theorem retries_bounded {id : String} {maxRetries : Nat} {store : Store} {task : Task}
    {events : List SchedulerEvent} {finish : RetryHistory}
    (hget : store.tasks.get? id = some task) (hworkflow : task.workflow = none)
    (hresult : store.runResults.get? id = none)
    (hrun : Run (retryStep id) (CountsReturn id maxRetries) { state := ⟨store, []⟩ } events
      finish) : finish.attempts ≤ maxAttempts maxRetries ∧
      (finish.attempts = maxAttempts maxRetries → ∃ last,
        finish.state.store.tasks.get? id = some last ∧
        last.status ∈ [TaskStatus.blocked, .deadletter, .inProgress]) ∧
      (finish.failedPermanently = true →
        ∀ event : SchedulerEvent, event.attempts id finish.state = false) := by
  have hcounted : RetriesCounted id maxRetries finish := by
    refine hrun.invariant (RetriesCounted id maxRetries)
      (fun _ _ _ hcounted hok hstep => counted_step hok.1 hok.2 hstep hcounted) ?_
    refine ⟨fun _ h => absurd h List.not_mem_nil, hresult, task, hget, hworkflow, ?_, fun _ => rfl,
      nofun⟩
    rw [Nat.zero_add]
    exact attemptsLeft_le_max task maxRetries
  obtain ⟨-, -, last, hlast, -, hattempts, hover, hpermanent⟩ := hcounted
  refine ⟨by omega, fun hall => ⟨last, hlast, ?_⟩, fun hfailed event => ?_⟩
  · have hnone : last.attemptsLeft maxRetries = 0 := by omega
    have hpositive : maxAttempts maxRetries ≠ 0 := by
      unfold maxAttempts MAX_DISPATCH_FAILURES
      omega
    by_contra hother
    simp only [List.mem_cons, List.not_mem_nil, or_false, not_or] at hother
    by_cases hend : last.status = .done ∨ last.status = .cancelled
    · exact hpositive (hall.symm.trans (hover hend))
    · have hopen : last.isOpen maxRetries = true := by
        rw [not_or] at hend
        simp [Task.isOpen, Task.exhausted, hother, hend]
      have hspawns : 1 ≤ last.spawnsLeft maxRetries := Nat.le_max_left _ _
      have hruns : 1 ≤ last.runsLeft := Nat.le_max_left _ _
      rw [attemptsLeft_of_isOpen hopen] at hnone
      omega
  · have hdead := hpermanent hfailed
    cases event with
    | plan | operate => rfl
    | execute conduct =>
        simp only [SchedulerEvent.attempts]
        split
        · rw [hlast, Option.any_some, Task.assignable, hdead]
          exact Bool.and_false _
        · rfl

def idleTask : Task := { id := "T", status := .ready, routing := { agent := some "swe" } }

def idleStore : Store := Store.ofTasks [idleTask]

def sessionPoll (ttlMs now : Nat) : PollInput :=
  { config := {}, executor := some fun _ => .success "session", defaultLeaseTtlMs := ttlMs, now }

def takenTask (ttlMs now : Nat) : Task := idleTask.assignedTo "swe" now ttlMs

def takenStore (ttlMs now : Nat) : Store := idleStore.put (takenTask ttlMs now)

def assignIdle (ttlMs now : Nat) : SchedulerAction :=
  .assign "T" "swe" [idleTask] (.success "session") now ttlMs

def expireTaken (ttlMs now : Nat) : SchedulerAction :=
  .expireLease "T" [takenTask ttlMs now] 3 true

theorem plan_idle (ttlMs now : Nat) :
    schedulerStep ⟨idleStore, []⟩ (.plan (sessionPoll ttlMs now)) =
      some ⟨idleStore, [assignIdle ttlMs now]⟩ := rfl

theorem throw_idle (ttlMs now : Nat) :
    schedulerStep ⟨idleStore, [assignIdle ttlMs now]⟩ (.execute { throws := fun _ => true }) =
      some ⟨takenStore ttlMs now, []⟩ := rfl

theorem plan_taken {ttlMs now later : Nat} (hlater : now + ttlMs ≤ later) :
    schedulerStep ⟨takenStore ttlMs now, []⟩ (.plan (sessionPoll ttlMs later)) =
      some ⟨takenStore ttlMs now, [expireTaken ttlMs now]⟩ := by
  have hexpired : leaseExpired (takenTask ttlMs now).lease later = true := decide_eq_true hlater
  have hfilter : [takenTask ttlMs now].filter (fun task => leaseExpired task.lease later) =
      [takenTask ttlMs now] :=
    List.filter_eq_self.mpr fun task htask => List.mem_singleton.mp htask ▸ hexpired
  have hleases : checkExpiredLeases (sessionPoll ttlMs later) [takenTask ttlMs now] =
      [expireTaken ttlMs now] := by
    show List.map _ ([takenTask ttlMs now].filter fun task => leaseExpired task.lease later) = _
    rw [hfilter]
    rfl
  have hplanned : plannedActions (sessionPoll ttlMs later) [takenTask ttlMs now] =
      [expireTaken ttlMs now] := by
    unfold plannedActions
    rw [hleases]
    rfl
  show some (SchedulerState.mk (takenStore ttlMs now)
    (plannedActions (sessionPoll ttlMs later) [takenTask ttlMs now])) = _
  rw [hplanned]

theorem expire_taken (ttlMs now : Nat) :
    schedulerStep ⟨takenStore ttlMs now, [expireTaken ttlMs now]⟩ (.execute {}) =
      some ⟨idleStore, []⟩ := rfl

theorem thrown_attempts (ttlMs attempts : Nat) : ∃ events,
    Run (retryStep "T") (fun history event => event.unattended "T" 3 history.state = true)
      { state := ⟨idleStore, []⟩ } events { state := ⟨idleStore, []⟩, attempts } := by
  induction attempts with
  | zero => exact ⟨[], .refl _⟩
  | succ attempts ih =>
      obtain ⟨events, hrun⟩ := ih
      let now := attempts * ttlMs
      have hassigned := Run.snoc hrun
        (show SchedulerEvent.unattended "T" 3 _ (.plan (sessionPoll ttlMs now)) = true from rfl)
        (show retryStep "T" _ _ = some ⟨⟨idleStore, [assignIdle ttlMs now]⟩, attempts, false⟩ by
          rw [retryStep, plan_idle]
          rfl)
      have hthrown := Run.snoc hassigned
        (show SchedulerEvent.unattended "T" 3 _ (.execute { throws := fun _ => true }) = true
          from rfl)
        (show retryStep "T" _ _ = some ⟨⟨takenStore ttlMs now, []⟩, attempts + 1, false⟩ by
          rw [retryStep, throw_idle]
          rfl)
      have hexpired := Run.snoc hthrown
        (show SchedulerEvent.unattended "T" 3 _ (.plan (sessionPoll ttlMs (now + ttlMs))) = true
          from rfl)
        (show retryStep "T" _ _ =
            some ⟨⟨takenStore ttlMs now, [expireTaken ttlMs now]⟩, attempts + 1, false⟩ by
          rw [retryStep, plan_taken le_rfl]
          rfl)
      exact ⟨_, Run.snoc hexpired
        (show SchedulerEvent.unattended "T" 3 _ (.execute {}) = true from rfl)
        (show retryStep "T" _ _ = some ⟨⟨idleStore, []⟩, attempts + 1, false⟩ by
          rw [retryStep, expire_taken]
          rfl)⟩

theorem thrown_spawns_unbounded : ¬ ∃ bound, ∀ (events : List SchedulerEvent)
    (finish : RetryHistory),
    Run (retryStep "T") (fun history event => event.unattended "T" 3 history.state = true)
      { state := ⟨idleStore, []⟩ } events finish → finish.attempts ≤ bound := by
  rintro ⟨bound, hbound⟩
  obtain ⟨events, hrun⟩ := thrown_attempts 600000 (bound + 1)
  exact absurd (hbound events _ hrun) (Nat.not_succ_le_self bound)

def countsTest (id : String) (maxRetries : Nat) (history : RetryHistory) (event : SchedulerEvent) :
    Bool :=
  event.unattended id maxRetries history.state &&
    (history.state.store.tasks.get? id).all fun task =>
      !event.revives id maxRetries history.state task

theorem countsReturn_of_test {id : String} {maxRetries : Nat} {history : RetryHistory}
    {event : SchedulerEvent} (htest : countsTest id maxRetries history event = true) :
    CountsReturn id maxRetries history event := by
  rw [countsTest, Bool.and_eq_true] at htest
  refine ⟨htest.1, fun task hget => ?_⟩
  have hcounts := htest.2
  rw [hget, Option.all_some, Bool.not_eq_true'] at hcounts
  exact hcounts

def failedPolls : List SchedulerEvent :=
  (List.replicate 6 [.plan unreachablePoll, .execute {}]).flatten

theorem failed_polls_bounded : ∃ finish,
    Run (retryStep "T") (CountsReturn "T" 3) { state := ⟨idleStore, []⟩ } failedPolls finish ∧
      finish.attempts = 3 ∧ finish.attempts ≤ maxAttempts 3 := by
  have hfinish : (exec (StepSystem.checked (retryStep "T") (countsTest "T" 3))
      { state := ⟨idleStore, []⟩ } failedPolls).any (fun finish => finish.attempts = 3) = true := by
    decide +kernel
  obtain ⟨finish, hexec, hthree⟩ := (Option.any_eq_true _ _).mp hfinish
  have hrun := Run.of_exec (fun _ _ h => countsReturn_of_test h) hexec
  have hbounded := retries_bounded (show idleStore.tasks.get? "T" = some idleTask from rfl) rfl rfl
    hrun
  exact ⟨finish, hrun, of_decide_eq_true hthree, hbounded.1⟩

end Aof
