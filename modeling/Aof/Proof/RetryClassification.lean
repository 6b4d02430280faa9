import Aof.Proof.OrdinaryChanges

/-!
# Why a blocked task is retried

The recovery of blocked tasks reads the reason of a block.  A failed spawn writes one, and so does a
block by hand; the other moves to `blocked` leave the reason of an earlier block in place, and only
`unblock` takes it away.
-/

namespace Aof

open StepSystem (Run exec)

def Store.isBlocked (store : Store) (id : String) : Bool :=
  (store.tasks.get? id).any fun task => task.status = .blocked

/-- The reason of its last block, which the task keeps when it leaves `blocked`. -/
def Store.reasonOf (store : Store) (id : String) : Option String :=
  (store.tasks.get? id).bind fun task => task.metadata.blockReason

def namesSpawnFailure (reason : Option String) : Bool :=
  reason.any fun reason => includes reason "spawn_failed"

/-- The recovery plans a retry or a dead letter of the task on account of a failed dispatch. -/
def RetriesSpawn (input : PollInput) (allTasks : List Task) (task : Task) : Prop :=
  task ∈ withStatus .blocked allTasks ∧ namesSpawnFailure task.metadata.blockReason = true ∧
    (recoverBlocked input allTasks task).isSome = true

/-- A state of the scheduler, and whether the last move of the task to `blocked` was made by a
failed spawn. -/
structure BlockHistory where
  state : SchedulerState
  bySpawnFailure : Bool

def SchedulerEvent.spawnFails (state : SchedulerState) (id : String) : SchedulerEvent → Bool
  | .execute conduct =>
      state.planned.head?.any fun action =>
        action.taskId = id && (action.failedSpawn conduct).isSome
  | _ => false

def movesToBlocked (id : String) (before after : Store) : Bool :=
  after.isBlocked id && !before.isBlocked id

def historyStep (id : String) (history : BlockHistory) (event : SchedulerEvent) :
    Option BlockHistory :=
  (schedulerStep history.state event).map fun state =>
    { state
      bySpawnFailure :=
        if movesToBlocked id history.state.store state.store then event.spawnFails history.state id
        else history.bySpawnFailure }

def SchedulerEvent.reasonGiven (id : String) : SchedulerEvent → Option String
  | .operate (.block taskId reason) => if taskId = id then some reason else none
  | .operate (.statusUpdate taskId .blocked true) =>
      if taskId = id then none else some (upstreamReason taskId)
  | _ => none

/-- No event but a failed spawn moves the task to `blocked` with a reason that names one: neither
with such a reason of its own nor with one that is left of an earlier block. -/
def ReasonCleared (id : String) (history : BlockHistory) (event : SchedulerEvent) : Prop :=
  ∀ next, schedulerStep history.state event = some next →
    movesToBlocked id history.state.store next.store = true →
    event.spawnFails history.state id = false →
    namesSpawnFailure ((event.reasonGiven id).or (history.state.store.reasonOf id)) = false

def SameReason (id : String) (before after : Store) : Prop :=
  after.reasonOf id = before.reasonOf id

instance (id : String) : IsPreorder Store (SameReason id) where
  refl _ := rfl
  trans _ _ _ hab hbc := hbc.trans hab

section

variable {id taskId : String} {store before after : Store} {task : Task}

variable {changed : Task} {given : Option String} {state next : SchedulerState}
  {event : SchedulerEvent}

theorem Ordinary.blockReason (h : Ordinary task changed) :
    changed.metadata.blockReason = task.metadata.blockReason := by
  cases h <;> rfl

theorem reasonOf_put {new : Task} : (store.put new).reasonOf id =
    if new.id = id then new.metadata.blockReason else store.reasonOf id := by
  unfold Store.reasonOf
  rw [Store.tasks_put]
  split
  · rfl
  · rfl

theorem reasonOf_of_tasks (htasks : after.tasks.get? id = before.tasks.get? id) :
    after.reasonOf id = before.reasonOf id := by
  unfold Store.reasonOf
  rw [htasks]

theorem isBlocked_of_tasks (htasks : after.tasks.get? id = before.tasks.get? id) :
    after.isBlocked id = before.isBlocked id := by
  unfold Store.isBlocked
  rw [htasks]

theorem admits_sameReason : Admits (SameReason id) fun _ => True where
  put store old new hget hordinary _ := by
    unfold SameReason
    rw [reasonOf_put]
    split
    · rename_i hid
      rw [hordinary.blockReason, Store.reasonOf, ← hid, hget]
      rfl
    · rfl
  create store task hnone hmetadata _ := by
    unfold SameReason
    rw [reasonOf_put]
    split
    · rename_i hid
      rw [hmetadata, Store.reasonOf, ← hid, hnone]
      rfl
    · rfl
  result store taskId result _ := rfl
  cascade completedTaskId store _ := by
    obtain ⟨-, htasks, -⟩ := run_cascadeOnCompletion completedTaskId store
    show Store.reasonOf _ id = _
    unfold Store.reasonOf
    rw [htasks]
    cases store.tasks.get? id with
    | none => rfl
    | some task =>
        rw [Option.map_some, Option.bind_some, Task.cascaded]
        split
        · rfl
        · rfl

def BlockExplained (id : String) (given : Option String) (before after : Store) : Prop :=
  after.isBlocked id = true → after.reasonOf id =
    if before.isBlocked id then before.reasonOf id else given.or (before.reasonOf id)

theorem SameReason.explained (hsame : SameReason id before after) :
    BlockExplained id none before after := by
  intro _
  rw [hsame, Option.none_or, ite_self]

theorem explained_of_tasks (htasks : after.tasks.get? id = before.tasks.get? id) :
    BlockExplained id given before after := by
  intro hblocked
  rw [isBlocked_of_tasks htasks] at hblocked
  rw [hblocked, if_pos rfl, reasonOf_of_tasks htasks]

theorem explained_of_not (hnot : after.isBlocked id = false) :
    BlockExplained id given before after := by
  intro hblocked
  rw [hnot] at hblocked
  cases hblocked

theorem Does.after_task {command : Command Store Unit} {result : Option Unit}
    (hdoes : ∀ runResult, Does id runResult task command result changed)
    (hget : store.tasks.get? id = some task) : (command.after store).tasks.get? id = some changed :=
  (hdoes _ store ⟨hget, rfl⟩).2.task

theorem isBlocked_of_task (hget : store.tasks.get? id = some task) :
    store.isBlocked id = decide (task.status = .blocked) := by
  unfold Store.isBlocked
  rw [hget]
  rfl

theorem reasonOf_of_task (hget : store.tasks.get? id = some task) :
    store.reasonOf id = task.metadata.blockReason := by
  unfold Store.reasonOf
  rw [hget]
  rfl

theorem explained_block (reason : String) :
    BlockExplained id (if taskId = id then some reason else none) store
      ((Store.block taskId reason).after store) := by
  by_cases hid : taskId = id
  swap
  · apply explained_of_tasks
    exact (only_block reason : Only taskId store _).others id (Ne.symm hid)
  subst hid
  rw [if_pos rfl]
  cases hget : store.tasks.get? taskId with
  | none =>
      apply explained_of_tasks
      rw [Store.block, after_get_none hget]
      rfl
  | some task =>
      have hafter := Does.after_task (fun _ => does_block reason) hget
      by_cases hover : task.status ∈ [TaskStatus.blocked, .done, .cancelled, .deadletter]
      · rw [if_pos hover] at hafter
        exact explained_of_tasks (hafter.trans hget.symm)
      · rw [if_neg hover] at hafter
        intro _
        have hopen : store.isBlocked taskId = false := by
          rw [isBlocked_of_task hget]
          simp only [List.mem_cons, not_or] at hover
          exact decide_eq_false hover.1
        rw [hopen, reasonOf_of_task hafter]
        rfl

theorem explained_unblock : BlockExplained id none store ((Store.unblock taskId).after store) := by
  by_cases hid : taskId = id
  swap
  · apply explained_of_tasks
    exact (only_unblock : Only taskId store _).others id (Ne.symm hid)
  subst hid
  cases hget : store.tasks.get? taskId with
  | none =>
      apply explained_of_tasks
      rw [Store.unblock, after_get_none hget]
      rfl
  | some task =>
      have hafter := Does.after_task (fun _ => does_unblock) hget
      by_cases hblocked : task.status = .blocked
      · rw [if_pos hblocked] at hafter
        exact explained_of_not (isBlocked_of_task hafter)
      · rw [if_neg hblocked] at hafter
        exact explained_of_tasks (hafter.trans hget.symm)

theorem explained_cancel : BlockExplained id none store ((Store.cancel taskId).after store) := by
  by_cases hid : taskId = id
  swap
  · apply explained_of_tasks
    exact (only_cancel : Only taskId store _).others id (Ne.symm hid)
  subst hid
  cases hget : store.tasks.get? taskId with
  | none =>
      apply explained_of_tasks
      rw [Store.cancel, after_get_none hget]
      rfl
  | some task =>
      have hafter := Does.after_task (fun _ => does_cancel) hget
      unfold Task.cancelled at hafter
      split at hafter
      · exact explained_of_tasks (hafter.trans hget.symm)
      · exact explained_of_not (isBlocked_of_task hafter)

theorem explained_cascadeOnBlock : BlockExplained id (some (upstreamReason taskId)) store
      ((cascadeOnBlock taskId).after store) := by
  have htasks : ((cascadeOnBlock taskId).after store).tasks.get? id =
      (store.tasks.get? id).map fun task => task.upstreamBlocked taskId :=
    (run_cascadeOnBlock taskId store).2.1 id
  cases hget : store.tasks.get? id with
  | none => exact explained_of_tasks (by rw [htasks, hget]; rfl)
  | some task =>
      rw [hget, Option.map_some, Task.upstreamBlocked] at htasks
      split at htasks
      · rename_i hwaits
        intro _
        have hopen : store.isBlocked id = false := by
          rw [isBlocked_of_task hget]
          rcases hwaits.2 with h | h
          · rw [h]; rfl
          · rw [h]; rfl
        rw [hopen, reasonOf_of_task htasks]
        rfl
      · exact explained_of_tasks (htasks.trans hget.symm)

theorem BlockExplained.of_tasks {middle : Store}
    (htasks : middle.tasks.get? id = before.tasks.get? id)
    (hexplained : BlockExplained id given middle after) : BlockExplained id given before after := by
  intro hblocked
  rw [hexplained hblocked, isBlocked_of_tasks htasks, reasonOf_of_tasks htasks]

theorem sameReason_cascadeOnBlock (hblocked : store.isBlocked id = true) :
    SameReason id store ((cascadeOnBlock id).after store) := by
  have htasks : ((cascadeOnBlock id).after store).tasks.get? id =
      (store.tasks.get? id).map fun task => task.upstreamBlocked id :=
    (run_cascadeOnBlock id store).2.1 id
  apply reasonOf_of_tasks
  rw [htasks]
  cases hget : store.tasks.get? id with
  | none => rfl
  | some task =>
      rw [isBlocked_of_task hget, decide_eq_true_eq] at hblocked
      rw [Option.map_some, Task.upstreamBlocked, if_neg]
      rw [hblocked]
      simp

theorem handleStatusUpdate_cases (taskId : String) (targetStatus : TaskStatus)
    (cascadeBlocks : Bool) (store : Store) :
    ∃ t, (t = store ∨ ∃ task, store.tasks.get? taskId = some task ∧
        isValidTransition task.status targetStatus = true ∧
        t = store.put (Store.transitioned task targetStatus)) ∧
      ((handleStatusUpdate taskId targetStatus cascadeBlocks).after store = t ∨
        targetStatus = .blocked ∧ cascadeBlocks = true ∧ t.isBlocked taskId = true ∧
        (handleStatusUpdate taskId targetStatus cascadeBlocks).after store =
          (cascadeOnBlock taskId).after t) := by
  cases hget : store.tasks.get? taskId with
  | none =>
      refine ⟨store, .inl rfl, .inl ?_⟩
      rw [handleStatusUpdate, after_get_none hget]
      rfl
  | some task =>
      by_cases hsame : task.status = targetStatus
      · refine ⟨store, .inl rfl, .inl ?_⟩
        rw [handleStatusUpdate, after_get_some hget]
        dsimp only
        rw [if_pos hsame]
        rfl
      by_cases hvalid : isValidTransition task.status targetStatus = true
      swap
      · refine ⟨store, .inl rfl, .inl ?_⟩
        rw [handleStatusUpdate, after_get_some hget]
        dsimp only
        rw [if_neg hsame, if_neg hvalid]
        rfl
      refine ⟨store.put (Store.transitioned task targetStatus), .inr ⟨task, rfl, hvalid, rfl⟩, ?_⟩
      have hrun : (handleStatusUpdate taskId targetStatus cascadeBlocks).after store =
          ((if targetStatus = .blocked ∧ cascadeBlocks then cascadeOnBlock taskId else pure () :
            Command Store Unit)).after (store.put (Store.transitioned task targetStatus)) := by
        rw [handleStatusUpdate, after_get_some hget]
        dsimp only
        rw [if_neg hsame, if_pos hvalid, Command.after_eq,
          Command.run_bind_of_some (Store.run_transition hget hvalid hsame)]
        rfl
      rw [hrun]
      split
      · rename_i hcascade
        refine .inr ⟨hcascade.1, hcascade.2, ?_, rfl⟩
        have hid : task.id = taskId := store.keyed taskId task hget
        have hstored : (store.put (Store.transitioned task targetStatus)).tasks.get? taskId =
            some (Store.transitioned task targetStatus) := by
          rw [Store.tasks_put]
          exact if_pos hid
        rw [isBlocked_of_task hstored]
        exact decide_eq_true hcascade.1
      · exact .inl rfl

theorem explained_handleStatusUpdate (targetStatus : TaskStatus) (cascadeBlocks : Bool) :
    BlockExplained id
      ((SchedulerEvent.operate (.statusUpdate taskId targetStatus cascadeBlocks)).reasonGiven id)
      store ((handleStatusUpdate taskId targetStatus cascadeBlocks).after store) := by
  obtain ⟨t, hmoved, hafter⟩ :=
    handleStatusUpdate_cases taskId targetStatus cascadeBlocks store
  by_cases hid : taskId = id
  · subst hid
    have hnone : (SchedulerEvent.operate
        (.statusUpdate taskId targetStatus cascadeBlocks)).reasonGiven taskId = none := by
      unfold SchedulerEvent.reasonGiven
      split
      · rename_i h
        cases h
      · rename_i h
        cases h
        exact if_pos rfl
      · rfl
    have hsame : SameReason taskId store t := by
      rcases hmoved with rfl | ⟨task, hget, hvalid, rfl⟩
      · rfl
      · have hkey : task.id = taskId := store.keyed taskId task hget
        exact admits_sameReason.put store task _ (hkey ▸ hget) (.transition hvalid) trivial
    rw [hnone]
    rcases hafter with hafter | ⟨-, -, hblocked, hafter⟩
    · exact hafter ▸ hsame.explained
    · rw [hafter]
      exact (trans_of (SameReason taskId) hsame (sameReason_cascadeOnBlock hblocked)).explained
  · have htasks : t.tasks.get? id = store.tasks.get? id := by
      rcases hmoved with rfl | ⟨task, hget, -, rfl⟩
      · rfl
      · have hkey : task.id = taskId := store.keyed taskId task hget
        rw [Store.tasks_put, if_neg]
        exact fun h => hid (hkey.symm.trans h)
    rcases hafter with hafter | ⟨rfl, rfl, -, hafter⟩
    · exact explained_of_tasks (by rw [hafter, htasks])
    · rw [hafter, SchedulerEvent.reasonGiven, if_neg hid]
      exact explained_cascadeOnBlock.of_tasks htasks

theorem explained_step (hstep : schedulerStep state event = some next)
    (hspawn : event.spawnFails state id = false) :
    BlockExplained id (event.reasonGiven id) state.store next.store := by
  cases event with
  | plan input =>
      obtain ⟨-, hplanned⟩ := Option.ite_none_right_eq_some.mp hstep
      cases hplanned
      exact explained_of_tasks rfl
  | execute conduct =>
      obtain ⟨store, planned⟩ := state
      cases planned with
      | nil => cases hstep
      | cons action rest =>
          cases hstep
          have hsame : Command.Relates (SameReason id) (action.handler conduct) store := by
            apply admits_sameReason.handler trivial
            intro error hfailed t
            have hother : action.taskId ≠ id := by
              rintro rfl
              simp [SchedulerEvent.spawnFails, hfailed] at hspawn
            have honly : Only action.taskId t ((Store.patch action.taskId fun task =>
                task.withSpawnFailure error).after t) := only_patch fun _ => rfl
            exact reasonOf_of_tasks (honly.others id hother.symm)
          exact SameReason.explained hsame
  | operate operation =>
      cases hstep
      by_cases hordinary : operation.ordinary = true
      · have hsame : Command.Relates (SameReason id) operation.command state.store :=
          admits_sameReason.operate trivial hordinary
        have hnone : (SchedulerEvent.operate operation).reasonGiven id = none := by
          cases operation <;> first | rfl | cases hordinary
        rw [hnone]
        exact SameReason.explained hsame
      · cases operation with
        | block taskId reason => exact explained_block reason
        | unblock taskId => exact explained_unblock
        | cancel taskId => exact explained_cancel
        | statusUpdate taskId targetStatus cascadeBlocks =>
            exact explained_handleStatusUpdate targetStatus cascadeBlocks
        | _ => exact absurd rfl hordinary

theorem tasks_of_spawnFails (hstep : schedulerStep state event = some next)
    (hspawn : event.spawnFails state id = true) (hblocked : state.store.isBlocked id = true) :
    next.store.tasks.get? id = state.store.tasks.get? id := by
  cases event with
  | plan | operate => cases hspawn
  | execute conduct =>
      obtain ⟨store, planned⟩ := state
      cases planned with
      | nil => cases hstep
      | cons action rest =>
          cases hstep
          simp only [SchedulerEvent.spawnFails, List.head?_cons, Option.any_some, Bool.and_eq_true,
            decide_eq_true_eq] at hspawn
          obtain ⟨rfl, hfailed⟩ := hspawn
          obtain ⟨task, hget, hstatus⟩ := (Option.any_eq_true _ _).mp hblocked
          cases action with
          | assign taskId agent allTasks spawn now ttlMs =>
              have hnot : task.assignable allTasks now = false := by
                rw [Task.assignable, of_decide_eq_true hstatus]
                rfl
              have hafter := Does.after_task (fun runResult =>
                does_assignWith : ∀ runResult, Does taskId runResult task
                  (assignWith taskId agent allTasks
                    (if conduct.throws taskId then none else some spawn) now ttlMs) _ _) hget
              rw [hnot] at hafter
              exact hafter.trans hget.symm
          | _ => cases hfailed

/-- A blocked task whose reason names a failed spawn was blocked by one. -/
def Classified (id : String) (history : BlockHistory) : Prop :=
  history.state.store.isBlocked id = true →
    namesSpawnFailure (history.state.store.reasonOf id) = true → history.bySpawnFailure = true

theorem classified_step {history next : BlockHistory} (hclassified : Classified id history)
    (hcleared : ReasonCleared id history event) (hstep : historyStep id history event = some next) :
    Classified id next := by
  obtain ⟨state, hstate, rfl⟩ := Option.map_eq_some_iff.mp hstep
  intro hblocked hnames
  dsimp only at hblocked hnames ⊢
  cases hwas : history.state.store.isBlocked id with
  | false =>
      have hmoves : movesToBlocked id history.state.store state.store = true := by
        rw [movesToBlocked, hblocked, hwas]
        rfl
      rw [if_pos hmoves]
      by_contra hspawn
      rw [Bool.not_eq_true] at hspawn
      have hreason := explained_step hstate hspawn hblocked
      have hgiven := hcleared state hstate hmoves hspawn
      rw [hwas, if_neg Bool.false_ne_true] at hreason
      rw [← hreason, hnames] at hgiven
      cases hgiven
  | true =>
      have hstays : movesToBlocked id history.state.store state.store = false := by
        rw [movesToBlocked, hwas, Bool.not_true, Bool.and_false]
      rw [if_neg (by rw [hstays]; exact Bool.false_ne_true)]
      apply hclassified hwas
      cases hspawn : event.spawnFails history.state id with
      | false =>
          have hreason := explained_step hstate hspawn hblocked
          rw [hwas, if_pos rfl] at hreason
          exact hreason ▸ hnames
      | true =>
          have htasks := tasks_of_spawnFails hstate hspawn hwas
          exact reasonOf_of_tasks htasks ▸ hnames

end

/-- In every history of a task that starts outside `blocked`, the recovery handles it as a failed
spawn only if one has blocked it last, as long as no other block finds such a reason. -/
theorem retried_after_spawnFailure {id : String} {start finish : BlockHistory}
    {events : List SchedulerEvent} (hstart : start.state.store.isBlocked id = false)
    (hrun : Run (historyStep id) (ReasonCleared id) start events finish) {input : PollInput}
    {task : Task} (hid : task.id = id)
    (hretries : RetriesSpawn input finish.state.store.tasks.values task) :
    finish.bySpawnFailure = true := by
  have hclassified : Classified id finish := by
    refine hrun.invariant (Classified id) (fun _ _ _ => classified_step) ?_
    intro hblocked
    rw [hstart] at hblocked
    cases hblocked
  obtain ⟨hscanned, hnames, -⟩ := hretries
  obtain ⟨hmem, hstatus⟩ := mem_withStatus.mp hscanned
  have hget : finish.state.store.tasks.get? id = some task := hid ▸ mem_list_iff.mp hmem
  apply hclassified
  · rw [isBlocked_of_task hget]
    exact decide_eq_true hstatus
  · rw [reasonOf_of_task hget]
    exact hnames

instance (id : String) (history : BlockHistory) (event : SchedulerEvent) :
    Decidable (ReasonCleared id history event) :=
  decidable_of_iff ((schedulerStep history.state event).all fun next =>
      !movesToBlocked id history.state.store next.store || event.spawnFails history.state id ||
        !namesSpawnFailure ((event.reasonGiven id).or (history.state.store.reasonOf id))) <| by
    unfold ReasonCleared
    cases schedulerStep history.state event with
    | none => simp
    | some next => simp [or_iff_not_imp_left]

def BlockHistory.retries (history : BlockHistory) (input : PollInput) (id : String) : Bool :=
  (history.state.store.tasks.get? id).any fun task =>
    task.status = .blocked && namesSpawnFailure task.metadata.blockReason &&
      (recoverBlocked input history.state.store.tasks.values task).isSome

theorem retriesSpawn_of_retries {history : BlockHistory} {input : PollInput} {id : String}
    (hretries : history.retries input id = true) : ∃ task, task.id = id ∧
      RetriesSpawn input history.state.store.tasks.values task := by
  obtain ⟨task, hget, htest⟩ := (Option.any_eq_true _ _).mp hretries
  simp only [Bool.and_eq_true, decide_eq_true_eq] at htest
  obtain rfl : task.id = id := history.state.store.keyed id task hget
  exact ⟨task, rfl, mem_withStatus.mpr ⟨mem_list_iff.mpr hget, htest.1.1⟩, htest.1.2, htest.2⟩

def unreachablePoll : PollInput :=
  { config := {}, executor := some fun _ => .failure "gateway timeout", now := 1 }

def readyHistory : BlockHistory :=
  ⟨⟨Store.ofTasks [{ id := "T", status := .ready, routing := { agent := some "swe" } }], []⟩, false⟩

def setAside : List SchedulerEvent :=
  [.plan unreachablePoll, .execute {}, .plan unreachablePoll, .execute {},
    .operate (.statusUpdate "T" .blocked false)]

theorem status_update_retried : ¬ ∀ (id : String) (start finish : BlockHistory)
    (events : List SchedulerEvent), start.state.store.isBlocked id = false →
    StepSystem.FreeRun (historyStep id) start events finish →
    ∀ (input : PollInput) (task : Task), task.id = id →
      RetriesSpawn input finish.state.store.tasks.values task → finish.bySpawnFailure = true := by
  intro hall
  have hfinish : (exec (historyStep "T") readyHistory setAside).any (fun finish =>
      finish.retries unreachablePoll "T" && !finish.bySpawnFailure) = true := by decide +kernel
  obtain ⟨finish, hexec, htest⟩ := (Option.any_eq_true _ _).mp hfinish
  rw [Bool.and_eq_true, Bool.not_eq_true'] at htest
  obtain ⟨task, hid, hretries⟩ := retriesSpawn_of_retries htest.1
  have hspawn := hall "T" readyHistory finish setAside (by decide)
    (StepSystem.freeRun_iff_exec.mpr hexec) unreachablePoll task hid hretries
  rw [htest.2] at hspawn
  cases hspawn

def unblockedFirst : List SchedulerEvent :=
  [.operate (.block "T" "waiting for a review"), .operate (.unblock "T"), .plan unreachablePoll,
    .execute {}]

theorem unblocked_first_retried : ∃ finish task,
    Run (historyStep "T") (ReasonCleared "T") readyHistory unblockedFirst finish ∧
      RetriesSpawn unreachablePoll finish.state.store.tasks.values task ∧
      finish.bySpawnFailure = true := by
  have hfinish : (exec (StepSystem.checked (historyStep "T") fun history event =>
      decide (ReasonCleared "T" history event)) readyHistory unblockedFirst).any (fun finish =>
      finish.retries unreachablePoll "T") = true := by decide +kernel
  obtain ⟨finish, hexec, htest⟩ := (Option.any_eq_true _ _).mp hfinish
  have hrun := Run.of_exec (fun _ _ h => of_decide_eq_true h) hexec
  obtain ⟨task, hid, hretries⟩ := retriesSpawn_of_retries htest
  exact ⟨finish, task, hrun, hretries, retried_after_spawnFailure (by decide) hrun hid hretries⟩

end Aof
