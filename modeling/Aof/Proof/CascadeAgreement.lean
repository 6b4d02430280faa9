import Aof.Proof.OneTask

/-!
# The cascade and the poll

The completion of a task wakes its dependents at once, and so does the next poll.  The poll asks for
more: that the subtasks are done, that somebody is named for the work, and that a failed spawn has
been waited out.
-/

namespace Aof

section

variable {input : PollInput} {store : Store} {completedTaskId : String} {task : Task}

def Wakes (completedTaskId : String) (store : Store) (task : Task) : Prop :=
  (((cascadeOnCompletion completedTaskId).after store).tasks.get? task.id).map Task.status =
    some .ready

def PlansReady (input : PollInput) (allTasks : List Task) (task : Task) : Prop :=
  task.status = .backlog ∧ .promote task.id ∈ checkBacklogPromotion input allTasks ∨
    task.status = .blocked ∧ .requeue task.id ∈ checkBlockedTaskRecovery input allTasks

def childrenDone (allTasks : List Task) (task : Task) : Bool :=
  (childrenOf allTasks task.id).all fun child => child.status = .done

/-- A dependent in backlog passes the other gates of a promotion if its dependencies are done; one
that failed to spawn may try again just when they are; any other has no unfinished subtask if they
are. -/
def GatesAgree (input : PollInput) (allTasks : List Task) (task : Task) : Prop :=
  if task.status = .backlog then
    allDependenciesDone allTasks task →
      childrenDone allTasks task ∧ hasTarget task.routing ∧
        Store.leaseActive task.lease input.now = false
  else if task.spawnFailed then
    allDependenciesDone allTasks task ↔
      shouldAllowSpawnFailedRequeue task input.maxRetries (input.backoffElapsed task.id) = .allow
  else allDependenciesDone allTasks task → childrenDone allTasks task

variable {other : Task} {allTasks : List Task}

theorem eq_of_id (htask : task ∈ store.tasks.values) (hother : other ∈ store.tasks.values)
    (hid : other.id = task.id) : other = task := by
  rw [mem_list_iff] at htask hother
  rw [hid, htask] at hother
  exact (Option.some.inj hother).symm

theorem wakes_iff (hdependent : task ∈ completionDependents completedTaskId store.tasks.values) :
    Wakes completedTaskId store task ↔ allDependenciesDone store.tasks.values task := by
  obtain ⟨hmem, hdepends, hwaits⟩ := mem_completionDependents.mp hdependent
  have hcascade := (run_cascadeOnCompletion completedTaskId store).2.1 task.id
  rw [Wakes, Command.after_eq, hcascade, mem_list_iff.mp hmem, Option.map_some, Option.map_some,
    Option.some.injEq, Task.cascaded]
  have hwoken : task.wokenBy completedTaskId store.tasks.values =
      allDependenciesDone store.tasks.values task := by
    simp [Task.wokenBy, hdepends, hwaits]
  rw [hwoken]
  by_cases hdeps : allDependenciesDone store.tasks.values task = true
  · rw [if_pos hdeps]
    exact ⟨fun _ => hdeps, fun _ => rfl⟩
  · rw [if_neg hdeps]
    refine ⟨fun hready => ?_, fun h => absurd h hdeps⟩
    rcases hwaits with hstatus | hstatus <;> rw [hstatus] at hready <;> cases hready

theorem promote_mem_iff (htask : task ∈ store.tasks.values) (hstatus : task.status = .backlog) :
    .promote task.id ∈ checkBacklogPromotion input store.tasks.values ↔
      checkPromotionEligibility store.tasks.values input.now task := by
  rw [checkBacklogPromotion, List.mem_map]
  constructor
  · rintro ⟨other, hother, haction⟩
    obtain ⟨hmem, heligible⟩ := List.mem_filter.mp hother
    have hsame : other = task :=
      eq_of_id htask (mem_withStatus.mp hmem).1 (SchedulerAction.promote.inj haction)
    exact hsame ▸ heligible
  · exact fun heligible =>
      ⟨task, List.mem_filter.mpr ⟨mem_withStatus.mpr ⟨htask, hstatus⟩, heligible⟩, rfl⟩

theorem id_of_recoverBlocked {id : String}
    (hrecover : recoverBlocked input allTasks other = some (.requeue id)) : other.id = id := by
  simp only [recoverBlocked] at hrecover
  split at hrecover
  · split at hrecover
    · exact SchedulerAction.requeue.inj (Option.some.inj hrecover)
    · cases hrecover
    · cases hrecover
  · split at hrecover
    · cases hrecover
    · split at hrecover
      · exact SchedulerAction.requeue.inj (Option.some.inj hrecover)
      · cases hrecover

theorem requeue_mem_iff (htask : task ∈ store.tasks.values) (hstatus : task.status = .blocked) :
    .requeue task.id ∈ checkBlockedTaskRecovery input store.tasks.values ↔
      recoverBlocked input store.tasks.values task = some (.requeue task.id) := by
  rw [checkBlockedTaskRecovery, List.mem_filterMap]
  constructor
  · rintro ⟨other, hother, hrecover⟩
    have hsame : other = task :=
      eq_of_id htask (mem_withStatus.mp hother).1 (id_of_recoverBlocked hrecover)
    exact hsame ▸ hrecover
  · exact fun hrecover => ⟨task, mem_withStatus.mpr ⟨htask, hstatus⟩, hrecover⟩

theorem recoverBlocked_eq_requeue_iff (hdepends : completedTaskId ∈ task.dependsOn) :
    recoverBlocked input allTasks task = some (.requeue task.id) ↔
      if task.spawnFailed then
        shouldAllowSpawnFailedRequeue task input.maxRetries (input.backoffElapsed task.id) = .allow
      else allDependenciesDone allTasks task ∧ childrenDone allTasks task := by
  have hgate : ¬(task.dependsOn = [] ∧ childrenOf allTasks task.id = []) := by
    rintro ⟨hnil, -⟩
    rw [hnil] at hdepends
    cases hdepends
  unfold recoverBlocked Task.spawnFailed childrenDone
  by_cases hspawn :
      (task.metadata.blockReason.any fun reason => includes reason "spawn_failed") = true
  · rw [if_pos hspawn, if_pos hspawn]
    cases shouldAllowSpawnFailedRequeue task input.maxRetries (input.backoffElapsed task.id) <;>
      simp
  · rw [if_neg hspawn, if_neg hspawn, if_neg hgate]
    split <;> simp_all

theorem wakes_iff_plansReady_iff
    (hdependent : task ∈ completionDependents completedTaskId store.tasks.values) :
    (Wakes completedTaskId store task ↔ PlansReady input store.tasks.values task) ↔
      GatesAgree input store.tasks.values task := by
  obtain ⟨hmem, hdepends, hwaits⟩ := mem_completionDependents.mp hdependent
  rw [wakes_iff hdependent, PlansReady, GatesAgree]
  rcases hwaits with hstatus | hstatus
  · rw [promote_mem_iff hmem hstatus, if_pos hstatus]
    simp only [hstatus, true_and, reduceCtorEq, false_and, or_false, checkPromotionEligibility,
      childrenDone, Bool.and_eq_true, Bool.not_eq_true']
    tauto
  · rw [requeue_mem_iff hmem hstatus, recoverBlocked_eq_requeue_iff hdepends,
      if_neg (show task.status ≠ .backlog by rw [hstatus]; decide)]
    simp only [hstatus, true_and, reduceCtorEq, false_and, false_or]
    split
    · rfl
    · tauto

/-- The completion of a task wakes just the dependents that a poll would wake, if and only if the
gates agree for each of them. -/
theorem cascade_agrees_iff (input : PollInput) (store : Store) (completedTaskId : String) :
    (∀ task ∈ completionDependents completedTaskId store.tasks.values,
      (Wakes completedTaskId store task ↔ PlansReady input store.tasks.values task)) ↔
    ∀ task ∈ completionDependents completedTaskId store.tasks.values,
      GatesAgree input store.tasks.values task :=
  forall₂_congr fun _ hdependent => wakes_iff_plansReady_iff hdependent

end

def completedTask : Task := { id := "A", status := .done }

def unroutedDependent : Task := { id := "B", status := .backlog, dependsOn := ["A"] }

/-- The completion of the first task starts the second one, which no poll promotes: it has no
routing target. -/
theorem cascade_starts_unrouted : ¬ ∀ input store completedTaskId,
    ∀ task ∈ completionDependents completedTaskId store.tasks.values,
      (Wakes completedTaskId store task ↔ PlansReady input store.tasks.values task) := by
  intro hagree
  have hmem : unroutedDependent ∈ completionDependents "A"
      (Store.ofTasks [completedTask, unroutedDependent]).tasks.values := by
    rw [mem_completionDependents]
    exact ⟨mem_list_iff.mpr rfl, by decide, .inl rfl⟩
  have hgates := (wakes_iff_plansReady_iff hmem).mp (hagree { config := {} } _ "A" _ hmem)
  rw [GatesAgree, if_pos (show unroutedDependent.status = .backlog from rfl)] at hgates
  exact absurd (hgates rfl).2.1 (by decide)

end Aof
