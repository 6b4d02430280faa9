import Aof.Proof.PollRun

/-!
# The restart of the service

Before its first poll the service takes back what was handed out before.  Only workflows are still
in progress then, with no hop in flight, so that the results of earlier sessions find no task.
-/

namespace Aof

def reclaimHop (hopState : HopState) : HopState :=
  { hopState with
    status := .ready
    agent := none
    correlationId := none
    startedAt := none }

def reclaimHops (state : WorkflowState) : WorkflowState :=
  { state with
    hops := state.hops.objectEntries.foldl
      (fun hops entry =>
        if entry.2.status = .dispatched then hops.set entry.1 (reclaimHop entry.2) else hops)
      state.hops }

/-- One turn of the loop of `reconcileOrphans`. -/
def reconcileOrphan (task : Task) : Command Store Unit :=
  match task.workflow with
  | some workflow =>
      if hasDispatched workflow.state then
        Store.save (task.withWorkflowState (reclaimHops workflow.state))
      else pure ()
  | none => Command.attempt (Store.transition task.id .ready)

def reconcileOrphans : Command Store Unit := do
  let inProgress ← Store.listByStatus .inProgress
  inProgress.forM reconcileOrphan

/-- What becomes of a task in progress. -/
def reclaimed (task : Task) : Task :=
  match task.workflow with
  | some workflow =>
      if hasDispatched workflow.state then task.withWorkflowState (reclaimHops workflow.state)
      else task
  | none => Store.transitioned task .ready

theorem get?_reclaimHops (state : WorkflowState) (hopId : String) :
    (reclaimHops state).hops.get? hopId = (state.hops.get? hopId).map fun hopState =>
      if hopState.status = .dispatched then reclaimHop hopState else hopState := by
  have hfold : (reclaimHops state).hops =
      (state.hops.objectEntries.filter fun entry => entry.2.status = .dispatched).foldl
        (fun hops entry => hops.set entry.1 (reclaimHop entry.2)) state.hops := by
    rw [List.foldl_filter]
    simp [reclaimHops]
  rw [hfold, Dict.get?_foldl_set_latest]
  cases hfind : (List.reverse _).find? fun entry : String × HopState => entry.1 = hopId with
  | some entry =>
      have hmem := List.mem_reverse.mp (List.mem_of_find?_eq_some hfind)
      obtain ⟨hentry, hdispatched⟩ := List.mem_filter.mp hmem
      obtain rfl : entry.1 = hopId := by simpa using List.find?_some hfind
      rw [Dict.mem_objectEntries, ← Dict.get?_eq_some_iff] at hentry
      simp [hentry, of_decide_eq_true hdispatched]
  | none =>
      have hother : ∀ hopState, state.hops.get? hopId = some hopState →
          hopState.status ≠ .dispatched := by
        intro hopState hget hdispatched
        have hnot := List.find?_eq_none.mp hfind (hopId, hopState)
        simp [Dict.mem_objectEntries, ← Dict.get?_eq_some_iff, hget, hdispatched] at hnot
      cases hget : state.hops.get? hopId with
      | none => rfl
      | some hopState => simp [hother hopState hget]

theorem hasDispatched_eq_false {state : WorkflowState} : hasDispatched state = false ↔
    ∀ hopId hopState, state.hops.get? hopId = some hopState → hopState.status ≠ .dispatched := by
  simp only [hasDispatched, List.any_eq_false, decide_eq_true_eq, Dict.mem_values_iff_get?]
  grind

/-- The task is a workflow without a hop in flight. -/
def Task.Rests (task : Task) : Prop :=
  ∃ workflow, task.workflow = some workflow ∧ hasDispatched workflow.state = false

section

variable {task : Task} {store : Store}

theorem rests_reclaimed (hstatus : (reclaimed task).status = .inProgress) :
    (reclaimed task).Rests := by
  unfold reclaimed at hstatus ⊢
  split at hstatus
  · rename_i workflow hworkflow
    split
    · refine ⟨_, withWorkflowState_workflow hworkflow _, hasDispatched_eq_false.mpr ?_⟩
      intro hopId hopState hget
      rw [get?_reclaimHops] at hget
      obtain ⟨before, -, rfl⟩ := Option.map_eq_some_iff.mp hget
      split
      · exact HopStatus.noConfusion
      · assumption
    · exact ⟨workflow, hworkflow, by simpa using ‹¬ hasDispatched workflow.state = true›⟩
  · cases hstatus

theorem does_reconcileOrphan (hstatus : task.status = .inProgress) (runResult : Option RunResult) :
    Does task.id runResult task (reconcileOrphan task) (some ()) (reclaimed task) := by
  unfold reconcileOrphan reclaimed
  split
  · split
    · exact does_save rfl
    · exact does_pure ()
  · have hready : Does task.id runResult task (Store.transition task.id .ready) _ _ :=
      does_transition .ready
    rw [moved_valid (by rw [hstatus]; rfl) (by rw [hstatus]; decide)] at hready
    exact hready.attempt

theorem only_reconcileOrphan (task : Task) (store : Store) :
    Command.Relates (Only task.id) (reconcileOrphan task) store := by
  unfold reconcileOrphan
  split
  · split
    · exact only_save rfl
    · exact .pure () store
  · exact (only_transition .ready).attempt

theorem after_scan_of_rests {body : Task → Command Store Unit}
    (hrests : ∀ id task, store.tasks.get? id = some task → task.status = .inProgress → task.Rests)
    (hbody : ∀ task, task.Rests → (body task).run store = (some (), store)) :
    (do let tasks ← Store.listByStatus .inProgress
        tasks.forM body : Command Store Unit).after store = store := by
  have hall : ∀ tasks : List Task, (∀ task ∈ tasks, task.Rests) →
      (tasks.forM body).run store = (some (), store) := by
    intro tasks hscanned
    induction tasks with
    | nil => rfl
    | cons task rest ih =>
        rw [← ih fun other hother => hscanned other (List.mem_cons_of_mem _ hother)]
        exact Command.run_bind_of_some (hbody task (hscanned task List.mem_cons_self))
  refine congrArg Prod.snd (hall _ fun task htask => ?_)
  obtain ⟨hget, hstatus⟩ := (withStatus_stored store .inProgress).2 task htask
  exact hrests _ task hget hstatus

theorem run_visitSession_of_rests (hrests : task.Rests) (executor : Option SpawnResult)
    (timestamp : String) : (visitSession task executor timestamp).run store = (some (), store) := by
  obtain ⟨workflow, hworkflow, hquiet⟩ := hrests
  have hfind : findDispatchedHop workflow = none := by
    rw [findDispatchedHop, Option.map_eq_none_iff, List.find?_eq_none]
    intro entry hentry
    rw [Dict.mem_objectEntries, ← Dict.get?_eq_some_iff] at hentry
    simpa using hasDispatched_eq_false.mp hquiet _ _ hentry
  rw [visitSession, Command.run_bind_of_some (Store.run_readRunResult task.id)]
  cases (store.tasks.get? task.id).bind fun _ => store.runResults.get? task.id with
  | none => rfl
  | some runResult =>
      dsimp only
      rw [hworkflow, completeDAGSession, handleDAGHopCompletion, hworkflow, Option.bind_some, hfind]
      rfl

end

end Aof
