import Aof.Proof.OrdinaryChanges
import Aof.Proof.PlanExecutable

/-!
# Polls and session ends as runs

A poll that nothing interrupts is a run of the scheduler, and so is the end of a session.
-/

namespace Aof

open StepSystem (exec exec_append exec_cons exec_nil)

theorem admits_nudges (taskId : String) : Admits (Nudges taskId) fun id => id = taskId where
  put store old new _ _ hown := Only.nudges (only_put hown)
  create store task _ _ hown := Only.nudges (only_put hown)
  result store id result hown := by
    constructor
    · exact fun _ task _ hget => ⟨task, hget, .inl rfl⟩
    · intro other hne
      have hother : id ≠ other := fun h => hne (h.symm.trans hown)
      exact Dict.get?_set_of_ne _ result hother
  cascade completedTaskId store _ := nudges_cascadeOnCompletion completedTaskId

/-- Operations of one kind lead from the one store to the other. -/
def Reaches (kind : SchedulerOperation → Prop) (before after : Store) : Prop :=
  ∃ operations : List SchedulerOperation, (∀ operation ∈ operations, kind operation) ∧ ∀ planned,
    exec schedulerStep ⟨before, planned⟩ (operations.map .operate) = some ⟨after, planned⟩

variable {kind : SchedulerOperation → Prop}

instance : IsPreorder Store (Reaches kind) where
  refl _ := ⟨[], by simp, fun _ => rfl⟩
  trans _ _ _ := by
    rintro ⟨first, hkind, hfirst⟩ ⟨second, hkind', hsecond⟩
    refine ⟨first ++ second, List.forall_mem_append.mpr ⟨hkind, hkind'⟩, fun planned => ?_⟩
    rw [List.map_append, exec_append, hfirst planned, Option.bind_some, hsecond planned]

theorem reaches_operation (operation : SchedulerOperation) (hkind : kind operation)
    (store : Store) : Reaches kind store (operation.command.after store) :=
  ⟨[operation], by simpa using hkind, fun _ => rfl⟩

def PollOperation : SchedulerOperation → Prop
  | .hopTimeouts .. | .hopDispatch .. | .review .. => True
  | _ => False

section

variable {store : Store} {tasks : List Task} {body : Task → Command Store Unit}

theorem reaches_scanned (hnodup : (tasks.map Task.id).Nodup)
    (hstored : ∀ task ∈ tasks, store.tasks.get? task.id = some task ∧ task.status = .inProgress)
    (hbody : ∀ task s, s.tasks.get? task.id = some task → task.status = .inProgress →
      Reaches kind s ((body task).after s) ∧ Nudges task.id s ((body task).after s)) :
    Command.Relates (Reaches kind) (tasks.forM body) store := by
  induction tasks generalizing store with
  | nil => exact .pure () store
  | cons task rest ih =>
      obtain ⟨hnew, hnodup⟩ := List.nodup_cons.mp hnodup
      obtain ⟨hget, hstatus⟩ := hstored task List.mem_cons_self
      obtain ⟨hreaches, hnudges⟩ := hbody task store hget hstatus
      have hfirst : Command.Relates (Reaches kind) (body task) store := hreaches
      refine hfirst.bind fun _ t hrun => ih hnodup fun other hother => ?_
      obtain ⟨hother', hactive⟩ := hstored other (List.mem_cons_of_mem _ hother)
      have hne : other.id ≠ task.id := fun h => hnew (h ▸ List.mem_map_of_mem hother)
      obtain ⟨next, hnext, hnudged⟩ := hnudges.tasks other.id other hne hother'
      rw [Command.after_eq, hrun] at hnext
      rcases hnudged with rfl | ⟨hwaits, -⟩
      · exact ⟨hnext, hactive⟩
      · rw [hactive] at hwaits
        rcases hwaits with h | h <;> cases h

end

theorem reaches_checkHopTimeouts (input : PollInput) (store : Store) :
    Command.Relates (Reaches PollOperation) (checkHopTimeouts input) store := by
  refine Command.Relates.bind (refl_of (Reaches PollOperation) store) fun tasks t hrun => ?_
  cases hrun
  obtain ⟨hnodup, hstored⟩ := withStatus_stored store .inProgress
  apply reaches_scanned hnodup hstored
  intro task s hget hstatus
  have hturn : (checkTaskTimeouts input task.id).after s = ((do
      let _ ← ((task.workflow.map fun workflow => workflow.definition.hops).getD []).foldlM
        (checkHopTimeout input) task) : Command Store Unit).after s := by
    rw [checkTaskTimeouts, after_get_some hget]
    dsimp only
    rw [if_pos hstatus]
  rw [← hturn]
  exact ⟨reaches_operation (.hopTimeouts input task.id) trivial s,
    (admits_nudges task.id).checkTaskTimeouts rfl input⟩

theorem reaches_dispatchReadyHops (input : PollInput) (allTasks : List Task) (store : Store) :
    Command.Relates (Reaches PollOperation) (dispatchReadyHops input allTasks) store := by
  unfold dispatchReadyHops
  split
  · rename_i spawn _ _
    refine .forM allTasks (fun task _ s => ?_) store
    split
    · rename_i hopId _
      exact Command.Relates.attempt (reaches_operation
        (.hopDispatch task.id hopId (spawn task.id) input.timestamp) trivial s)
    · exact .pure () s
  · exact .pure () store

theorem reaches_rest (input : PollInput) (allTasks : List Task) (actionsExecuted : Nat)
    (store : Store) :
    Command.Relates (Reaches PollOperation) (do
      dispatchReadyHops input allTasks
      let inProgress ← currentInProgress allTasks actionsExecuted
      input.reviews.forM (evaluateMurmurTrigger input inProgress)) store := by
  refine (reaches_dispatchReadyHops input allTasks store).bind fun _ t _ => ?_
  have hcount : Command.Relates (Reaches PollOperation)
      (currentInProgress allTasks actionsExecuted) t := by
    unfold currentInProgress
    split
    · exact refl_of (Reaches PollOperation) t
    · exact .pure _ t
  refine hcount.bind fun inProgress u _ => ?_
  refine .forM input.reviews (fun review _ s => ?_) u
  exact reaches_operation (.review input inProgress review) trivial s

theorem exec_executeInOrder (actions : List SchedulerAction) (store : Store) :
    ∃ executed t, (executeInOrder actions).run store = (some executed, t) ∧
      exec schedulerStep ⟨store, actions⟩ (actions.map fun _ => .execute {}) = some ⟨t, []⟩ := by
  induction actions generalizing store with
  | nil => exact ⟨0, store, rfl, rfl⟩
  | cons action rest ih =>
      obtain ⟨executed, t, hrun, hexec⟩ := ih ((action.handler {}).after store)
      have hfirst : (executeAction action).run store =
          (some (), (action.handler {}).after store) := by
        rw [executeAction_eq]
        rfl
      refine ⟨if executes store action then executed + 1 else executed, t, ?_, hexec⟩
      rw [executeInOrder, Command.run_bind_of_some (Command.run_read store),
        Command.run_bind_of_some hfirst, Command.run_bind_of_some hrun]
      rfl

theorem checkHopTimeout_returns (input : PollInput) {task : Task} (hworkflow : task.workflow.isSome)
    (hop : Hop) (store : Store) : ∃ changed t,
      (checkHopTimeout input task hop).run store = (some changed, t) ∧ changed.workflow.isSome := by
  unfold checkHopTimeout
  split
  swap
  · exact ⟨task, store, rfl, hworkflow⟩
  obtain ⟨workflow, hsome⟩ := Option.isSome_iff_exists.mp hworkflow
  unfold escalateHopTimeout
  rw [hsome]
  dsimp only
  split
  · split
    · exact ⟨task, store, rfl, hworkflow⟩
    · exact ⟨_, _, rfl, (withWorkflowState_isSome task _).trans hworkflow⟩
  · exact ⟨task, store, rfl, hworkflow⟩

theorem foldlM_checkHopTimeout_returns (input : PollInput) {task : Task}
    (hworkflow : task.workflow.isSome) (hops : List Hop) (store : Store) :
    ((hops.foldlM (checkHopTimeout input) task).run store).1.isSome := by
  induction hops generalizing task store with
  | nil => rfl
  | cons hop rest ih =>
      obtain ⟨changed, t, hrun, hchanged⟩ := checkHopTimeout_returns input hworkflow hop store
      rw [List.foldlM_cons, Command.run_bind_of_some hrun]
      exact ih hchanged t

theorem forM_returns {body : Task → Command Store Unit}
    (hbody : ∀ task s, ((body task).run s).1.isSome) (tasks : List Task) (store : Store) :
    ((tasks.forM body).run store).1.isSome := by
  induction tasks generalizing store with
  | nil => rfl
  | cons task rest ih =>
      have hfirst := hbody task store
      show ((body task >>= fun _ => rest.forM body).run store).1.isSome
      match hrun : (body task).run store with
      | (some value, t) =>
          rw [Command.run_bind_of_some hrun]
          exact ih t
      | (none, t) =>
          rw [hrun] at hfirst
          cases hfirst

theorem checkHopTimeouts_returns (input : PollInput) (store : Store) :
    ((checkHopTimeouts input).run store).1.isSome := by
  refine forM_returns (fun task s => ?_) _ store
  cases hworkflow : task.workflow with
  | none => rfl
  | some workflow =>
      have hsome : task.workflow.isSome := by
        rw [hworkflow]
        rfl
      have hreturns := foldlM_checkHopTimeout_returns input hsome workflow.definition.hops s
      have hturn : ∀ {command : Command Store Task}, (command.run s).1.isSome →
          ((do let _ ← command : Command Store Unit).run s).1.isSome := by
        intro command h
        rw [Command.run_bind]
        match hrun : command.run s with
        | (some changed, t) => rfl
        | (none, t) =>
            rw [hrun] at h
            cases h
      exact hturn hreturns

end Aof
