import Aof.Proof.OrdinaryChanges

/-!
# What becomes of a task

No task is lost, and none changes but in what the scheduler is there to change: its status, its
lease, its metadata and the state of its workflow.  Its status moves along the transition table; the
one move beside the table is the cancellation of a dead letter.
-/

namespace Aof

open Relation (ReflTransGen)
open StepSystem (FreeRun)

def StatusMove (source target : TaskStatus) : Prop :=
  isValidTransition source target = true ∨ source = .deadletter ∧ target = .cancelled

/-- What stays of a task. -/
def Task.fixed (task : Task) : Task × Option WorkflowDefinition :=
  ({ task with status := .backlog, lease := none, metadata := {}, workflow := none },
    task.workflow.map TaskWorkflow.definition)

structure Task.EvolvesTo (old new : Task) : Prop where
  fixed : new.fixed = old.fixed
  status : ReflTransGen StatusMove old.status new.status

def Evolves (before after : Store) : Prop :=
  ∀ id old, before.tasks.get? id = some old →
    ∃ new, after.tasks.get? id = some new ∧ old.EvolvesTo new

theorem evolvesTo_refl (task : Task) : task.EvolvesTo task := ⟨rfl, .refl⟩

instance : IsPreorder Store Evolves where
  refl _ _ old hget := ⟨old, hget, evolvesTo_refl old⟩
  trans _ _ _ hab hbc id old hget := by
    obtain ⟨middle, hmiddle, hfirst⟩ := hab id old hget
    obtain ⟨new, hnew, hsecond⟩ := hbc id middle hmiddle
    exact ⟨new, hnew, hsecond.fixed.trans hfirst.fixed, hfirst.status.trans hsecond.status⟩

section

variable {store : Store} {taskId : String} {old new task : Task}

theorem evolves_put (hget : store.tasks.get? new.id = some old) (hnew : old.EvolvesTo new) :
    Evolves store (store.put new) := by
  intro id task htask
  rw [Store.tasks_put]
  split
  · rename_i hid
    rw [← hid, hget] at htask
    obtain rfl := Option.some.inj htask
    exact ⟨new, rfl, hnew⟩
  · exact ⟨task, htask, evolvesTo_refl task⟩

theorem evolves_of_map {after : Store} {change : Task → Task}
    (hafter : ∀ id, after.tasks.get? id = (store.tasks.get? id).map change)
    (hchange : ∀ task : Task, task.EvolvesTo (change task)) : Evolves store after := by
  intro id task hget
  rw [hafter, hget]
  exact ⟨change task, rfl, hchange task⟩

theorem Ordinary.evolvesTo (hordinary : Ordinary old new) : old.EvolvesTo new := by
  cases hordinary with
  | transition hvalid => exact ⟨rfl, .single (.inl hvalid)⟩
  | workflow state =>
      refine ⟨?_, .refl⟩
      unfold Task.fixed Task.withWorkflowState
      cases old.workflow <;> rfl
  | _ => exact ⟨rfl, .refl⟩

theorem evolvesTo_cascaded (task : Task) (completedTaskId : String) (allTasks : List Task) :
    task.EvolvesTo (task.cascaded completedTaskId allTasks) := by
  unfold Task.cascaded
  split
  · rename_i hwoken
    refine (Ordinary.transition ?_).evolvesTo
    obtain ⟨-, hstatus | hstatus, -⟩ := of_decide_eq_true hwoken <;> rw [hstatus] <;> rfl
  · exact evolvesTo_refl task

theorem evolvesTo_upstreamBlocked (task : Task) (blockedTaskId : String) :
    task.EvolvesTo (task.upstreamBlocked blockedTaskId) := by
  unfold Task.upstreamBlocked
  split
  · rename_i hwaits
    refine ⟨rfl, .single (.inl ?_)⟩
    obtain ⟨-, hstatus | hstatus⟩ := hwaits <;> rw [hstatus] <;> rfl
  · exact evolvesTo_refl task

theorem admits_evolves : Admits Evolves fun _ => True where
  put _ _ _ hget hordinary _ := evolves_put hget hordinary.evolvesTo
  create store task hnone _ _ := by
    intro id old hget
    rw [Store.tasks_put, if_neg]
    · exact ⟨old, hget, evolvesTo_refl old⟩
    · rintro rfl
      rw [hnone] at hget
      cases hget
  result store _ _ _ := refl_of Evolves store
  cascade completedTaskId store _ :=
    evolves_of_map (run_cascadeOnCompletion completedTaskId store).2.1
      fun task => evolvesTo_cascaded task completedTaskId store.tasks.values

/-- A change to the task that was read, apart from those that every command makes. -/
theorem evolves_save (hget : store.tasks.get? taskId = some task) (hnew : task.EvolvesTo new)
    (hid : new.id = task.id) : Command.Relates Evolves (Store.save new) store := by
  apply evolves_put _ hnew
  rw [hid, store.keyed taskId task hget, hget]

theorem evolves_block (reason : String) :
    Command.Relates Evolves (Store.block taskId reason) store := by
  apply relates_get_then
  · exact fun _ => .throw store
  intro task hget _
  dsimp only
  split
  · exact .throw store
  · refine Command.Relates.bind (evolves_save hget ⟨rfl, .refl⟩ rfl) fun _ t _ => ?_
    exact admits_evolves.transition_then trivial .blocked

theorem evolves_unblock : Command.Relates Evolves (Store.unblock taskId) store := by
  apply relates_get_then
  · exact fun _ => .throw store
  intro task hget _
  dsimp only
  split
  · exact .throw store
  · refine Command.Relates.bind (evolves_save hget ⟨rfl, .refl⟩ rfl) fun _ t _ => ?_
    exact admits_evolves.transition_then trivial .ready

theorem evolves_cancel : Command.Relates Evolves (Store.cancel taskId) store := by
  apply relates_get_then
  · exact fun _ => .throw store
  intro task hget _
  dsimp only
  split
  · exact .throw store
  · rename_i hopen
    refine evolves_save hget ⟨rfl, .single ?_⟩ rfl
    show isValidTransition task.status .cancelled = true ∨ task.status = .deadletter ∧ _
    revert hopen
    cases task.status <;> simp [isValidTransition, VALID_TRANSITIONS]

theorem evolves_statusUpdate (targetStatus : TaskStatus) (cascadeBlocks : Bool) :
    Command.Relates Evolves (handleStatusUpdate taskId targetStatus cascadeBlocks) store := by
  apply relates_get_then
  · exact fun _ => .pure () store
  intro task _ _
  dsimp only
  split
  · exact .pure () store
  split
  swap
  · exact .pure () store
  refine (admits_evolves.transition trivial targetStatus).bind fun _ t _ => ?_
  split
  · exact evolves_of_map (run_cascadeOnBlock taskId t).2.1
      fun task => evolvesTo_upstreamBlocked task taskId
  · exact .pure () t

theorem evolves_step {state next : SchedulerState} {event : SchedulerEvent}
    (hstep : schedulerStep state event = some next) : Evolves state.store next.store := by
  cases event with
  | plan input =>
      obtain ⟨-, hnext⟩ := Option.ite_none_right_eq_some.mp hstep
      cases hnext
      exact refl_of Evolves state.store
  | execute conduct =>
      obtain ⟨store, planned⟩ := state
      cases planned with
      | nil => cases hstep
      | cons action rest =>
          cases hstep
          refine admits_evolves.handler trivial fun error _ t => ?_
          apply relates_get_then
          · exact fun _ => .pure () t
          · exact fun task hget _ => evolves_save hget ⟨rfl, .refl⟩ rfl
  | operate operation =>
      cases hstep
      show Command.Relates Evolves operation.command state.store
      cases operation with
      | block taskId reason => exact evolves_block reason
      | unblock taskId => exact evolves_unblock
      | cancel taskId => exact evolves_cancel
      | statusUpdate taskId targetStatus cascadeBlocks =>
          exact evolves_statusUpdate targetStatus cascadeBlocks
      | _ => exact admits_evolves.operate trivial rfl

end

def deadStore : Store := .ofTasks [{ id := "T", status := .deadletter }]

end Aof
