import Aof.Proof.DelegationDepth
import Aof.Proof.PollRun

/-!
# Messages as runs

To the tasks of a project the messages are operations of the scheduler, apart from the handoff
request, which gives its task another agent.
-/

namespace Aof

open Command

def MessageOperation : SchedulerOperation → Prop
  | .report .. | .statusUpdate .. => True
  | _ => False

/-- A stored task is given another agent. -/
def Rerouted (before after : Store) : Prop :=
  ∃ id task agent, before.tasks.get? id = some task ∧
    after = before.put { task with routing := { task.routing with agent := some agent } }

def Handled (before after : Store) : Prop :=
  Reaches MessageOperation before after ∨ Rerouted before after

theorem reaches_rejectHandoff (taskId fromAgent : String) (store : Store) :
    Reaches MessageOperation store ((rejectHandoff taskId fromAgent).after store) := by
  have hblock : Reaches MessageOperation store _ :=
    reaches_operation (.statusUpdate taskId .blocked false) trivial store
  simp only [SchedulerOperation.command, handleStatusUpdate, after_eq] at hblock
  rw [after_eq, rejectHandoff]
  cases hget : store.tasks.get? taskId with
  | none =>
      rw [run_bind_of_some (Store.run_get taskId), hget]
      exact refl store
  | some childTask =>
      rw [run_bind_of_some (Store.run_get taskId), hget] at hblock ⊢
      dsimp only at hblock ⊢
      split
      · split
        · exact refl store
        · rename_i hmoves
          obtain ⟨hne, hvalid⟩ := not_or.mp hmoves
          rw [if_neg hne, if_pos (not_not.mp hvalid)] at hblock
          exact hblock
      · exact refl store

theorem handled_handle (cascadeBlocks : Bool) (now : String) (envelope : ProtocolEnvelope)
    (project : ProtocolProject) : Handled project.store
      ((ProtocolProject.handle cascadeBlocks now envelope).after project).store := by
  unfold ProtocolProject.handle
  cases envelope.message with
  | completionReport payload =>
      rw [(mirrors_completionReport envelope payload).after]
      exact .inl (reaches_operation (.report _) trivial _)
  | statusUpdate payload =>
      rw [store_statusUpdate]
      cases payload.status with
      | none => exact .inl (refl _)
      | some targetStatus =>
          exact .inl (reaches_operation (.statusUpdate _ targetStatus _) trivial _)
  | handoffRequest payload =>
      rcases handoffRequest_cases with hsame | ⟨-, childTask, hget, hafter⟩
      · exact .inl (by dsimp only; rw [hsame]; exact refl _)
      · exact .inr ⟨_, childTask, payload.toAgent, hget, congrArg ProtocolProject.store hafter⟩
  | handoffAccepted payload => exact .inl (refl _)
  | handoffRejected payload =>
      exact .inl ((mirrors_onStore _).after project ▸ reaches_rejectHandoff _ _ _)

end Aof
