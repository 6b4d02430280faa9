import Aof.Dispatch.Scheduler
import Aof.Proof.CompletionPaths

/-!
# Where work starts

Which tasks an operation puts to work: the scheduler's assignments and reviews do, and no other
action, callback or completion.
-/

namespace Aof

/-- What becomes of the task under an id: its resource stays, it is put to work only if it is among
the started or, when it is new, the created ones, and a task at work is left alone unless it is
free. -/
inductive TaskStarts (started created : List String) (free : String → Prop) (id : String) :
    Option Task → Option Task → Prop
  | absent : TaskStarts started created free id none none
  | created {task : Task} (hresource : task.resource = none)
      (hstarted : task.status = .inProgress → id ∈ started ∨ id ∈ created) :
      TaskStarts started created free id none (some task)
  | kept {old task : Task} (hresource : task.resource = old.resource)
      (hstarted : task.status = .inProgress → old.status = .inProgress ∨ id ∈ started)
      (hfree : old.status = .inProgress → free id ∨ task = old) :
      TaskStarts started created free id (some old) (some task)

def Starts (started created : List String) (free : String → Prop) (before after : Store) : Prop :=
  ∀ id, TaskStarts started created free id (before.tasks.get? id) (after.tasks.get? id)

theorem TaskStarts.refl (started created : List String) (free : String → Prop) (id : String)
    (task : Option Task) : TaskStarts started created free id task task := by
  cases task with
  | none => exact .absent
  | some task => exact .kept rfl .inl fun _ => .inr rfl

variable {started created : List String} {free : String → Prop} {id : String} {a b : Option Task}

theorem TaskStarts.trans {c : Option Task} (hab : TaskStarts started created free id a b)
    (hbc : TaskStarts started created free id b c) : TaskStarts started created free id a c := by
  cases hab with
  | absent => exact hbc
  | created hresource hstarted =>
      cases hbc with
      | kept hresource' hstarted' hfree' =>
          refine .created (hresource'.trans hresource) fun hstatus => ?_
          exact (hstarted' hstatus).elim hstarted .inl
  | kept hresource hstarted hfree =>
      cases hbc with
      | kept hresource' hstarted' hfree' =>
          refine .kept (hresource'.trans hresource) ?_ ?_
          · intro hstatus
            exact (hstarted' hstatus).elim hstarted .inr
          · intro hstatus
            rcases hfree hstatus with hid | rfl
            · exact .inl hid
            · exact hfree' hstatus

instance (started created : List String) (free : String → Prop) :
    IsPreorder Store (Starts started created free) where
  refl _ id := TaskStarts.refl started created free id _
  trans _ _ _ hab hbc id := (hab id).trans (hbc id)

theorem TaskStarts.mono {started' created' : List String} {free' : String → Prop}
    (h : TaskStarts started created free id a b) (hstarted : ∀ id ∈ started, id ∈ started')
    (hcreated : ∀ id ∈ created, id ∈ created') (hfree : ∀ id, free id → free' id) :
    TaskStarts started' created' free' id a b := by
  cases h with
  | absent => exact .absent
  | created hresource h =>
      exact .created hresource fun hstatus => (h hstatus).imp (hstarted id) (hcreated id)
  | kept hresource h hf =>
      exact .kept hresource (fun hstatus => (h hstatus).imp_right (hstarted id)) fun hstatus =>
        (hf hstatus).imp_left (hfree id)

def Idle (store : Store) (id : String) : Prop :=
  ∀ task, store.tasks.get? id = some task → task.status ≠ .inProgress

theorem Starts.idle {before after : Store} (hstarts : Starts [] [] free before after)
    (hidle : Idle before id) : Idle after id := by
  intro task hget hstatus
  have h := hstarts id
  rw [hget] at h
  generalize hbefore : before.tasks.get? id = old at h
  cases h with
  | created _ hstarted => exact ((hstarted hstatus).elim List.not_mem_nil List.not_mem_nil).elim
  | kept _ hstarted _ => exact hidle _ hbefore ((hstarted hstatus).resolve_right List.not_mem_nil)

section Operations

variable {started created : List String} {free : String → Prop} {store : Store}

variable {task : Task} {α : Type} {id taskId : String} {newStatus : TaskStatus}

theorem starts_put (old : Task) (hget : store.tasks.get? task.id = some old)
    (hresource : task.resource = old.resource)
    (hstarted : task.status = .inProgress → old.status = .inProgress ∨ task.id ∈ started)
    (hfree : old.status = .inProgress → free task.id) :
    Starts started created free store (store.put task) := by
  intro id
  rw [Store.tasks_put]
  split
  · rename_i heq
    subst heq
    rw [hget]
    exact .kept hresource hstarted fun hstatus => .inl (hfree hstatus)
  · exact TaskStarts.refl started created free id _

theorem starts_get {next : Option Task → Command Store α}
    (hnext : Command.Relates (Starts started created free) (next (store.tasks.get? id)) store) :
    Command.Relates (Starts started created free) (Store.get id >>= next) store := hnext

theorem starts_list {next : List Task → Command Store α}
    (hnext : Command.Relates (Starts started created free) (next store.tasks.values) store) :
    Command.Relates (Starts started created free) (Store.list >>= next) store := hnext

theorem starts_save {old : Task} (hget : store.tasks.get? id = some old) (hid : task.id = old.id)
    (hstatus : task.status = old.status) (hresource : task.resource = old.resource)
    (hfree : free id) : Command.Relates (Starts started created free) (Store.save task) store := by
  have hold := store.keyed id old hget
  refine starts_put old (by rwa [hid, hold]) hresource ?_ fun _ => ?_
  · intro h
    exact .inl (hstatus ▸ h)
  · rwa [hid, hold]

theorem starts_patch {change : Task → Task}
    (hchange : ∀ task, (change task).id = task.id ∧ (change task).status = task.status ∧
      (change task).resource = task.resource) (hfree : free id) :
    Command.Relates (Starts started created free) (Store.patch id change) store := by
  refine starts_get ?_
  split
  · exact .pure () store
  · rename_i task hget
    obtain ⟨hid, hstatus, hresource⟩ := hchange task
    exact starts_save hget hid hstatus hresource hfree

section

variable (hstarted : newStatus = .inProgress → id ∈ started) (hfree : free id ∨ Idle store id)
include hstarted hfree

theorem starts_transition :
    Command.Relates (Starts started created free) (Store.transition id newStatus) store := by
  unfold Command.Relates
  rcases Store.transition_cases store id newStatus with hsame | ⟨task, hget, -, -, hrun⟩
  · rw [hsame]
    exact refl_of (Starts started created free) store
  · rw [hrun]
    have hid : (Store.transitioned task newStatus).id = id := store.keyed id task hget
    refine starts_put task (by rwa [hid]) rfl ?_ ?_
    · intro hstatus
      rw [hid]
      exact .inr (hstarted hstatus)
    · intro hstatus
      rw [hid]
      exact hfree.resolve_right fun hidle => hidle task hget hstatus

theorem starts_transition_then :
    Command.Relates (Starts started created free) (do let _ ← Store.transition id newStatus)
      store :=
  (starts_transition hstarted hfree).bind fun _ _ _ => .pure () _

end

theorem starts_cascadeOnCompletion (completedTaskId : String) :
    Command.Relates (Starts [] [] free) (cascadeOnCompletion completedTaskId) store := by
  refine starts_list ?_
  apply Command.Relates.forM_from
  intro dependent hmem t hstarts
  split
  · refine starts_transition_then (by simp) (.inr (hstarts.idle ?_))
    intro task hget hstatus
    obtain ⟨hlisted, hwaits⟩ := List.mem_filter.mp hmem
    obtain ⟨id, hid⟩ := Dict.mem_values_iff_get?.mp hlisted
    rw [store.keyed id dependent hid, hid, Option.some.injEq] at hget
    subst hget
    simp [hstatus] at hwaits
  · exact .pure () t

theorem starts_transitionToDeadletter (hfree : free taskId) :
    Command.Relates (Starts started created free) (transitionToDeadletter taskId) store := by
  refine starts_get ?_
  split
  · exact .throw store
  · exact starts_transition_then nofun (.inl hfree)

theorem starts_trackDispatchFailure (hfree : free taskId) :
    Command.Relates (Starts started created free) (trackDispatchFailure taskId) store := by
  refine starts_get ?_
  split
  · exact .throw store
  · rename_i task hget
    exact starts_save hget rfl rfl rfl hfree

theorem starts_handleExpireLease (hfree : free taskId) (allTasks : List Task) (maxRetries : Nat)
    (backoffElapsed : Bool) : Command.Relates (Starts started created free)
      (handleExpireLease taskId allTasks maxRetries backoffElapsed) store := by
  have hready : ∀ t, Command.Relates (Starts started created free)
      (do let _ ← Store.transition taskId .ready) t :=
    fun _ => starts_transition_then nofun (.inl hfree)
  refine starts_get ?_
  split
  · exact .pure () store
  · rename_i task hget
    refine Command.Relates.bind (starts_save hget rfl rfl rfl hfree) fun _ t _ => ?_
    split
    · split
      · split
        · exact starts_transitionToDeadletter hfree
        · exact hready t
        · exact .pure () t
      · split
        · exact hready t
        · exact .pure () t
    · exact hready t

theorem starts_handleRequeue (hfree : free taskId) :
    Command.Relates (Starts started created free) (handleRequeue taskId) store :=
  (starts_patch (fun _ => ⟨rfl, rfl, rfl⟩) hfree).bind fun _ _ _ =>
    starts_transition_then nofun (.inl hfree)

theorem starts_acquireLease (hstarted : taskId ∈ started) (hfree : free taskId) (agentId : String)
    (now ttlMs : Nat) :
    Command.Relates (Starts started created free) (Store.acquireLease taskId agentId now ttlMs)
      store := by
  refine starts_get ?_
  split
  · exact .throw store
  · rename_i task hget
    split
    · exact .throw store
    · split
      · exact .throw store
      · refine Command.Relates.bind (starts_save hget rfl rfl rfl hfree) fun _ t _ => ?_
        split
        · exact starts_transition (fun _ => hstarted) (.inl hfree)
        · exact .pure _ t

theorem starts_releaseLease (hfree : free taskId) (agentId : String) :
    Command.Relates (Starts started created free) (Store.releaseLease taskId agentId) store := by
  refine starts_get ?_
  split
  · exact .throw store
  · split
    · exact starts_transition_then nofun (.inl hfree)
    · exact .throw store

theorem id_of_acquireLease {agentId : String} {now ttlMs : Nat} {t : Store}
    (hrun : (Store.acquireLease taskId agentId now ttlMs).run store = (some task, t)) :
    task.id = taskId := by
  rw [Store.acquireLease, Command.run_bind_of_some (Store.run_get taskId)] at hrun
  cases hget : store.tasks.get? taskId with
  | none => simp [hget] at hrun
  | some old =>
      simp only [hget] at hrun
      split at hrun
      · simp at hrun
      · split at hrun
        · simp at hrun
        · rw [Command.run_bind_of_some (Store.run_save _)] at hrun
          split at hrun
          · exact transition_id hrun
          · obtain ⟨rfl, -⟩ : Store.leased old agentId now ttlMs = task ∧ _ = t := by
              simpa using hrun
            exact store.keyed taskId old hget

theorem starts_executeAssignAction (hstarted : taskId ∈ started) (hfree : free taskId)
    (agent : String) (allTasks : List Task) (spawn : SpawnResult) (now ttlMs : Nat) :
    Command.Relates (Starts started created free)
      (executeAssignAction taskId agent allTasks spawn now ttlMs) store := by
  refine starts_get ?_
  split
  · exact .pure () store
  · split
    · exact .pure () store
    · refine (starts_acquireLease hstarted hfree agent now ttlMs).bind ?_
      intro leasedTask t hleased
      have hid := id_of_acquireLease hleased
      refine Command.Relates.bind (starts_save (acquireLease_stored hleased) rfl rfl rfl ?_)
        fun _ u _ => ?_
      · rwa [hid]
      split
      · exact starts_patch (fun _ => ⟨rfl, rfl, rfl⟩) hfree
      · split
        · exact (starts_releaseLease hfree agent).attempt
        · refine Command.Relates.bind (starts_patch (fun _ => ⟨rfl, rfl, rfl⟩) hfree) ?_
          intro _ w _
          split
          · exact starts_transitionToDeadletter hfree
          · exact starts_transition_then nofun (.inl hfree)

theorem starts_handleRunComplete (hfree : free taskId) (errorClass : Option String) :
    Command.Relates (Starts started created free) (handleRunComplete taskId errorClass) store := by
  refine starts_get ?_
  split
  · exact .pure () store
  · split
    · exact .pure () store
    · refine Command.Relates.bind (starts_patch (fun _ => ⟨rfl, rfl, rfl⟩) hfree) fun _ t _ => ?_
      refine (starts_trackDispatchFailure hfree).bind fun _ u _ => ?_
      refine starts_get ?_
      split
      · exact starts_transition_then nofun (.inl hfree)
      · split
        · exact starts_transitionToDeadletter hfree
        · exact starts_transition_then nofun (.inl hfree)

theorem inProgress_not_mem_resolve (task : Task) (outcome : CompletionOutcome) :
    .inProgress ∉ resolveCompletionTransitions task outcome := by
  unfold resolveCompletionTransitions
  cases outcome with
  | done => split_ifs <;> simp
  | _ => simp

theorem starts_handleStaleHeartbeat (hfree : free taskId) (agent : Option String) :
    Command.Relates (Starts [] [] free) (handleStaleHeartbeat taskId agent) store := by
  refine starts_get ?_
  split
  · exact .pure () store
  · rename_i staleTask _
    split
    · exact .pure () store
    · split
      · exact .pure () store
      · refine Command.Relates.bind (refl_of (Starts [] [] free) store) fun found t _ => ?_
        split
        · exact starts_transition_then nofun (.inl hfree)
        · rename_i runResult _
          refine (Command.Relates.forM _ ?_ t).bind fun _ u _ => ?_
          · intro target htarget s
            apply starts_transition_then _ (.inl hfree)
            rintro rfl
            exact absurd htarget (inProgress_not_mem_resolve staleTask runResult.outcome)
          · split
            · exact (starts_cascadeOnCompletion taskId).attempt
            · exact .pure () u

theorem starts_dispatchDAGHop (old : Task) (hget : store.tasks.get? task.id = some old)
    (hstatus : task.status = old.status) (hresource : task.resource = old.resource)
    (hfree : free task.id) (hopId : String) (spawn : SpawnResult) (timestamp : String) :
    Command.Relates (Starts started created free) (dispatchDAGHop task hopId spawn timestamp)
      store := by
  unfold Command.Relates
  rcases dispatchDAGHop_cases task hopId spawn timestamp store with
    hsame | ⟨workflow, hop, sessionId, -, -, -, hrun⟩
  · rw [hsame]
    exact refl_of (Starts started created free) store
  · rw [hrun]
    refine starts_put old hget hresource (fun h => .inl ?_) fun _ => hfree
    rw [← hstatus]
    exact h

theorem starts_pollDispatch (hfree : free taskId) (hopId : String) (spawn : SpawnResult)
    (timestamp : String) :
    Command.Relates (Starts started created free) (pollDispatch taskId hopId spawn timestamp)
      store := by
  refine starts_get ?_
  split
  · exact .pure () store
  · rename_i task hget
    have hid := store.keyed taskId task hget
    split
    · exact .pure () store
    · split
      · exact .pure () store
      · refine Command.Relates.bind ?_ fun _ u _ => .pure () u
        exact starts_dispatchDAGHop task (hid ▸ hget) rfl rfl (hid ▸ hfree) hopId spawn timestamp

theorem starts_onRunComplete (hfree : free taskId) (hopId timestamp : String) :
    Command.Relates (Starts started created free) (onRunComplete taskId hopId timestamp) store := by
  refine starts_get ?_
  split
  · exact .pure () store
  · split
    · refine Command.Relates.attempt ?_
      refine (starts_trackDispatchFailure hfree).bind fun _ t _ => ?_
      refine starts_get ?_
      split
      · exact .pure () t
      · rename_i task hget
        split
        · exact starts_transitionToDeadletter hfree
        · split
          · exact .pure () t
          · exact Command.Relates.bind (starts_save hget rfl rfl rfl hfree) fun _ u _ => .pure () u
    · exact .pure () store

def SchedulerAction.assigns : SchedulerAction → List String
  | .assign taskId .. => [taskId]
  | _ => []

theorem starts_executeAction (action : SchedulerAction) :
    Command.Relates (Starts action.assigns [] fun _ => True) (executeAction action) store := by
  refine Command.Relates.attempt ?_
  cases action with
  | expireLease taskId allTasks maxRetries backoffElapsed =>
      exact starts_handleExpireLease trivial allTasks maxRetries backoffElapsed
  | staleHeartbeat taskId agent => exact starts_handleStaleHeartbeat trivial agent
  | requeue taskId => exact starts_handleRequeue trivial
  | promote taskId => exact starts_transition_then nofun (.inl trivial)
  | assign taskId agent allTasks spawn now ttlMs =>
      exact starts_executeAssignAction List.mem_cons_self trivial agent allTasks spawn now ttlMs
  | deadletter taskId => exact starts_transitionToDeadletter trivial
  | block taskId => exact starts_transition_then nofun (.inl trivial)
  | runComplete taskId errorClass => exact starts_handleRunComplete trivial errorClass
  | hopDispatch taskId hopId spawn timestamp =>
      exact starts_pollDispatch trivial hopId spawn timestamp
  | hopComplete taskId hopId timestamp => exact starts_onRunComplete trivial hopId timestamp

end Operations

end Aof
