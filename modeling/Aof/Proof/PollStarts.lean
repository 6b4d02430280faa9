import Aof.Proof.PlanSafety
import Aof.Proof.WorkStarts

/-!
# What a poll starts

A poll puts only the tasks to work that its plan assigns, and the reviews that it creates.
-/

namespace Aof

theorem mem_list_iff {store : Store} {task : Task} :
    task ∈ store.tasks.values ↔ store.tasks.get? task.id = some task := by
  rw [Dict.mem_values_iff_get?]
  constructor
  · rintro ⟨id, hget⟩
    rwa [store.keyed id task hget]
  · exact fun hget => ⟨task.id, hget⟩

theorem nodup_list (store : Store) : (store.tasks.values.map Task.id).Nodup := by
  have hkeys : store.tasks.values.map Task.id = store.tasks.entries.map Prod.fst := by
    rw [Dict.values, List.map_map]
    apply List.map_congr_left
    intro entry hentry
    exact store.keyed entry.1 entry.2 (Dict.get?_eq_some_iff.mpr hentry)
  rw [hkeys]
  exact store.tasks.nodup

theorem mem_withStatus {status : TaskStatus} {allTasks : List Task} {task : Task} :
    task ∈ withStatus status allTasks ↔ task ∈ allTasks ∧ task.status = status := by
  simp [withStatus]

theorem withStatus_stored (store : Store) (status : TaskStatus) :
    ((withStatus status store.tasks.values).map Task.id).Nodup ∧
      ∀ task ∈ withStatus status store.tasks.values,
        store.tasks.get? task.id = some task ∧ task.status = status := by
  refine ⟨(nodup_list store).sublist (List.filter_sublist.map _), fun task htask => ?_⟩
  obtain ⟨hmem, hstatus⟩ := mem_withStatus.mp htask
  exact ⟨mem_list_iff.mp hmem, hstatus⟩

section Loops

variable {started created : List String} {free : String → Prop} {store : Store}

variable {α : Type} {command : Command Store α} {task : Task} {id : String} {allTasks : List Task}
  {action : SchedulerAction}

theorem relates_starts_mono {started' created' : List String} {free' : String → Prop}
    (h : Command.Relates (Starts started created free) command store)
    (hstarted : ∀ id ∈ started, id ∈ started') (hcreated : ∀ id ∈ created, id ∈ created')
    (hfree : ∀ id, free id → free' id) :
    Command.Relates (Starts started' created' free') command store :=
  fun id => (h id).mono hstarted hcreated hfree

theorem starts_visits {visit : Task → Command Store Unit} {tasks : List Task}
    (hnodup : (tasks.map Task.id).Nodup)
    (hstored : ∀ task ∈ tasks, store.tasks.get? task.id = some task ∧ task.status = .inProgress)
    (hvisit : ∀ task ∈ tasks, ∀ s : Store, s.tasks.get? task.id = some task →
      Command.Relates (Starts [] [] fun id => id = task.id) (visit task) s) :
    Command.Relates (Starts [] [] fun _ => True) (tasks.forM visit) store := by
  induction tasks generalizing store with
  | nil => exact .pure () store
  | cons task rest ih =>
      obtain ⟨hnew, hnodup⟩ := List.nodup_cons.mp hnodup
      have hfirst := hvisit task List.mem_cons_self store (hstored task List.mem_cons_self).1
      have hwide : Command.Relates (Starts [] [] fun _ => True) (visit task) store :=
        relates_starts_mono hfirst nofun nofun fun _ _ => trivial
      refine hwide.bind fun _ t hrun => ih hnodup ?_ fun other hother => ?_
      · intro other hother
        obtain ⟨hget, hstatus⟩ := hstored other (List.mem_cons_of_mem _ hother)
        refine ⟨?_, hstatus⟩
        unfold Command.Relates at hfirst
        have hmoves := hfirst other.id
        rw [hrun, hget] at hmoves
        generalize hafter : t.tasks.get? other.id = after at hmoves
        cases hmoves with
        | kept _ _ hfree =>
            rcases hfree hstatus with hsame | rfl
            · exact absurd (hsame ▸ List.mem_map_of_mem hother) hnew
            · rfl
      · exact hvisit other (List.mem_cons_of_mem _ hother)

theorem starts_executeInOrder {actions : List SchedulerAction}
    (hassigns : ∀ action ∈ actions, ∀ id ∈ action.assigns, id ∈ started) :
    Command.Relates (Starts started [] fun _ => True) (executeInOrder actions) store := by
  induction actions generalizing store with
  | nil => exact .pure 0 store
  | cons action rest ih =>
      refine (Command.Relates.read store).bind fun _ s _ => ?_
      have haction : Command.Relates (Starts started [] fun _ => True) (executeAction action) s :=
        relates_starts_mono (starts_executeAction action) (hassigns action List.mem_cons_self) nofun
          fun _ h => h
      refine haction.bind fun _ t _ => ?_
      refine (ih fun other hother => hassigns other (List.mem_cons_of_mem _ hother)).bind ?_
      exact fun _ u _ => .pure _ u

theorem escalateHopTimeout_cases (task : Task) (hopId : String) (spawn : Option SpawnResult)
    (timestamp : String) (store : Store) :
    (escalateHopTimeout task hopId spawn timestamp).run store = (none, store) ∨
      (escalateHopTimeout task hopId spawn timestamp).run store = (some task, store) ∨
      ∃ state, (escalateHopTimeout task hopId spawn timestamp).run store =
        (some (task.withWorkflowState state), store.put (task.withWorkflowState state)) := by
  unfold escalateHopTimeout
  split
  · exact .inl rfl
  · split
    · split
      · exact .inr (.inl rfl)
      · exact .inr (.inr ⟨_, rfl⟩)
    · exact .inr (.inl rfl)

/-- The late hops are handled by changes of the workflow of their task. -/
theorem relates_foldlM_checkHopTimeout {R : Store → Store → Prop} [IsPreorder Store R]
    (hput : ∀ store (changed : Task) state, changed.id = taskId →
      store.tasks.get? changed.id = some changed →
      R store (store.put (changed.withWorkflowState state)))
    (input : PollInput) (hops : List Hop) (hget : store.tasks.get? task.id = some task)
    (hid : task.id = taskId) :
    Command.Relates R (hops.foldlM (checkHopTimeout input) task) store := by
  induction hops generalizing task store with
  | nil => exact .pure task store
  | cons hop rest ih =>
      rw [List.foldlM_cons]
      have hcases : (checkHopTimeout input task hop).run store = (none, store) ∨
          (checkHopTimeout input task hop).run store = (some task, store) ∨
          ∃ state, (checkHopTimeout input task hop).run store =
            (some (task.withWorkflowState state), store.put (task.withWorkflowState state)) := by
        unfold checkHopTimeout
        split
        · exact escalateHopTimeout_cases _ _ _ _ store
        · exact .inr (.inl rfl)
      unfold Command.Relates
      rcases hcases with hrun | hrun | ⟨state, hrun⟩
      · rw [Command.run_bind_of_none hrun]
        exact refl_of R store
      · rw [Command.run_bind_of_some hrun]
        exact ih hget hid
      · rw [Command.run_bind_of_some hrun]
        have hstored : (store.put (task.withWorkflowState state)).tasks.get?
            (task.withWorkflowState state).id = some (task.withWorkflowState state) :=
          (Store.tasks_put ..).trans (if_pos rfl)
        exact trans_of R (hput store task state hid hget) (ih hstored hid)

theorem starts_checkHopTimeout_foldlM (input : PollInput) (hops : List Hop)
    (hget : store.tasks.get? task.id = some task) :
    Command.Relates (Starts [] [] fun id => id = task.id)
      (hops.foldlM (checkHopTimeout input) task) store :=
  relates_foldlM_checkHopTimeout (fun _ _ _ hid hget => starts_put _ hget rfl .inl fun _ => hid)
    input hops hget rfl

theorem starts_checkHopTimeouts (input : PollInput) :
    Command.Relates (Starts [] [] fun _ => True) (checkHopTimeouts input) store := by
  refine Command.Relates.bind (refl_of _ store) fun tasks t hrun => ?_
  obtain ⟨rfl, rfl⟩ : withStatus .inProgress store.tasks.values = tasks ∧ store = t := by
    simpa [Store.listByStatus, Command.run, withStatus] using hrun
  obtain ⟨hnodup, hstored⟩ := withStatus_stored store .inProgress
  apply starts_visits hnodup hstored
  intro task _ s hget
  exact (starts_checkHopTimeout_foldlM input _ hget).bind fun _ u _ => .pure () u

theorem starts_dispatchReadyHops (input : PollInput) (allTasks : List Task) :
    Command.Relates (Starts [] [] fun _ => True) (dispatchReadyHops input allTasks) store := by
  unfold dispatchReadyHops
  split
  · apply Command.Relates.forM
    intro task _ s
    split
    · exact (starts_pollDispatch trivial _ _ _).attempt
    · exact .pure () s
  · exact .pure () store

theorem starts_created (hnew : store.tasks.get? id = none)
    (h : Command.Relates (Starts [id] [] free) command store) :
    Command.Relates (Starts [] [id] free) command store := by
  intro other
  have hother := h other
  by_cases hid : other = id
  · subst hid
    rw [hnew] at hother ⊢
    generalize (command.run store).2.tasks.get? other = after at hother
    cases hother with
    | absent => exact .absent
    | created hresource _ => exact .created hresource fun _ => .inr List.mem_cons_self
  · generalize store.tasks.get? other = before at hother
    generalize (command.run store).2.tasks.get? other = after at hother
    have hout : other ∉ [id] := fun hmem => hid (List.mem_singleton.mp hmem)
    cases hother with
    | absent => exact .absent
    | created hresource hstarted =>
        exact .created hresource fun hstatus =>
          ((hstarted hstatus).elim hout List.not_mem_nil).elim
    | kept hresource hstarted hfree =>
        exact .kept hresource (fun hstatus => .inl ((hstarted hstatus).resolve_right hout)) hfree

theorem starts_create (hresource : task.resource = none) (hstatus : task.status ≠ .inProgress) :
    Command.Relates (Starts started created free) (Store.create task) store := by
  refine starts_get ?_
  split
  · exact .throw store
  · rename_i hnone
    intro id
    show TaskStarts started created free id (store.tasks.get? id) ((store.put task).tasks.get? id)
    rw [Store.tasks_put]
    split
    · rename_i hid
      subst hid
      rw [hnone]
      exact .created hresource fun h => absurd h hstatus
    · exact TaskStarts.refl started created free id _

theorem starts_evaluateMurmurTrigger (input : PollInput) (inProgress : Nat)
    (review : MurmurReview) : Command.Relates (Starts [] [review.reviewTaskId] fun _ => True)
      (evaluateMurmurTrigger input inProgress review) store := by
  unfold evaluateMurmurTrigger
  split
  · exact .pure () store
  · refine Command.Relates.attempt ?_
    cases hnew : store.tasks.get? review.reviewTaskId with
    | some task =>
        have hcreate : (Store.create review.task).run store = (none, store) := by
          rw [Store.create, Command.run_bind_of_some (Store.run_get _)]
          simp only [MurmurReview.task, hnew]
          rfl
        unfold Command.Relates
        rw [Command.run_bind_of_none hcreate]
        exact refl_of (Starts _ _ _) store
    | none =>
        apply starts_created hnew
        refine (starts_create rfl (by simp [MurmurReview.task])).bind fun _ t _ => ?_
        refine (starts_transition (by simp) (.inl trivial)).bind fun _ u _ => ?_
        split
        · exact .pure () u
        · refine Command.Relates.attempt ?_
          refine (starts_acquireLease List.mem_cons_self trivial _ _ _).bind fun _ v _ => ?_
          split
          · exact .pure () v
          · exact starts_transition_then (by simp) (.inl trivial)

def PollInput.assigned (input : PollInput) (allTasks : List Task) : List String :=
  Aof.assigned (buildDispatchActions (input.dispatchEnv allTasks) (withStatus .ready allTasks)
    allTasks)

variable {input : PollInput}

theorem assigns_toAction {planned : PlannedAction}
    (haction : planned.toAction input allTasks = some action) (hid : id ∈ action.assigns) :
    planned.type = .assign ∧ planned.taskId = id := by
  unfold PlannedAction.toAction at haction
  split at haction
  · rename_i htype _ _
    obtain rfl := Option.some.inj haction
    exact ⟨htype, (List.mem_singleton.mp hid).symm⟩
  · obtain rfl := Option.some.inj haction
    cases hid
  · cases haction

theorem assigns_plannedActions (haction : action ∈ plannedActions input allTasks)
    (hid : id ∈ action.assigns) : id ∈ input.assigned allTasks := by
  simp only [plannedActions, List.mem_append] at haction
  rcases haction with (((h | h) | h) | h) | h
  · obtain ⟨task, -, rfl⟩ := List.mem_map.mp h
    cases hid
  · obtain ⟨task, -, rfl⟩ := List.mem_map.mp h
    cases hid
  · obtain ⟨task, -, rfl⟩ := List.mem_map.mp h
    cases hid
  · obtain ⟨planned, hplanned, htoAction⟩ := List.mem_filterMap.mp h
    obtain ⟨htype, rfl⟩ := assigns_toAction htoAction hid
    exact List.mem_map_of_mem (List.mem_filter.mpr ⟨hplanned, by simpa using htype⟩)
  · obtain ⟨task, -, hrecover⟩ := List.mem_filterMap.mp h
    simp only [recoverBlocked] at hrecover
    split_ifs at hrecover
    · split at hrecover
      · obtain rfl := Option.some.inj hrecover
        cases hid
      · obtain rfl := Option.some.inj hrecover
        cases hid
      · cases hrecover
    · obtain rfl := Option.some.inj hrecover
      cases hid

def PollInput.starts (input : PollInput) (allTasks : List Task) : List String :=
  if input.config.dryRun then [] else input.assigned allTasks

def PollInput.creates (input : PollInput) : List String :=
  if input.config.dryRun then [] else input.reviews.map MurmurReview.reviewTaskId

theorem starts_currentInProgress (allTasks : List Task) (actionsExecuted : Nat) :
    Command.Relates (Starts started created free) (currentInProgress allTasks actionsExecuted)
      store := by
  unfold currentInProgress
  split
  · exact refl_of (Starts started created free) store
  · exact .pure _ store

theorem starts_executeActions (input : PollInput) (allTasks : List Task) :
    Command.Relates (Starts (input.starts allTasks) [] fun _ => True)
      (executeActions input (plannedActions input allTasks)) store := by
  unfold executeActions
  split
  · exact .pure 0 store
  · rename_i hdryRun
    apply starts_executeInOrder
    intro action haction id hid
    rw [PollInput.starts, if_neg hdryRun]
    exact assigns_plannedActions haction hid

theorem starts_poll (input : PollInput) (store : Store) :
    Command.Relates (Starts (input.starts store.tasks.values) input.creates fun _ => True)
      (poll input) store := by
  have hquiet : ∀ {α : Type} {command : Command Store α} {s : Store},
      Command.Relates (Starts [] [] fun _ => True) command s →
      Command.Relates (Starts (input.starts store.tasks.values) input.creates fun _ => True)
        command s :=
    fun h => relates_starts_mono h nofun nofun fun _ htrue => htrue
  unfold poll
  refine starts_list ?_
  refine (hquiet (starts_checkHopTimeouts input)).bind fun _ t _ => ?_
  refine Command.Relates.bind (relates_starts_mono (starts_executeActions input _)
    (fun _ h => h) nofun fun _ h => h) fun actionsExecuted u _ => ?_
  refine (hquiet (starts_dispatchReadyHops input _)).bind fun _ v _ => ?_
  refine (starts_currentInProgress _ actionsExecuted).bind fun inProgress w _ => ?_
  apply Command.Relates.forM
  intro review hreview s
  cases hdryRun : input.config.dryRun with
  | true =>
      unfold evaluateMurmurTrigger
      rw [hdryRun, if_pos (.inr rfl)]
      exact .pure () s
  | false =>
      refine relates_starts_mono (starts_evaluateMurmurTrigger input inProgress review) nofun ?_
        fun _ h => h
      intro id hid
      rw [PollInput.creates, hdryRun, if_neg Bool.false_ne_true, List.mem_singleton.mp hid]
      exact List.mem_map_of_mem hreview

end Loops

end Aof
