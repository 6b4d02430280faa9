import Aof.Proof.PollStarts

/-!
# What a poll plans

Each action of a plan says what the scan has found out about its task, and the actions stand in the
order of the parts of the plan.
-/

namespace Aof

/-- The poll has a reason to block the task: a cycle, or an unfinished subtask. -/
def Blocks (allTasks : List Task) (task : Task) : Prop :=
  task.status = .ready ∧ task.id ∈ circularDeps allTasks ∨
    task.id ∈ incompleteParents allTasks ∧ task.status ≠ .blocked ∧ task.status ≠ .done

def PollInput.expiry (input : PollInput) (allTasks : List Task) (task : Task) : SchedulerAction :=
  .expireLease task.id allTasks input.maxRetries (input.backoffElapsed task.id)

inductive Plans (input : PollInput) (allTasks : List Task) : SchedulerAction → Prop
  | expireLease {task : Task} (htask : task ∈ allTasks)
      (hstatus : task.status = .inProgress ∨ task.status = .blocked)
      (hlease : leaseExpired task.lease input.now = true) :
      Plans input allTasks (input.expiry allTasks task)
  | staleHeartbeat {task : Task} {agent : String} (htask : task ∈ allTasks)
      (hheartbeat : (task.id, agent) ∈ input.staleHeartbeats) :
      Plans input allTasks (.staleHeartbeat task.id (truthy (some agent)))
  | promote {task : Task} (htask : task ∈ allTasks) (hstatus : task.status = .backlog)
      (heligible : checkPromotionEligibility allTasks input.now task = true) :
      Plans input allTasks (.promote task.id)
  | assign {task : Task} {agent : String} {spawn : SpawnResult} (htask : task ∈ allTasks)
      (hstatus : task.status = .ready) (hfree : ¬ Blocks allTasks task) :
      Plans input allTasks
        (.assign task.id agent allTasks spawn input.now input.defaultLeaseTtlMs)
  | block {task : Task} (htask : task ∈ allTasks) (hblocks : Blocks allTasks task) :
      Plans input allTasks (.block task.id)
  | recover {task : Task} {action : SchedulerAction} (htask : task ∈ allTasks)
      (hstatus : task.status = .blocked)
      (hrecover : recoverBlocked input allTasks task = some action) :
      Plans input allTasks action

section

variable {input : PollInput} {allTasks : List Task}

variable {task : Task} {action : SchedulerAction} {env : DispatchEnv} {readyTasks : List Task}
  {plan : DispatchPlan}

theorem recoverBlocked_cases (hrecover : recoverBlocked input allTasks task = some action) :
    action = .requeue task.id ∨ action = .deadletter task.id := by
  simp only [recoverBlocked] at hrecover
  split_ifs at hrecover
  · split at hrecover
    · exact .inl (Option.some.inj hrecover).symm
    · exact .inr (Option.some.inj hrecover).symm
    · cases hrecover
  · exact .inl (Option.some.inj hrecover).symm

def Reasoned (env : DispatchEnv) (readyTasks : List Task) (action : PlannedAction) : Prop :=
  (action.type = .assign → ∃ task ∈ readyTasks, task.id = action.taskId ∧
    task.id ∉ env.metrics.blockedBySubtasks ∧ task.id ∉ env.metrics.circularDeps) ∧
  (action.type = .block → ∃ task ∈ readyTasks, task.id = action.taskId ∧
    task.id ∈ env.metrics.circularDeps)

theorem reasoned_visitReady {next : DispatchPlan} {goesOn : Bool} (htask : task ∈ readyTasks)
    (hplan : ∀ action ∈ plan.actions, Reasoned env readyTasks action)
    (hvisit : visitReady env allTasks plan task = (next, goesOn)) :
    ∀ action ∈ next.actions, Reasoned env readyTasks action := by
  have hpush : ∀ last : PlannedAction, Reasoned env readyTasks last →
      ∀ action ∈ plan.actions ++ [last], Reasoned env readyTasks action := by
    intro last hlast action haction
    rcases List.mem_append.mp haction with h | h
    · exact hplan action h
    · exact List.mem_singleton.mp h ▸ hlast
  unfold visitReady at hvisit
  split at hvisit
  · obtain ⟨rfl, -⟩ := Prod.mk.inj hvisit
    exact hplan
  rename_i hsubtasks
  split at hvisit
  · rename_i hcircular
    obtain ⟨rfl, -⟩ := Prod.mk.inj hvisit
    exact hpush _ ⟨nofun, fun _ => ⟨task, htask, rfl, hcircular⟩⟩
  rename_i hacyclic
  split at hvisit
  · obtain ⟨rfl, -⟩ := Prod.mk.inj hvisit
    exact hplan
  simp only at hvisit
  split at hvisit
  · obtain ⟨rfl, -⟩ := Prod.mk.inj hvisit
    exact hplan
  split at hvisit
  · obtain ⟨rfl, -⟩ := Prod.mk.inj hvisit
    exact hpush _ ⟨fun _ => ⟨task, htask, rfl, hsubtasks, hacyclic⟩, nofun⟩
  · obtain ⟨rfl, -⟩ := Prod.mk.inj hvisit
    exact hpush _ ⟨nofun, nofun⟩

theorem reasoned_planReady {tasks : List Task} (htasks : ∀ task ∈ tasks, task ∈ readyTasks)
    (hplan : ∀ action ∈ plan.actions, Reasoned env readyTasks action) :
    ∀ action ∈ (planReady env allTasks plan tasks).actions, Reasoned env readyTasks action := by
  induction tasks generalizing plan with
  | nil => exact hplan
  | cons task rest ih =>
      have hvisited := htasks task List.mem_cons_self
      unfold planReady
      split
      · rename_i next hvisit
        apply ih fun other hother => htasks other (List.mem_cons_of_mem _ hother)
        exact reasoned_visitReady hvisited hplan hvisit
      · rename_i next hvisit
        exact reasoned_visitReady hvisited hplan hvisit

theorem plans_dispatchActions (haction : action ∈ dispatchActions input allTasks) :
    Plans input allTasks action := by
  obtain ⟨planned, hplanned, htoAction⟩ := List.mem_filterMap.mp haction
  unfold PlannedAction.toAction at htoAction
  rcases List.mem_append.mp hplanned with hloop | hparents
  · have hreasoned : Reasoned (input.dispatchEnv allTasks) (withStatus .ready allTasks) planned :=
      reasoned_planReady (fun _ h => h) (fun _ h => absurd h List.not_mem_nil) planned hloop
    split at htoAction
    · rename_i htype _ _
      obtain rfl := Option.some.inj htoAction
      obtain ⟨task, htask, hid, hsubtasks, hacyclic⟩ := hreasoned.1 htype
      obtain ⟨hmem, hready⟩ := mem_withStatus.mp htask
      rw [← hid]
      refine .assign hmem hready ?_
      rintro (⟨-, hcircular⟩ | ⟨hparent, -, -⟩)
      · exact hacyclic hcircular
      · exact hsubtasks hparent
    · rename_i htype
      obtain rfl := Option.some.inj htoAction
      obtain ⟨task, htask, hid, hcircular⟩ := hreasoned.2 htype
      obtain ⟨hmem, hready⟩ := mem_withStatus.mp htask
      rw [← hid]
      exact .block hmem (.inl ⟨hready, hcircular⟩)
    · cases htoAction
  · obtain ⟨task, htask, rfl⟩ := List.mem_map.mp hparents
    obtain ⟨hmem, hblocks⟩ := List.mem_filter.mp htask
    simp only [decide_eq_true_eq] at hblocks
    simp only at htoAction
    obtain rfl := Option.some.inj htoAction
    exact .block hmem (.inr hblocks)

theorem findTask_id {taskId : String} (hfind : findTask allTasks taskId = some task) :
    task ∈ allTasks ∧ task.id = taskId :=
  ⟨List.mem_of_find?_eq_some hfind, by simpa using List.find?_some hfind⟩

theorem plans_of_mem (haction : action ∈ plannedActions input allTasks) :
    Plans input allTasks action := by
  simp only [plannedActions, List.mem_append] at haction
  rcases haction with (((h | h) | h) | h) | h
  · obtain ⟨task, htask, rfl⟩ := List.mem_map.mp h
    obtain ⟨hmem, hlease⟩ := List.mem_filter.mp htask
    rcases List.mem_append.mp hmem with hmem | hmem
    · obtain ⟨htask, hstatus⟩ := mem_withStatus.mp hmem
      exact .expireLease htask (.inl hstatus) hlease
    · obtain ⟨htask, hstatus⟩ := mem_withStatus.mp hmem
      exact .expireLease htask (.inr hstatus) hlease
  · obtain ⟨⟨taskId, agent⟩, hheartbeat, rfl⟩ := List.mem_map.mp h
    obtain ⟨hmem, hfound⟩ := List.mem_filter.mp hheartbeat
    obtain ⟨task, hfind⟩ := Option.isSome_iff_exists.mp hfound
    obtain ⟨htask, rfl⟩ := findTask_id hfind
    exact .staleHeartbeat htask hmem
  · obtain ⟨task, htask, rfl⟩ := List.mem_map.mp h
    obtain ⟨hmem, heligible⟩ := List.mem_filter.mp htask
    obtain ⟨htask, hstatus⟩ := mem_withStatus.mp hmem
    exact .promote htask hstatus heligible
  · exact plans_dispatchActions h
  · obtain ⟨task, htask, hrecover⟩ := List.mem_filterMap.mp h
    obtain ⟨hmem, hstatus⟩ := mem_withStatus.mp htask
    exact .recover hmem hstatus hrecover

def SchedulerAction.part : SchedulerAction → Nat
  | .expireLease .. => 0
  | .staleHeartbeat .. => 1
  | .promote _ => 2
  | .assign .. | .block _ => 3
  | _ => 4

theorem part_dispatchActions (haction : action ∈ dispatchActions input allTasks) :
    action.part = 3 := by
  obtain ⟨planned, -, htoAction⟩ := List.mem_filterMap.mp haction
  unfold PlannedAction.toAction at htoAction
  split at htoAction
  · exact Option.some.inj htoAction ▸ rfl
  · exact Option.some.inj htoAction ▸ rfl
  · cases htoAction

theorem part_checkBlockedTaskRecovery (haction : action ∈ checkBlockedTaskRecovery input allTasks) :
    action.part = 4 := by
  obtain ⟨task, -, hrecover⟩ := List.mem_filterMap.mp haction
  rcases recoverBlocked_cases hrecover with rfl | rfl
  · rfl
  · rfl

theorem pairwise_part {actions : List SchedulerAction} {part : Nat}
    (hpart : ∀ action ∈ actions, action.part = part) :
    actions.Pairwise fun first second => first.part ≤ second.part :=
  List.pairwise_of_forall_mem_list fun first hfirst second hsecond =>
    (hpart first hfirst).trans_le (hpart second hsecond).ge

theorem pairwise_plannedActions :
    (plannedActions input allTasks).Pairwise fun first second => first.part ≤ second.part := by
  have hexpired : ∀ action ∈ checkExpiredLeases input allTasks, action.part = 0 := by
    intro action haction
    obtain ⟨_, -, rfl⟩ := List.mem_map.mp haction
    rfl
  have hstale : ∀ action ∈ staleHeartbeatActions input allTasks, action.part = 1 := by
    intro action haction
    obtain ⟨_, -, rfl⟩ := List.mem_map.mp haction
    rfl
  have hpromoted : ∀ action ∈ checkBacklogPromotion input allTasks, action.part = 2 := by
    intro action haction
    obtain ⟨_, -, rfl⟩ := List.mem_map.mp haction
    rfl
  have hdispatched := fun action (h : action ∈ dispatchActions input allTasks) =>
    part_dispatchActions h
  have hrecovered := fun action (h : action ∈ checkBlockedTaskRecovery input allTasks) =>
    part_checkBlockedTaskRecovery h
  unfold plannedActions
  simp only [List.pairwise_append, List.mem_append]
  refine ⟨⟨⟨⟨pairwise_part hexpired, pairwise_part hstale, ?_⟩, pairwise_part hpromoted, ?_⟩,
    pairwise_part hdispatched, ?_⟩, pairwise_part hrecovered, ?_⟩
  · intro first hfirst second hsecond
    have := hexpired first hfirst
    omega
  · rintro first (h | h) second hsecond
    · have := hexpired first h
      omega
    · have := hstale first h
      have := hpromoted second hsecond
      omega
  · rintro first ((h | h) | h) second hsecond
    · have := hexpired first h
      omega
    · have := hstale first h
      have := hdispatched second hsecond
      omega
    · have := hpromoted first h
      have := hdispatched second hsecond
      omega
  · rintro first (((h | h) | h) | h) second hsecond
    · have := hexpired first h
      omega
    · have := hstale first h
      have := hrecovered second hsecond
      omega
    · have := hpromoted first h
      have := hrecovered second hsecond
      omega
    · have := hdispatched first h
      have := hrecovered second hsecond
      omega

theorem expiry_mem (htask : task ∈ allTasks)
    (hstatus : task.status = .inProgress ∨ task.status = .blocked)
    (hlease : leaseExpired task.lease input.now = true) :
    input.expiry allTasks task ∈ plannedActions input allTasks := by
  have hmem : task ∈ withStatus .inProgress allTasks ++ withStatus .blocked allTasks := by
    rw [List.mem_append, mem_withStatus, mem_withStatus]
    exact hstatus.imp (fun h => ⟨htask, h⟩) fun h => ⟨htask, h⟩
  have hexpired : input.expiry allTasks task ∈ checkExpiredLeases input allTasks :=
    List.mem_map.mpr ⟨task, List.mem_filter.mpr ⟨hmem, hlease⟩, rfl⟩
  simp only [plannedActions, List.mem_append]
  exact .inl (.inl (.inl (.inl hexpired)))

theorem staleHeartbeat_mem {agent : String} (htask : task ∈ allTasks)
    (hheartbeat : (task.id, agent) ∈ input.staleHeartbeats) :
    .staleHeartbeat task.id (truthy (some agent)) ∈ plannedActions input allTasks := by
  have hfound : (findTask allTasks task.id).isSome = true :=
    List.find?_isSome.mpr ⟨task, htask, decide_eq_true rfl⟩
  have hstale : .staleHeartbeat task.id (truthy (some agent)) ∈
      staleHeartbeatActions input allTasks :=
    List.mem_map.mpr ⟨(task.id, agent), List.mem_filter.mpr ⟨hheartbeat, hfound⟩, rfl⟩
  simp only [plannedActions, List.mem_append]
  exact .inl (.inl (.inl (.inr hstale)))

theorem block_mem (htask : task ∈ allTasks) (hparent : task.id ∈ incompleteParents allTasks)
    (hblocked : task.status ≠ .blocked) (hdone : task.status ≠ .done) :
    .block task.id ∈ plannedActions input allTasks := by
  have hplanned : ⟨.block, task.id, none, "Parent task has incomplete subtasks",
      some task.status⟩ ∈ blockParents (input.dispatchEnv allTasks).metrics allTasks := by
    refine List.mem_map.mpr ⟨task, List.mem_filter.mpr ⟨htask, ?_⟩, rfl⟩
    exact decide_eq_true ⟨hparent, hblocked, hdone⟩
  have hdispatched : .block task.id ∈ dispatchActions input allTasks :=
    List.mem_filterMap.mpr ⟨_, List.mem_append_right _ hplanned, rfl⟩
  simp only [plannedActions, List.mem_append]
  exact .inl (.inr hdispatched)

end

end Aof
