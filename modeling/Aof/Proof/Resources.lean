import Mathlib.Data.List.Pairwise
import Aof.Proof.PollStarts
import Aof.Service.AofService

/-!
# One task at work for each resource

Completions put no task to work.  A poll assigns tasks whose resource is free at the scan, so two
tasks with one resource are at work afterwards only if the plan of the poll assigned both.
-/

namespace Aof

def OnePerResource (store : Store) : Prop :=
  ∀ id id' task task', store.tasks.get? id = some task → store.tasks.get? id' = some task' →
    task.status = .inProgress → task'.status = .inProgress → task.resource = task'.resource →
    task.resource ≠ none → id = id'

def mayAssign (env : DispatchEnv) (allTasks : List Task) (task : Task) : Bool :=
  task.id ∉ env.metrics.blockedBySubtasks && task.id ∉ env.metrics.circularDeps &&
    passesGates env allTasks task && (routingTarget env.teams task.routing).isSome

def PollInput.candidates (input : PollInput) (allTasks : List Task) : List Task :=
  (withStatus .ready allTasks).filter (mayAssign (input.dispatchEnv allTasks) allTasks)

/-- Where a poll assigns tasks, the candidates name different resources, none of them empty, unless
only one more task fits. -/
structure DistinctResources (input : PollInput) (allTasks : List Task) : Prop where
  named : ∀ task ∈ input.candidates allTasks, task.resource ≠ some ""
  apart : (input.candidates allTasks).Pairwise
      (fun task task' => task.resource = task'.resource → task.resource = none) ∨
    input.config.maxDispatches ≤ (withStatus .inProgress allTasks).length + 1 ∨
    input.config.perPoll ≤ 1

def SpreadsResources (store : Store) : StoreEvent → Prop
  | .poll input => DistinctResources input store.tasks.values
  | _ => True

variable {allTasks : List Task} {task : Task} {input : PollInput} {free : String → Prop}
  {store : Store} {id taskId : String}

theorem mayAssign_of_admissible {env : DispatchEnv} (hids : (allTasks.map Task.id).Nodup)
    (hadmissible : Admissible env allTasks task) : mayAssign env allTasks task = true := by
  have hresolved : unresolvedDeps allTasks task = [] := by
    apply List.filter_eq_nil_iff.mpr
    intro depId hdep
    obtain ⟨dep, hmem, hid, hdone⟩ := hadmissible.dependencies depId hdep
    have hfind : allTasks.find? (fun other => other.id = depId) = some dep := by
      obtain ⟨found, hfound⟩ : ∃ found,
          allTasks.find? (fun other => other.id = depId) = some found :=
        Option.isSome_iff_exists.mp (List.find?_isSome.mpr ⟨dep, hmem, by simpa using hid⟩)
      rw [hfound, Option.some.injEq]
      apply List.inj_on_of_nodup_map hids (List.mem_of_find?_eq_some hfound) hmem
      have hsame := List.find?_some hfound
      rw [hid]
      simpa using hsame
    simp [hfind, hdone]
  simp [mayAssign, passesGates, hadmissible.subtasks, hadmissible.acyclic, hresolved,
    hadmissible.unleased, hadmissible.resource, hadmissible.routed]

theorem exists_chosen (input : PollInput) (store : Store) (hdryRun : input.config.dryRun = false) :
    ∃ chosen, input.assigned store.tasks.values = chosen.map Task.id ∧
      SafePlan (input.dispatchEnv store.tasks.values) (withStatus .ready store.tasks.values)
        store.tasks.values chosen ∧ chosen.Sublist (input.candidates store.tasks.values) := by
  obtain ⟨chosen, hassigned, hsafe⟩ := plan_safe (input.dispatchEnv store.tasks.values)
    (nodup_list store) hdryRun
  refine ⟨chosen, hassigned, hsafe, ?_⟩
  have hfilter : chosen.filter (mayAssign (input.dispatchEnv store.tasks.values)
      store.tasks.values) = chosen := by
    apply List.filter_eq_self.mpr
    intro task htask
    exact mayAssign_of_admissible (nodup_list store) (hsafe.admissible task htask)
  rw [← hfilter]
  exact hsafe.ready.filter _

theorem has_buildResourceOccupancyMap (htask : task ∈ withStatus .inProgress allTasks)
    {resource : String} (hresource : truthy task.resource = some resource) :
    (buildResourceOccupancyMap allTasks).has resource = true := by
  unfold buildResourceOccupancyMap
  generalize withStatus .inProgress allTasks = running at htask
  generalize (Dict.empty : Dict String String) = occupied
  induction running generalizing occupied with
  | nil => cases htask
  | cons other rest ih =>
      rw [List.foldl_cons]
      rcases List.mem_cons.mp htask with rfl | hrest
      · -- the tasks behind it keep what is occupied
        apply List.foldlRecOn (motive := fun occupied : Dict String String =>
          occupied.has resource = true)
        · rw [hresource]
          simp [Dict.has_set]
        · intro occupied hkept other _
          split
          · rw [Dict.has_set, hkept, Bool.or_true]
          · exact hkept
      · exact ih hrest _

theorem free_of_candidate {running : Task} (htask : task ∈ input.candidates allTasks)
    (hnamed : task.resource ≠ some "") (hrunning : running ∈ withStatus .inProgress allTasks)
    (hsame : running.resource = task.resource) : task.resource = none := by
  by_contra hsome
  obtain ⟨resource, hresource⟩ := Option.ne_none_iff_exists'.mp hsome
  have hne : resource ≠ "" := by
    rintro rfl
    exact hnamed hresource
  have htruthy : truthy task.resource = some resource := by
    simp [truthy, hresource, hne]
  have hoccupied := has_buildResourceOccupancyMap hrunning (hsame ▸ htruthy)
  have hgates := (List.mem_filter.mp htask).2
  simp only [mayAssign, Bool.and_eq_true, passesGates_iff] at hgates
  have hfree := hgates.1.2.2.2
  simp only [resourceOccupied, htruthy, Option.any_some] at hfree
  exact absurd hoccupied (by simpa [PollInput.dispatchEnv, dispatchMetrics] using hfree)

theorem eq_of_length_le_one {tasks : List Task} (hlength : tasks.length ≤ 1) {task' : Task}
    (hmem : task ∈ tasks) (hmem' : task' ∈ tasks) : task = task' := by
  match tasks with
  | [] => cases hmem
  | [only] => exact (List.mem_singleton.mp hmem).trans (List.mem_singleton.mp hmem').symm
  | _ :: _ :: _ => simp at hlength

theorem onePerResource_of_starts {before after : Store} (hone : OnePerResource before)
    (hstarts : Starts [] [] free before after) : OnePerResource after := by
  have hold : ∀ id task, after.tasks.get? id = some task → task.status = .inProgress →
      ∃ old, before.tasks.get? id = some old ∧ old.status = .inProgress ∧
        task.resource = old.resource := by
    intro id task hget hstatus
    have h := hstarts id
    rw [hget] at h
    generalize hbefore : before.tasks.get? id = found at h
    cases h with
    | created _ hstarted =>
        exact ((hstarted hstatus).elim List.not_mem_nil List.not_mem_nil).elim
    | kept hresource hstarted _ =>
        exact ⟨_, rfl, (hstarted hstatus).resolve_right List.not_mem_nil, hresource⟩
  intro id id' task task' hget hget' hstatus hstatus' hsame hnamed
  obtain ⟨old, hbefore, hwork, hresource⟩ := hold id task hget hstatus
  obtain ⟨old', hbefore', hwork', hresource'⟩ := hold id' task' hget' hstatus'
  apply hone id id' old old' hbefore hbefore' hwork hwork'
  · rw [← hresource, hsame, hresource']
  · rwa [← hresource]

/-- A task at work after a poll was so before, or the poll assigned it, or it names no resource. -/
theorem atWork_after_poll (hget : ((poll input).after store).tasks.get? id = some task)
    (hstatus : task.status = .inProgress) (hnamed : task.resource ≠ none) :
    ∃ old, store.tasks.get? id = some old ∧ task.resource = old.resource ∧
      (old.status = .inProgress ∨ id ∈ input.starts store.tasks.values) := by
  have h := starts_poll input store id
  rw [Command.after_eq] at hget
  rw [hget] at h
  generalize hbefore : store.tasks.get? id = found at h
  cases h with
  | created hresource _ => exact absurd hresource hnamed
  | kept hresource hstarted _ => exact ⟨_, rfl, hresource, hstarted hstatus⟩

theorem onePerResource_poll (hone : OnePerResource store)
    (hdistinct : DistinctResources input store.tasks.values) :
    OnePerResource ((poll input).after store) := by
  intro id id' task task' hget hget' hstatus hstatus' hsame hnamed
  obtain ⟨old, hold, hresource, hwork⟩ := atWork_after_poll hget hstatus hnamed
  obtain ⟨old', hold', hresource', hwork'⟩ :=
    atWork_after_poll hget' hstatus' (hsame ▸ hnamed)
  have hresources : old.resource = old'.resource := by rw [← hresource, hsame, hresource']
  have holdNamed : old.resource ≠ none := by rwa [← hresource]
  cases hdryRun : input.config.dryRun with
  | true =>
      have hnone : ∀ other, other ∉ input.starts store.tasks.values := by
        intro other
        rw [PollInput.starts, hdryRun, if_pos rfl]
        exact List.not_mem_nil
      exact hone id id' old old' hold hold' (hwork.resolve_right (hnone id))
        (hwork'.resolve_right (hnone id')) hresources holdNamed
  | false =>
      obtain ⟨chosen, hassigned, hsafe, hsub⟩ := exists_chosen input store hdryRun
      -- the stored task under an assigned id is a chosen candidate
      have hchosen : ∀ {id old}, store.tasks.get? id = some old →
          id ∈ input.starts store.tasks.values → old ∈ chosen := by
        intro id old hold hid
        rw [PollInput.starts, hdryRun, if_neg Bool.false_ne_true, hassigned] at hid
        obtain ⟨other, hother, rfl⟩ := List.mem_map.mp hid
        have hlisted : other ∈ store.tasks.values :=
          (mem_withStatus.mp (hsafe.ready.subset hother)).1
        rw [mem_list_iff.mp hlisted, Option.some.injEq] at hold
        exact hold ▸ hother
      have hclash : ∀ {id old running}, store.tasks.get? id = some running →
          running.status = .inProgress → old ∈ chosen → running.resource = old.resource →
          old.resource = none := by
        intro id old running hrunning hatWork hmem hsameResource
        have hcandidate := hsub.subset hmem
        have hkeyed := store.keyed id running hrunning
        exact free_of_candidate hcandidate (hdistinct.named old hcandidate)
          (mem_withStatus.mpr ⟨mem_list_iff.mpr (hkeyed ▸ hrunning), hatWork⟩) hsameResource
      rcases hwork with hatWork | hstarted
      · rcases hwork' with hatWork' | hstarted'
        · exact hone id id' old old' hold hold' hatWork hatWork' hresources holdNamed
        · exact absurd (hresources ▸ hclash hold hatWork (hchosen hold' hstarted') hresources)
            holdNamed
      · rcases hwork' with hatWork' | hstarted'
        · exact absurd (hclash hold' hatWork' (hchosen hold hstarted) hresources.symm) holdNamed
        · by_contra hid
          have hmem := hchosen hold hstarted
          have hmem' := hchosen hold' hstarted'
          have hne : old ≠ old' := by
            rintro rfl
            exact hid ((store.keyed id old hold).symm.trans (store.keyed id' old hold'))
          rcases hdistinct.apart with hpairwise | hroom
          · have hsymm : Std.Symm fun task task' : Task =>
                task.resource = task'.resource → task.resource = none :=
              ⟨fun task task' h hsame => hsame ▸ h hsame.symm⟩
            exact holdNamed ((hpairwise.sublist hsub).forall hmem hmem' hne hresources)
          · have hlength : chosen.length ≤ 1 := by
              have hconcurrency := hsafe.concurrency
              have hperPoll := hsafe.perPoll
              simp only [PollInput.dispatchEnv, dispatchMetrics] at hconcurrency hperPoll
              omega
            exact hne (eq_of_length_le_one hlength hmem hmem')

theorem starts_applyCompletionOutcome (hfree : free task.id) (outcome : CompletionOutcome) :
    Command.Relates (Starts [] [] free) (applyCompletionOutcome task outcome) store := by
  refine Command.Relates.bind ?_ fun _ t _ => .pure () t
  have hquiet := inProgress_not_mem_resolve task outcome
  generalize resolveCompletionTransitions task outcome = transitions at hquiet
  induction transitions generalizing task store with
  | nil => exact .pure task store
  | cons nextStatus rest ih =>
      rw [List.mem_cons, not_or] at hquiet
      obtain ⟨hne, hrest⟩ := hquiet
      rw [List.foldlM_cons]
      have hfirst : Command.Relates (Starts [] [] free) (applyCompletionTransition task nextStatus)
          store ∧ ∀ next t, (applyCompletionTransition task nextStatus).run store =
            (some next, t) → next.id = task.id := by
        unfold applyCompletionTransition
        split
        · refine ⟨.pure task store, fun next t hrun => ?_⟩
          obtain ⟨rfl, -⟩ : task = next ∧ store = t := by simpa using hrun
          rfl
        · split
          · exact ⟨starts_transition (fun h => absurd h.symm hne) (.inl hfree), fun _ _ hrun =>
              transition_id hrun⟩
          · refine ⟨.pure task store, fun next t hrun => ?_⟩
            obtain ⟨rfl, -⟩ : task = next ∧ store = t := by simpa using hrun
            rfl
      refine hfirst.1.bind fun next t hrun => ih ?_ hrest
      rwa [hfirst.2 next t hrun]

theorem starts_writeRunResult (taskId : String) (result : RunResult) :
    Command.Relates (Starts [] [] free) (Store.writeRunResult taskId result) store := by
  refine starts_get ?_
  split
  · exact .throw store
  · split
    · exact fun id => TaskStarts.refl _ _ _ id _
    · exact .throw store

theorem starts_handleCompletionReport (report : CompletionReport) :
    Command.Relates (Starts [] [] fun _ => True) (handleCompletionReport report) store := by
  refine starts_get ?_
  split
  · exact .pure () store
  · rename_i task _
    split
    · refine (starts_writeRunResult report.taskId _).bind fun _ t _ => ?_
      refine Command.Relates.bind (starts_applyCompletionOutcome trivial report.outcome)
        fun _ u _ => ?_
      split
      · exact (starts_cascadeOnCompletion report.taskId).attempt
      · exact .pure () u
    · exact .pure () store

theorem starts_completeDAGSession (hget : store.tasks.get? task.id = some task)
    (runResult : RunResult) (executor : Option SpawnResult) (timestamp : String) :
    Command.Relates (Starts [] [] fun id => id = task.id)
      (completeDAGSession task runResult executor timestamp) store := by
  have hmove : ∀ {status : TaskStatus}, status ≠ .inProgress → ∀ s,
      Command.Relates (Starts [] [] fun id => id = task.id) (Store.transition task.id status) s :=
    fun hstatus s => starts_transition (fun h => absurd h hstatus) (.inl rfl)
  unfold completeDAGSession
  rcases handleDAGHopCompletion_cases task runResult timestamp store with
    hrun | hrun | ⟨workflow, hopId, result, hcompletion⟩
  · unfold Command.Relates
    rw [Command.run_bind_of_some hrun]
    exact refl_of (Starts _ _ _) store
  · unfold Command.Relates
    rw [Command.run_bind_of_none hrun]
    exact refl_of (Starts _ _ _) store
  · have hrun := hcompletion.run store
    have hsaved : Command.Relates (Starts [] [] fun id => id = task.id)
        (handleDAGHopCompletion task runResult timestamp) store := by
      unfold Command.Relates
      rw [hrun]
      exact starts_put task hget rfl .inl fun _ => rfl
    refine hsaved.bind fun answer t hanswer => ?_
    rw [hrun, Prod.mk.injEq, Option.some.injEq] at hanswer
    obtain ⟨rfl, rfl⟩ := hanswer
    dsimp only
    split
    · split
      · refine Command.Relates.bind (hmove (by simp) _) fun _ u _ => ?_
        exact (starts_cascadeOnCompletion task.id).attempt
      · exact Command.Relates.bind (hmove (by simp) _) fun _ u _ => .pure () u
    · split
      · exact Command.Relates.bind (hmove (by simp) _) fun _ u _ => .pure () u
      · split
        · refine Command.Relates.bind ?_ fun _ u _ => .pure () u
          apply starts_dispatchDAGHop (task.withWorkflowState result.state)
          · rw [Store.tasks_put, if_pos rfl]
          · rfl
          · rfl
          · exact withWorkflowState_id task result.state
        · exact .pure () _

theorem starts_visitSession (hget : store.tasks.get? task.id = some task)
    (executor : Option SpawnResult) (timestamp : String) :
    Command.Relates (Starts [] [] fun id => id = task.id) (visitSession task executor timestamp)
      store := by
  refine Command.Relates.bind (refl_of (Starts _ _ _) store) fun found t hfound => ?_
  obtain ⟨rfl, rfl⟩ : (store.tasks.get? task.id).bind (fun _ => store.runResults.get? task.id) =
      found ∧ store = t := by simpa using hfound
  split
  · exact .pure () store
  · split
    · exact (starts_completeDAGSession hget _ executor timestamp).attempt
    · refine Command.Relates.bind ?_ fun _ t _ => ?_
      · apply starts_applyCompletionOutcome
        rfl
      split
      · exact (starts_cascadeOnCompletion task.id).attempt
      · exact .pure () t

theorem starts_handleSessionEnd (executor : String → Option SpawnResult) (clock : String → String) :
    Command.Relates (Starts [] [] fun _ => True) (handleSessionEnd executor clock) store := by
  refine Command.Relates.bind (refl_of (Starts _ _ _) store) fun tasks t hrun => ?_
  obtain ⟨rfl, rfl⟩ : withStatus .inProgress store.tasks.values = tasks ∧ store = t := by
    simpa [Store.listByStatus, Command.run, withStatus] using hrun
  obtain ⟨hnodup, hstored⟩ := withStatus_stored store .inProgress
  apply starts_visits hnodup hstored
  exact fun task _ s hget => starts_visitSession hget _ _

theorem starts_of_walk {command : Command Store Unit}
    (hwalk : Command.Relates (Starts [taskId] [] fun _ => True) command store)
    (hend : Idle (command.after store) taskId ∨ command.after store = store) :
    Command.Relates (Starts [] [] fun _ => True) command store := by
  rcases hend with hidle | hsame
  · intro id
    have h := hwalk id
    rw [Command.after_eq] at hidle
    generalize hafter : (command.run store).2.tasks.get? id = after at h
    generalize store.tasks.get? id = before at h
    have hout : ∀ task, after = some task → task.status = .inProgress → id ∉ [taskId] := by
      rintro task rfl hstatus hmem
      obtain rfl := List.mem_singleton.mp hmem
      exact hidle task hafter hstatus
    cases h with
    | absent => exact .absent
    | created hresource hstarted =>
        refine .created hresource fun hstatus => ?_
        exact ((hstarted hstatus).elim (hout _ rfl hstatus) List.not_mem_nil).elim
    | kept hresource hstarted hfree =>
        refine .kept hresource (fun hstatus => ?_) hfree
        exact .inl ((hstarted hstatus).resolve_right (hout _ rfl hstatus))
  · rw [Command.after_eq] at hsame
    unfold Command.Relates
    rw [hsame]
    exact refl_of (Starts _ _ _) store

theorem exists_run_transition (newStatus : TaskStatus) (hget : store.tasks.get? id = some task)
    (hvalid : isValidTransition task.status newStatus) (hne : task.status ≠ newStatus) :
    ∃ moved t, (Store.transition id newStatus).run store = (some moved, t) ∧
      moved.status = newStatus ∧ t.tasks.get? id = some moved := by
  refine ⟨_, _, Store.run_transition hget hvalid hne, rfl, ?_⟩
  have hid : (Store.transitioned task newStatus).id = id := store.keyed id task hget
  rw [Store.tasks_put, if_pos hid]

theorem run_transition_invalid {newStatus : TaskStatus} (hget : store.tasks.get? id = some task)
    (hinvalid : isValidTransition task.status newStatus = false) (hne : task.status ≠ newStatus) :
    (Store.transition id newStatus).run store = (none, store) := by
  rw [Store.transition, Command.run_bind_of_some (Store.run_get id), hget]
  simp only [hne, ↓reduceIte, hinvalid]
  rfl

theorem startForCompletion_cases (hget : store.tasks.get? task.id = some task) :
    (startForCompletion task).run store = (none, store) ∨
      ∃ started t, (startForCompletion task).run store = (some started, t) ∧
        t.tasks.get? task.id = some started ∧
        (started.status = .inProgress ∨ started.status = .review) := by
  unfold startForCompletion
  by_cases hstarted : task.status = .inProgress ∨ task.status = .review
  · rw [if_pos hstarted]
    exact .inr ⟨task, store, rfl, hget, hstarted⟩
  rw [if_neg hstarted]
  by_cases hblocked : task.status = .blocked
  · rw [if_pos hblocked]
    obtain ⟨ready, s, hrun, hready, hs⟩ := exists_run_transition .ready hget
      (by rw [hblocked]; rfl) (by rw [hblocked]; decide)
    obtain ⟨started, t, hrun', hwork, ht⟩ := exists_run_transition .inProgress hs
      (by rw [hready]; rfl) (by rw [hready]; decide)
    exact .inr ⟨started, t, (Command.run_bind_of_some hrun).trans hrun', ht, .inl hwork⟩
  rw [if_neg hblocked]
  by_cases hready : task.status = .ready
  · obtain ⟨started, t, hrun, hwork, ht⟩ := exists_run_transition .inProgress hget
      (by rw [hready]; rfl) (by rw [hready]; decide)
    exact .inr ⟨started, t, hrun, ht, .inl hwork⟩
  · left
    apply run_transition_invalid hget
    · cases hstatus : task.status <;> simp_all <;> rfl
    · exact fun h => hstarted (.inl h)

theorem idle_completeReviewed {reviewed : Task} (hget : store.tasks.get? taskId = some reviewed)
    (hstatus : reviewed.status = .review) :
    Idle ((do let _ ← Store.transition taskId .done : Command Store Unit).after store) taskId := by
  obtain ⟨ended, t, hrun, hdone, ht⟩ := exists_run_transition .done hget
    (by rw [hstatus]; rfl) (by rw [hstatus]; decide)
  intro task htask
  rw [Command.after_eq, Command.run_discard, hrun, ht, Option.some.injEq] at htask
  rw [← htask, hdone]
  decide

theorem starts_aofTaskComplete (taskId : String) :
    Command.Relates (Starts [] [] fun _ => True) (aofTaskComplete taskId) store := by
  have hmove : ∀ (status : TaskStatus) (s : Store),
      Command.Relates (Starts [taskId] [] fun _ => True) (Store.transition taskId status) s :=
    fun _ _ => starts_transition (fun _ => List.mem_cons_self) (.inl trivial)
  have hwalk : Command.Relates (Starts [taskId] [] fun _ => True) (aofTaskComplete taskId)
      store := by
    refine starts_get ?_
    split
    · exact .throw store
    · rename_i task hget
      obtain rfl := store.keyed taskId task hget
      split
      · exact .throw store
      · have hstart : Command.Relates (Starts [task.id] [] fun _ => True) (startForCompletion task)
            store := by
          unfold startForCompletion
          split
          · exact .pure task store
          · split
            · exact (hmove .ready store).bind fun _ t _ => hmove .inProgress t
            · exact hmove .inProgress store
        refine hstart.bind fun started t _ => ?_
        split
        · refine (hmove .review t).bind fun _ u _ => ?_
          exact (hmove .done u).bind fun _ v _ => .pure () v
        · exact (hmove .done t).bind fun _ v _ => .pure () v
  apply starts_of_walk hwalk
  rw [Command.after_eq, aofTaskComplete, Command.run_bind_of_some (Store.run_get taskId)]
  split
  · exact .inr rfl
  · rename_i task hget
    obtain rfl := store.keyed taskId task hget
    split
    · exact .inr rfl
    · rcases startForCompletion_cases hget with hthrow | ⟨started, t, hrun, ht, hstatus⟩
      · right
        rw [Command.run_bind_of_none hthrow]
      · left
        rw [Command.run_bind_of_some hrun]
        split
        · rename_i hwork
          obtain ⟨reviewed, u, hrun', hreviewed, hu⟩ := exists_run_transition .review ht
            (by rw [hwork]; rfl) (by rw [hwork]; decide)
          rw [Command.run_bind_of_some hrun']
          exact idle_completeReviewed hu hreviewed
        · rename_i hwork
          exact idle_completeReviewed ht (hstatus.resolve_left hwork)

theorem onePerResource_step {next : Store} {event : StoreEvent} (hone : OnePerResource store)
    (hspreads : SpreadsResources store event) (hstep : storeStep store event = some next) :
    OnePerResource next := by
  obtain rfl := Option.some.inj hstep
  cases event with
  | poll input => exact onePerResource_poll hone hspreads
  | complete taskId => exact onePerResource_of_starts hone (starts_aofTaskComplete taskId)
  | report message => exact onePerResource_of_starts hone (starts_handleCompletionReport message)
  | sessionEnd executor clock =>
      exact onePerResource_of_starts hone (starts_handleSessionEnd executor clock)
  | runComplete taskId errorClass =>
      have hstarts : Command.Relates (Starts [] [] fun _ => True)
          (handleRunComplete taskId errorClass) store := starts_handleRunComplete trivial errorClass
      exact onePerResource_of_starts hone hstarts
  | hopComplete taskId hopId timestamp =>
      have hstarts : Command.Relates (Starts [] [] fun _ => True)
          (onRunComplete taskId hopId timestamp) store :=
        starts_onRunComplete trivial hopId timestamp
      exact onePerResource_of_starts hone hstarts
  | sessionWrites taskId result =>
      have hstarts : Command.Relates (Starts [] [] fun _ => True)
          (Store.writeRunResult taskId result) store := starts_writeRunResult taskId result
      exact onePerResource_of_starts hone hstarts

/-- At most one task at work names a resource in every state of a run whose polls spread the
resources. -/
theorem resources_serialized {store next : Store} {events : List StoreEvent}
    (hone : OnePerResource store)
    (hrun : StepSystem.Run storeStep SpreadsResources store events next) : OnePerResource next :=
  hrun.invariant OnePerResource (fun _ _ _ hone hspreads hstep =>
    onePerResource_step hone hspreads hstep) hone

def needing (id resource : String) : Task :=
  { readyFor id "swe" with resource := some resource }

def storeWith (first second : Task) (hne : first.id ≠ second.id) : Store where
  tasks := ⟨[(first.id, first), (second.id, second)], by simpa using hne⟩
  runResults := .empty
  keyed := by
    intro id task hget
    rw [Dict.get?_eq_some_iff, List.mem_pair] at hget
    rcases hget with h | h <;> obtain ⟨rfl, rfl⟩ := Prod.mk.inj h <;> rfl

def spawning : PollInput where
  config := {}
  executor := some fun taskId => .success taskId

def atWork (store : Store) (id resource : String) : Bool :=
  (store.tasks.get? id).any fun task => task.status = .inProgress ∧ task.resource = some resource

theorem onePerResource_storeWith (resource resource' : String) :
    OnePerResource (storeWith (needing "A" resource) (needing "B" resource')
      (show "A" ≠ "B" by decide)) := by
  intro id id' task task' hget _ hstatus
  rcases List.mem_pair.mp (Dict.get?_eq_some_iff.mp hget) with h | h
  · obtain ⟨rfl, rfl⟩ := Prod.mk.inj h
    cases hstatus
  · obtain ⟨rfl, rfl⟩ := Prod.mk.inj h
    cases hstatus

/-- One poll assigns two ready tasks that name the same resource. -/
theorem resource_shared : ∃ store next,
    OnePerResource store ∧ StepSystem.FreeRun storeStep store [.poll spawning] next ∧
      ¬ OnePerResource next := by
  refine ⟨storeWith (needing "A" "db") (needing "B" "db") (by decide), _,
    onePerResource_storeWith "db" "db", .snoc (.refl _) trivial rfl, ?_⟩
  intro hone
  have hforth : atWork ((poll spawning).after
      (storeWith (needing "A" "db") (needing "B" "db") (by decide))) "A" "db" = true := by rfl
  have hback : atWork ((poll spawning).after
      (storeWith (needing "A" "db") (needing "B" "db") (by decide))) "B" "db" = true := by rfl
  obtain ⟨task, hget, htask⟩ := (Option.any_eq_true _ _).mp hforth
  obtain ⟨task', hget', htask'⟩ := (Option.any_eq_true _ _).mp hback
  obtain ⟨hstatus, hresource⟩ := of_decide_eq_true htask
  obtain ⟨hstatus', hresource'⟩ := of_decide_eq_true htask'
  have hsame := hone "A" "B" task task' hget hget' hstatus hstatus'
    (hresource.trans hresource'.symm) (by rw [hresource]; nofun)
  exact absurd hsame (by decide)

theorem resources_apart : ∃ next, StepSystem.Run storeStep SpreadsResources
      (storeWith (needing "A" "db") (needing "B" "cache") (by decide))
      [.poll spawning, .complete "A"] next ∧ atWork next "B" "cache" = true ∧
      OnePerResource next := by
  have hpoll : SpreadsResources
      (storeWith (needing "A" "db") (needing "B" "cache") (by decide)) (.poll spawning) := by
    have hcandidates : spawning.candidates
        (storeWith (needing "A" "db") (needing "B" "cache") (by decide)).tasks.values =
          [needing "A" "db", needing "B" "cache"] := by rfl
    refine ⟨?_, .inl ?_⟩ <;> rw [hcandidates]
    · simp [needing]
    · simp [needing]
  have hrun : StepSystem.Run storeStep SpreadsResources
      (storeWith (needing "A" "db") (needing "B" "cache") (by decide))
      ([.poll spawning] ++ [.complete "A"]) _ :=
    .snoc (.snoc (.refl _) hpoll rfl) trivial rfl
  exact ⟨_, hrun, rfl, resources_serialized (onePerResource_storeWith "db" "cache") hrun⟩

end Aof
