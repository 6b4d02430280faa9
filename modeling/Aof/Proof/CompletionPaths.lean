import Aof.Proof.HopCompletion

/-!
# How a task gets out of its workflow

The ends of sessions and the actions of the scheduler move a task with a workflow to `review` only
when its workflow is over, or when the hop that ended asks for a review; they never move it to
`done`.
-/

namespace Aof

abbrev LetThrough (status : TaskStatus) : Prop := status = .review ∨ status = .done

def WorkflowOver (workflow : TaskWorkflow) : Prop :=
  ∀ hopState ∈ workflow.state.hops.values, IsTerminal (some hopState.status)

/-- The result completes the hop in flight of the task object, and that hop does not advance the
workflow by itself. -/
def ReviewRequested (task : Task) (runResult : RunResult) : Prop :=
  ∃ workflow hop, task.workflow = some workflow ∧ findDispatchedHop workflow = some hop.id ∧
    workflow.definition.findHop hop.id = some hop ∧ hop.autoAdvance = false ∧
    (mapRunResultToHopEvent runResult hop.id (some hop)).outcome = .complete

def SameKinds (before after : Store) : Prop := ∀ id,
  (after.tasks.get? id).map (fun task => task.workflow.isSome) =
    (before.tasks.get? id).map fun task => task.workflow.isSome

/-- Which tasks with a workflow may newly be let through, by their id, status and workflow. -/
abbrev Permit := String → TaskStatus → TaskWorkflow → Prop

def noPermit : Permit := fun _ _ _ => False

def anyPermit : Permit := fun _ _ _ => True

structure Guards (permit : Permit) (before after : Store) : Prop where
  kind : SameKinds before after
  through : ∀ id task workflow, after.tasks.get? id = some task →
    task.workflow = some workflow → LetThrough task.status →
    (∃ old, before.tasks.get? id = some old ∧ old.status = task.status ∧
      old.workflow = some workflow) ∨ permit id task.status workflow

instance (permit : Permit) : IsPreorder Store (Guards permit) where
  refl store := ⟨fun _ => rfl, fun _ task _ hget hworkflow _ => .inl ⟨task, hget, rfl, hworkflow⟩⟩
  trans a b c hab hbc := by
    refine ⟨fun id => (hbc.kind id).trans (hab.kind id), ?_⟩
    intro id task workflow hget hworkflow hthrough
    rcases hbc.through id task workflow hget hworkflow hthrough with
      ⟨middle, hmiddle, hstatus, hsame⟩ | hpermit
    · have hbefore := hab.through id middle workflow hmiddle hsame (hstatus ▸ hthrough)
      rwa [hstatus] at hbefore
    · exact .inr hpermit

section Guarding

variable {permit : Permit} {store : Store}

variable {task : Task} {id : String} {newStatus : TaskStatus}

theorem guards_put {task : Task} (old : Task) (hget : store.tasks.get? task.id = some old)
    (hkind : task.workflow.isSome = old.workflow.isSome)
    (hthrough : LetThrough task.status → old.status = task.status ∧ old.workflow = task.workflow ∨
      ∀ workflow, task.workflow = some workflow → permit task.id task.status workflow) :
    Guards permit store (store.put task) := by
  constructor
  · intro id
    rw [Store.tasks_put]
    split
    · rename_i heq
      rw [← heq, hget, Option.map_some, Option.map_some, hkind]
    · rfl
  · intro id other workflow hafter hworkflow hfinished
    rw [Store.tasks_put] at hafter
    split at hafter
    · rename_i heq
      obtain rfl : task = other := by simpa using hafter
      rw [← heq]
      rcases hthrough hfinished with ⟨hstatus, hsame⟩ | hpermit
      · exact .inl ⟨old, hget, hstatus, hsame.trans hworkflow⟩
      · exact .inr (hpermit workflow hworkflow)
    · exact .inl ⟨other, hafter, rfl, hworkflow⟩

theorem relates_get {α : Type} {next : Option Task → Command Store α}
    (hnext : Command.Relates (Guards permit) (next (store.tasks.get? id)) store) :
    Command.Relates (Guards permit) (Store.get id >>= next) store := hnext

theorem relates_save {old : Task} (hget : store.tasks.get? id = some old) (hid : task.id = old.id)
    (hstatus : task.status = old.status) (hworkflow : task.workflow = old.workflow) :
    Command.Relates (Guards permit) (Store.save task) store := by
  rw [← store.keyed id old hget, ← hid] at hget
  exact guards_put old hget (by rw [hworkflow]) fun _ => .inl ⟨hstatus.symm, hworkflow.symm⟩

theorem relates_patch {id : String} {change : Task → Task}
    (hchange : ∀ task, (change task).id = task.id ∧ (change task).status = task.status ∧
      (change task).workflow = task.workflow) :
    Command.Relates (Guards permit) (Store.patch id change) store := by
  refine relates_get ?_
  split
  · exact .pure () store
  · rename_i task hget
    obtain ⟨hid, hstatus, hworkflow⟩ := hchange task
    exact relates_save hget hid hstatus hworkflow

theorem relates_transition {id : String} {newStatus : TaskStatus}
    (hpermit : LetThrough newStatus → ∀ task workflow, store.tasks.get? id = some task →
      task.workflow = some workflow → permit id newStatus workflow) :
    Command.Relates (Guards permit) (Store.transition id newStatus) store := by
  unfold Command.Relates
  rcases Store.transition_cases store id newStatus with hsame | ⟨task, hget, -, -, hrun⟩
  · rw [hsame]
    exact refl_of (Guards permit) store
  · rw [hrun]
    have hid := store.keyed id task hget
    refine guards_put task (by rwa [transitioned_id, hid]) rfl fun hthrough => .inr ?_
    intro workflow hworkflow
    rw [transitioned_id, hid]
    exact hpermit hthrough task workflow hget hworkflow

theorem relates_transition_quiet (hquiet : ¬LetThrough newStatus) :
    Command.Relates (Guards permit) (Store.transition id newStatus) store :=
  relates_transition fun hthrough => absurd hthrough hquiet

theorem relates_transition_then (hquiet : ¬LetThrough newStatus) :
    Command.Relates (Guards permit) (do let _ ← Store.transition id newStatus) store :=
  (relates_transition_quiet hquiet).bind fun _ _ _ => .pure () _

theorem relates_cascadeOnCompletion (completedTaskId : String) :
    Command.Relates (Guards permit) (cascadeOnCompletion completedTaskId) store := by
  refine Command.Relates.bind (refl_of (Guards permit) store) fun allTasks t _ => ?_
  refine Command.Relates.forM _ (fun dependent _ s => ?_) t
  split
  · exact relates_transition_then (by simp)
  · exact .pure () s

theorem relates_transitionToDeadletter (taskId : String) :
    Command.Relates (Guards permit) (transitionToDeadletter taskId) store := by
  refine relates_get ?_
  split
  · exact .throw store
  · exact relates_transition_then (by simp)

theorem relates_trackDispatchFailure (taskId : String) :
    Command.Relates (Guards permit) (trackDispatchFailure taskId) store := by
  refine relates_get ?_
  split
  · exact .throw store
  · rename_i task hget
    exact relates_save hget rfl rfl rfl

theorem relates_handleExpireLease (taskId : String) (allTasks : List Task) (maxRetries : Nat)
    (backoffElapsed : Bool) : Command.Relates (Guards permit)
      (handleExpireLease taskId allTasks maxRetries backoffElapsed) store := by
  refine relates_get ?_
  split
  · exact .pure () store
  · rename_i task hget
    refine Command.Relates.bind (relates_save hget rfl rfl rfl) fun _ t _ => ?_
    split
    · split
      · split
        · exact relates_transitionToDeadletter taskId
        · exact relates_transition_then (by simp)
        · exact .pure () t
      · split
        · exact relates_transition_then (by simp)
        · exact .pure () t
    · exact relates_transition_then (by simp)

theorem relates_handleRequeue (taskId : String) :
    Command.Relates (Guards permit) (handleRequeue taskId) store :=
  (relates_patch fun _ => ⟨rfl, rfl, rfl⟩).bind fun _ _ _ => relates_transition_then (by simp)

theorem relates_acquireLease (taskId agentId : String) (now ttlMs : Nat) :
    Command.Relates (Guards permit) (Store.acquireLease taskId agentId now ttlMs) store := by
  refine relates_get ?_
  split
  · exact .throw store
  · rename_i task hget
    split
    · exact .throw store
    · split
      · exact .throw store
      · refine Command.Relates.bind (relates_save hget rfl rfl rfl) fun _ t _ => ?_
        split
        · exact relates_transition_quiet (by simp)
        · exact .pure _ t

theorem relates_releaseLease (taskId agentId : String) :
    Command.Relates (Guards permit) (Store.releaseLease taskId agentId) store := by
  refine relates_get ?_
  split
  · exact .throw store
  · split
    · exact relates_transition_then (by simp)
    · exact .throw store

theorem acquireLease_stored {taskId agentId : String} {now ttlMs : Nat} {t : Store}
    (hrun : (Store.acquireLease taskId agentId now ttlMs).run store = (some task, t)) :
    t.tasks.get? task.id = some task := by
  rw [Store.acquireLease, Command.run_bind_of_some (Store.run_get taskId)] at hrun
  cases hget : store.tasks.get? taskId with
  | none => simp [hget] at hrun
  | some old =>
      have hid := store.keyed taskId old hget
      have hsaved : (store.put (Store.leased old agentId now ttlMs)).tasks.get? taskId =
          some (Store.leased old agentId now ttlMs) := by
        rw [Store.tasks_put, if_pos (show (Store.leased old agentId now ttlMs).id = taskId from hid)]
      simp only [hget] at hrun
      split at hrun
      · simp at hrun
      · split at hrun
        · simp at hrun
        · rw [Command.run_bind_of_some (Store.run_save _)] at hrun
          split at hrun
          · rename_i hready
            rw [Store.run_transition hsaved (by simp [Store.leased, hready, isValidTransition,
              VALID_TRANSITIONS]) (by simp [Store.leased, hready])] at hrun
            obtain ⟨rfl, rfl⟩ : Store.transitioned (Store.leased old agentId now ttlMs)
                .inProgress = task ∧ _ = t := by simpa using hrun
            rw [Store.tasks_put, if_pos rfl]
          · obtain ⟨rfl, rfl⟩ : Store.leased old agentId now ttlMs = task ∧ _ = t := by
              simpa using hrun
            rw [Store.tasks_put, if_pos rfl]

theorem relates_executeAssignAction (taskId agent : String) (allTasks : List Task)
    (spawn : SpawnResult) (now ttlMs : Nat) :
    Command.Relates (Guards permit) (executeAssignAction taskId agent allTasks spawn now ttlMs)
      store := by
  refine relates_get ?_
  split
  · exact .pure () store
  · split
    · exact .pure () store
    · refine (relates_acquireLease taskId agent now ttlMs).bind fun leasedTask t hleased => ?_
      refine Command.Relates.bind (relates_save (acquireLease_stored hleased) rfl rfl rfl)
        fun _ u _ => ?_
      split
      · exact relates_patch fun _ => ⟨rfl, rfl, rfl⟩
      · split
        · exact (relates_releaseLease taskId agent).attempt
        · refine Command.Relates.bind (relates_patch fun _ => ⟨rfl, rfl, rfl⟩) fun _ w _ => ?_
          split
          · exact relates_transitionToDeadletter taskId
          · exact relates_transition_then (by simp)

theorem relates_handleRunComplete (taskId : String) (errorClass : Option String) :
    Command.Relates (Guards permit) (handleRunComplete taskId errorClass) store := by
  refine relates_get ?_
  split
  · exact .pure () store
  · split
    · exact .pure () store
    · refine Command.Relates.bind (relates_patch fun _ => ⟨rfl, rfl, rfl⟩) fun _ t _ => ?_
      refine (relates_trackDispatchFailure taskId).bind fun _ u _ => ?_
      refine relates_get ?_
      split
      · exact relates_transition_then (by simp)
      · split
        · exact relates_transitionToDeadletter taskId
        · exact relates_transition_then (by simp)

end Guarding

structure Quiet (before after : Store) : Prop where
  kind : SameKinds before after
  through : ∀ id task, after.tasks.get? id = some task → task.workflow.isSome →
    LetThrough task.status → ∃ old, before.tasks.get? id = some old ∧ old.status = task.status

instance : IsPreorder Store Quiet where
  refl store := ⟨fun _ => rfl, fun _ task hget _ _ => ⟨task, hget, rfl⟩⟩
  trans a b c hab hbc := by
    refine ⟨fun id => (hbc.kind id).trans (hab.kind id), ?_⟩
    intro id task hget hworkflow hthrough
    obtain ⟨middle, hmiddle, hstatus⟩ := hbc.through id task hget hworkflow hthrough
    have hkind := hbc.kind id
    rw [hget, hmiddle, Option.map_some, Option.map_some, Option.some.injEq, hworkflow] at hkind
    obtain ⟨old, hold, hsame⟩ := hab.through id middle hmiddle hkind.symm (hstatus ▸ hthrough)
    exact ⟨old, hold, hsame.trans hstatus⟩

section Quieting

variable {store : Store}

theorem Guards.quiet {before after : Store} (hguards : Guards noPermit before after) :
    Quiet before after := by
  refine ⟨hguards.kind, fun id task hget hworkflow hthrough => ?_⟩
  obtain ⟨workflow, hsome⟩ := Option.isSome_iff_exists.1 hworkflow
  rcases hguards.through id task workflow hget hsome hthrough with ⟨old, hold, hstatus, -⟩ | hnone
  · exact ⟨old, hold, hstatus⟩
  · exact hnone.elim

theorem relates_quiet {α : Type} {action : Command Store α}
    (hguards : Command.Relates (Guards noPermit) action store) :
    Command.Relates Quiet action store := Guards.quiet hguards

theorem quiet_put {task : Task} (old : Task) (hget : store.tasks.get? task.id = some old)
    (hkind : task.workflow.isSome = old.workflow.isSome)
    (hstatus : LetThrough task.status → old.status = task.status) :
    Quiet store (store.put task) := by
  constructor
  · intro id
    rw [Store.tasks_put]
    split
    · rename_i heq
      rw [← heq, hget, Option.map_some, Option.map_some, hkind]
    · rfl
  · intro id other hafter _ hthrough
    rw [Store.tasks_put] at hafter
    split at hafter
    · rename_i heq
      obtain rfl : task = other := by simpa using hafter
      exact ⟨old, heq ▸ hget, hstatus hthrough⟩
    · exact ⟨other, hafter, rfl⟩

theorem quiet_dispatchDAGHop {task : Task} (old : Task) (hget : store.tasks.get? task.id = some old)
    (hkind : task.workflow.isSome = old.workflow.isSome)
    (hstatus : LetThrough task.status → old.status = task.status) (hopId : String)
    (spawn : SpawnResult) (timestamp : String) :
    Command.Relates Quiet (dispatchDAGHop task hopId spawn timestamp) store := by
  unfold Command.Relates
  rcases dispatchDAGHop_cases task hopId spawn timestamp store with
    hsame | ⟨workflow, hop, sessionId, -, -, -, hrun⟩
  · rw [hsame]
    exact refl_of Quiet store
  · rw [hrun]
    exact quiet_put old hget (by rw [withWorkflowState_isSome, hkind]) hstatus

theorem quiet_pollDispatch (taskId hopId : String) (spawn : SpawnResult) (timestamp : String) :
    Command.Relates Quiet (pollDispatch taskId hopId spawn timestamp) store := by
  show Command.Relates Quiet (Store.get taskId >>= _) store
  refine (show Command.Relates Quiet (Store.get taskId) store from refl_of Quiet store).bind
    fun fresh t hrun => ?_
  obtain ⟨rfl, rfl⟩ : store.tasks.get? taskId = fresh ∧ store = t := by simpa using hrun
  split
  · exact .pure () store
  · rename_i task hget
    split
    · exact .pure () store
    · split
      · exact .pure () store
      · refine Command.Relates.bind (quiet_dispatchDAGHop task ?_ rfl (fun _ => rfl)
          hopId spawn timestamp) fun _ u _ => .pure () u
        rwa [store.keyed taskId task hget]

theorem quiet_onRunComplete (taskId hopId timestamp : String) :
    Command.Relates Quiet (onRunComplete taskId hopId timestamp) store := by
  have hget : ∀ {α : Type} {next : Option Task → Command Store α} {s : Store},
      Command.Relates Quiet (next (s.tasks.get? taskId)) s →
      Command.Relates Quiet (Store.get taskId >>= next) s := fun h => h
  refine hget ?_
  split
  · exact .pure () store
  · split
    · refine Command.Relates.attempt ?_
      refine (relates_quiet (relates_trackDispatchFailure taskId)).bind fun _ t _ => ?_
      refine hget ?_
      split
      · exact .pure () t
      · rename_i task hstored
        split
        · exact relates_quiet (relates_transitionToDeadletter taskId)
        · split
          · exact .pure () t
          · refine quiet_put task ?_ (withWorkflowState_isSome task _) fun _ => rfl
            rwa [withWorkflowState_id, t.keyed taskId task hstored]
    · exact .pure () store

theorem quiet_executeAction {action : SchedulerAction}
    (hother : ∀ taskId agent, action ≠ .staleHeartbeat taskId agent) :
    Command.Relates Quiet (executeAction action) store := by
  refine Command.Relates.attempt ?_
  cases action with
  | expireLease taskId allTasks maxRetries backoffElapsed =>
      exact relates_quiet (relates_handleExpireLease taskId allTasks maxRetries backoffElapsed)
  | staleHeartbeat taskId agent => exact absurd rfl (hother taskId agent)
  | requeue taskId => exact relates_quiet (relates_handleRequeue taskId)
  | promote taskId => exact relates_quiet (relates_transition_then (by simp))
  | assign taskId agent allTasks spawn now ttlMs =>
      exact relates_quiet (relates_executeAssignAction taskId agent allTasks spawn now ttlMs)
  | deadletter taskId => exact relates_quiet (relates_transitionToDeadletter taskId)
  | block taskId => exact relates_quiet (relates_transition_then (by simp))
  | runComplete taskId errorClass =>
      exact relates_quiet (relates_handleRunComplete taskId errorClass)
  | hopDispatch taskId hopId spawn timestamp =>
      exact quiet_pollDispatch taskId hopId spawn timestamp
  | hopComplete taskId hopId timestamp => exact quiet_onRunComplete taskId hopId timestamp

end Quieting

section Visits

variable {permit : Permit} {store : Store}

variable {id : String} {newStatus : TaskStatus} {task : Task}

theorem Guards.gate {before after : Store} (hguards : Guards permit before after)
    (hgate : ∀ stored, before.tasks.get? id = some stored → stored.workflow = none) :
    ∀ stored, after.tasks.get? id = some stored → stored.workflow = none := by
  intro stored hstored
  have hkind := hguards.kind id
  rw [hstored, Option.map_some, eq_comm, Option.map_eq_some_iff] at hkind
  obtain ⟨old, hold, hsame⟩ := hkind
  rw [hgate old hold] at hsame
  simpa using hsame

theorem relates_transition_gate
    (hgate : ∀ stored, store.tasks.get? id = some stored → stored.workflow = none) :
    Command.Relates (Guards permit) (Store.transition id newStatus) store := by
  refine relates_transition fun _ task workflow hget hworkflow => ?_
  rw [hgate task hget] at hworkflow
  cases hworkflow

theorem transition_id {t : Store}
    (hrun : (Store.transition id newStatus).run store = (some task, t)) : task.id = id := by
  rw [Store.transition, Command.run_bind_of_some (Store.run_get id)] at hrun
  cases hget : store.tasks.get? id with
  | none => simp [hget] at hrun
  | some old =>
      have hid := store.keyed id old hget
      simp only [hget] at hrun
      split at hrun
      · obtain ⟨rfl, -⟩ : old = task ∧ store = t := by simpa using hrun
        exact hid
      · split at hrun
        · rw [Command.run_bind_of_some (Store.run_save _)] at hrun
          obtain ⟨rfl, -⟩ : Store.transitioned old newStatus = task ∧ _ = t := by
            simpa using hrun
          exact hid
        · simp at hrun

theorem relates_foldlM_gate (transitions : List TaskStatus) (current : Task)
    (hgate : ∀ stored, store.tasks.get? current.id = some stored → stored.workflow = none) :
    Command.Relates (Guards permit) (transitions.foldlM applyCompletionTransition current)
      store := by
  induction transitions generalizing current store with
  | nil => exact .pure current store
  | cons nextStatus rest ih =>
      rw [List.foldlM_cons]
      have hturn : Command.Relates (Guards permit) (applyCompletionTransition current nextStatus)
          store := by
        unfold applyCompletionTransition
        split
        · exact .pure current store
        · split
          · exact relates_transition_gate hgate
          · exact .pure current store
      refine hturn.bind fun next t hrun => ih next ?_
      have hid : next.id = current.id := by
        unfold applyCompletionTransition at hrun
        split at hrun
        · obtain ⟨rfl, -⟩ : current = next ∧ store = t := by simpa using hrun
          rfl
        · split at hrun
          · exact transition_id hrun
          · obtain ⟨rfl, -⟩ : current = next ∧ store = t := by simpa using hrun
            rfl
      rw [hid]
      have hafter : Guards permit store t := by simpa [Command.Relates, hrun] using hturn
      exact hafter.gate hgate

theorem relates_dispatchDAGHop (old : Task) (hget : store.tasks.get? task.id = some old)
    (hkind : task.workflow.isSome = old.workflow.isSome) (hquiet : ¬LetThrough task.status)
    (hopId : String) (spawn : SpawnResult) (timestamp : String) :
    Command.Relates (Guards permit) (dispatchDAGHop task hopId spawn timestamp) store := by
  unfold Command.Relates
  rcases dispatchDAGHop_cases task hopId spawn timestamp store with
    hsame | ⟨workflow, hop, sessionId, -, -, -, hrun⟩
  · rw [hsame]
    exact refl_of (Guards permit) store
  · rw [hrun]
    exact guards_put old hget (by rw [withWorkflowState_isSome, hkind]) fun hthrough =>
      absurd hthrough hquiet

/-- What a visit may let through: the visited task, into `review`, when its workflow is over or the
hop that ended asks for a review. -/
def visitPermit (task : Task) (store : Store) : Permit := fun id status workflow =>
  id = task.id ∧ status = .review ∧
    (WorkflowOver workflow ∨
      ∃ runResult, store.runResults.get? task.id = some runResult ∧ ReviewRequested task runResult)

/-- The task object of a scan: in progress, and of the same kind as the stored task. -/
structure ScannedFrom (task : Task) (store : Store) : Prop where
  inProgress : task.status = .inProgress
  kind : ∃ stored, store.tasks.get? task.id = some stored ∧
    task.workflow.isSome = stored.workflow.isSome

theorem relates_completeDAGSession (hscanned : ScannedFrom task store) {runResult : RunResult}
    (hresult : store.runResults.get? task.id = some runResult) (executor : Option SpawnResult)
    (timestamp : String) : Command.Relates (Guards (visitPermit task store))
      (completeDAGSession task runResult executor timestamp) store := by
  obtain ⟨hstatus, stored, hstored, hkind⟩ := hscanned
  have hquiet : ¬LetThrough task.status := by simp [hstatus]
  unfold completeDAGSession
  rcases handleDAGHopCompletion_cases task runResult timestamp store with
    hrun | hrun | ⟨workflow, hopId, result, hcompletion⟩
  · unfold Command.Relates
    rw [Command.run_bind_of_some hrun]
    exact refl_of (Guards (visitPermit task store)) store
  · unfold Command.Relates
    rw [Command.run_bind_of_none hrun]
    exact refl_of (Guards (visitPermit task store)) store
  · have hrun := hcompletion.run store
    have hsaved : Command.Relates (Guards (visitPermit task store))
        (handleDAGHopCompletion task runResult timestamp) store := by
      unfold Command.Relates
      rw [hrun]
      exact guards_put stored hstored (by rw [withWorkflowState_isSome, hkind])
        fun hthrough => absurd hthrough hquiet
    refine hsaved.bind fun answer t hanswer => ?_
    rw [hrun, Prod.mk.injEq, Option.some.injEq] at hanswer
    obtain ⟨rfl, rfl⟩ := hanswer
    have hget : (store.put (task.withWorkflowState result.state)).tasks.get? task.id =
        some (task.withWorkflowState result.state) := by
      rw [Store.tasks_put, if_pos (withWorkflowState_id task _)]
    have hreview : (WorkflowOver { workflow with state := result.state } ∨
        ReviewRequested task runResult) →
        Command.Relates (Guards (visitPermit task store)) (Store.transition task.id .review)
          (store.put (task.withWorkflowState result.state)) := by
      intro hwhy
      refine relates_transition fun _ other otherWorkflow hother hworkflow => ?_
      obtain rfl : task.withWorkflowState result.state = other := by simpa [hget] using hother
      rw [withWorkflowState_workflow hcompletion.workflow_eq, Option.some.injEq] at hworkflow
      subst hworkflow
      exact ⟨rfl, rfl, hwhy.imp_right fun hrequested => ⟨runResult, hresult, hrequested⟩⟩
    dsimp only [HopCompletion.answer]
    split
    · rename_i hcomplete
      split
      · refine Command.Relates.bind (hreview (.inl ?_)) fun _ u _ => ?_
        · exact evaluateDAG_over hcompletion.evaluated hcomplete
        · exact (relates_cascadeOnCompletion task.id).attempt
      · exact relates_transition_then (by simp)
    · split
      · rename_i hrequired
        refine Command.Relates.bind (hreview (.inr ?_)) fun _ u _ => .pure () u
        rw [decide_eq_true_eq] at hrequired
        obtain ⟨houtcome, hauto⟩ := hrequired
        cases hhop : workflow.definition.findHop hopId with
        | none => simp [hhop] at hauto
        | some hop =>
            rw [hhop] at houtcome hauto
            obtain rfl := (mem_of_findHop hhop).2
            exact ⟨workflow, hop, hcompletion.workflow_eq, hcompletion.dispatched, hhop,
              by simpa using hauto, houtcome⟩
      · split
        · refine Command.Relates.bind ?_ fun _ u _ => .pure () u
          refine relates_dispatchDAGHop _ ?_ rfl ?_ _ _ timestamp
          · exact hget
          · exact hquiet
        · exact .pure () _

theorem relates_visitSession (hscanned : ScannedFrom task store) (executor : Option SpawnResult)
    (timestamp : String) :
    Command.Relates (Guards (visitPermit task store)) (visitSession task executor timestamp)
      store := by
  obtain ⟨stored, hstored, hkind⟩ := hscanned.kind
  have hread : (Store.readRunResult task.id).run store =
      (some (store.runResults.get? task.id), store) := by
    rw [Store.run_readRunResult, hstored, Option.bind_some]
  unfold visitSession
  refine Command.Relates.bind (by unfold Command.Relates; rw [hread]; exact refl_of _ store)
    fun found t hfound => ?_
  rw [hread, Prod.mk.injEq, Option.some.injEq] at hfound
  obtain ⟨rfl, rfl⟩ := hfound
  split
  · exact .pure () store
  · rename_i runResult hresult
    split
    · exact (relates_completeDAGSession hscanned hresult executor timestamp).attempt
    · rename_i hworkflow
      have hgate : ∀ other, store.tasks.get? task.id = some other → other.workflow = none := by
        intro other hother
        obtain rfl : stored = other := by simpa [hstored] using hother
        simpa [hkind] using hworkflow
      have houtcome : Command.Relates (Guards (visitPermit task store))
          (applyCompletionOutcome task runResult.outcome) store :=
        (relates_foldlM_gate _ task hgate).bind fun _ t _ => .pure () t
      refine houtcome.bind fun _ t _ => ?_
      split
      · exact (relates_cascadeOnCompletion task.id).attempt
      · exact .pure () t

end Visits

def Visits (world : World) (id : String) : Operation → Prop
  | .visit index .. => ∃ task, world.scanned[index]? = some task ∧ task.id = id
  | _ => False

/-- The operations that end workflows and the actions of the scheduler, but for its recovery of
stale heartbeats. -/
def LooksAtWorkflow : Operation → Prop
  | .report _ | .complete _ => False
  | .schedule (.staleHeartbeat ..) => False
  | _ => True

/-- A task with a workflow that is newly let through was visited at the end of a session, is now in
`review`, and its workflow is over or the hop that ended asks for a review. -/
def ThroughWorkflow (world : World) (operation : Operation) (next : World) : Prop :=
  ∀ id old task workflow, world.store.tasks.get? id = some old →
    next.store.tasks.get? id = some task → task.workflow = some workflow →
    LetThrough task.status → old.status ≠ task.status →
    ∃ index executor timestamp scanned, operation = .visit index executor timestamp ∧
      world.scanned[index]? = some scanned ∧ scanned.id = id ∧ task.status = .review ∧
      (WorkflowOver workflow ∨ ∃ runResult, world.store.runResults.get? id = some runResult ∧
        ReviewRequested scanned runResult)

section Runs

variable {world next : World} {operation : Operation}

def ScansCurrent (world : World) : Prop :=
  ∀ task ∈ world.scanned, ScannedFrom task world.store

variable {task : Task} {store : Store}

theorem ScannedFrom.mono {before after : Store} (hscanned : ScannedFrom task before)
    (hkind : SameKinds before after) : ScannedFrom task after := by
  obtain ⟨hstatus, stored, hstored, hsame⟩ := hscanned
  refine ⟨hstatus, ?_⟩
  have hafter := hkind task.id
  rw [hstored, Option.map_some, Option.map_eq_some_iff] at hafter
  obtain ⟨other, hother, heq⟩ := hafter
  exact ⟨other, hother, hsame.trans heq.symm⟩

theorem quiet_escalateHopTimeout (hscanned : ScannedFrom task store) (hopId : String)
    (spawn : Option SpawnResult) (timestamp : String) :
    Quiet store ((escalateHopTimeout task hopId spawn timestamp).run store).2 ∧
      ∀ changed, ((escalateHopTimeout task hopId spawn timestamp).run store).1 = some changed →
        changed.id = task.id ∧ changed.status = task.status ∧
          changed.workflow.isSome = task.workflow.isSome := by
  obtain ⟨hstatus, stored, hstored, hkind⟩ := hscanned
  have hsame : Quiet store store ∧ ∀ changed, some task = some changed →
      changed.id = task.id ∧ changed.status = task.status ∧
        changed.workflow.isSome = task.workflow.isSome := by
    refine ⟨refl_of Quiet store, fun changed hchanged => ?_⟩
    obtain rfl : task = changed := by simpa using hchanged
    exact ⟨rfl, rfl, rfl⟩
  unfold escalateHopTimeout
  split
  · refine ⟨refl_of Quiet store, fun changed hchanged => ?_⟩
    cases hchanged
  · split
    · split
      · exact hsame
      · refine ⟨?_, fun changed hchanged => ?_⟩
        · refine quiet_put stored hstored (by rw [withWorkflowState_isSome, hkind]) ?_
          exact fun hthrough => absurd (hstatus ▸ hthrough) (by simp)
        · obtain rfl : task.withWorkflowState _ = changed := Option.some.inj hchanged
          exact ⟨rfl, rfl, withWorkflowState_isSome task _⟩
    · exact hsame

theorem quiet_writeRunResult (taskId : String) (result : RunResult) :
    Command.Relates Quiet (Store.writeRunResult taskId result) store := by
  unfold Store.writeRunResult Command.Relates
  rw [Command.run_bind_of_some (Store.run_get taskId)]
  split
  · exact Command.Relates.throw store
  · split
    · exact ⟨fun _ => rfl, fun _ task hget _ _ => ⟨task, hget, rfl⟩⟩
    · exact Command.Relates.throw store

/-! The other operations keep the kinds, whatever they let through. -/

theorem relates_transition_any (id : String) (newStatus : TaskStatus) :
    Command.Relates (Guards anyPermit) (do let _ ← Store.transition id newStatus) store :=
  (relates_transition fun _ _ _ _ _ => trivial).bind fun _ _ _ => .pure () _

theorem relates_applyCompletionOutcome (task : Task) (outcome : CompletionOutcome) :
    Command.Relates (Guards anyPermit) (applyCompletionOutcome task outcome) store := by
  refine Command.Relates.bind ?_ fun _ t _ => .pure () t
  generalize resolveCompletionTransitions task outcome = transitions
  induction transitions generalizing task store with
  | nil => exact .pure task store
  | cons nextStatus rest ih =>
      rw [List.foldlM_cons]
      refine Command.Relates.bind ?_ fun next t _ => ih next
      unfold applyCompletionTransition
      split
      · exact .pure task store
      · split
        · exact relates_transition fun _ _ _ _ _ => trivial
        · exact .pure task store

theorem relates_handleCompletionReport (report : CompletionReport) :
    Command.Relates (Guards anyPermit) (handleCompletionReport report) store := by
  refine relates_get ?_
  split
  · exact .pure () store
  · rename_i task _
    split
    · have hwrite : Command.Relates (Guards anyPermit) (Store.writeRunResult report.taskId
          ⟨report.taskId, report.fromAgent, report.outcome, report.notes⟩) store := by
        refine relates_get ?_
        split
        · exact .throw store
        · split
          · exact ⟨fun _ => rfl, fun _ task workflow hget hworkflow _ =>
              .inl ⟨task, hget, rfl, hworkflow⟩⟩
          · exact .throw store
      refine hwrite.bind fun _ t _ => ?_
      refine (relates_applyCompletionOutcome task report.outcome).bind fun _ u _ => ?_
      split
      · exact (relates_cascadeOnCompletion report.taskId).attempt
      · exact .pure () u
    · exact .pure () store

theorem relates_aofTaskComplete (taskId : String) :
    Command.Relates (Guards anyPermit) (aofTaskComplete taskId) store := by
  refine relates_get ?_
  split
  · exact .throw store
  · rename_i task _
    split
    · exact .throw store
    · have hstart : Command.Relates (Guards anyPermit) (startForCompletion task) store := by
        unfold startForCompletion
        split
        · exact .pure task store
        · split
          · refine Command.Relates.bind (relates_transition fun _ _ _ _ _ => trivial) fun _ t _ => ?_
            exact relates_transition fun _ _ _ _ _ => trivial
          · exact relates_transition fun _ _ _ _ _ => trivial
      refine hstart.bind fun started t _ => ?_
      split
      · refine Command.Relates.bind (relates_transition fun _ _ _ _ _ => trivial) fun _ u _ => ?_
        exact relates_transition_any taskId .done
      · exact relates_transition_any taskId .done

theorem relates_handleStaleHeartbeat (taskId : String) (agent : Option String) :
    Command.Relates (Guards anyPermit) (handleStaleHeartbeat taskId agent) store := by
  refine relates_get ?_
  split
  · exact .pure () store
  · split
    · exact .pure () store
    · split
      · exact .pure () store
      · refine Command.Relates.bind (refl_of (Guards anyPermit) store) fun found t _ => ?_
        split
        · exact relates_transition_any taskId .ready
        · refine (Command.Relates.forM _ (fun target _ s => relates_transition_any taskId target)
            t).bind fun _ u _ => ?_
          split
          · exact (relates_cascadeOnCompletion taskId).attempt
          · exact .pure () u

theorem sameKinds_step (hscans : ScansCurrent world)
    (hstep : programStep world operation = some next) : SameKinds world.store next.store := by
  cases operation with
  | scan =>
      obtain rfl := Option.some.inj hstep
      exact fun _ => rfl
  | visit index executor timestamp =>
      simp only [programStep, Option.bind_eq_bind, Option.bind_eq_some_iff,
        Option.some.injEq] at hstep
      obtain ⟨task, htask, rfl⟩ := hstep
      exact (relates_visitSession (hscans task (List.mem_of_getElem? htask)) executor
        timestamp).kind
  | hopTimeout index hopId spawn timestamp =>
      simp only [programStep, Option.bind_eq_bind, Option.bind_eq_some_iff,
        Option.some.injEq] at hstep
      obtain ⟨task, htask, rfl⟩ := hstep
      exact (quiet_escalateHopTimeout (hscans task (List.mem_of_getElem? htask)) hopId spawn
        timestamp).1.kind
  | report report =>
      obtain rfl := Option.some.inj hstep
      exact (relates_handleCompletionReport report).kind
  | complete taskId =>
      obtain rfl := Option.some.inj hstep
      exact (relates_aofTaskComplete taskId).kind
  | schedule action =>
      obtain rfl := Option.some.inj hstep
      by_cases hstale : ∃ taskId agent, action = .staleHeartbeat taskId agent
      · obtain ⟨taskId, agent, rfl⟩ := hstale
        exact (relates_handleStaleHeartbeat taskId agent).attempt.kind
      · exact (quiet_executeAction fun taskId agent heq => hstale ⟨taskId, agent, heq⟩).kind
  | sessionWrites taskId result =>
      obtain rfl := Option.some.inj hstep
      exact (quiet_writeRunResult taskId result).kind

theorem scansCurrent_step (hscans : ScansCurrent world)
    (hstep : programStep world operation = some next) : ScansCurrent next := by
  have hkinds := sameKinds_step hscans hstep
  have hkept : ∀ task ∈ world.scanned, ScannedFrom task next.store := fun task htask =>
    (hscans task htask).mono hkinds
  cases operation with
  | scan =>
      obtain rfl := Option.some.inj hstep
      intro task htask
      rcases List.mem_append.1 htask with hold | hnew
      · exact hkept task hold
      · simp only [inProgressTasks, List.mem_filter, decide_eq_true_eq,
          Dict.mem_values_iff_get?] at hnew
        obtain ⟨⟨id, hget⟩, hstatus⟩ := hnew
        refine ⟨hstatus, task, ?_, rfl⟩
        rwa [world.store.keyed id task hget]
  | visit index executor timestamp =>
      simp only [programStep, Option.bind_eq_bind, Option.bind_eq_some_iff,
        Option.some.injEq] at hstep
      obtain ⟨visited, -, rfl⟩ := hstep
      exact fun task htask => hkept task (List.mem_of_mem_eraseIdx htask)
  | hopTimeout index hopId spawn timestamp =>
      simp only [programStep, Option.bind_eq_bind, Option.bind_eq_some_iff,
        Option.some.injEq] at hstep
      obtain ⟨timed, htimed, rfl⟩ := hstep
      have hmem := List.mem_of_getElem? htimed
      intro task htask
      rcases List.mem_or_eq_of_mem_set htask with hold | rfl
      · exact hkept task hold
      · have hchanged := (quiet_escalateHopTimeout (hscans timed hmem) hopId spawn timestamp).2
        obtain ⟨hstatus, stored, hstored, hkind⟩ := hkept timed hmem
        cases hresult : ((escalateHopTimeout timed hopId spawn timestamp).run world.store).1 with
        | none => exact ⟨hstatus, stored, hstored, hkind⟩
        | some changed =>
            obtain ⟨hid, hsame, hisSome⟩ := hchanged changed hresult
            exact ⟨hsame.trans hstatus, stored, hid ▸ hstored, hisSome.trans hkind⟩
  | report | complete | schedule | sessionWrites =>
      obtain rfl := Option.some.inj hstep
      exact hkept

theorem throughWorkflow_of_quiet (hquiet : Quiet world.store next.store) :
    ThroughWorkflow world operation next := by
  intro id old task workflow hold htask hworkflow hthrough hne
  obtain ⟨other, hother, hstatus⟩ := hquiet.through id task htask (by simp [hworkflow]) hthrough
  obtain rfl : old = other := by simpa [hold] using hother
  exact absurd hstatus hne

theorem throughWorkflow_step (hscans : ScansCurrent world) (hlooks : LooksAtWorkflow operation)
    (hstep : programStep world operation = some next) : ThroughWorkflow world operation next := by
  cases operation with
  | scan =>
      obtain rfl := Option.some.inj hstep
      exact throughWorkflow_of_quiet (refl_of Quiet world.store)
  | visit index executor timestamp =>
      simp only [programStep, Option.bind_eq_bind, Option.bind_eq_some_iff,
        Option.some.injEq] at hstep
      obtain ⟨scanned, hscanned, rfl⟩ := hstep
      intro id old task workflow hold htask hworkflow hthrough hne
      rcases (relates_visitSession (hscans scanned (List.mem_of_getElem? hscanned)) executor
        timestamp).through id task workflow htask hworkflow hthrough with
        ⟨other, hother, hstatus, -⟩ | ⟨rfl, hreview, hwhy⟩
      · obtain rfl : old = other := by simpa [hold] using hother
        exact absurd hstatus hne
      · exact ⟨index, executor, timestamp, scanned, rfl, hscanned, rfl, hreview, hwhy⟩
  | hopTimeout index hopId spawn timestamp =>
      simp only [programStep, Option.bind_eq_bind, Option.bind_eq_some_iff,
        Option.some.injEq] at hstep
      obtain ⟨task, htask, rfl⟩ := hstep
      exact throughWorkflow_of_quiet (quiet_escalateHopTimeout
        (hscans task (List.mem_of_getElem? htask)) hopId spawn timestamp).1
  | report | complete => exact hlooks.elim
  | schedule action =>
      obtain rfl := Option.some.inj hstep
      refine throughWorkflow_of_quiet (quiet_executeAction fun taskId agent heq => ?_)
      rw [heq] at hlooks
      exact hlooks
  | sessionWrites taskId result =>
      obtain rfl := Option.some.inj hstep
      exact throughWorkflow_of_quiet (quiet_writeRunResult taskId result)

/-- In every run of the program, a session end lets a task with a workflow through only into
`review`, with its workflow over or at a hop that asks for a review; the actions of the scheduler
let none through. -/
theorem tasks_pass_through_workflow {initial : World} (hempty : initial.scanned = [])
    {operations : List Operation} (hrun : StepSystem.FreeRun programStep initial operations world)
    (hlooks : LooksAtWorkflow operation) (hstep : programStep world operation = some next) :
    ThroughWorkflow world operation next := by
  refine throughWorkflow_step (hrun.invariant ScansCurrent ?_ ?_) hlooks hstep
  · exact fun _ _ _ hscans _ hstep => scansCurrent_step hscans hstep
  · simp [ScansCurrent, hempty]

end Runs

section Documents

def storeOf (task : Task) (result : RunResult) : Store :=
  { (Store.put ⟨Dict.empty, Dict.empty, by simp⟩ task) with
    runResults := Dict.empty.set task.id result }

def taskAt (definition : WorkflowDefinition) (hop : Hop) : Task :=
  { id := "T1"
    status := .inProgress
    workflow := some ⟨definition, markDispatched hop (initializeWorkflowState definition) "s1" "t1"⟩ }

def reviewedDraft : WorkflowDefinition :=
  { name := "reviewed-draft"
    hops := [{ id := "draft", role := "writer", autoAdvance := false },
      { id := "publish", role := "ops", dependsOn := ["draft"] }] }

def draftDone : World :=
  { store := storeOf (taskAt reviewedDraft { id := "draft", role := "writer", autoAdvance := false })
      ⟨"T1", "writer", .done, ""⟩
    scanned := [] }

theorem draftDone_reviewed : ∃ world next, StepSystem.FreeRun programStep draftDone [.scan] world ∧
    programStep world (.visit 0 none "t2") = some next ∧
    (next.store.tasks.get? "T1").map Task.status = some .review ∧
    ThroughWorkflow world (.visit 0 none "t2") next := by
  obtain ⟨world, next, hscan, hvisit, hreview⟩ : ∃ world next,
      programStep draftDone .scan = some world ∧
      programStep world (.visit 0 none "t2") = some next ∧
      (next.store.tasks.get? "T1").map Task.status = some .review := by
    refine ⟨_, _, rfl, rfl, ?_⟩
    decide
  have hrun : StepSystem.FreeRun programStep draftDone [.scan] world :=
    .head trivial hscan (.refl world)
  exact ⟨world, next, hrun, hvisit, hreview, tasks_pass_through_workflow rfl hrun trivial hvisit⟩

/-- A hop that does not advance the workflow by itself lets its task through unfinished. -/
theorem unfinished_in_review : ¬∀ initial : World, initial.scanned = [] →
    ∀ operations world operation next, StepSystem.FreeRun programStep initial operations world →
    programStep world operation = some next →
    ∀ id old task workflow, world.store.tasks.get? id = some old →
      next.store.tasks.get? id = some task → task.workflow = some workflow →
      LetThrough task.status → old.status ≠ task.status →
      ∀ hopState ∈ workflow.state.hops.values, IsSatisfied (some hopState.status) := by
  intro hall
  obtain ⟨world, next, hscan, hvisit, hbefore, hafter, hpending⟩ : ∃ world next,
      programStep draftDone .scan = some world ∧
      programStep world (.visit 0 none "t2") = some next ∧
      (world.store.tasks.get? "T1").map Task.status = some .inProgress ∧
      (next.store.tasks.get? "T1").map Task.status = some .review ∧
      ((next.store.tasks.get? "T1").bind Task.workflow).map
        (fun workflow => statusOf workflow.state.hops "publish") = some (some .ready) := by
    refine ⟨_, _, rfl, rfl, ?_⟩
    decide
  obtain ⟨old, hold, holdStatus⟩ := Option.map_eq_some_iff.1 hbefore
  obtain ⟨task, htask, hstatus⟩ := Option.map_eq_some_iff.1 hafter
  rw [htask, Option.bind_some] at hpending
  obtain ⟨workflow, hworkflow, hpublish⟩ := Option.map_eq_some_iff.1 hpending
  obtain ⟨hopState, hget, hready⟩ := statusOf_eq_some_iff.1 hpublish
  have hdone := hall draftDone rfl [.scan] world (.visit 0 none "t2") next
    (.head trivial hscan (.refl world)) hvisit "T1" old task workflow hold htask hworkflow
    (.inl hstatus) (by simp [holdStatus, hstatus]) hopState
    (Dict.mem_values_iff_get?.2 ⟨"publish", hget⟩)
  rw [hready] at hdone
  revert hdone
  decide

end Documents

end Aof
