import Aof.Events.TransitionLog
import Aof.Proof.ManualBlock

/-!
# The journal and the store

Without its journal a run is a run of the store as before, and the changes of status that the
journal puts down lead each task from the status that it had to the one that it has.
-/

namespace Aof

open Command

def Store.statusOf (store : Store) (id : String) : Option TaskStatus :=
  (store.tasks.get? id).map Task.status

/-- Changes that follow each other, from one status to another; a task may be created first. -/
inductive StatusPath (start : Option TaskStatus) : List StatusChange → Option TaskStatus → Prop
  | refl : StatusPath start [] start
  | created {path : List StatusChange} (status : TaskStatus) :
      StatusPath start path none → StatusPath start path (some status)
  | moved {path : List StatusChange} {change : StatusChange} :
      StatusPath start path (some change.fromStatus) → change.fromStatus ≠ change.toStatus →
      StatusPath start (path ++ [change]) (some change.toStatus)

theorem StatusPath.trans {start middle finish : Option TaskStatus} {path more : List StatusChange}
    (hpath : StatusPath start path middle) (hmore : StatusPath middle more finish) :
    StatusPath start (path ++ more) finish := by
  induction hmore with
  | refl => rwa [List.append_nil]
  | created status _ ih => exact .created status ih
  | moved _ hne ih =>
      rw [← List.append_assoc]
      exact .moved ih hne

def StatusChange.about (id : String) (change : StatusChange) : Bool := change.taskId = id

def changesOf (id : String) (changes : List StatusChange) : List StatusChange :=
  changes.filter (StatusChange.about id)

def LeadsTask (id : String) (before : Store) (made : List StatusChange) (after : Store) : Prop :=
  StatusPath (before.statusOf id) (changesOf id made) (after.statusOf id)

theorem leading_leadsTask (id : String) : Leading (LeadsTask id) where
  nil _ := .refl
  append hfirst hsecond := by
    unfold LeadsTask changesOf
    rw [List.filter_append]
    exact hfirst.trans hsecond

theorem filter_key {α : Type} (key : α → String) {xs : List α} {x : α} (hmem : x ∈ xs)
    (hnodup : (xs.map key).Nodup) : xs.filter (fun y => decide (key y = key x)) = [x] := by
  induction xs with
  | nil => exact absurd hmem List.not_mem_nil
  | cons y rest ih =>
      rw [List.map_cons, List.nodup_cons] at hnodup
      rcases List.mem_cons.mp hmem with rfl | hrest
      · rw [List.filter_cons_of_pos (by simp), List.filter_eq_nil_iff.mpr]
        intro z hz hsame
        exact hnodup.1 (of_decide_eq_true hsame ▸ List.mem_map_of_mem hz)
      · rw [List.filter_cons_of_neg, ih hrest hnodup.2]
        intro hsame
        exact hnodup.1 (of_decide_eq_true hsame ▸ List.mem_map_of_mem hrest)

theorem filter_list (store : Store) (id : String) :
    store.tasks.values.filter (fun task => decide (task.id = id)) =
      (store.tasks.get? id).toList := by
  cases hget : store.tasks.get? id with
  | some task =>
      obtain rfl : task.id = id := store.keyed id task hget
      exact filter_key Task.id (mem_list_iff.mpr hget) (nodup_list store)
  | none =>
      rw [Option.toList_none, List.filter_eq_nil_iff]
      intro task htask hid
      obtain rfl : task.id = id := of_decide_eq_true hid
      rw [mem_list_iff.mp htask] at hget
      cases hget

def statusChange (before : Store) (task : Task) : Option StatusChange :=
  (before.tasks.get? task.id).bind fun old =>
    if old.status = task.status then none else some ⟨task.id, old.status, task.status⟩

theorem taskId_of_statusChange {before : Store} {task : Task} {change : StatusChange}
    (hchange : statusChange before task = some change) : change.taskId = task.id := by
  obtain ⟨old, -, hmade⟩ := Option.bind_eq_some_iff.mp hchange
  split at hmade
  · cases hmade
  · obtain rfl := Option.some.inj hmade
    rfl

theorem changesOf_filterMap (before : Store) (id : String) (tasks : List Task) :
    changesOf id (tasks.filterMap (statusChange before)) =
      (tasks.filter fun task => decide (task.id = id)).filterMap (statusChange before) := by
  induction tasks with
  | nil => rfl
  | cons task rest ih =>
      cases hchange : statusChange before task with
      | none =>
          rw [List.filterMap_cons_none hchange, ih, List.filter_cons]
          split
          · rw [List.filterMap_cons_none hchange]
          · rfl
      | some change =>
          have htask := taskId_of_statusChange hchange
          rw [List.filterMap_cons_some hchange]
          by_cases hid : task.id = id
          · have habout : change.about id = true := decide_eq_true (htask.trans hid)
            rw [changesOf, List.filter_cons_of_pos habout, List.filter_cons, if_pos (by simpa using hid),
              List.filterMap_cons_some hchange]
            exact congrArg _ ih
          · have hother : ¬change.about id = true := by simpa [StatusChange.about, htask] using hid
            rw [changesOf, List.filter_cons_of_neg hother, List.filter_cons_of_neg (by simpa using hid)]
            exact ih

theorem changesOf_statusChanges (before after : Store) (id : String) :
    changesOf id (statusChanges before after) =
      ((after.tasks.get? id).bind (statusChange before)).toList := by
  rw [show statusChanges before after = after.tasks.values.filterMap (statusChange before) from rfl,
    changesOf_filterMap, filter_list]
  cases after.tasks.get? id with
  | none => rfl
  | some task =>
      rw [Option.toList_some, Option.bind_some, List.filterMap_cons]
      cases statusChange before task <;> rfl

def Grows (before after : Store) : Prop :=
  ∀ id, (before.tasks.get? id).isSome = true → (after.tasks.get? id).isSome = true

instance : IsPreorder Store Grows where
  refl _ _ := id
  trans _ _ _ hab hbc id := hbc id ∘ hab id

theorem grows_put (store : Store) (task : Task) : Grows store (store.put task) := by
  intro id hsome
  rw [Store.tasks_put]
  split
  · rfl
  · exact hsome

theorem admits_grows : Admits Grows fun _ => True where
  put store _ new _ _ _ := grows_put store new
  create store task _ _ _ := grows_put store task
  result _ _ _ _ := fun _ => id
  cascade completedTaskId store _ := by
    obtain ⟨-, htasks, -⟩ := run_cascadeOnCompletion completedTaskId store
    intro id hsome
    rw [htasks id, Option.isSome_map]
    exact hsome

theorem admitsMarks_grows : AdmitsMarks Grows fun _ => True :=
  fun store _ new _ _ _ => grows_put store new

theorem grows_cascadeOnBlock (blockedTaskId : String) (store : Store) :
    Relates Grows (cascadeOnBlock blockedTaskId) store := by
  obtain ⟨-, htasks, -⟩ := run_cascadeOnBlock blockedTaskId store
  intro id hsome
  rw [htasks id, Option.isSome_map]
  exact hsome

theorem grows_persist (task : Task) (state : WorkflowState) (store : Store) :
    Relates Grows (persistWorkflowState task state) store := grows_put store _

theorem grows_dispatchDAGHop (task : Task) (hopId : String) (spawn : SpawnResult)
    (timestamp : String) (store : Store) :
    Relates Grows (dispatchDAGHop task hopId spawn timestamp) store := by
  unfold dispatchDAGHop
  split
  · exact .throw store
  split
  · exact (grows_persist _ _ store).bind fun _ t _ => .pure _ t
  · exact .pure _ store

theorem grows_completeDAGSession (task : Task) (runResult : RunResult)
    (executor : Option SpawnResult) (timestamp : String) (store : Store) :
    Relates Grows (completeDAGSession task runResult executor timestamp) store := by
  have hcompletion : Relates Grows (handleDAGHopCompletion task runResult timestamp) store := by
    unfold handleDAGHopCompletion
    split
    · exact .pure _ store
    dsimp only
    split
    · exact .throw store
    · exact (grows_persist _ _ store).bind fun _ t _ => .pure _ t
  refine hcompletion.bind fun answer t _ => ?_
  dsimp only
  split
  · split
    · refine (admits_grows.transition trivial .review).bind fun _ u _ => ?_
      exact (admits_grows.cascade _ u trivial).attempt
    · exact admits_grows.transition_then trivial .blocked
  · split
    · exact admits_grows.transition_then trivial .review
    · split
      · exact (grows_dispatchDAGHop _ _ _ _ t).bind fun _ u _ => .pure () u
      · exact .pure () t

section

variable {options : TaskStoreOptions} {id : String} {α : Type} {copies : Nat}

variable {command : Command Store α} {start : Option TaskStatus}

theorem records_recording (hgrows : ∀ store, Relates Grows command store) :
    Records (LeadsTask id) (command.recording statusChanges copies) command := by
  apply Records.recording
  intro store
  have hkept := hgrows store id
  unfold LeadsTask Store.statusOf
  rw [changesOf_statusChanges]
  rw [← Command.after_eq] at hkept
  cases hafter : (command.after store).tasks.get? id with
  | none =>
      rw [hafter] at hkept
      cases hbefore : store.tasks.get? id with
      | none => exact .refl
      | some old => exact absurd (hkept (by rw [hbefore]; rfl)) Bool.false_ne_true
  | some task =>
      obtain rfl : task.id = id := (command.after store).keyed id task hafter
      rw [Option.bind_some, statusChange, Option.map_some]
      cases hbefore : store.tasks.get? task.id with
      | none => exact .created task.status .refl
      | some old =>
          rw [Option.bind_some, Option.map_some]
          split
          · rename_i hsame
            rw [hsame]
            exact .refl
          · rename_i hne
            let change : StatusChange := ⟨task.id, old.status, task.status⟩
            have hchanges : change.fromStatus ≠ change.toStatus := hne
            exact .moved .refl hchanges

theorem records_onStore (hgrows : ∀ store, Relates Grows command store) :
    Records (LeadsTask id) (options.onStore command) command :=
  records_recording hgrows

theorem records_get (taskId : String) :
    Records (LeadsTask id) (options.onStore (Store.get taskId)) (Store.get taskId) :=
  records_onStore fun store => refl_of Grows store

theorem records_save (task : Task) :
    Records (LeadsTask id) (options.onStore (Store.save task)) (Store.save task) :=
  records_onStore fun store => grows_put store task

section

variable (taskId : String)

theorem records_readRunResult :
    Records (LeadsTask id) (options.onStore (Store.readRunResult taskId))
      (Store.readRunResult taskId) :=
  records_onStore fun store => refl_of Grows store

theorem records_transition (newStatus : TaskStatus) :
    Records (LeadsTask id) (options.transition taskId newStatus)
      (Store.transition taskId newStatus) :=
  records_onStore fun _ => admits_grows.transition trivial newStatus

theorem records_move (newStatus : TaskStatus) (change : StatusChange) :
    Records (LeadsTask id)
      (do
        let _ ← options.transition taskId newStatus
        Command.note change)
      (do let _ ← Store.transition taskId newStatus) :=
  (records_transition taskId newStatus).bind (leading_leadsTask id)
    fun _ => .note (leading_leadsTask id) change

theorem records_transition_then (newStatus : TaskStatus) : Records (LeadsTask id)
      (do let _ ← options.transition taskId newStatus)
      (do let _ ← Store.transition taskId newStatus) :=
  (records_transition taskId newStatus).bind (leading_leadsTask id)
    fun _ => .pure (leading_leadsTask id) ()

theorem records_handleExpireLease (allTasks : List Task) (maxRetries : Nat)
    (backoffElapsed : Bool) :
    Records (LeadsTask id) (options.handleExpireLease taskId allTasks maxRetries backoffElapsed)
      (handleExpireLease taskId allTasks maxRetries backoffElapsed) := by
  have hleading := leading_leadsTask id
  apply (records_get taskId).bind hleading
  rintro (_ | task)
  · exact .pure hleading ()
  apply (records_save _).bind hleading
  rintro ⟨⟩
  split
  · split
    · cases shouldAllowSpawnFailedRequeue task maxRetries backoffElapsed with
      | shouldDeadletter =>
          exact (records_onStore fun _ => admits_grows.transitionToDeadletter trivial).bind_note
            hleading _
      | allow => exact records_move taskId .ready _
      | wait => exact .pure hleading ()
    · split
      · exact records_move taskId .ready _
      · exact .pure hleading ()
  · exact records_move taskId .ready _

theorem records_handleRequeue :
    Records (LeadsTask id) (options.handleRequeue taskId) (handleRequeue taskId) := by
  apply (records_onStore fun _ => admits_grows.patch trivial fun _ => .same).bind
    (leading_leadsTask id)
  exact fun _ => records_move taskId .ready _

end

theorem grows_spawnFailure (taskId error : String) (store : Store) :
    Relates Grows (Store.patch taskId fun task => task.withSpawnFailure error) store := by
  apply relates_get_then
  · exact fun _ => .pure () store
  · exact fun task _ _ => grows_put store _

theorem records_assignWith (taskId agent : String) (allTasks : List Task)
    (spawn : Option SpawnResult) (now ttlMs : Nat) :
    Records (LeadsTask id) (options.assignWith taskId agent allTasks spawn now ttlMs)
      (assignWith taskId agent allTasks spawn now ttlMs) := by
  have hleading := leading_leadsTask id
  cases spawn with
  | none =>
      apply records_onStore
      exact fun _ => admits_grows.assignWith trivial fun error _ _ => grows_spawnFailure taskId error
  | some spawn =>
      apply (records_get taskId).bind hleading
      rintro (_ | latest)
      · exact .pure hleading ()
      dsimp only
      split
      · exact .pure hleading ()
      apply (records_onStore fun _ => admits_grows.acquireLease trivial agent now ttlMs).bind hleading
      intro leasedTask
      apply (records_save leasedTask).bind hleading
      rintro ⟨⟩
      cases spawn with
      | success sessionId =>
          exact records_onStore fun _ => admits_grows.patch trivial fun _ => .session sessionId
      | failure error =>
          dsimp only
          split
          · exact (records_onStore fun _ => admits_grows.releaseLease trivial agent).attempt
          apply (records_onStore (grows_spawnFailure taskId error)).bind hleading
          rintro ⟨⟩
          split
          · exact records_onStore fun _ => admits_grows.transitionToDeadletter trivial
          · exact records_transition_then taskId .blocked

theorem records_cascade (completedTaskId : String) :
    Records (LeadsTask id) (options.onStore (cascadeOnCompletion completedTaskId))
      (cascadeOnCompletion completedTaskId) :=
  records_onStore fun store => admits_grows.cascade completedTaskId store trivial

theorem records_recoverWith (taskId : String) (agent : Option String) (forces : Bool) :
    Records (LeadsTask id) (options.recoverWith taskId agent forces)
      (recoverWith taskId agent forces) := by
  have hleading := leading_leadsTask id
  apply (records_get taskId).bind hleading
  rintro (_ | staleTask)
  · exact .pure hleading ()
  dsimp only
  split
  · exact .pure hleading ()
  split
  · exact .pure hleading ()
  have hforce : Records (LeadsTask id) (options.onStore (forceCompleteSession staleTask forces))
      (forceCompleteSession staleTask forces) := by
    apply records_onStore
    intro store
    unfold forceCompleteSession
    split
    · exact (admits_grows.handleRunComplete trivial none).attempt
    · exact .pure () store
  apply hforce.bind hleading
  rintro ⟨⟩
  apply (records_readRunResult taskId).bind hleading
  rintro (_ | runResult)
  · exact records_move taskId .ready _
  · apply (Records.forM hleading (fun targetStatus => records_move taskId targetStatus _) _).bind
      hleading
    rintro ⟨⟩
    split
    · exact (records_cascade taskId).attempt
    · exact .pure hleading ()

theorem records_handler (conduct : ExecutorConduct) (action : SchedulerAction) :
    Records (LeadsTask id) (options.handler conduct action) (action.handler conduct) := by
  cases action with
  | expireLease taskId allTasks maxRetries backoffElapsed =>
      exact records_handleExpireLease taskId allTasks maxRetries backoffElapsed
  | staleHeartbeat taskId agent => exact records_recoverWith taskId agent _
  | requeue taskId => exact records_handleRequeue taskId
  | promote taskId => exact records_move taskId .ready _
  | assign taskId agent allTasks spawn now ttlMs =>
      exact records_assignWith taskId agent allTasks _ now ttlMs
  | block taskId => exact records_move taskId .blocked _
  | deadletter | runComplete | hopDispatch | hopComplete =>
      apply records_onStore
      exact fun _ => admits_grows.handler trivial fun error hfails => nomatch hfails

theorem records_applyCompletionTransition (current : Task) (nextStatus : TaskStatus) :
    Records (LeadsTask id) (options.applyCompletionTransition current nextStatus)
      (applyCompletionTransition current nextStatus) := by
  have hleading := leading_leadsTask id
  unfold TaskStoreOptions.applyCompletionTransition applyCompletionTransition
  split
  · exact .pure hleading current
  split
  · rw [← bind_pure (Store.transition current.id nextStatus)]
    apply (records_transition current.id nextStatus).bind hleading
    intro moved
    split
    · exact .pure hleading moved
    · exact .note_bind hleading _ moved
  · exact .pure hleading current

theorem records_applyCompletionOutcome (task : Task) (outcome : CompletionOutcome) :
    Records (LeadsTask id) (options.applyCompletionOutcome task outcome)
      (applyCompletionOutcome task outcome) :=
  (Records.foldlM (leading_leadsTask id) records_applyCompletionTransition _ task).bind
    (leading_leadsTask id) fun _ => .pure (leading_leadsTask id) ()

theorem records_outcome_cascade (task : Task) (outcome : CompletionOutcome)
    (completedTaskId : String) :
    Records (LeadsTask id)
      (do
        options.applyCompletionOutcome task outcome
        if outcome = .done then Command.attempt (options.onStore (cascadeOnCompletion completedTaskId))
        else pure ())
      (do
        applyCompletionOutcome task outcome
        if outcome = .done then Command.attempt (cascadeOnCompletion completedTaskId)
        else pure ()) := by
  have hleading := leading_leadsTask id
  apply (records_applyCompletionOutcome task outcome).bind hleading
  rintro ⟨⟩
  split
  · exact (records_cascade completedTaskId).attempt
  · exact .pure hleading ()

theorem records_handleCompletionReport (report : CompletionReport) :
    Records (LeadsTask id) (options.handleCompletionReport report)
      (handleCompletionReport report) := by
  have hleading := leading_leadsTask id
  apply (records_get report.taskId).bind hleading
  rintro (_ | task)
  · exact .pure hleading ()
  dsimp only
  split
  · refine Records.bind hleading (records_onStore fun _ => admits_grows.writeRunResult trivial _)
      fun _ => ?_
    exact records_outcome_cascade task report.outcome report.taskId
  · exact .pure hleading ()

theorem records_visitCurrent (taskId : String) (executor : Option SpawnResult)
    (timestamp : String) : Records (LeadsTask id) (options.visitCurrent taskId executor timestamp)
      (visitCurrent taskId executor timestamp) := by
  have hleading := leading_leadsTask id
  apply (records_get taskId).bind hleading
  rintro (_ | task)
  · exact .pure hleading ()
  dsimp only
  split
  · apply (records_readRunResult task.id).bind hleading
    rintro (_ | runResult)
    · exact .pure hleading ()
    dsimp only
    split
    · exact (records_onStore (grows_completeDAGSession task runResult executor timestamp)).attempt
    · exact records_outcome_cascade task runResult.outcome task.id
  · exact .pure hleading ()

theorem records_startForCompletion (task : Task) :
    Records (LeadsTask id) (options.startForCompletion task) (startForCompletion task) := by
  have hleading := leading_leadsTask id
  have hmove : ∀ status, Records (LeadsTask id)
      (do
        let started ← options.transition task.id .inProgress
        logTransition task.id status .inProgress
        pure started)
      (Store.transition task.id .inProgress) := by
    intro status
    rw [← bind_pure (Store.transition task.id .inProgress)]
    exact (records_transition task.id .inProgress).bind hleading fun started =>
      .note_bind hleading _ started
  unfold TaskStoreOptions.startForCompletion startForCompletion
  split
  · exact .pure hleading task
  split
  · apply (records_transition task.id .ready).bind hleading
    intro unblocked
    exact (Records.note hleading _).bind hleading fun _ => hmove unblocked.status
  · exact hmove task.status

theorem records_aofTaskComplete (taskId : String) :
    Records (LeadsTask id) (options.aofTaskComplete taskId) (aofTaskComplete taskId) := by
  have hleading := leading_leadsTask id
  apply (records_get taskId).bind hleading
  rintro (_ | task)
  · exact .throw hleading
  dsimp only
  split
  · exact .throw hleading
  apply (records_startForCompletion task).bind hleading
  intro started
  split
  · apply (records_transition taskId .review).bind hleading
    intro reviewed
    exact (Records.note hleading _).bind hleading fun _ => records_move taskId .done _
  · exact records_move taskId .done _

theorem records_handleStatusUpdate (taskId : String) (targetStatus : TaskStatus)
    (cascadeBlocks : Bool) :
    Records (LeadsTask id) (options.handleStatusUpdate taskId targetStatus cascadeBlocks)
      (handleStatusUpdate taskId targetStatus cascadeBlocks) := by
  have hleading := leading_leadsTask id
  apply (records_get taskId).bind hleading
  rintro (_ | task)
  · exact .pure hleading ()
  dsimp only
  split
  · exact .pure hleading ()
  split
  · apply (records_transition taskId targetStatus).bind hleading
    intro moved
    refine Records.bind_note hleading (records_onStore fun store => ?_) _
    split
    · exact grows_cascadeOnBlock taskId store
    · exact .pure () store
  · exact .pure hleading ()

theorem records_rejectHandoff (taskId fromAgent : String) :
    Records (LeadsTask id) (options.rejectHandoff taskId fromAgent)
      (rejectHandoff taskId fromAgent) := by
  have hleading := leading_leadsTask id
  apply (records_get taskId).bind hleading
  rintro (_ | childTask)
  · exact .pure hleading ()
  dsimp only
  split
  · split
    · exact .note hleading _
    · exact records_move taskId .blocked _
  · exact .pure hleading ()

theorem records_evaluateMurmurTrigger (input : PollInput) (currentInProgress : Nat)
    (review : MurmurReview) :
    Records (LeadsTask id) (options.evaluateMurmurTrigger input currentInProgress review)
      (evaluateMurmurTrigger input currentInProgress review) := by
  have hleading := leading_leadsTask id
  unfold TaskStoreOptions.evaluateMurmurTrigger evaluateMurmurTrigger
  split
  · exact .pure hleading ()
  apply Records.attempt
  have hcreate : Records (LeadsTask id) (options.onStore (Store.create review.task))
      (Store.create review.task) :=
    records_onStore fun _ => admits_grows.createTask trivial rfl
  apply hcreate.bind hleading
  rintro ⟨⟩
  apply (records_transition review.reviewTaskId .ready).bind hleading
  intro created
  cases input.executor with
  | none => exact .pure hleading ()
  | some spawn =>
      apply Records.attempt
      have hlease : Records (LeadsTask id)
          (options.onStore (Store.acquireLease review.reviewTaskId review.orchestrator input.now
            input.defaultLeaseTtlMs))
          (Store.acquireLease review.reviewTaskId review.orchestrator input.now
            input.defaultLeaseTtlMs) :=
        records_onStore fun _ => admits_grows.acquireLease trivial _ _ _
      apply hlease.bind hleading
      intro leased
      cases spawn review.reviewTaskId with
      | success => exact .pure hleading ()
      | failure => exact records_transition_then review.reviewTaskId .ready

theorem records_command (operation : SchedulerOperation) :
    Records (LeadsTask id) (options.command operation) operation.command := by
  cases operation with
  | complete taskId => exact records_aofTaskComplete taskId
  | report message => exact records_handleCompletionReport message
  | statusUpdate taskId targetStatus cascadeBlocks =>
      exact records_handleStatusUpdate taskId targetStatus cascadeBlocks
  | visit taskId executor timestamp => exact records_visitCurrent taskId executor timestamp
  | review input currentInProgress team =>
      exact records_evaluateMurmurTrigger input currentInProgress team
  | cancel taskId => exact records_recording fun _ => admitsMarks_grows.cancel trivial
  | block taskId reason =>
      exact records_onStore fun _ => admits_grows.block admitsMarks_grows trivial reason
  | unblock taskId =>
      exact records_onStore fun _ => admits_grows.unblock admitsMarks_grows trivial
  | writeResult | cascade | runComplete | hopComplete | hopTimeouts | hopDispatch =>
      exact records_onStore fun _ => admits_grows.operate trivial rfl

def JournalState.erased (state : JournalState) : SchedulerState where
  store := state.journal.state
  planned := state.planned

def Chronicles (id : String) (start : Option TaskStatus) (state : JournalState) : Prop :=
  StatusPath start (changesOf id state.journal.changes) (state.journal.state.statusOf id)

variable {state : JournalState}

theorem Chronicles.after {planned : List SchedulerAction} {recorded : Command Journal Unit}
    {command : Command Store Unit} (hchronicles : Chronicles id start state)
    (hrecords : Records (LeadsTask id) recorded command) :
    Chronicles id start ⟨recorded.after state.journal, planned⟩ := by
  obtain ⟨made, hmade, hleads⟩ := hrecords.changes state.journal
  show StatusPath start (changesOf id (recorded.run state.journal).2.changes)
    ((recorded.run state.journal).2.state.statusOf id)
  rw [hmade, hrecords.state, changesOf, List.filter_append]
  exact hchronicles.trans hleads

theorem chronicles_step {next : JournalState} {event : JournalEvent}
    (hstep : journalStep options state event = some next)
    (hchronicles : Chronicles id start state) : Chronicles id start next := by
  cases event with
  | rejectHandoff taskId fromAgent =>
      obtain rfl := Option.some.inj hstep
      exact hchronicles.after (records_rejectHandoff taskId fromAgent)
  | elsewhere events =>
      obtain rfl := Option.some.inj hstep
      exact hchronicles
  | scheduler event =>
      cases event with
      | plan input =>
          obtain ⟨-, hnext⟩ := Option.ite_none_right_eq_some.mp hstep
          obtain rfl := Option.some.inj hnext
          exact hchronicles
      | operate operation =>
          obtain rfl := Option.some.inj hstep
          exact hchronicles.after (records_command operation)
      | execute conduct =>
          cases hplanned : state.planned with
          | nil =>
              rw [journalStep, hplanned] at hstep
              cases hstep
          | cons action rest =>
              rw [journalStep, hplanned] at hstep
              obtain rfl := Option.some.inj hstep
              exact hchronicles.after (records_handler conduct action)

/-- Without their journal, the steps of the scheduler are those of the store. -/
theorem erased_step (event : SchedulerEvent) :
    (journalStep options state (.scheduler event)).map JournalState.erased =
      schedulerStep state.erased event := by
  cases event with
  | plan input =>
      by_cases hplanned : state.planned = []
      · simp [journalStep, schedulerStep, JournalState.erased, hplanned]
      · simp [journalStep, schedulerStep, JournalState.erased, hplanned]
  | operate operation =>
      show some (JournalState.erased _) = some _
      have hstate : ((options.command operation).after state.journal).state =
          operation.command.after state.journal.state := by
        have hrecords : Records (LeadsTask "") (options.command operation) operation.command :=
          records_command operation
        exact hrecords.state state.journal
      simp only [JournalState.erased, hstate]
  | execute conduct =>
      obtain ⟨journal, planned⟩ := state
      cases planned with
      | nil => rfl
      | cons action rest =>
          show some (JournalState.erased _) = some _
          have hstate : ((options.handler conduct action).after journal).state =
              (action.handler conduct).after journal.state := by
            have hrecords : Records (LeadsTask "") (options.handler conduct action)
                (action.handler conduct) := records_handler conduct action
            exact hrecords.state journal
          simp only [JournalState.erased, hstate]

end

end Aof
