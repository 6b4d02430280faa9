import Aof.Proof.CompletionPaths
import Aof.Proof.Deadlock

/-!
# The final status of a task

Two places judge a finished workflow: the evaluator reads the statuses of all hops, the session end
the outcome of the last run.  They agree exactly when that outcome tells how the other hops ended.
-/

namespace Aof

section SessionEnd

def SameTask (id : String) (before after : Store) : Prop :=
  after.tasks.get? id = before.tasks.get? id

instance (id : String) : IsPreorder Store (SameTask id) where
  refl _ := rfl
  trans _ _ _ hab hbc := hbc.trans hab

theorem sameTask_cascadeOnCompletion {id : String} {task : Task} {store : Store}
    (completedTaskId : String) (hget : store.tasks.get? id = some task)
    (hreview : task.status = .review) :
    Command.Relates (SameTask id) (cascadeOnCompletion completedTaskId) store := by
  refine Command.Relates.bind (refl_of (SameTask id) store) fun allTasks t hlist => ?_
  obtain ⟨rfl, rfl⟩ : store.tasks.values = allTasks ∧ store = t := by simpa using hlist
  refine Command.Relates.forM _ (fun dependent hdependent s => ?_) store
  split
  · have hne : dependent.id ≠ id := by
      rintro rfl
      simp only [completionDependents, List.mem_filter, Dict.mem_values_iff_get?,
        decide_eq_true_eq] at hdependent
      obtain ⟨⟨key, hkey⟩, -, hwaits⟩ := hdependent
      rw [← store.keyed key dependent hkey, hget] at hkey
      obtain rfl := Option.some.inj hkey
      simp [hreview] at hwaits
    refine Command.Relates.bind ?_ fun _ u _ => .pure () u
    unfold Command.Relates
    rcases Store.transition_cases s dependent.id .ready with hsame | ⟨other, hother, -, -, hrun⟩
    · rw [hsame]
      exact refl_of (SameTask id) s
    · rw [hrun, SameTask, Store.tasks_put, transitioned_id, s.keyed _ _ hother, if_neg hne]
  · exact .pure () s

variable {task : Task} {runResult : RunResult} {timestamp : String} {workflow : TaskWorkflow}
variable {hopId : String} {result : DAGEvaluationResult} {store : Store}

def nextDispatch (executor : Option SpawnResult) (workflow : TaskWorkflow)
    (result : DAGEvaluationResult) : Option (Hop × String) := do
  let hop ← result.readyHops.head?.bind workflow.definition.findHop
  match ← executor with
  | .success sessionId => some (hop, sessionId)
  | .failure _ => none

def endedTask (task : Task) (runResult : RunResult) (executor : Option SpawnResult)
    (timestamp : String) (workflow : TaskWorkflow) (hopId : String)
    (result : DAGEvaluationResult) : Task :=
  let completed := task.withWorkflowState result.state
  let answer := HopCompletion.answer runResult workflow hopId result
  if answer.dagComplete then
    Store.transitioned completed (if runResult.outcome = .done then .review else .blocked)
  else if answer.reviewRequired then Store.transitioned completed .review
  else
    match nextDispatch executor workflow result with
    | some (hop, sessionId) =>
        completed.withWorkflowState (markDispatched hop result.state sessionId timestamp)
    | none => completed

theorem after_visitSession (executor : Option SpawnResult)
    (hstored : (store.tasks.get? task.id).isSome)
    (hresult : store.runResults.get? task.id = some runResult)
    (hworkflow : task.workflow = some workflow) :
    (visitSession task executor timestamp).after store =
      ((completeDAGSession task runResult executor timestamp).run store).2 := by
  obtain ⟨stored, hstored⟩ := Option.isSome_iff_exists.1 hstored
  rw [Command.after_eq, visitSession,
    Command.run_bind_of_some (Store.run_readRunResult task.id), hstored, Option.bind_some, hresult]
  simp only [hworkflow, Option.isSome_some, ↓reduceIte, Command.run_attempt]

theorem task_after_visitSession (executor : Option SpawnResult)
    (hstored : (store.tasks.get? task.id).isSome) (hstatus : task.status = .inProgress)
    (hresult : store.runResults.get? task.id = some runResult)
    (hcompletion : HopCompletion task runResult timestamp workflow hopId result) :
    ((visitSession task executor timestamp).after store).tasks.get? task.id =
      some (endedTask task runResult executor timestamp workflow hopId result) := by
  have hsaved : (store.put (task.withWorkflowState result.state)).tasks.get? task.id =
      some (task.withWorkflowState result.state) := by simp
  have htransition : ∀ {newStatus}, isValidTransition .inProgress newStatus →
      TaskStatus.inProgress ≠ newStatus →
      (Store.transition task.id newStatus).run (store.put (task.withWorkflowState result.state)) =
        (some (Store.transitioned (task.withWorkflowState result.state) newStatus),
          (store.put (task.withWorkflowState result.state)).put
            (Store.transitioned (task.withWorkflowState result.state) newStatus)) :=
    fun hvalid hne => Store.run_transition hsaved (by simpa [hstatus] using hvalid)
      (by simpa [hstatus] using hne)
  rw [after_visitSession executor hstored hresult hcompletion.workflow_eq, completeDAGSession,
    Command.run_bind_of_some (hcompletion.run store), endedTask]
  simp only [withWorkflowState_id]
  split
  · split
    · rw [Command.run_bind_of_some (htransition (by decide) (by decide)), Command.run_attempt]
      have hreview : ((store.put (task.withWorkflowState result.state)).put (Store.transitioned
          (task.withWorkflowState result.state) .review)).tasks.get? task.id =
          some (Store.transitioned (task.withWorkflowState result.state) .review) := by simp
      exact (sameTask_cascadeOnCompletion task.id hreview rfl).trans hreview
    · rw [Command.run_discard, htransition (by decide) (by decide)]
      simp
  · split
    · rw [Command.run_discard, htransition (by decide) (by decide)]
      simp
    · have hnext : (task.withWorkflowState result.state).workflow =
          some { workflow with state := result.state } :=
        withWorkflowState_workflow hcompletion.workflow_eq result.state
      simp only [HopCompletion.answer]
      cases hready : result.readyHops with
      | nil => simp [nextDispatch, hready]
      | cons hopId rest =>
          cases executor with
          | none => simp [nextDispatch]
          | some spawn =>
              simp only [Command.run_discard, dispatchDAGHop, hnext]
              cases hhop : workflow.definition.findHop hopId with
              | none => simp [nextDispatch, hready, hhop]
              | some hop =>
                  cases spawn with
                  | failure error => simp [nextDispatch, hready, hhop]
                  | success sessionId =>
                      simp only [persistWorkflowState, Command.run_discard, Store.run_save]
                      simp [nextDispatch, hready, hhop]

def statusAfter (task : Task) (executor : Option SpawnResult) (timestamp : String)
    (store : Store) : Option TaskStatus :=
  (((visitSession task executor timestamp).after store).tasks.get? task.id).map Task.status

theorem statusAfter_of_over (executor : Option SpawnResult)
    (hstored : (store.tasks.get? task.id).isSome) (hstatus : task.status = .inProgress)
    (hresult : store.runResults.get? task.id = some runResult)
    (hcompletion : HopCompletion task runResult timestamp workflow hopId result)
    (hover : result.dagStatus.isSome) :
    statusAfter task executor timestamp store =
      if runResult.outcome = .done then some .review else some .blocked := by
  have hcomplete : (HopCompletion.answer runResult workflow hopId result).dagComplete = true := by
    rw [← (evaluateDAG_finish hcompletion.evaluated).2.1] at hover
    exact hover
  rw [statusAfter, task_after_visitSession executor hstored hstatus hresult hcompletion, endedTask]
  simp only [hcomplete, ↓reduceIte, Option.map_some, transitioned_status]
  split <;> rfl

/-- What the last outcome has to say about the other hops: success if no hop has failed, and no
success if one has. -/
def TellsTheVerdict (workflow : TaskWorkflow) (hopId : String) : CompletionOutcome → Prop
  | .done => ¬HasFailed (statusOf workflow.state.hops)
  | .needsReview => (workflow.definition.findHop hopId).any Hop.canReject ∨
      HasFailed (statusOf workflow.state.hops)
  | .blocked | .partiallyDone => True

theorem hasFailed_iff_of_complete
    (hcompletion : HopCompletion task runResult timestamp workflow hopId result)
    (hcomplete : (mapRunResultToHopEvent runResult hopId
      (workflow.definition.findHop hopId)).outcome = .complete) :
    HasFailed (statusOf result.state.hops) ↔ HasFailed (statusOf workflow.state.hops) := by
  have hfailed := (evaluation_of_evaluateDAG hcompletion.evaluated).failed_iff (by simp [hcomplete])
  rw [hcomplete] at hfailed
  refine exists_congr fun id => (hfailed id).trans ?_
  by_cases heq : id = hopId
  · subst heq
    have hdispatched := findDispatchedHop_spec hcompletion.dispatched
    rw [hdispatched]
    simp [mapRunResultToHopEvent, HopOutcome.toStatus, recordStatus]
  · rw [recordStatus_of_ne (by exact heq)]

theorem tellsTheVerdict_iff
    (hcompletion : HopCompletion task runResult timestamp workflow hopId result)
    (hover : result.dagStatus.isSome) :
    (runResult.outcome = .done ↔ ¬HasFailed (statusOf result.state.hops)) ↔
      TellsTheVerdict workflow hopId runResult.outcome := by
  have hevaluation := evaluation_of_evaluateDAG hcompletion.evaluated
  have hblocked : (mapRunResultToHopEvent runResult hopId
      (workflow.definition.findHop hopId)).outcome = .failed →
      HasFailed (statusOf result.state.hops) := by
    intro hfailed
    refine ⟨hopId, (hevaluation.failed_iff (by simp [hfailed]) hopId).2 ?_⟩
    rw [hfailed]
    exact recordStatus_self
  cases houtcome : runResult.outcome with
  | done =>
      have hkept := hasFailed_iff_of_complete hcompletion
        (by simp [mapRunResultToHopEvent, houtcome])
      simp [TellsTheVerdict, hkept]
  | needsReview =>
      by_cases hreject : (workflow.definition.findHop hopId).any Hop.canReject
      · have hfailed : HasFailed (statusOf result.state.hops) :=
          ⟨hopId, hevaluation.failed_of_over
            (by simp [mapRunResultToHopEvent, houtcome, hreject])
            ((evaluateDAG_finish hcompletion.evaluated).1 ▸ hover)⟩
        simp [TellsTheVerdict, hfailed, hreject]
      · have hkept := hasFailed_iff_of_complete hcompletion
          (by simp [mapRunResultToHopEvent, houtcome, hreject])
        simp [TellsTheVerdict, hkept, hreject]
  | blocked =>
      have hfailed := hblocked (by simp [mapRunResultToHopEvent, houtcome])
      simp [TellsTheVerdict, hfailed]
  | partiallyDone =>
      have hfailed := hblocked (by simp [mapRunResultToHopEvent, houtcome])
      simp [TellsTheVerdict, hfailed]

/-- The session end moves a task whose workflow is over to `review` exactly when the evaluator calls
it complete, and to `blocked` exactly when it calls it failed, just in case the last outcome tells
how the other hops ended. -/
theorem finalStatus_agrees_iff (executor : Option SpawnResult)
    (hstored : (store.tasks.get? task.id).isSome) (hstatus : task.status = .inProgress)
    (hresult : store.runResults.get? task.id = some runResult)
    (hcompletion : HopCompletion task runResult timestamp workflow hopId result)
    (hover : result.dagStatus.isSome) : ((statusAfter task executor timestamp store = some .review ↔
        result.dagStatus = some .complete) ∧
      (statusAfter task executor timestamp store = some .blocked ↔
        result.dagStatus = some .failed)) ↔ TellsTheVerdict workflow hopId runResult.outcome := by
  rw [← tellsTheVerdict_iff hcompletion hover,
    statusAfter_of_over executor hstored hstatus hresult hcompletion hover]
  rw [(evaluateDAG_finish hcompletion.evaluated).1] at hover ⊢
  rw [checkDAGCompletion_of_over hover]
  by_cases hdone : runResult.outcome = .done <;>
    by_cases hfailed : HasFailed (statusOf result.state.hops) <;> simp [hdone, hfailed]

end SessionEnd

section Branches

def branches : WorkflowDefinition :=
  { name := "branches"
    hops := [{ id := "build", role := "swe" }, { id := "docs", role := "writer" }] }

def buildEnds (outcome : HopOutcome) : List WorkflowStep :=
  [.dispatch "build" "s1" "t1", .evaluate ⟨"build", outcome, none⟩ plainTask "t2",
    .dispatch "docs" "s2" "t3"]

def docsTask (outcome : HopOutcome) : Task :=
  { id := "T1"
    status := .inProgress
    workflow := (StepSystem.exec (workflowStep branches) (initializeWorkflowState branches)
      (buildEnds outcome)).map fun state => ⟨branches, state⟩ }

def docsDone : RunResult := ⟨"T1", "writer", .done, ""⟩

theorem docsTask_agrees : ∃ workflow result,
    HopCompletion (docsTask .complete) docsDone "t4" workflow "docs" result ∧
    (statusAfter (docsTask .complete) none "t4" (storeOf (docsTask .complete) docsDone) =
        some .review ↔ result.dagStatus = some .complete) ∧
      (statusAfter (docsTask .complete) none "t4" (storeOf (docsTask .complete) docsDone) =
        some .blocked ↔ result.dagStatus = some .failed) := by
  obtain ⟨workflow, result, hcompletion, hover, hnone⟩ : ∃ workflow result,
      HopCompletion (docsTask .complete) docsDone "t4" workflow "docs" result ∧
      result.dagStatus.isSome ∧ .failed ∉ workflow.state.hops.values.map HopState.status := by
    refine ⟨_, _, ⟨rfl, rfl, rfl⟩, ?_⟩
    decide
  refine ⟨workflow, result, hcompletion, ?_⟩
  exact (finalStatus_agrees_iff none (by decide) rfl rfl hcompletion hover).2
    fun hfailed => hnone (failed_mem_values.2 hfailed)

/-- With the build failed, the documentation still takes its task to `review`. -/
theorem failed_task_in_review : ¬∀ store task executor timestamp runResult workflow hopId result,
    validateDAG workflow.definition = [] → Reachable workflow.definition workflow.state →
    (store.tasks.get? task.id).isSome → task.status = .inProgress →
    store.runResults.get? task.id = some runResult →
    HopCompletion task runResult timestamp workflow hopId result → result.dagStatus.isSome →
    (statusAfter task executor timestamp store = some .review ↔ result.dagStatus = some .complete) ∧
      (statusAfter task executor timestamp store = some .blocked ↔
        result.dagStatus = some .failed) := by
  intro hall
  obtain ⟨state, result, hexec, hcompletion, hfailed⟩ : ∃ state result,
      StepSystem.exec (workflowStep branches) (initializeWorkflowState branches)
        (buildEnds .failed) = some state ∧
      HopCompletion (docsTask .failed) docsDone "t4" ⟨branches, state⟩ "docs" result ∧
      result.dagStatus = some .failed := by
    refine ⟨_, _, rfl, ⟨rfl, rfl, rfl⟩, ?_⟩
    decide
  have hagrees := (hall (storeOf (docsTask .failed) docsDone) (docsTask .failed) none "t4" docsDone
    ⟨branches, state⟩ "docs" result (show validateDAG branches = [] by decide)
    ⟨_, StepSystem.freeRun_iff_exec.2 hexec⟩ (by decide) rfl rfl hcompletion
    (by simp [hfailed])).1
  have hreview : statusAfter (docsTask .failed) none "t4" (storeOf (docsTask .failed) docsDone) =
      some .review := by decide
  simp [hagrees.1 hreview] at hfailed

end Branches

end Aof
