import Aof.Proof.Rules
import Aof.Program

/-!
# What the DAG handlers write

One lemma for each handler of hop completions and dispatches: the runs it can have.  The later
proofs about the program read the handlers through these only.
-/

namespace Aof

section Verdict

variable {hops : Dict String HopState}

def HasFailed (statuses : Statuses) : Prop := ∃ id, statuses id = some .failed

theorem failed_mem_values :
    .failed ∈ hops.values.map HopState.status ↔ HasFailed (statusOf hops) := by
  simp only [HasFailed, List.mem_map, Dict.mem_values_iff_get?, statusOf_eq_some_iff]
  grind

open Classical in
theorem checkDAGCompletion_of_over (hover : (checkDAGCompletion hops).isSome) :
    checkDAGCompletion hops =
      if HasFailed (statusOf hops) then some .failed else some .complete := by
  unfold checkDAGCompletion at hover ⊢
  simp only [failed_mem_values] at hover ⊢
  split
  · rfl
  · rename_i hopen
    rw [if_neg hopen] at hover
    cases hover

theorem checkDAGCompletion_of_open {id : String} {status : HopStatus}
    (hstatus : statusOf hops id = some status) (hopen : ¬IsTerminal (some status)) :
    checkDAGCompletion hops = none := by
  obtain ⟨hopState, hget, rfl⟩ := statusOf_eq_some_iff.1 hstatus
  refine if_neg fun hall => hopen (hall hopState.status ?_)
  exact List.mem_map_of_mem (Dict.mem_values_iff_get?.2 ⟨id, hget⟩)

end Verdict

section Evaluations

variable {definition : WorkflowDefinition} {state : WorkflowState} {event : HopEvent}
variable {task : TaskMeta} {timestamp : String} {result : DAGEvaluationResult}

theorem evaluateDAG_finish
    (heval : evaluateDAG definition state event task timestamp = some result) :
    result.dagStatus = checkDAGCompletion result.state.hops ∧
      result.taskStatus.isSome = result.dagStatus.isSome ∧
      result.state.status = result.dagStatus.getD state.status ∧
      result.state.completedAt =
        if result.dagStatus.isSome then some timestamp else state.completedAt := by
  obtain ⟨copy, readyHops, rfl⟩ : ∃ copy readyHops,
      result = finishEvaluation state copy readyHops timestamp := by
    unfold evaluateDAG at heval
    split at heval
    · simp only [evaluateRejection, Option.bind_eq_bind, Option.bind_eq_some_iff,
        Option.some.injEq] at heval
      obtain ⟨copy, -, hresult⟩ := heval
      exact ⟨copy, _, hresult.symm⟩
    · exact ⟨_, _, (Option.some.inj heval).symm⟩
  refine ⟨rfl, ?_, rfl, rfl⟩
  simp only [finishEvaluation, checkDAGCompletion]
  split
  · split <;> rfl
  · rfl

theorem evaluateDAG_over (heval : evaluateDAG definition state event task timestamp = some result)
    (hsome : result.taskStatus.isSome) :
    ∀ hopState ∈ result.state.hops.values, IsTerminal (some hopState.status) := by
  obtain ⟨hdag, htask, -⟩ := evaluateDAG_finish heval
  rw [htask, hdag, checkDAGCompletion] at hsome
  split at hsome
  · rename_i hall
    exact fun hopState hmem => hall _ (List.mem_map_of_mem hmem)
  · cases hsome

/-- What an evaluation does to the statuses, for any definition: it records the outcome, skips
pending hops and opens joins, or it records a failure and skips, or it starts hops over. -/
inductive Evaluation (definition : WorkflowDefinition) (before : Statuses) (event : HopEvent)
    (after : Statuses) : Prop
  | outcome {settled : Statuses} (hrejected : event.outcome ≠ .rejected)
      (hskips : OnlySkips (recordStatus before event.hopId event.outcome.toStatus) settled)
      (hafter : after = openJoins definition settled) : Evaluation definition before event after
  | trip (hrejected : event.outcome = .rejected)
      (hskips : OnlySkips (recordStatus before event.hopId .failed) after) :
      Evaluation definition before event after
  | reset (hrejected : event.outcome = .rejected)
      (hreset : ∀ id, (after id = some .ready ∨ after id = some .pending) ∨
        id ≠ event.hopId ∧ after id = before id) : Evaluation definition before event after

theorem reopened_of_foldlM {α : Type} (key : α → String)
    {turn : WorkingCopy → α → Option WorkingCopy}
    (hturn : ∀ copy x next, turn copy x = some next → ∃ hopState : HopState,
      (hopState.status = .ready ∨ hopState.status = .pending) ∧
        next.hops = copy.hops.set (key x) hopState)
    {xs : List α} {copy last : WorkingCopy} (hloop : xs.foldlM turn copy = some last)
    (id : String) : (statusOf last.hops id = some .ready ∨ statusOf last.hops id = some .pending) ∨
      id ∉ xs.map key ∧ statusOf last.hops id = statusOf copy.hops id := by
  induction xs generalizing copy with
  | nil =>
      obtain rfl : copy = last := by simpa using hloop
      exact .inr ⟨by simp, rfl⟩
  | cons x rest ih =>
      rw [List.foldlM_cons, Option.bind_eq_bind, Option.bind_eq_some_iff] at hloop
      obtain ⟨next, hnext, hrest⟩ := hloop
      obtain ⟨hopState, hopen, hset⟩ := hturn copy x next hnext
      rcases ih hrest with hlast | ⟨hout, hsame⟩
      · exact .inl hlast
      · rw [hset, statusOf_set] at hsame
        split at hsame
        · left
          rw [hsame]
          exact hopen.imp (congrArg some) (congrArg some)
        · rename_i hkey
          refine .inr ⟨?_, hsame⟩
          rw [List.map_cons, List.mem_cons, not_or]
          exact ⟨Ne.symm hkey, hout⟩

theorem reset_of_applyRejection {hops : Dict String HopState} {hopId : String}
    {copy : WorkingCopy} (hcopy : applyRejection definition hops hopId timestamp = some copy) :
    OnlySkips (recordStatus (statusOf hops) hopId .failed) (statusOf copy.hops) ∨
      ∀ id, (statusOf copy.hops id = some .ready ∨ statusOf copy.hops id = some .pending) ∨
        id ≠ hopId ∧ statusOf copy.hops id = statusOf hops id := by
  unfold applyRejection at hcopy
  simp only at hcopy
  split at hcopy
  · left
    obtain rfl := Option.some.inj hcopy
    rw [← statusOf_trippedCopy (nextRejectionCount hops hopId) hops hopId timestamp]
    exact (tripCircuitBreaker_skips _ definition hops hopId timestamp).statusOf
  · right
    simp only [Option.bind_eq_bind, Option.bind_eq_some_iff] at hcopy
    obtain ⟨hop, hfind, hcopy⟩ := hcopy
    obtain ⟨hhop, hid⟩ := mem_of_findHop hfind
    intro id
    cases hstrategy : hop.rejectionStrategy.getD .origin with
    | origin =>
        rw [hstrategy] at hcopy
        have hturn : ∀ copy other next,
            resetForOrigin hopId (nextRejectionCount hops hopId) copy other = some next →
            ∃ hopState : HopState, (hopState.status = .ready ∨ hopState.status = .pending) ∧
              next.hops = copy.hops.set other.id hopState := by
          intro copy other next hnext
          simp only [resetForOrigin, Option.bind_eq_bind, Option.bind_eq_some_iff,
            Option.some.injEq] at hnext
          obtain ⟨_, -, rfl⟩ := hnext
          exact ⟨_, freshStatus_open other, rfl⟩
        refine (reopened_of_foldlM Hop.id hturn hcopy id).imp_right
          fun hboth => ⟨?_, hboth.2⟩
        rintro rfl
        exact hboth.1 (hid ▸ List.mem_map_of_mem hhop)
    | predecessors =>
        rw [hstrategy] at hcopy
        simp only [resetPredecessorHops, hfind, Option.bind_eq_bind, Option.bind_some] at hcopy
        have hturn : ∀ copy other next, resetPredecessor definition (resetSet hop) hopId
              (nextRejectionCount hops hopId) copy other = some next →
            ∃ hopState : HopState, (hopState.status = .ready ∨ hopState.status = .pending) ∧
              next.hops = copy.hops.set other hopState := by
          intro copy other next hnext
          simp only [resetPredecessor, Option.bind_eq_bind, Option.bind_eq_some_iff,
            Option.some.injEq] at hnext
          obtain ⟨_, -, _, -, rfl⟩ := hnext
          exact ⟨_, resetStatus_open _ _ _, rfl⟩
        refine (reopened_of_foldlM (fun other => other) hturn hcopy id).imp_right
          fun hboth => ⟨?_, hboth.2⟩
        rintro rfl
        have hout := hboth.1
        simp [mem_resetSet, hid] at hout

theorem evaluation_of_evaluateDAG
    (heval : evaluateDAG definition state event task timestamp = some result) :
    Evaluation definition (statusOf state.hops) event (statusOf result.state.hops) := by
  unfold evaluateDAG at heval
  split at heval
  · rename_i hrejected
    simp only [evaluateRejection, Option.bind_eq_bind, Option.bind_eq_some_iff,
      Option.some.injEq] at heval
    obtain ⟨copy, hcopy, rfl⟩ := heval
    rcases reset_of_applyRejection hcopy with hskips | hreset
    · exact .trip hrejected hskips
    · exact .reset hrejected hreset
  · rename_i hrejected
    obtain rfl := Option.some.inj heval
    refine .outcome hrejected ?_ (statusOf_promote _)
    rw [← statusOf_recordHopEvent]
    exact (settledCopy_skips definition state event task timestamp).statusOf

namespace Evaluation

variable {before after : Statuses}

theorem failed_iff (hevaluation : Evaluation definition before event after)
    (hrejected : event.outcome ≠ .rejected) (id : String) : after id = some .failed ↔
      recordStatus before event.hopId event.outcome.toStatus id = some .failed := by
  cases hevaluation with
  | @outcome settled _ hskips hafter =>
      rw [hafter, ← hskips.failed_iff id]
      rcases openJoins_cases definition settled id with ⟨hsame, -⟩ | ⟨hpending, hready, -⟩
      · rw [hsame]
      · simp [hpending, hready]
  | trip h | reset h => exact absurd h hrejected

theorem failed_of_over {hops : Dict String HopState}
    (hevaluation : Evaluation definition before event (statusOf hops))
    (hrejected : event.outcome = .rejected) (hover : (checkDAGCompletion hops).isSome) :
    statusOf hops event.hopId = some .failed := by
  cases hevaluation with
  | outcome h => exact absurd hrejected h
  | trip _ hskips =>
      rw [hskips.terminal (by simp [recordStatus_self, IsTerminal]), recordStatus_self]
  | reset _ hreset =>
      rcases (hreset event.hopId).resolve_right fun h => h.1 rfl with h | h
      · simp [checkDAGCompletion_of_open h (by simp [IsTerminal])] at hover
      · simp [checkDAGCompletion_of_open h (by simp [IsTerminal])] at hover

theorem dispatched (hevaluation : Evaluation definition before event after) {id : String}
    (hdispatched : after id = some .dispatched) :
    before id = some .dispatched ∧ id ≠ event.hopId := by
  have hrecorded : ∀ {status : HopStatus}, status ≠ .dispatched →
      recordStatus before event.hopId status id = some .dispatched →
      before id = some .dispatched ∧ id ≠ event.hopId := by
    intro status hstatus hid
    by_cases heq : id = event.hopId
    · rw [heq, recordStatus_self] at hid
      exact absurd (Option.some.inj hid) hstatus
    · rw [recordStatus_of_ne heq] at hid
      exact ⟨hid, heq⟩
  cases hevaluation with
  | @outcome settled _ hskips hafter =>
      have hstatus : event.outcome.toStatus ≠ .dispatched := by
        cases event.outcome <;> simp [HopOutcome.toStatus]
      refine hrecorded hstatus ?_
      · rcases openJoins_cases definition settled id with ⟨hsame, -⟩ | ⟨-, hready, -⟩
        · rw [hafter, hsame] at hdispatched
          rw [hskips.eq_of_ne_skipped (by simp [hdispatched]), hdispatched]
        · rw [hafter, hready] at hdispatched
          cases hdispatched
  | trip _ hskips =>
      have hstatus : HopStatus.failed ≠ .dispatched := by simp
      refine hrecorded hstatus ?_
      rw [hskips.eq_of_ne_skipped (by simp [hdispatched]), hdispatched]
  | reset _ hreset =>
      rcases hreset id with hopen | ⟨hne, hsame⟩
      · simp [hdispatched] at hopen
      · exact ⟨hsame ▸ hdispatched, hne⟩

end Evaluation

end Evaluations

@[simp]
theorem withWorkflowState_id (task : Task) (state : WorkflowState) :
    (task.withWorkflowState state).id = task.id := rfl

@[simp]
theorem withWorkflowState_status (task : Task) (state : WorkflowState) :
    (task.withWorkflowState state).status = task.status := rfl

@[simp]
theorem withWorkflowState_metadata (task : Task) (state : WorkflowState) :
    (task.withWorkflowState state).metadata = task.metadata := rfl

variable {task : Task} {workflow : TaskWorkflow} {hopId : String}

theorem withWorkflowState_workflow (hworkflow : task.workflow = some workflow)
    (state : WorkflowState) :
    (task.withWorkflowState state).workflow = some { workflow with state } := by
  rw [Task.withWorkflowState, hworkflow]
  rfl

theorem withWorkflowState_isSome (task : Task) (state : WorkflowState) :
    (task.withWorkflowState state).workflow.isSome = task.workflow.isSome := by
  rw [Task.withWorkflowState, Option.isSome_map]

section

variable (task : Task) (newStatus : TaskStatus)

@[simp]
theorem transitioned_id :
    (Store.transitioned task newStatus).id = task.id := rfl

@[simp]
theorem transitioned_status :
    (Store.transitioned task newStatus).status = newStatus := rfl

@[simp]
theorem transitioned_workflow :
    (Store.transitioned task newStatus).workflow = task.workflow := rfl

@[simp]
theorem transitioned_metadata :
    (Store.transitioned task newStatus).metadata = task.metadata := rfl

end

theorem findDispatchedHop_spec (hfind : findDispatchedHop workflow = some hopId) :
    statusOf workflow.state.hops hopId = some .dispatched := by
  rw [findDispatchedHop, Option.map_eq_some_iff] at hfind
  obtain ⟨entry, hentry, rfl⟩ := hfind
  have hmem := List.mem_of_find?_eq_some hentry
  rw [Dict.mem_objectEntries, ← Dict.get?_eq_some_iff] at hmem
  rw [statusOf, hmem]
  simpa using List.find?_some hentry

/-- What the completion of a hop of a task object writes and answers. -/
structure HopCompletion (task : Task) (runResult : RunResult) (timestamp : String)
    (workflow : TaskWorkflow) (hopId : String) (result : DAGEvaluationResult) : Prop where
  workflow_eq : task.workflow = some workflow
  dispatched : findDispatchedHop workflow = some hopId
  evaluated : evaluateDAG workflow.definition workflow.state
    (mapRunResultToHopEvent runResult hopId (workflow.definition.findHop hopId))
    (buildEvalContext task) timestamp = some result

def HopCompletion.answer (runResult : RunResult) (workflow : TaskWorkflow) (hopId : String)
    (result : DAGEvaluationResult) : DAGHopCompletionResult :=
  { readyHops := result.readyHops
    dagComplete := result.taskStatus.isSome
    reviewRequired :=
      (mapRunResultToHopEvent runResult hopId (workflow.definition.findHop hopId)).outcome =
          .complete ∧
        (workflow.definition.findHop hopId).any fun hop => !hop.autoAdvance }

theorem HopCompletion.run {runResult : RunResult} {timestamp : String}
    {result : DAGEvaluationResult}
    (hcompletion : HopCompletion task runResult timestamp workflow hopId result) (store : Store) :
    (handleDAGHopCompletion task runResult timestamp).run store =
      (some (answer runResult workflow hopId result, task.withWorkflowState result.state),
        store.put (task.withWorkflowState result.state)) := by
  unfold handleDAGHopCompletion
  simp only [hcompletion.workflow_eq, Option.bind_some, hcompletion.dispatched, Option.map_some,
    hcompletion.evaluated]
  rfl

theorem handleDAGHopCompletion_cases (task : Task) (runResult : RunResult) (timestamp : String)
    (store : Store) : (handleDAGHopCompletion task runResult timestamp).run store =
        (some (⟨[], false, false⟩, task), store) ∨
      (handleDAGHopCompletion task runResult timestamp).run store = (none, store) ∨
      ∃ workflow hopId result, HopCompletion task runResult timestamp workflow hopId result := by
  cases hworkflow : task.workflow with
  | none =>
      left
      unfold handleDAGHopCompletion
      rw [hworkflow]
      rfl
  | some workflow =>
      cases hfind : findDispatchedHop workflow with
      | none =>
          left
          unfold handleDAGHopCompletion
          simp only [hworkflow, Option.bind_some, hfind, Option.map_none]
          rfl
      | some hopId =>
          right
          cases heval : evaluateDAG workflow.definition workflow.state
            (mapRunResultToHopEvent runResult hopId (workflow.definition.findHop hopId))
            (buildEvalContext task) timestamp with
          | none =>
              left
              unfold handleDAGHopCompletion
              simp only [hworkflow, Option.bind_some, hfind, Option.map_some, heval]
              rfl
          | some result => exact .inr ⟨workflow, hopId, result, hworkflow, hfind, heval⟩

theorem dispatchDAGHop_cases (task : Task) (hopId : String) (spawn : SpawnResult)
    (timestamp : String) (store : Store) :
    ((dispatchDAGHop task hopId spawn timestamp).run store).2 = store ∨
      ∃ workflow hop sessionId, task.workflow = some workflow ∧
        workflow.definition.findHop hopId = some hop ∧ spawn = .success sessionId ∧
        (dispatchDAGHop task hopId spawn timestamp).run store =
          (some true, store.put (task.withWorkflowState
            (markDispatched hop workflow.state sessionId timestamp))) := by
  cases hworkflow : task.workflow with
  | none =>
      left
      unfold dispatchDAGHop
      rw [hworkflow]
      rfl
  | some workflow =>
      cases hhop : workflow.definition.findHop hopId with
      | none =>
          left
          unfold dispatchDAGHop
          simp only [hworkflow, hhop]
          rfl
      | some hop =>
          cases spawn with
          | failure error =>
              left
              unfold dispatchDAGHop
              simp only [hworkflow, hhop]
              rfl
          | success sessionId =>
              right
              refine ⟨workflow, hop, sessionId, rfl, hhop, rfl, ?_⟩
              unfold dispatchDAGHop
              simp only [hworkflow, hhop]
              rfl

end Aof
