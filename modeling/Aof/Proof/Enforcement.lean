import Aof.Proof.FinalStatus

/-!
# A hop whose agent leaves without a report

The enforcement writes the failure of the hop by hand.  It agrees with the evaluator exactly when
the failure has no consequences.
-/

namespace Aof

section Invariants

variable {definition : WorkflowDefinition} {state next : WorkflowState}

structure Undecided (definition : WorkflowDefinition) (state : WorkflowState) : Prop where
  tracks : Tracks definition state.hops
  results : ∀ id, ¬IsTerminal (statusOf state.hops id) →
    resultOf state.hops id = none
  status : checkDAGCompletion state.hops = none → state.status = .pending

theorem undecided_initializeWorkflowState (hwf : WellFormed definition) :
    Undecided definition (initializeWorkflowState definition) := by
  refine ⟨tracks_initializeWorkflowState hwf, fun id _ => ?_, fun _ => rfl⟩
  rw [resultOf, initializeWorkflowState_get? hwf]
  cases definition.findHop id <;> rfl

theorem WorkflowMove.results {step : WorkflowStep} (hmove : WorkflowMove definition state step next)
    (hresults : ∀ id, ¬IsTerminal (statusOf state.hops id) →
      resultOf state.hops id = none) (id : String) (hopen : ¬IsTerminal (statusOf next.hops id)) :
    resultOf next.hops id = none := by
  have hkept : KeepsTerminal (statusOf state.hops) (statusOf next.hops) →
      (next.hops.get? id).map HopState.result = (state.hops.get? id).map HopState.result →
      resultOf next.hops id = none := by
    intro hkeeps hsame
    rw [resultOf_eq_join, hsame, ← resultOf_eq_join]
    exact hresults id fun hterminal => hopen (by rwa [hkeeps id hterminal])
  cases hmove with
  | @dispatch hop sessionId timestamp hhop hready =>
      refine hkept ?_ ?_
      · rw [statusOf_markDispatched]
        exact recordStatus_keepsTerminal (by simp [hready])
      · obtain ⟨old, hold, -⟩ := statusOf_eq_some_iff.1 hready
        rw [markDispatched, Dict.get?_set]
        split
        · rename_i heq
          rw [← heq, hold]
          rfl
        · rfl
  | @advance hop event _ _ _ hhop _ hdispatched houtcome _ hstatuses hnext _ _ =>
      have hover : IsTerminal (some event.outcome.toStatus) := by
        rcases houtcome with h | h <;> simp [h, HopOutcome.toStatus, IsTerminal]
      by_cases heq : id = hop.id
      · refine absurd ?_ hopen
        rw [hstatuses, Aof.advance, openJoins_terminal_iff, heq,
          onlySkips_settle.terminal (by rwa [recordStatus_self]), recordStatus_self]
        exact hover
      · refine hkept ?_ ((hnext id).trans (if_neg heq))
        rw [hstatuses]
        exact ((recordStatus_keepsTerminal (by simp [hdispatched])).trans
          onlySkips_settle.keepsTerminal).trans (openJoins_keepsTerminal _ _)
  | trip hhop hid hdispatched _ _ _ hstatuses hnext =>
      refine hkept ?_ (hnext id)
      rw [hstatuses]
      exact (recordStatus_keepsTerminal (by simp [hdispatched])).trans onlySkips_fall.keepsTerminal
  | restart hhop _ _ _ _ _ _ hhops =>
      rw [resultOf, hhops]
      cases definition.findHop id <;> rfl
  | restartPredecessors hhop _ _ _ _ _ _ hhops =>
      rw [statusOf, hhops] at hopen
      rw [resultOf, hhops]
      split
      · cases definition.findHop id <;> rfl
      · rename_i hout
        rw [if_neg hout] at hopen
        exact hresults id hopen

theorem WorkflowMove.undecided {step : WorkflowStep} (hundecided : Undecided definition state)
    (hmove : WorkflowMove definition state step next) : Undecided definition next := by
  refine ⟨hmove.tracks hundecided.tracks, hmove.results hundecided.results, fun hnone => ?_⟩
  have hpending : ∀ {hop : Hop}, hop ∈ definition.hops →
      ¬IsTerminal (statusOf state.hops hop.id) → state.status = .pending := by
    intro hop hhop hopen
    exact hundecided.status (hundecided.tracks.no_verdict hhop hopen)
  cases hmove with
  | dispatch hhop hready => exact hpending hhop (by simp [hready])
  | advance hhop _ hdispatched _ _ _ _ _ hstatus =>
      rw [hstatus, hnone]
      exact hpending hhop (by simp [hdispatched])
  | trip hhop _ hdispatched _ _ _ _ _ _ hstatus =>
      rw [hstatus, hnone]
      exact hpending hhop (by simp [hdispatched])
  | restart hhop _ hdispatched _ _ _ _ _ hstatus =>
      rw [hstatus, hnone]
      exact hpending hhop (by simp [hdispatched])
  | restartPredecessors hhop _ hdispatched _ _ _ _ _ hstatus =>
      rw [hstatus, hnone]
      exact hpending hhop (by simp [hdispatched])

theorem Reachable.undecided (hwf : WellFormed definition) (hreach : Reachable definition state) :
    Undecided definition state := by
  obtain ⟨steps, hrun⟩ := hreach
  refine hrun.invariant (Undecided definition) ?_ (undecided_initializeWorkflowState hwf)
  exact fun _ _ _ hundecided _ hstep =>
    (workflowMove_of_step hwf hundecided.tracks hstep).undecided hundecided

end Invariants

section Consequences

variable {definition : WorkflowDefinition} {holds : ConditionReader} {statuses : Statuses}
variable {hopId : String}

/-- With the failure of a hop recorded, no pending hop behind it falls, none is declined, and no
join opens. -/
structure NothingFollows (definition : WorkflowDefinition) (holds : ConditionReader)
    (statuses : Statuses) (hopId : String) : Prop where
  noneFalls : ∀ hop ∈ definition.hops, hopId ∈ hop.dependsOn →
    statuses hop.id = some .pending → ¬Blocked hop statuses
  noneDeclines : ∀ hop ∈ definition.hops, ¬Declines holds hop statuses
  noneOpens : ∀ hop ∈ definition.hops, ¬Opens hop statuses

theorem NothingFollows.not_falls (hnothing : NothingFollows definition holds statuses hopId)
    {id : String} : ¬Falls definition statuses hopId id := by
  intro hfalls
  induction hfalls with
  | @intro hop dep hhop hpending hdep hthrough hall ihthrough ihall =>
      have hstart : dep = hopId := by
        by_contra hne
        exact ihthrough hne
      refine hnothing.noneFalls hop hhop (hstart ▸ hdep) hpending fun other hother => ?_
      by_contra hnon
      exact ihall other hother hnon

theorem NothingFollows.settle_eq (hnothing : NothingFollows definition holds statuses hopId) :
    declinePass holds definition.hops (fall definition statuses hopId) = statuses := by
  have hfall : fall definition statuses hopId = statuses := by
    funext id
    exact if_neg hnothing.not_falls
  rw [hfall]
  exact declinePass_eq_self_iff.2 hnothing.noneDeclines

theorem consequences_eq_self_iff :
    openJoins definition (declinePass holds definition.hops (fall definition statuses hopId)) =
      statuses ↔ NothingFollows definition holds statuses hopId := by
  constructor
  · intro hsame
    have hfalls : OnlySkips statuses (fall definition statuses hopId) := onlySkips_fall
    have hdeclines := onlySkips_declinePass holds definition.hops (fall definition statuses hopId)
    have hsettled :
        declinePass holds definition.hops (fall definition statuses hopId) = statuses := by
      funext id
      rcases openJoins_cases definition
        (declinePass holds definition.hops (fall definition statuses hopId)) id with
        ⟨hid, -⟩ | ⟨hpending, hready, -⟩
      · rw [← hid, hsame]
      · have hbefore := (hfalls.trans hdeclines).pending hpending
        rw [← hsame, hready] at hbefore
        cases hbefore
    have hfallen : fall definition statuses hopId = statuses := by
      funext id
      rcases hfalls id with hid | ⟨hpending, hskipped⟩
      · exact hid
      · have hkept := hdeclines.terminal (.inr (.inl hskipped))
        rw [hsettled, hskipped, hpending] at hkept
        cases hkept
    rw [hfallen] at hsettled
    rw [hfallen, hsettled] at hsame
    refine ⟨fun hop hhop hdep hpending hblocked => ?_, declinePass_eq_self_iff.1 hsettled,
      fun hop hhop hopens => ?_⟩
    · have hfallsHop := Falls.of_blocked hhop hpending hdep hblocked
      have hskipped := congrFun hfallen hop.id
      rw [fall, if_pos hfallsHop, hpending] at hskipped
      cases hskipped
    · have hready := congrFun hsame hop.id
      rw [openJoins, if_pos ⟨hop, hhop, rfl, hopens⟩, hopens.1] at hready
      cases hready
  · intro hnothing
    rw [hnothing.settle_eq]
    funext id
    refine if_neg ?_
    rintro ⟨hop, hhop, -, hopens⟩
    exact hnothing.noneOpens hop hhop hopens

end Consequences

section Enforced

variable {definition : WorkflowDefinition} {state : WorkflowState} {hopId timestamp : String}
variable {task : TaskMeta} {result : DAGEvaluationResult}

def failureOf (hopId : String) : HopEvent := { hopId, outcome := .failed }

def failedStatuses (state : WorkflowState) (hopId : String) : Statuses :=
  recordStatus (statusOf state.hops) hopId .failed

theorem failureOf_ne_rejected (hopId : String) : (failureOf hopId).outcome ≠ .rejected := by
  simp [failureOf]

theorem enforceFailure_hops (timestamp : String) (hundecided : Undecided definition state)
    (hdispatched : statusOf state.hops hopId = some .dispatched) :
    (enforceFailure state hopId timestamp).hops =
      recordHopEvent state.hops (failureOf hopId) timestamp := by
  obtain ⟨hopState, hget, -⟩ := statusOf_eq_some_iff.1 hdispatched
  have hresult := hundecided.results hopId (by simp [hdispatched])
  rw [resultOf, hget, Option.bind_some] at hresult
  simp only [enforceFailure, recordHopEvent, failureOf, hget, Option.getD_some]
  rw [← hresult]
  rfl

/-- The state written by hand is the evaluated one exactly if nothing follows from the failure and
some hop is not over. -/
theorem enforceFailure_eq_iff (hwf : WellFormed definition)
    (hundecided : Undecided definition state)
    (hdispatched : statusOf state.hops hopId = some .dispatched)
    (heval : evaluateDAG definition state (failureOf hopId) task timestamp = some result) :
    enforceFailure state hopId timestamp = result.state ↔
      NothingFollows definition (eventReader state (failureOf hopId) task)
          (failedStatuses state hopId) hopId ∧
        ¬AllHopsTerminal definition (failedStatuses state hopId) := by
  obtain ⟨_, heval', hstatuses, hready, hfinish⟩ :=
    evaluateDAG_eq hwf state (failureOf_ne_rejected hopId) task timestamp
  obtain rfl := Option.some.inj (heval.symm.trans heval')
  have hhops := enforceFailure_hops timestamp hundecided hdispatched
  have hrecorded : statusOf (enforceFailure state hopId timestamp).hops =
      failedStatuses state hopId := by
    rw [hhops, statusOf_recordHopEvent]
    rfl
  have htracks : Tracks definition (enforceFailure state hopId timestamp).hops := by
    refine hundecided.tracks.of_statusOf fun id => ?_
    rw [hrecorded]
    exact recordStatus_isSome (by simp [hdispatched]) id
  have hpending : state.status = .pending := by
    obtain ⟨hop, hhop, rfl⟩ := List.mem_map.1 ((hundecided.tracks hopId).1 (by
      obtain ⟨hopState, hget, -⟩ := statusOf_eq_some_iff.1 hdispatched
      simp [hget]))
    exact hundecided.status (hundecided.tracks.no_verdict hhop (by simp [hdispatched]))
  have hfollows : settle (eventReader state (failureOf hopId) task) definition
      (statusOf state.hops) hopId .failed =
      declinePass (eventReader state (failureOf hopId) task) definition.hops
        (fall definition (failedStatuses state hopId) hopId) := by
    rw [settle, afterEvent, if_neg (by simp)]
    rfl
  constructor
  · intro hsame
    refine ⟨consequences_eq_self_iff.1 ?_, fun hall => ?_⟩
    · rw [← hfollows, ← hrecorded, hsame, hstatuses]
      rfl
    · obtain ⟨hverdict, -, hstatus, -⟩ := evaluateDAG_finish heval
      rw [hverdict, ← hsame, htracks.checkDAGCompletion_eq.1 (hrecorded ▸ hall)] at hstatus
      have hfailed : (enforceFailure state hopId timestamp).status = .pending := hpending
      rw [hfailed] at hstatus
      split at hstatus <;> cases hstatus
  · rintro ⟨hnothing, hopen⟩
    have hsettled : (settledCopy definition state (failureOf hopId) task timestamp).hops =
        recordHopEvent state.hops (failureOf hopId) timestamp := by
      refine (settledCopy_skips definition state _ task timestamp).eq_of_statusOf ?_
      rw [statusOf_settledCopy hwf, statusOf_recordHopEvent]
      exact hfollows.trans hnothing.settle_eq
    have hnone : result.readyHops = [] := by
      rw [hready, hsettled, List.eq_nil_iff_forall_not_mem]
      intro id hid
      obtain ⟨hop, hhop, -, hopens⟩ := (mem_determineReadyHops _).1 hid
      refine hnothing.noneOpens hop hhop ?_
      rwa [statusOf_recordHopEvent] at hopens
    have hverdict : checkDAGCompletion
        (settledCopy definition state (failureOf hopId) task timestamp).hops = none := by
      rw [hsettled, ← hhops]
      exact htracks.checkDAGCompletion_eq.2 (hrecorded ▸ hopen)
    rw [hfinish, hnone]
    simp only [List.foldl_nil, finishEvaluation, hverdict, Option.getD_none, Option.isSome_none,
      Bool.false_eq_true, ↓reduceIte]
    rw [hsettled, ← hhops]
    rfl

end Enforced

section Callback

variable {definition : WorkflowDefinition} {state : WorkflowState}
variable {taskId hopId timestamp : String} {task : Task} {store : Store}

theorem after_onRunComplete (hget : store.tasks.get? taskId = some task)
    (hworkflow : task.workflow = some ⟨definition, state⟩)
    (hdispatched : statusOf state.hops hopId = some .dispatched) :
    (onRunComplete taskId hopId timestamp).after store =
      if shouldTransitionToDeadletter task.withDispatchFailure then
        (transitionToDeadletter taskId).after (store.put task.withDispatchFailure)
      else (store.put task.withDispatchFailure).put
        (task.withDispatchFailure.withWorkflowState (enforceFailure state hopId timestamp)) := by
  have hid : task.withDispatchFailure.id = taskId := store.keyed taskId task hget
  have htrack : (trackDispatchFailure taskId).run store =
      (some (), store.put task.withDispatchFailure) := by
    rw [trackDispatchFailure, Command.run_bind_of_some (Store.run_get taskId), hget]
    rfl
  rw [Command.after_eq, onRunComplete, Command.run_bind_of_some (Store.run_get taskId), hget]
  simp only [hworkflow, Option.bind_some, hdispatched, ↓reduceIte]
  rw [Command.run_attempt, Command.run_bind_of_some htrack,
    Command.run_bind_of_some (Store.run_get taskId), Store.tasks_put, if_pos hid]
  have hsame : task.withDispatchFailure.workflow = some ⟨definition, state⟩ := hworkflow
  simp only [hsame]
  split <;> rfl

theorem workflow_transitionToDeadletter (hget : store.tasks.get? taskId = some task) :
    ∃ left, ((transitionToDeadletter taskId).after store).tasks.get? taskId = some left ∧
      left.workflow = task.workflow := by
  rw [Command.after_eq, transitionToDeadletter, Command.run_bind_of_some (Store.run_get taskId), hget]
  simp only [Command.run_discard]
  rcases Store.transition_cases store taskId .deadletter with hsame | ⟨old, hold, -, -, hrun⟩
  · exact ⟨task, by rw [hsame, hget], rfl⟩
  · obtain rfl := Option.some.inj (hget.symm.trans hold)
    refine ⟨Store.transitioned task .deadletter, ?_, rfl⟩
    simp [hrun, store.keyed taskId task hget]

/-- Whether the workflow or a new attempt takes a task up again: one in progress needs a hop that
is ready or in flight, and the last three statuses end a task. -/
def Continues (status : TaskStatus) (statuses : Statuses) : Prop :=
  match status with
  | .inProgress => ∃ id, statuses id = some .ready ∨ statuses id = some .dispatched
  | .backlog | .ready | .blocked | .review => True
  | .done | .cancelled | .deadletter => False

/-- The task is left with the workflow state that the evaluator returns, and continues. -/
def EnforcementAgrees (task : Task) (definition : WorkflowDefinition) (state : WorkflowState)
    (hopId timestamp : String) (after : Store) : Prop :=
  ∃ result left, evaluateDAG definition state (failureOf hopId) (buildEvalContext task)
      timestamp = some result ∧
    after.tasks.get? task.id = some left ∧ left.workflow = some ⟨definition, result.state⟩ ∧
    Continues left.status (statusOf result.state.hops)

structure FailureIsolated (task : Task) (definition : WorkflowDefinition) (state : WorkflowState)
    (hopId : String) : Prop where
  notDeadlettered : shouldTransitionToDeadletter task.withDispatchFailure = false
  nothing : NothingFollows definition (eventReader state (failureOf hopId) (buildEvalContext task))
    (failedStatuses state hopId) hopId
  unfinished : ¬AllHopsTerminal definition (failedStatuses state hopId)
  continues : Continues task.status (failedStatuses state hopId)

/-- The enforcement fails the hop unless it gives up on the task, and it agrees with the evaluator
exactly if the failure is isolated. -/
theorem enforcement_agrees_iff (haccepted : validateDAG definition = [])
    (hreach : Reachable definition state) (hget : store.tasks.get? taskId = some task)
    (hworkflow : task.workflow = some ⟨definition, state⟩)
    (hdispatched : statusOf state.hops hopId = some .dispatched) :
    ((((onRunComplete taskId hopId timestamp).after store).tasks.get? taskId).bind
        fun left => left.workflow.bind fun workflow => statusOf workflow.state.hops hopId) =
      (if shouldTransitionToDeadletter task.withDispatchFailure then some .dispatched
        else some .failed) ∧
    (EnforcementAgrees task definition state hopId timestamp
        ((onRunComplete taskId hopId timestamp).after store) ↔
      FailureIsolated task definition state hopId) := by
  have hwf := WellFormed.of_validateDAG haccepted
  have hundecided := hreach.undecided hwf
  have hid : task.id = taskId := store.keyed taskId task hget
  have hcounted : (store.put task.withDispatchFailure).tasks.get? taskId =
      some task.withDispatchFailure := by
    rw [Store.tasks_put]
    exact if_pos hid
  obtain ⟨result, heval, -⟩ := evaluateDAG_eq hwf state (failureOf_ne_rejected hopId)
    (buildEvalContext task) timestamp
  have hfailed := ((evaluation_of_evaluateDAG heval).failed_iff (by simp [failureOf]) hopId).2
    recordStatus_self
  rw [after_onRunComplete hget hworkflow hdispatched]
  by_cases hdead : shouldTransitionToDeadletter task.withDispatchFailure
  · obtain ⟨left, hleft, hsame⟩ := workflow_transitionToDeadletter hcounted
    have hkept : left.workflow = some ⟨definition, state⟩ := hsame.trans hworkflow
    rw [if_pos hdead, if_pos hdead, hleft, Option.bind_some, hkept]
    refine ⟨hdispatched, iff_of_false ?_ fun hisolated => ?_⟩
    · rintro ⟨result', left', heval', hleft', hworkflow', -⟩
      obtain rfl := Option.some.inj (heval.symm.trans heval')
      rw [hid, hleft] at hleft'
      obtain rfl := Option.some.inj hleft'
      obtain rfl : state = result.state := by simpa [hkept] using hworkflow'
      simp [hdispatched] at hfailed
    · simp [hisolated.notDeadlettered] at hdead
  · rw [if_neg hdead, if_neg hdead]
    let left := task.withDispatchFailure.withWorkflowState (enforceFailure state hopId timestamp)
    have hleft : ((store.put task.withDispatchFailure).put left).tasks.get? taskId = some left := by
      rw [Store.tasks_put]
      exact if_pos hid
    have hwritten : left.workflow = some ⟨definition, enforceFailure state hopId timestamp⟩ :=
      withWorkflowState_workflow hworkflow _
    have hrecorded : statusOf (enforceFailure state hopId timestamp).hops =
        failedStatuses state hopId := by
      rw [enforceFailure_hops timestamp hundecided hdispatched, statusOf_recordHopEvent]
      rfl
    have hequal := enforceFailure_eq_iff hwf hundecided hdispatched heval
    rw [hleft, Option.bind_some, hwritten, Option.bind_some]
    refine ⟨(congrFun hrecorded hopId).trans recordStatus_self, ?_, fun hisolated => ?_⟩
    · rintro ⟨result', left', heval', hleft', hworkflow', hcontinues⟩
      obtain rfl := Option.some.inj (heval.symm.trans heval')
      rw [hid, hleft] at hleft'
      obtain rfl := Option.some.inj hleft'
      have hstate : enforceFailure state hopId timestamp = result.state := by
        simpa [hwritten] using hworkflow'
      obtain ⟨hnothing, hunfinished⟩ := hequal.1 hstate
      refine ⟨by simpa using hdead, hnothing, hunfinished, ?_⟩
      rwa [← hstate, hrecorded] at hcontinues
    · have hstate := hequal.2 ⟨hisolated.nothing, hisolated.unfinished⟩
      refine ⟨result, left, heval, hid ▸ hleft, hstate ▸ hwritten, ?_⟩
      rw [← hstate, hrecorded]
      exact hisolated.continues

end Callback

section Branches

theorem build_isolated : FailureIsolated (taskAt branches { id := "build", role := "swe" }) branches
    (markDispatched { id := "build", role := "swe" } (initializeWorkflowState branches) "s1" "t1")
    "build" := by
  have hroots : ∀ hop ∈ branches.hops, hop.dependsOn = [] ∧ hop.condition = none := by
    simp [branches]
  refine ⟨by decide, ⟨?_, ?_, ?_⟩, by decide, "docs", by decide⟩
  · intro hop hhop hdep
    simp [(hroots hop hhop).1] at hdep
  · rintro hop hhop ⟨-, -, condition, hcondition, -⟩
    simp [(hroots hop hhop).2] at hcondition
  · rintro hop hhop ⟨-, hroot, -⟩
    simp [Hop.isRoot, (hroots hop hhop).1] at hroot

theorem build_enforced : EnforcementAgrees (taskAt branches { id := "build", role := "swe" })
    branches
    (markDispatched { id := "build", role := "swe" } (initializeWorkflowState branches) "s1" "t1")
    "build" "t2" ((onRunComplete "T1" "build" "t2").after
      (storeOf (taskAt branches { id := "build", role := "swe" }) docsDone)) := by
  have hreach : Reachable branches (markDispatched { id := "build", role := "swe" }
      (initializeWorkflowState branches) "s1" "t1") :=
    ⟨[.dispatch "build" "s1" "t1"], StepSystem.freeRun_iff_exec.2 rfl⟩
  exact (enforcement_agrees_iff (by decide) hreach rfl rfl (by decide)).2.2 build_isolated

/-- The enforcement leaves the dependents of the failed hop pending. -/
theorem dependents_left_pending : ¬∀ definition state, validateDAG definition = [] →
    Reachable definition state → ∀ (store : Store) taskId task hopId timestamp,
    store.tasks.get? taskId = some task → task.workflow = some ⟨definition, state⟩ →
    statusOf state.hops hopId = some .dispatched →
    EnforcementAgrees task definition state hopId timestamp
      ((onRunComplete taskId hopId timestamp).after store) := by
  intro hall
  let state := markDispatched { id := "implement", role := "swe" }
    (initializeWorkflowState linear) "s1" "t1"
  let task := taskAt linear { id := "implement", role := "swe" }
  obtain ⟨result, left, heval, hleft, hworkflow, -⟩ := hall linear state (by decide)
    ⟨[.dispatch "implement" "s1" "t1"], StepSystem.freeRun_iff_exec.2 rfl⟩
    (storeOf task docsDone) "T1" task "implement" "t2" rfl rfl (by decide)
  have hskipped : (evaluateDAG linear state (failureOf "implement") (buildEvalContext task)
      "t2").map (fun result => statusOf result.state.hops "review") = some (some .skipped) := by
    decide
  have hpending : (((onRunComplete "T1" "implement" "t2").after (storeOf task docsDone)).tasks.get?
      "T1").bind (fun left => left.workflow.map fun workflow =>
        statusOf workflow.state.hops "review") = some (some .pending) := by
    decide
  rw [heval, Option.map_some] at hskipped
  have hsame : (((onRunComplete "T1" "implement" "t2").after (storeOf task docsDone)).tasks.get?
      "T1").bind (fun left => left.workflow.map fun workflow =>
        statusOf workflow.state.hops "review") =
      some (statusOf result.state.hops "review") := by
    refine (congrArg (Option.bind · _) hleft).trans ?_
    rw [Option.bind_some, hworkflow, Option.map_some]
  rw [hsame, hskipped] at hpending
  cases hpending

end Branches

end Aof
