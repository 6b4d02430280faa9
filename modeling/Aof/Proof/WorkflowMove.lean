import Aof.Proof.Evaluator

/-!
# What one step of a workflow does

The inversion of `workflowStep` on a state that tracks the hops of its definition.  Everything
that later proofs need of a step is read off here, once.
-/

namespace Aof

def Tracks (definition : WorkflowDefinition) (hops : Dict String HopState) : Prop :=
  ∀ id, (hops.get? id).isSome ↔ id ∈ definition.hops.map Hop.id

section Tracks

variable {definition : WorkflowDefinition} {hops : Dict String HopState}

theorem Tracks.exists_status (htracks : Tracks definition hops) {hop : Hop}
    (hhop : hop ∈ definition.hops) : ∃ status, statusOf hops hop.id = some status := by
  obtain ⟨hopState, hget⟩ :=
    Option.isSome_iff_exists.1 ((htracks hop.id).2 (List.mem_map_of_mem hhop))
  exact ⟨hopState.status, by simp [statusOf, hget]⟩

variable {hops' : Dict String HopState}

theorem Tracks.of_statusOf (htracks : Tracks definition hops)
    (hsome : ∀ id, (statusOf hops' id).isSome ↔ (statusOf hops id).isSome) :
    Tracks definition hops' := by
  intro id
  have h := hsome id
  simp only [statusOf, Option.isSome_map] at h
  rw [h, htracks id]

theorem Tracks.forall_values (htracks : Tracks definition hops) {motive : HopStatus → Prop} :
    (∀ status ∈ hops.values.map HopState.status, motive status) ↔
      ∀ hop ∈ definition.hops, ∀ status, statusOf hops hop.id = some status → motive status := by
  simp only [List.forall_mem_map, Dict.mem_values_iff_get?]
  constructor
  · rintro hall hop hhop status hstatus
    obtain ⟨hopState, hget, rfl⟩ := statusOf_eq_some_iff.1 hstatus
    exact hall hopState ⟨hop.id, hget⟩
  · rintro hall hopState ⟨id, hget⟩
    have hid := (htracks id).1 (by simp [hget])
    obtain ⟨hop, hhop, rfl⟩ := List.mem_map.1 hid
    exact hall hop hhop hopState.status (by simp [statusOf, hget])

abbrev AllHopsTerminal (definition : WorkflowDefinition) (statuses : Statuses) : Prop :=
  ∀ hop ∈ definition.hops, IsTerminal (statuses hop.id)

theorem Tracks.checkDAGCompletion_eq (htracks : Tracks definition hops) :
    (AllHopsTerminal definition (statusOf hops) →
      checkDAGCompletion hops =
        if ∃ hop ∈ definition.hops, statusOf hops hop.id = some .failed then some .failed
        else some .complete) ∧
    (¬AllHopsTerminal definition (statusOf hops) → checkDAGCompletion hops = none) := by
  have hterminal : (∀ status ∈ hops.values.map HopState.status, IsTerminal (some status)) ↔
      AllHopsTerminal definition (statusOf hops) := by
    rw [htracks.forall_values]
    refine forall₂_congr fun hop hhop => ?_
    obtain ⟨status, hstatus⟩ := htracks.exists_status hhop
    simp [hstatus]
  have hfailed : .failed ∈ hops.values.map HopState.status ↔
      ∃ hop ∈ definition.hops, statusOf hops hop.id = some .failed := by
    have hnone := htracks.forall_values (motive := fun status => status ≠ .failed)
    rw [← not_iff_not]
    simp only [not_exists, not_and]
    refine Iff.trans ?_ (hnone.trans ?_)
    · constructor
      · exact fun h status hmem heq => h (heq ▸ hmem)
      · exact fun h hmem => h _ hmem rfl
    · refine forall₂_congr fun hop _ => ?_
      constructor
      · exact fun h heq => h _ heq rfl
      · rintro h status heq rfl
        exact h heq
  unfold checkDAGCompletion
  simp only [hfailed]
  constructor
  · intro hall
    rw [if_pos (hterminal.2 hall)]
  · intro hnot
    rw [if_neg fun h => hnot (hterminal.1 h)]

theorem Tracks.no_verdict (htracks : Tracks definition hops) {hop : Hop}
    (hhop : hop ∈ definition.hops) (hopen : ¬IsTerminal (statusOf hops hop.id)) :
    checkDAGCompletion hops = none :=
  htracks.checkDAGCompletion_eq.2 fun hall => hopen (hall hop hhop)

theorem checkDAGCompletion_congr {table table' : Dict String HopState}
    (hstatus : statusOf table = statusOf table') :
    checkDAGCompletion table = checkDAGCompletion table' := by
  have hmem : ∀ status, status ∈ table.values.map HopState.status ↔
      status ∈ table'.values.map HopState.status := by
    have hexists : ∀ c : Dict String HopState, ∀ status,
        status ∈ c.values.map HopState.status ↔ ∃ id, statusOf c id = some status := by
      intro c status
      simp only [List.mem_map, Dict.mem_values_iff_get?, statusOf_eq_some_iff]
      grind
    intro status
    rw [hexists, hexists, hstatus]
  simp only [checkDAGCompletion, hmem]

theorem Tracks.statusOf_ext (htracks : Tracks definition hops)
    (htracks' : Tracks definition hops')
    (hsame : ∀ hop ∈ definition.hops, statusOf hops hop.id = statusOf hops' hop.id) :
    statusOf hops = statusOf hops' := by
  funext id
  by_cases hid : id ∈ definition.hops.map Hop.id
  · obtain ⟨hop, hhop, rfl⟩ := List.mem_map.1 hid
    exact hsame hop hhop
  · have hnone : hops.get? id = none := by simpa [hid] using htracks id
    have hnone' : hops'.get? id = none := by simpa [hid] using htracks' id
    rw [statusOf, statusOf, hnone, hnone']

end Tracks

variable {definition : WorkflowDefinition}

theorem initializeWorkflowState_get? (hwf : WellFormed definition) (id : String) :
    (initializeWorkflowState definition).hops.get? id =
      (definition.findHop id).map fun hop => { status := freshStatus hop } :=
  get?_foldl_set_id (fun hop => ({ status := freshStatus hop } : HopState)) hwf.ids_nodup id

theorem tracks_initializeWorkflowState (hwf : WellFormed definition) :
    Tracks definition (initializeWorkflowState definition).hops := by
  intro id
  rw [initializeWorkflowState_get? hwf, Option.isSome_map, Option.isSome_iff_ne_none,
    WorkflowDefinition.findHop, Ne, find?_id_eq_none, not_not]

theorem statusOf_initializeWorkflowState (hwf : WellFormed definition) {hop : Hop}
    (hhop : hop ∈ definition.hops) :
    statusOf (initializeWorkflowState definition).hops hop.id = some (freshStatus hop) := by
  rw [statusOf, initializeWorkflowState_get? hwf, hwf.findHop hhop]
  rfl

/-- The rejection count of a hop; a missing one is zero. -/
def rejectionsOf (hops : Dict String HopState) (id : String) : Nat :=
  ((hops.get? id).bind HopState.rejectionCount).getD 0

def resultOf (hops : Dict String HopState) (id : String) : Option JsObject :=
  (hops.get? id).bind HopState.result

theorem resultOf_eq_join (hops : Dict String HopState) (id : String) :
    resultOf hops id = ((hops.get? id).map HopState.result).join := by
  rw [resultOf]
  cases hops.get? id <;> rfl

/-- The effect of a step, one constructor for each thing that the source can do. -/
inductive WorkflowMove (definition : WorkflowDefinition) (state : WorkflowState) :
    WorkflowStep → WorkflowState → Prop
  | dispatch {hop : Hop} {sessionId timestamp : String} (hhop : hop ∈ definition.hops)
      (hready : statusOf state.hops hop.id = some .ready) :
      WorkflowMove definition state (.dispatch hop.id sessionId timestamp)
        (markDispatched hop state sessionId timestamp)
  | advance {hop : Hop} {event : HopEvent} {task : TaskMeta} {timestamp : String}
      {next : WorkflowState} (hhop : hop ∈ definition.hops) (hid : hop.id = event.hopId)
      (hdispatched : statusOf state.hops hop.id = some .dispatched)
      (houtcome : event.outcome = .complete ∨ event.outcome = .failed)
      (hkeys : next.hops.keys = state.hops.keys)
      (hstatuses : statusOf next.hops = advance (eventReader state event task) definition
        (statusOf state.hops) hop.id event.outcome.toStatus)
      (hresults : ∀ id, (next.hops.get? id).map HopState.result =
        if id = hop.id then some event.result else (state.hops.get? id).map HopState.result)
      (hcounts : ∀ id, (next.hops.get? id).map HopState.rejectionCount =
        (state.hops.get? id).map HopState.rejectionCount)
      (hstatus : next.status = (checkDAGCompletion next.hops).getD state.status) :
      WorkflowMove definition state (.evaluate event task timestamp) next
  | trip {hop : Hop} {event : HopEvent} {task : TaskMeta} {timestamp : String}
      {next : WorkflowState} (hhop : hop ∈ definition.hops) (hid : hop.id = event.hopId)
      (hdispatched : statusOf state.hops hop.id = some .dispatched)
      (houtcome : event.outcome = .rejected) (hcanReject : hop.canReject = true)
      (hlimit : DEFAULT_MAX_REJECTIONS ≤ rejectionsOf state.hops hop.id + 1)
      (hstatuses : statusOf next.hops =
        fall definition (recordStatus (statusOf state.hops) hop.id .failed) hop.id)
      (hresults : ∀ id, (next.hops.get? id).map HopState.result =
        (state.hops.get? id).map HopState.result)
      (hcounts : ∀ id, (next.hops.get? id).map HopState.rejectionCount =
        if id = hop.id then some (some (rejectionsOf state.hops hop.id + 1))
        else (state.hops.get? id).map HopState.rejectionCount)
      (hstatus : next.status = (checkDAGCompletion next.hops).getD state.status) :
      WorkflowMove definition state (.evaluate event task timestamp) next
  | restart {hop : Hop} {event : HopEvent} {task : TaskMeta} {timestamp : String}
      {next : WorkflowState} (hhop : hop ∈ definition.hops) (hid : hop.id = event.hopId)
      (hdispatched : statusOf state.hops hop.id = some .dispatched)
      (houtcome : event.outcome = .rejected) (hcanReject : hop.canReject = true)
      (hlimit : rejectionsOf state.hops hop.id + 1 < DEFAULT_MAX_REJECTIONS)
      (hstrategy : hop.rejectionStrategy.getD .origin = .origin)
      (hhops : ∀ id, next.hops.get? id = (definition.findHop id).map fun other =>
        resetHopState hop.id (rejectionsOf state.hops hop.id + 1) id (freshStatus other))
      (hstatus : next.status = (checkDAGCompletion next.hops).getD state.status) :
      WorkflowMove definition state (.evaluate event task timestamp) next
  | restartPredecessors {hop : Hop} {event : HopEvent} {task : TaskMeta} {timestamp : String}
      {next : WorkflowState} (hhop : hop ∈ definition.hops) (hid : hop.id = event.hopId)
      (hdispatched : statusOf state.hops hop.id = some .dispatched)
      (houtcome : event.outcome = .rejected) (hcanReject : hop.canReject = true)
      (hlimit : rejectionsOf state.hops hop.id + 1 < DEFAULT_MAX_REJECTIONS)
      (hstrategy : hop.rejectionStrategy.getD .origin = .predecessors)
      (hhops : ∀ id, next.hops.get? id =
        if id ∈ resetSet hop then (definition.findHop id).map fun other =>
          resetHopState hop.id (rejectionsOf state.hops hop.id + 1) id
            (resetStatus (resetSet hop) (statusOf state.hops) other)
        else state.hops.get? id)
      (hstatus : next.status = (checkDAGCompletion next.hops).getD state.status) :
      WorkflowMove definition state (.evaluate event task timestamp) next

section Inversion

variable {definition : WorkflowDefinition} {state next : WorkflowState}

variable {event : HopEvent} {task : TaskMeta} {timestamp : String} {hop : Hop}

theorem advance_frame {β : Type} (definition : WorkflowDefinition) (field : HopState → β)
    (hskip : ∀ hopState completedAt,
      field { hopState with status := .skipped, completedAt := completedAt } = field hopState)
    (hready : ∀ hopState, field { hopState with status := .ready } = field hopState) {id : String} :
    ((((determineReadyHops definition
        (settledCopy definition state event task timestamp).hops).foldl WorkingCopy.promote
        (settledCopy definition state event task timestamp)).hops.get? id).map field) =
      ((recordHopEvent state.hops event timestamp).get? id).map field := by
  rw [← (settledCopy_skips definition state event task timestamp).frame field hskip id,
    get?_foldl_promote]
  split
  · rename_i hopens
    obtain ⟨hop, hhop, rfl, hpending, -⟩ := (mem_determineReadyHops _).1 hopens
    obtain ⟨hopState, hget, -⟩ := statusOf_eq_some_iff.1 hpending
    simp [hget, hready]
  · rfl

theorem workflowMove_of_evaluate_outcome (hwf : WellFormed definition)
    (hhop : hop ∈ definition.hops) (hid : hop.id = event.hopId)
    (hdispatched : statusOf state.hops hop.id = some .dispatched)
    (houtcome : event.outcome = .complete ∨ event.outcome = .failed)
    (heval : (evaluateDAG definition state event task timestamp).map DAGEvaluationResult.state =
      some next) : WorkflowMove definition state (.evaluate event task timestamp) next := by
  have hrejected : event.outcome ≠ .rejected := by
    rcases houtcome with h | h <;> simp [h]
  obtain ⟨result, hresult, hstatuses, hready, hfinish⟩ :=
    evaluateDAG_eq hwf state hrejected task timestamp
  obtain rfl : result.state = next := by simpa [hresult] using heval
  have hhops : result.state.hops = ((determineReadyHops definition
      (settledCopy definition state event task timestamp).hops).foldl WorkingCopy.promote
      (settledCopy definition state event task timestamp)).hops := by
    rw [hfinish, ← hready]
    rfl
  obtain ⟨prev, hprev, -⟩ := statusOf_eq_some_iff.1 hdispatched
  have hrecorded : (recordHopEvent state.hops event timestamp).keys = state.hops.keys :=
    Dict.keys_set_of_get? (hid ▸ hprev) _
  refine .advance hhop hid hdispatched houtcome ?_ (hid ▸ hstatuses) (fun id => ?_)
    (fun id => ?_) ?_
  · rw [hhops, keys_foldl_promote, (settledCopy_skips definition state event task timestamp).keys,
      hrecorded]
    intro id hready
    obtain ⟨_, _, rfl, hpending, -⟩ := (mem_determineReadyHops _).1 hready
    obtain ⟨hopState, hget, -⟩ := statusOf_eq_some_iff.1 hpending
    exact Dict.mem_keys_iff.2 ⟨hopState, hget⟩
  · rw [hhops, advance_frame definition HopState.result (fun _ _ => rfl) fun _ => rfl, recordHopEvent,
      Dict.get?_set, hid]
    simp only [eq_comm (a := id)]
    split <;> rfl
  · rw [hhops, advance_frame definition HopState.rejectionCount (fun _ _ => rfl) fun _ => rfl,
      recordHopEvent, Dict.get?_set]
    split
    · rename_i heq
      rw [← heq, ← hid, hprev]
      rfl
    · rfl
  · rw [hfinish]
    rfl

theorem nextRejectionCount_eq (hops : Dict String HopState) (hopId : String) :
    nextRejectionCount hops hopId = rejectionsOf hops hopId + 1 := rfl

theorem tripCircuitBreaker_frame {β : Type} (definition : WorkflowDefinition)
    {hops : Dict String HopState} {hopId : String} {currentCount : Nat} {prev : HopState}
    (hprev : hops.get? hopId = some prev) (field : HopState → β)
    (hskip : ∀ hopState completedAt,
      field { hopState with status := .skipped, completedAt := completedAt } = field hopState)
    (id : String) :
    ((tripCircuitBreaker definition hops hopId currentCount timestamp).hops.get? id).map field =
      if id = hopId then
        some (field { prev with
          status := .failed, completedAt := some timestamp, rejectionCount := some currentCount })
      else (hops.get? id).map field := by
  rw [(tripCircuitBreaker_skips currentCount definition hops hopId timestamp).frame field hskip id,
    trippedCopy, Dict.get?_set, hprev]
  simp only [eq_comm (a := id)]
  split <;> rfl

variable (hwf : WellFormed definition) (htracks : Tracks definition state.hops)
include hwf htracks

theorem workflowMove_of_evaluate_rejected (hhop : hop ∈ definition.hops)
    (hid : hop.id = event.hopId) (hdispatched : statusOf state.hops hop.id = some .dispatched)
    (houtcome : event.outcome = .rejected) (hcanReject : hop.canReject = true)
    (heval : (evaluateDAG definition state event task timestamp).map DAGEvaluationResult.state =
      some next) : WorkflowMove definition state (.evaluate event task timestamp) next := by
  have hfind := hwf.findHop hhop
  rw [evaluateDAG, if_pos houtcome, evaluateRejection, ← hid] at heval
  simp only [applyRejection, nextRejectionCount_eq, hfind, Option.bind_eq_bind,
    Option.bind_some] at heval
  by_cases hlimit : rejectionsOf state.hops hop.id + 1 ≥ DEFAULT_MAX_REJECTIONS
  · rw [if_pos hlimit, Option.bind_some, Option.map_some, Option.some.injEq] at heval
    subst heval
    obtain ⟨prev, hprev, -⟩ := statusOf_eq_some_iff.1 hdispatched
    refine .trip hhop hid hdispatched houtcome hcanReject hlimit
      (statusOf_tripCircuitBreaker _ hwf _ _ _) (fun id => ?_) (fun id => ?_) rfl
    · refine (tripCircuitBreaker_frame definition hprev HopState.result (fun _ _ => rfl) id).trans ?_
      split
      · rename_i heq
        rw [heq, hprev]
        rfl
      · rfl
    · exact tripCircuitBreaker_frame definition hprev HopState.rejectionCount (fun _ _ => rfl) id
  · have hbelow : rejectionsOf state.hops hop.id + 1 < DEFAULT_MAX_REJECTIONS := by omega
    rw [if_neg hlimit] at heval
    have htracked : ∀ other ∈ definition.hops, (state.hops.get? other.id).isSome :=
      fun other hother => (htracks other.id).2 (List.mem_map_of_mem hother)
    cases hstrategy : hop.rejectionStrategy.getD .origin with
    | origin =>
        obtain ⟨copy, hcopy, hget⟩ := resetAllHopsForOrigin_eq hop.id
          (rejectionsOf state.hops hop.id + 1) hwf ⟨state.hops, []⟩ htracked
        simp only [hstrategy, hcopy, Option.bind_some, Option.map_some,
          Option.some.injEq] at heval
        subst heval
        refine .restart hhop hid hdispatched houtcome hcanReject hbelow hstrategy
          (fun id => ?_) rfl
        refine (hget id).trans ?_
        cases hother : definition.findHop id with
        | some other => rfl
        | none =>
            have hout : ¬(state.hops.get? id).isSome := by
              rw [htracks id]
              exact find?_id_eq_none.1 hother
            simpa using hout
    | predecessors =>
        have hreset : ∀ id ∈ resetSet hop, (state.hops.get? id).isSome := by
          intro id hmem
          rw [htracks id]
          rcases mem_resetSet.1 hmem with rfl | hdep
          · exact List.mem_map_of_mem hhop
          · exact hwf.deps_exist hop hhop id hdep
        obtain ⟨copy, hcopy, hget⟩ := resetPredecessorHops_eq hop.id
          (rejectionsOf state.hops hop.id + 1) hwf ⟨state.hops, []⟩ hfind hreset
        simp only [hstrategy, hcopy, Option.bind_some, Option.map_some,
          Option.some.injEq] at heval
        subst heval
        exact .restartPredecessors hhop hid hdispatched houtcome hcanReject hbelow hstrategy
          hget rfl

theorem workflowMove_of_step {step : WorkflowStep}
    (hstep : workflowStep definition state step = some next) :
    WorkflowMove definition state step next := by
  cases step with
  | dispatch hopId sessionId timestamp =>
      simp only [workflowStep, Option.bind_eq_bind, Option.bind_eq_some_iff] at hstep
      obtain ⟨hop, hfind, hstep⟩ := hstep
      obtain ⟨hhop, rfl⟩ := mem_of_findHop hfind
      split at hstep
      · rename_i hready
        obtain rfl : _ = next := by simpa using hstep
        exact .dispatch hhop hready
      · cases hstep
  | evaluate event task timestamp =>
      simp only [workflowStep, Option.bind_eq_bind, Option.bind_eq_some_iff] at hstep
      obtain ⟨hop, hfind, hstep⟩ := hstep
      obtain ⟨hhop, hid⟩ := mem_of_findHop hfind
      split at hstep
      · rename_i hguard
        obtain ⟨hdispatched, hallowed⟩ := hguard
        rw [← hid] at hdispatched
        cases houtcome : event.outcome with
        | complete =>
            exact workflowMove_of_evaluate_outcome hwf hhop hid hdispatched (.inl houtcome) hstep
        | failed =>
            exact workflowMove_of_evaluate_outcome hwf hhop hid hdispatched (.inr houtcome) hstep
        | rejected =>
            rw [houtcome] at hallowed
            exact workflowMove_of_evaluate_rejected hwf htracks hhop hid hdispatched houtcome
              hallowed hstep
        | skipped => simp [houtcome, outcomeAllowed] at hallowed
      · cases hstep

end Inversion

end Aof
