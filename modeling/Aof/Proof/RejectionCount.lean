import Aof.Proof.Deadlock
import Mathlib.Algebra.BigOperators.Group.Finset.Basic
import Mathlib.Algebra.Order.BigOperators.Group.Finset

/-!
# The circuit breaker of rejections

A reset forgets the rejection counts of the hops it covers.  In the runs whose resets cover no
count but the rejected hop's own, the counts are those of the trace, and rejections run out.
-/

namespace Aof

def WorkflowStep.rejectedHop : WorkflowStep → Option String
  | .dispatch .. => none
  | .evaluate event _ _ => if event.outcome = .rejected then some event.hopId else none

def rejections (steps : List WorkflowStep) : List String :=
  steps.filterMap WorkflowStep.rejectedHop

/-- Every count is that of the trace, and bounds it. -/
structure BreakerHolds (definition : WorkflowDefinition) (steps : List WorkflowStep)
    (state : WorkflowState) : Prop where
  counted : ∀ hop ∈ definition.hops,
    rejectionsOf state.hops hop.id = (rejections steps).count hop.id
  bounded : ∀ hop ∈ definition.hops, (rejections steps).count hop.id ≤ DEFAULT_MAX_REJECTIONS
  total : (rejections steps).length ≤ DEFAULT_MAX_REJECTIONS * definition.hops.length

def resetAlong (definition : WorkflowDefinition) (hop : Hop) : List String :=
  match hop.rejectionStrategy.getD .origin with
  | .origin => definition.hops.map Hop.id
  | .predecessors => hop.dependsOn

/-- A rejection below the limit resets no other hop that was rejected before. -/
def ForgetsNoRejection (definition : WorkflowDefinition) (state : WorkflowState) :
    WorkflowStep → Prop
  | .dispatch .. => True
  | .evaluate event _ _ => ∀ hop ∈ definition.hops, hop.id = event.hopId →
      event.outcome = .rejected →
      rejectionsOf state.hops hop.id + 1 < DEFAULT_MAX_REJECTIONS →
      ∀ id ∈ resetAlong definition hop, id ≠ hop.id → rejectionsOf state.hops id = 0

section Step

variable {definition : WorkflowDefinition} {state next : WorkflowState}

variable {hops : Dict String HopState} {id : String} {hop : Hop} {step : WorkflowStep}

theorem rejectionsOf_congr {hops' : Dict String HopState}
    (hsame : (hops'.get? id).map HopState.rejectionCount =
      (hops.get? id).map HopState.rejectionCount) :
    rejectionsOf hops' id = rejectionsOf hops id := by
  have hjoin : ∀ table : Dict String HopState, (table.get? id).bind HopState.rejectionCount =
      ((table.get? id).map HopState.rejectionCount).join := by
    intro table
    cases table.get? id <;> rfl
  rw [rejectionsOf, rejectionsOf, hjoin, hjoin, hsame]

theorem rejectionsOf_resetHopState {rejectedHopId : String} {count : Nat} {newStatus : HopStatus}
    (hget : hops.get? id = some (resetHopState rejectedHopId count id newStatus)) :
    rejectionsOf hops id = if id = rejectedHopId then count else 0 := by
  rw [rejectionsOf, hget, Option.bind_some, resetHopState]
  split <;> rfl

theorem rejectionsOf_markDispatched {sessionId timestamp : String}
    (hready : statusOf state.hops hop.id = some .ready) (id : String) :
    rejectionsOf (markDispatched hop state sessionId timestamp).hops id =
      rejectionsOf state.hops id := by
  apply rejectionsOf_congr
  obtain ⟨hopState, hget, -⟩ := statusOf_eq_some_iff.1 hready
  rw [markDispatched, Dict.get?_set, hget]
  split <;> simp_all

theorem WorkflowMove.counts (hwf : WellFormed definition)
    (hguard : ForgetsNoRejection definition state step)
    (hmove : WorkflowMove definition state step next) (hhop : hop ∈ definition.hops) :
    rejectionsOf next.hops hop.id =
      rejectionsOf state.hops hop.id + if step.rejectedHop = some hop.id then 1 else 0 := by
  cases hmove with
  | dispatch _ hready => exact rejectionsOf_markDispatched hready hop.id
  | advance _ _ _ houtcome _ _ _ hcounts =>
      rw [rejectionsOf_congr (hcounts hop.id)]
      rcases houtcome with h | h <;> simp [WorkflowStep.rejectedHop, h]
  | @trip acting _ _ _ _ _ hid _ houtcome _ _ _ _ hcounts =>
      by_cases heq : hop.id = acting.id
      · have hcount := hcounts hop.id
        rw [if_pos heq, Option.map_eq_some_iff] at hcount
        obtain ⟨hopState, hget, hcount⟩ := hcount
        rw [rejectionsOf, hget, Option.bind_some, hcount]
        simp [WorkflowStep.rejectedHop, houtcome, ← hid, heq]
      · have hcount := hcounts hop.id
        rw [if_neg heq] at hcount
        rw [rejectionsOf_congr hcount]
        simp [WorkflowStep.rejectedHop, houtcome, ← hid, Ne.symm heq]
  | @restart acting _ _ _ _ hacting hid _ houtcome _ hlimit hstrategy hhops =>
      have hget := hhops hop.id
      rw [hwf.findHop hhop] at hget
      have hforgets := hguard acting hacting hid houtcome hlimit hop.id
      rw [resetAlong, hstrategy] at hforgets
      rw [rejectionsOf_resetHopState hget]
      by_cases heq : hop.id = acting.id
      · simp [WorkflowStep.rejectedHop, houtcome, ← hid, heq]
      · simp [WorkflowStep.rejectedHop, houtcome, ← hid, Ne.symm heq, heq,
          hforgets (List.mem_map_of_mem hhop) heq]
  | @restartPredecessors acting _ _ _ _ hacting hid _ houtcome _ hlimit hstrategy hhops =>
      have hget := hhops hop.id
      have hforgets := hguard acting hacting hid houtcome hlimit hop.id
      rw [resetAlong, hstrategy] at hforgets
      by_cases hin : hop.id ∈ resetSet acting
      · rw [if_pos hin, hwf.findHop hhop] at hget
        rw [rejectionsOf_resetHopState hget]
        by_cases heq : hop.id = acting.id
        · simp [WorkflowStep.rejectedHop, houtcome, ← hid, heq]
        · simp [WorkflowStep.rejectedHop, houtcome, ← hid, Ne.symm heq, heq,
            hforgets ((mem_resetSet.1 hin).resolve_left heq) heq]
      · have hne : acting.id ≠ hop.id := fun heq => hin (mem_resetSet.2 (.inl heq.symm))
        rw [if_neg hin] at hget
        rw [rejectionsOf, hget]
        simp [rejectionsOf, WorkflowStep.rejectedHop, houtcome, ← hid, hne]

theorem WorkflowMove.failed (hguard : ForgetsNoRejection definition state step)
    (hmove : WorkflowMove definition state step next) (hhop : hop ∈ definition.hops)
    (hrejected : rejectionsOf state.hops hop.id ≠ 0)
    (hfailed : statusOf state.hops hop.id = some .failed) :
    statusOf next.hops hop.id = some .failed := by
  have hother : ∀ {acting : Hop} {status : HopStatus},
      statusOf state.hops acting.id = some status → status ≠ .failed → hop.id ≠ acting.id := by
    intro acting status hstatus hne heq
    rw [← heq, hfailed, Option.some.injEq] at hstatus
    exact hne hstatus.symm
  cases hmove with
  | dispatch _ hready =>
      rw [statusOf_markDispatched, recordStatus_of_ne (hother hready (by simp)), hfailed]
  | advance _ _ hdispatched _ _ hstatuses =>
      have hne := hother hdispatched (by simp)
      rw [hstatuses, Aof.advance, openJoins_keepsTerminal _ _ hop.id]
      · exact (onlySkips_settle.failed_iff hop.id).2 ((recordStatus_of_ne hne).trans hfailed)
      · rw [(onlySkips_settle.failed_iff hop.id).2 ((recordStatus_of_ne hne).trans hfailed)]
        exact .inr (.inr rfl)
  | trip _ _ hdispatched _ _ _ hstatuses =>
      have hne := hother hdispatched (by simp)
      rw [hstatuses]
      exact (onlySkips_fall.failed_iff hop.id).2 ((recordStatus_of_ne hne).trans hfailed)
  | @restart acting _ _ _ _ hacting hid hdispatched houtcome _ hlimit hstrategy =>
      have hforgets := hguard acting hacting hid houtcome hlimit hop.id
      rw [resetAlong, hstrategy] at hforgets
      exact absurd (hforgets (List.mem_map_of_mem hhop) (hother hdispatched (by simp))) hrejected
  | @restartPredecessors acting _ _ _ _ hacting hid hdispatched houtcome _ hlimit hstrategy hhops =>
      have hforgets := hguard acting hacting hid houtcome hlimit hop.id
      rw [resetAlong, hstrategy] at hforgets
      by_cases hin : hop.id ∈ resetSet acting
      · have hne := hother hdispatched (by simp)
        exact absurd (hforgets ((mem_resetSet.1 hin).resolve_left hne) hne) hrejected
      · rwa [statusOf, hhops, if_neg hin]

end Step

section Runs

variable {definition : WorkflowDefinition} {state next : WorkflowState}

/-- The invariant: a count is that of the trace, and a hop that used it up stays failed. -/
structure Counted (definition : WorkflowDefinition) (steps : List WorkflowStep)
    (state : WorkflowState) : Prop where
  tracks : Tracks definition state.hops
  counted : ∀ hop ∈ definition.hops,
    rejectionsOf state.hops hop.id = (rejections steps).count hop.id
  known : ∀ id ∈ rejections steps, id ∈ definition.hops.map Hop.id
  limit : ∀ hop ∈ definition.hops, rejectionsOf state.hops hop.id < DEFAULT_MAX_REJECTIONS ∨
    rejectionsOf state.hops hop.id = DEFAULT_MAX_REJECTIONS ∧
      statusOf state.hops hop.id = some .failed

theorem rejections_snoc (steps : List WorkflowStep) (step : WorkflowStep) :
    rejections (steps ++ [step]) = rejections steps ++ step.rejectedHop.toList := by
  rw [rejections, List.filterMap_append]
  cases hrejected : step.rejectedHop <;> simp [rejections, hrejected]

theorem counted_initializeWorkflowState (hwf : WellFormed definition) :
    Counted definition [] (initializeWorkflowState definition) := by
  have hzero : ∀ hop ∈ definition.hops,
      rejectionsOf (initializeWorkflowState definition).hops hop.id = 0 := by
    intro hop hhop
    rw [rejectionsOf, initializeWorkflowState_get? hwf, hwf.findHop hhop]
    rfl
  refine ⟨tracks_initializeWorkflowState hwf, hzero, by simp [rejections], fun hop hhop => .inl ?_⟩
  rw [hzero hop hhop]
  decide

theorem WorkflowMove.of_rejected {step : WorkflowStep}
    (hmove : WorkflowMove definition state step next) {id : String}
    (hrejected : step.rejectedHop = some id) :
    id ∈ definition.hops.map Hop.id ∧ statusOf state.hops id = some .dispatched ∧
      (DEFAULT_MAX_REJECTIONS ≤ rejectionsOf state.hops id + 1 →
        statusOf next.hops id = some .failed) := by
  cases hmove with
  | dispatch => cases hrejected
  | advance _ _ _ houtcome =>
      rcases houtcome with h | h <;> simp [WorkflowStep.rejectedHop, h] at hrejected
  | trip hhop hid hdispatched houtcome _ _ hstatuses =>
      obtain rfl : _ = id := by simpa [WorkflowStep.rejectedHop, houtcome] using hrejected
      rw [← hid]
      refine ⟨List.mem_map_of_mem hhop, hdispatched, fun _ => ?_⟩
      rw [hstatuses]
      exact (onlySkips_fall.failed_iff _).2 recordStatus_self
  | restart hhop hid hdispatched houtcome _ hlimit =>
      obtain rfl : _ = id := by simpa [WorkflowStep.rejectedHop, houtcome] using hrejected
      rw [← hid]
      exact ⟨List.mem_map_of_mem hhop, hdispatched, fun hreached => by omega⟩
  | restartPredecessors hhop hid hdispatched houtcome _ hlimit =>
      obtain rfl : _ = id := by simpa [WorkflowStep.rejectedHop, houtcome] using hrejected
      rw [← hid]
      exact ⟨List.mem_map_of_mem hhop, hdispatched, fun hreached => by omega⟩

variable {steps : List WorkflowStep}

theorem Counted.step {step : WorkflowStep} (hcounted : Counted definition steps state)
    (hwf : WellFormed definition) (hguard : ForgetsNoRejection definition state step)
    (hstep : workflowStep definition state step = some next) :
    Counted definition (steps ++ [step]) next := by
  have hmove := workflowMove_of_step hwf hcounted.tracks hstep
  refine ⟨hmove.tracks hcounted.tracks, fun hop hhop => ?_, fun id hid => ?_, fun hop hhop => ?_⟩
  · rw [hmove.counts hwf hguard hhop, hcounted.counted hop hhop, rejections_snoc,
      List.count_append]
    cases hrejected : step.rejectedHop <;> simp [List.count_singleton]
  · rw [rejections_snoc, List.mem_append, Option.mem_toList] at hid
    rcases hid with hid | hid
    · exact hcounted.known id hid
    · exact (hmove.of_rejected hid).1
  · have hcount := hmove.counts hwf hguard hhop
    by_cases hrejected : step.rejectedHop = some hop.id
    · obtain ⟨-, hdispatched, hthird⟩ := hmove.of_rejected hrejected
      rw [if_pos hrejected] at hcount
      have hbelow : rejectionsOf state.hops hop.id < DEFAULT_MAX_REJECTIONS := by
        rcases hcounted.limit hop hhop with h | ⟨-, hfailed⟩
        · exact h
        · rw [hfailed] at hdispatched
          cases hdispatched
      by_cases hreached : DEFAULT_MAX_REJECTIONS ≤ rejectionsOf state.hops hop.id + 1
      · exact .inr ⟨by omega, hthird hreached⟩
      · exact .inl (by omega)
    · rw [if_neg hrejected, Nat.add_zero] at hcount
      rw [hcount]
      refine (hcounted.limit hop hhop).imp_right fun ⟨hlimit, hfailed⟩ => ⟨hlimit, ?_⟩
      exact hmove.failed hguard hhop (by rw [hlimit]; decide) hfailed

theorem length_le_of_count_le {bound : Nat} {list ids : List String}
    (hknown : ∀ id ∈ list, id ∈ ids) (hcount : ∀ id ∈ ids, list.count id ≤ bound) :
    list.length ≤ bound * ids.length := by
  calc list.length = ∑ id ∈ list.toFinset, list.count id := by
        rw [List.sum_toFinset_count_eq_length]
    _ ≤ list.toFinset.card • bound := by
        refine Finset.sum_le_card_nsmul _ _ _ fun id hid => hcount id (hknown id ?_)
        exact List.mem_toFinset.1 hid
    _ ≤ bound * ids.length := by
        have hsubset : list.toFinset ⊆ ids.toFinset := fun id hid =>
          List.mem_toFinset.2 (hknown id (List.mem_toFinset.1 hid))
        have hcard := (Finset.card_le_card hsubset).trans ids.toFinset_card_le
        rw [Nat.nsmul_eq_mul, Nat.mul_comm]
        exact Nat.mul_le_mul_left bound hcard

theorem Counted.breakerHolds (hcounted : Counted definition steps state) :
    BreakerHolds definition steps state := by
  have hbounded : ∀ hop ∈ definition.hops,
      (rejections steps).count hop.id ≤ DEFAULT_MAX_REJECTIONS := by
    intro hop hhop
    rw [← hcounted.counted hop hhop]
    rcases hcounted.limit hop hhop with h | ⟨h, -⟩ <;> omega
  refine ⟨hcounted.counted, hbounded, ?_⟩
  rw [← List.length_map Hop.id]
  refine length_le_of_count_le hcounted.known fun id hid => ?_
  obtain ⟨hop, hhop, rfl⟩ := List.mem_map.1 hid
  exact hbounded hop hhop

end Runs

/-- In every run whose resets forget no rejection of another hop, the counts are those of the
trace, no hop is rejected more than three times, and the rejections run out. -/
theorem rejections_bounded {definition : WorkflowDefinition}
    (haccepted : validateDAG definition = []) {steps : List WorkflowStep} {state : WorkflowState}
    (hrun : StepSystem.Run (workflowStep definition) (ForgetsNoRejection definition)
      (initializeWorkflowState definition) steps state) : BreakerHolds definition steps state := by
  have hwf := WellFormed.of_validateDAG haccepted
  refine Counted.breakerHolds (hrun.invariant_trace (Counted definition) ?_
    (counted_initializeWorkflowState hwf))
  exact fun _ _ _ _ hcounted hguard hstep => hcounted.step hwf hguard hstep

section Reviewers

def twoReviewers : WorkflowDefinition :=
  { name := "two-reviewers"
    hops := [{ id := "implement", role := "swe" },
      { id := "qa", role := "qa", dependsOn := ["implement"], canReject := true },
      { id := "security", role := "sec", dependsOn := ["implement"], canReject := true }] }

def rejectedRound (reviewer : String) : List WorkflowStep :=
  [.dispatch "implement" "s1" "t1", .evaluate ⟨"implement", .complete, none⟩ plainTask "t2",
    .dispatch reviewer "s2" "t3", .evaluate ⟨reviewer, .rejected, none⟩ plainTask "t4"]

theorem twoReviewers_run : ∃ state, StepSystem.Run (workflowStep twoReviewers)
    (ForgetsNoRejection twoReviewers) (initializeWorkflowState twoReviewers)
    (rejectedRound "qa") state := by
  refine ⟨_, .head trivial rfl (.head ?_ rfl (.head trivial rfl (.head ?_ rfl (.refl _))))⟩
  · intro _ _ _ hrejected
    cases hrejected
  · intro hop hhop hid _ _
    obtain rfl : hop =
        { id := "qa", role := "qa", dependsOn := ["implement"], canReject := true } := by
      simp only [twoReviewers, List.mem_cons, List.not_mem_nil, or_false] at hhop
      rcases hhop with rfl | rfl | rfl
      · simp at hid
      · rfl
      · simp at hid
    decide

theorem twoReviewers_bounded : ∃ state, StepSystem.Run (workflowStep twoReviewers)
    (ForgetsNoRejection twoReviewers) (initializeWorkflowState twoReviewers)
    (rejectedRound "qa") state ∧ BreakerHolds twoReviewers (rejectedRound "qa") state := by
  obtain ⟨state, hrun⟩ := twoReviewers_run
  exact ⟨state, hrun, rejections_bounded (by decide) hrun⟩

/-- The rejection by one reviewer forgets that by the other. -/
theorem count_lost_twoReviewers : ¬∀ definition : WorkflowDefinition,
    validateDAG definition = [] → ∀ steps state, StepSystem.FreeRun (workflowStep definition)
      (initializeWorkflowState definition) steps state → BreakerHolds definition steps state := by
  intro hall
  obtain ⟨state, hexec, hlost⟩ : ∃ state, StepSystem.exec (workflowStep twoReviewers)
      (initializeWorkflowState twoReviewers) (rejectedRound "qa" ++ rejectedRound "security") =
        some state ∧ rejectionsOf state.hops "qa" = 0 := by
    refine ⟨_, rfl, ?_⟩
    decide
  have hcounted := (hall twoReviewers (by decide) _ state
    (StepSystem.freeRun_iff_exec.2 hexec)).counted
    { id := "qa", role := "qa", dependsOn := ["implement"], canReject := true }
    (by simp [twoReviewers])
  rw [hlost] at hcounted
  revert hcounted
  decide

end Reviewers

end Aof
