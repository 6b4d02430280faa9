import Aof.Proof.ChangeReplay
import Aof.Proof.Rules

/-!
# The ready hops of a result

An outcome that is no rejection opens every join that is satisfied and reports it.  A rejection
reports the satisfied joins too, but leaves them pending: after the skips of the circuit breaker, or
after a reset of some predecessors only.
-/

namespace Aof

/-- The reported hops are distinct and ready, and no hop becomes ready without being reported. -/
structure ReadyHopsAgree (state : WorkflowState) (result : DAGEvaluationResult) : Prop where
  once : result.readyHops.Nodup
  ready : ∀ id ∈ result.readyHops, statusOf result.state.hops id = some .ready
  reported : ∀ id, statusOf result.state.hops id = some .ready →
    statusOf state.hops id ≠ some .ready → id ∈ result.readyHops

section Condition

variable (definition : WorkflowDefinition) (statuses : Statuses)

/-- The join is satisfied once the rejected hop has failed and the hops that fall with it are
skipped. -/
def SatisfiedByBreaker (rejectedHopId : String) (hop : Hop) : Prop :=
  match hop.joinType with
  | .any => ∃ dep ∈ hop.dependsOn, dep ≠ rejectedHopId ∧ statuses dep = some .complete
  | .all => ∀ dep ∈ hop.dependsOn, dep ≠ rejectedHopId ∧ IsSatisfied (statuses dep) ∨
      Falls definition (recordStatus statuses rejectedHopId .failed) rejectedHopId dep

def BreakerOpensNoHop (rejectedHopId : String) : Prop :=
  ∀ hop ∈ definition.hops, hop.id ≠ rejectedHopId → statuses hop.id = some .pending →
    hop.isRoot = false →
    ¬Falls definition (recordStatus statuses rejectedHopId .failed) rejectedHopId hop.id →
    ¬SatisfiedByBreaker definition statuses rejectedHopId hop

def SatisfiedOutside (reset : List String) (hop : Hop) : Prop :=
  match hop.joinType with
  | .any => ∃ dep ∈ hop.dependsOn, dep ∉ reset ∧ statuses dep = some .complete
  | .all => ∀ dep ∈ hop.dependsOn, dep ∉ reset ∧ IsSatisfied (statuses dep)

def ResetOpensNoHop (rejectedHop : Hop) : Prop :=
  ∀ hop ∈ definition.hops, hop.isRoot = false →
    (if hop.id ∈ resetSet rejectedHop then
      ∃ dep ∈ hop.dependsOn, dep ∈ resetSet rejectedHop ∨ ¬IsSatisfied (statuses dep)
    else statuses hop.id = some .pending) →
    ¬SatisfiedOutside statuses (resetSet rejectedHop) hop

end Condition

def OpensNoHop (definition : WorkflowDefinition) (state : WorkflowState) (event : HopEvent) :
    Prop :=
  event.outcome = .rejected → ∀ hop ∈ definition.hops, hop.id = event.hopId →
    if DEFAULT_MAX_REJECTIONS ≤ rejectionsOf state.hops hop.id + 1 then
      BreakerOpensNoHop definition (statusOf state.hops) hop.id
    else
      hop.rejectionStrategy.getD .origin = .predecessors →
        ResetOpensNoHop definition (statusOf state.hops) hop

section Outcome

variable {definition : WorkflowDefinition} {state : WorkflowState} {event : HopEvent}
variable {task : TaskMeta} {timestamp : String} {result : DAGEvaluationResult}

theorem agree_of_outcome (hwf : WellFormed definition) (hrejected : event.outcome ≠ .rejected)
    (hresult : evaluateDAG definition state event task timestamp = some result) :
    ReadyHopsAgree state result := by
  obtain ⟨other, hother, hstatuses, hready, -⟩ := evaluateDAG_eq hwf state hrejected task timestamp
  obtain rfl : other = result := Option.some.inj (hother.symm.trans hresult)
  have hsettled := statusOf_settledCopy hwf state event task timestamp
  have hopened : ∀ id, id ∈ other.readyHops ↔ ∃ hop ∈ definition.hops, hop.id = id ∧
      Opens hop (settle (eventReader state event task) definition (statusOf state.hops)
        event.hopId event.outcome.toStatus) := by
    intro id
    rw [hready, mem_determineReadyHops, hsettled]
  refine ⟨?_, ?_, ?_⟩
  · rw [hready]
    exact nodup_determineReadyHops hwf.ids_nodup _
  · intro id hid
    rw [hstatuses, advance, openJoins, if_pos ((hopened id).mp hid)]
  · intro id hafter hbefore
    apply (hopened id).mpr
    by_contra hnot
    rw [hstatuses, advance, openJoins, if_neg hnot] at hafter
    have hrecorded := onlySkips_settle.eq_of_ne_skipped
      (fun hskipped => by rw [hafter] at hskipped; cases hskipped)
    rw [hafter] at hrecorded
    by_cases hid : id = event.hopId
    · rw [hid, recordStatus_self] at hrecorded
      cases houtcome : event.outcome <;> simp [houtcome, HopOutcome.toStatus] at hrecorded
    · rw [recordStatus_of_ne hid] at hrecorded
      exact hbefore hrecorded

end Outcome

section Joins

variable {definition : WorkflowDefinition} {statuses : Statuses}

variable {hopId : String} {hop : Hop}

theorem recordFailed_iff {id : String} {P : Option HopStatus → Prop} (hfailed : ¬P (some .failed)) :
    P (recordStatus statuses hopId .failed id) ↔ id ≠ hopId ∧ P (statuses id) := by
  by_cases hid : id = hopId
  · rw [hid, recordStatus_self]
    exact iff_of_false hfailed fun h => h.1 rfl
  · rw [recordStatus_of_ne hid]
    exact (and_iff_right hid).symm

theorem joinSatisfied_fall :
    JoinSatisfied hop (fall definition (recordStatus statuses hopId .failed) hopId) ↔
      SatisfiedByBreaker definition statuses hopId hop := by
  unfold JoinSatisfied SatisfiedByBreaker
  cases hop.joinType with
  | any =>
      simp only
      refine exists_congr fun dep => and_congr_right fun _ => ?_
      rw [onlySkips_fall.complete_iff]
      exact recordFailed_iff (P := (· = some .complete)) (by simp)
  | all =>
      simp only
      refine forall₂_congr fun dep _ => ?_
      unfold fall
      split
      · rename_i hfalls
        exact iff_of_true (.inr rfl) (.inr hfalls)
      · rename_i hnot
        rw [or_iff_left hnot]
        exact recordFailed_iff (P := IsSatisfied) (by simp [IsSatisfied])

theorem opens_fall : Opens hop (fall definition (recordStatus statuses hopId .failed) hopId) ↔
      hop.id ≠ hopId ∧ statuses hop.id = some .pending ∧ hop.isRoot = false ∧
        ¬Falls definition (recordStatus statuses hopId .failed) hopId hop.id ∧
        SatisfiedByBreaker definition statuses hopId hop := by
  have hpending : fall definition (recordStatus statuses hopId .failed) hopId hop.id =
      some .pending ↔
        ¬Falls definition (recordStatus statuses hopId .failed) hopId hop.id ∧
          hop.id ≠ hopId ∧ statuses hop.id = some .pending := by
    rw [← recordFailed_iff (P := (· = some .pending)) (by simp)]
    unfold fall
    split
    · rename_i hfalls
      simp [hfalls]
    · rename_i hnot
      simp [hnot]
  rw [Opens, hpending, joinSatisfied_fall]
  tauto

theorem breakerOpensNoHop_iff :
    BreakerOpensNoHop definition statuses hopId ↔ ∀ hop ∈ definition.hops,
      ¬Opens hop (fall definition (recordStatus statuses hopId .failed) hopId) := by
  refine forall₂_congr fun hop _ => ?_
  rw [opens_fall]
  tauto

theorem not_opens_fresh (hwf : WellFormed definition) {after : Statuses}
    (hfresh : ∀ hop ∈ definition.hops, after hop.id = some (freshStatus hop))
    (hhop : hop ∈ definition.hops) : ¬Opens hop after := by
  rintro ⟨-, hroot, hjoin⟩
  have hopen : ∀ dep ∈ hop.dependsOn, ¬IsTerminal (after dep) := by
    intro dep hdep
    obtain ⟨pred, hpred, rfl⟩ := hwf.exists_hop_of_dep hhop hdep
    exact hfresh pred hpred ▸ not_terminal_freshStatus pred
  unfold JoinSatisfied at hjoin
  split at hjoin
  · obtain ⟨dep, hdep, hcomplete⟩ := hjoin
    exact hopen dep hdep (.inl hcomplete)
  · obtain ⟨dep, hdep⟩ := List.exists_mem_of_ne_nil hop.dependsOn (by simpa [Hop.isRoot] using hroot)
    rcases hjoin dep hdep with h | h
    · exact hopen dep hdep (.inl h)
    · exact hopen dep hdep (.inr (.inl h))

section Reset

variable {after : Statuses} {rejectedHop : Hop}

structure ResetsTo (definition : WorkflowDefinition) (rejectedHop : Hop)
    (statuses after : Statuses) : Prop where
  inside : ∀ hop ∈ definition.hops, hop.id ∈ resetSet rejectedHop →
    after hop.id = some (resetStatus (resetSet rejectedHop) statuses hop)
  outside : ∀ id, id ∉ resetSet rejectedHop → after id = statuses id

variable (hresets : ResetsTo definition rejectedHop statuses after) (hwf : WellFormed definition)
include hresets hwf

theorem ResetsTo.iff_outside {hop : Hop} (hhop : hop ∈ definition.hops) {dep : String}
    (hdep : dep ∈ hop.dependsOn) {P : Option HopStatus → Prop}
    (hterminal : ∀ status, P status → IsTerminal status) :
    P (after dep) ↔ dep ∉ resetSet rejectedHop ∧ P (statuses dep) := by
  by_cases hin : dep ∈ resetSet rejectedHop
  · obtain ⟨pred, hpred, rfl⟩ := hwf.exists_hop_of_dep hhop hdep
    have hnot : ¬IsTerminal (after pred.id) := by
      rw [hresets.inside pred hpred hin]
      exact not_terminal_resetStatus _ _ _
    exact iff_of_false (fun h => hnot (hterminal _ h)) fun h => h.1 hin
  · rw [hresets.outside dep hin]
    exact (and_iff_right hin).symm

theorem ResetsTo.joinSatisfied_iff {hop : Hop} (hhop : hop ∈ definition.hops) :
    JoinSatisfied hop after ↔ SatisfiedOutside statuses (resetSet rejectedHop) hop := by
  unfold JoinSatisfied SatisfiedOutside
  cases hop.joinType with
  | any =>
      simp only
      refine exists_congr fun dep => and_congr_right fun hdep => ?_
      exact hresets.iff_outside hwf hhop hdep (P := (· = some .complete)) fun _ h => .inl h
  | all =>
      simp only
      refine forall₂_congr fun dep hdep => ?_
      refine hresets.iff_outside hwf hhop hdep (P := IsSatisfied) fun _ h => ?_
      exact h.imp_right .inl

theorem ResetsTo.opensNoHop_iff : ResetOpensNoHop definition statuses rejectedHop ↔
      ∀ hop ∈ definition.hops, ¬Opens hop after := by
  refine forall₂_congr fun hop hhop => ?_
  have hpending : hop.isRoot = false → (after hop.id = some .pending ↔
      if hop.id ∈ resetSet rejectedHop then
        ∃ dep ∈ hop.dependsOn, dep ∈ resetSet rejectedHop ∨ ¬IsSatisfied (statuses dep)
      else statuses hop.id = some .pending) := by
    intro hroot
    split
    · rename_i hin
      rw [hresets.inside hop hhop hin, resetStatus, hroot]
      simp only [Bool.false_eq_true, if_false]
      split
      · rename_i hall
        simp only [Option.some.injEq, reduceCtorEq, false_iff, not_exists, not_and]
        intro dep hdep hor
        exact hor.elim (hall dep hdep).1 fun h => h (hall dep hdep).2
      · rename_i hnot
        simp only [true_iff]
        by_contra hnone
        apply hnot
        intro dep hdep
        by_contra hdepNot
        exact hnone ⟨dep, hdep, by tauto⟩
    · rename_i hout
      rw [hresets.outside _ hout]
  rw [Opens, hresets.joinSatisfied_iff hwf hhop]
  constructor
  · rintro hreset ⟨hafter, hroot, hjoin⟩
    exact hreset hroot ((hpending hroot).mp hafter) hjoin
  · intro hnot hroot hstatus hjoin
    exact hnot ⟨(hpending hroot).mpr hstatus, hroot, hjoin⟩

end Reset

end Joins

section Rejection

variable {definition : WorkflowDefinition} {state : WorkflowState} {copy : WorkingCopy}
variable {timestamp : String} {result : DAGEvaluationResult}

theorem nodup_eraseDups (ids : List String) : ids.eraseDups.Nodup := by
  induction hlength : ids.length using Nat.strong_induction_on generalizing ids with
  | _ length ih =>
      cases ids with
      | nil => exact List.nodup_nil
      | cons id rest =>
          rw [List.eraseDups_cons, List.nodup_cons]
          constructor
          · simp [List.mem_eraseDups]
          · have hle := List.length_filter_le (fun other => !other == id) rest
            rw [List.length_cons] at hlength
            exact ih _ (by omega) _ rfl

theorem agree_of_rejection {hopId : String}
    (hcopy : applyRejection definition state.hops hopId timestamp = some copy)
    (hresult : evaluateRejection definition state hopId timestamp = some result)
    (hknown : ∀ id, statusOf copy.hops id = some .ready → statusOf state.hops id ≠ some .ready →
      ∃ hop ∈ definition.hops, hop.id = id) :
    ReadyHopsAgree state result ↔ ∀ hop ∈ definition.hops, ¬Opens hop (statusOf copy.hops) := by
  rw [evaluateRejection, hcopy] at hresult
  obtain rfl := Option.some.inj hresult
  have hstatuses : ∀ readyHops, statusOf (finishEvaluation state copy readyHops timestamp).state.hops
      = statusOf copy.hops := fun _ => rfl
  have hopened : ∀ id, id ∈ determineReadyHops definition copy.hops ↔
      ∃ hop ∈ definition.hops, hop.id = id ∧ Opens hop (statusOf copy.hops) :=
    fun _ => mem_determineReadyHops copy.hops
  constructor
  · intro hagree hop hhop hopens
    have hready := hagree.ready hop.id
      (List.mem_append_left _ ((hopened hop.id).mpr ⟨hop, hhop, rfl, hopens⟩))
    rw [hstatuses, hopens.1] at hready
    cases hready
  · intro hnone
    have hnil : determineReadyHops definition copy.hops = [] := by
      apply List.eq_nil_iff_forall_not_mem.mpr
      intro id hid
      obtain ⟨hop, hhop, -, hopens⟩ := (hopened id).mp hid
      exact hnone hop hhop hopens
    have hmem : ∀ id, id ∈ (finishEvaluation state copy (determineReadyHops definition copy.hops ++
        ((definition.hops.filter fun hop => statusOf copy.hops hop.id = some .ready ∧
          hop.id ∉ determineReadyHops definition copy.hops).map Hop.id).eraseDups)
        timestamp).readyHops ↔
        ∃ hop ∈ definition.hops, hop.id = id ∧ statusOf copy.hops id = some .ready := by
      intro id
      simp only [finishEvaluation, hnil, List.nil_append, List.mem_eraseDups, List.mem_map,
        List.mem_filter, decide_eq_true_eq, List.not_mem_nil, not_false_eq_true, and_true]
      constructor
      · rintro ⟨hop, ⟨hhop, hready⟩, rfl⟩
        exact ⟨hop, hhop, rfl, hready⟩
      · rintro ⟨hop, hhop, rfl, hready⟩
        exact ⟨hop, ⟨hhop, hready⟩, rfl⟩
    refine ⟨?_, ?_, ?_⟩
    · simp only [finishEvaluation, hnil, List.nil_append]
      exact nodup_eraseDups _
    · intro id hid
      obtain ⟨-, -, -, hready⟩ := (hmem id).mp hid
      exact hready
    · intro id hafter hbefore
      obtain ⟨hop, hhop, hid⟩ := hknown id hafter hbefore
      exact (hmem id).mpr ⟨hop, hhop, hid, hafter⟩

theorem agree_of_trip (hwf : WellFormed definition) {hopId : String}
    (hlimit : DEFAULT_MAX_REJECTIONS ≤ rejectionsOf state.hops hopId + 1)
    (hresult : evaluateRejection definition state hopId timestamp = some result) :
    ReadyHopsAgree state result ↔ BreakerOpensNoHop definition (statusOf state.hops) hopId := by
  have hcopy : applyRejection definition state.hops hopId timestamp =
      some (tripCircuitBreaker definition state.hops hopId (rejectionsOf state.hops hopId + 1)
        timestamp) := if_pos hlimit
  have hstatuses := statusOf_tripCircuitBreaker (rejectionsOf state.hops hopId + 1) hwf state.hops
    hopId timestamp
  rw [breakerOpensNoHop_iff, ← hstatuses]
  apply agree_of_rejection hcopy hresult
  intro id hafter hbefore
  rw [hstatuses] at hafter
  have hrecorded := onlySkips_fall.eq_of_ne_skipped
    (fun hskipped => by rw [hafter] at hskipped; cases hskipped)
  rw [hafter] at hrecorded
  exact absurd ((recordFailed_iff (P := (· = some .ready)) (by simp)).mp hrecorded).2 hbefore

theorem agree_of_origin (hwf : WellFormed definition) (htracks : Tracks definition state.hops)
    {hop : Hop} (hhop : hop ∈ definition.hops)
    (hlimit : ¬DEFAULT_MAX_REJECTIONS ≤ rejectionsOf state.hops hop.id + 1)
    (hstrategy : hop.rejectionStrategy.getD .origin = .origin)
    (hresult : evaluateRejection definition state hop.id timestamp = some result) :
    ReadyHopsAgree state result := by
  obtain ⟨copy, hreset, hget⟩ := resetAllHopsForOrigin_eq hop.id
    (rejectionsOf state.hops hop.id + 1) hwf ⟨state.hops, []⟩
    fun other hother => (htracks other.id).2 (List.mem_map_of_mem hother)
  have hcopy : applyRejection definition state.hops hop.id timestamp = some copy := by
    simp only [applyRejection, nextRejectionCount_eq, hwf.findHop hhop, Option.bind_eq_bind,
      Option.bind_some, ge_iff_le, if_neg hlimit, hstrategy, hreset]
  have hfresh : ∀ other ∈ definition.hops,
      statusOf copy.hops other.id = some (freshStatus other) := by
    intro other hother
    rw [statusOf, hget, hwf.findHop hother]
    rfl
  apply (agree_of_rejection hcopy hresult ?_).mpr
  · intro other hother
    exact not_opens_fresh hwf hfresh hother
  · intro id hafter hbefore
    cases hfind : definition.findHop id with
    | some other => exact ⟨other, mem_of_findHop hfind⟩
    | none =>
        rw [statusOf, hget, hfind] at hafter
        exact absurd hafter hbefore

theorem agree_of_predecessors (hwf : WellFormed definition)
    (htracks : Tracks definition state.hops) {hop : Hop} (hhop : hop ∈ definition.hops)
    (hlimit : ¬DEFAULT_MAX_REJECTIONS ≤ rejectionsOf state.hops hop.id + 1)
    (hstrategy : hop.rejectionStrategy.getD .origin = .predecessors)
    (hresult : evaluateRejection definition state hop.id timestamp = some result) :
    ReadyHopsAgree state result ↔ ResetOpensNoHop definition (statusOf state.hops) hop := by
  have htracked : ∀ id ∈ resetSet hop, (state.hops.get? id).isSome := by
    intro id hmem
    rw [htracks id]
    rcases mem_resetSet.mp hmem with rfl | hdep
    · exact List.mem_map_of_mem hhop
    · exact hwf.deps_exist hop hhop id hdep
  obtain ⟨copy, hreset, hget⟩ := resetPredecessorHops_eq hop.id
    (rejectionsOf state.hops hop.id + 1) hwf ⟨state.hops, []⟩ (hwf.findHop hhop) htracked
  have hcopy : applyRejection definition state.hops hop.id timestamp = some copy := by
    simp only [applyRejection, nextRejectionCount_eq, hwf.findHop hhop, Option.bind_eq_bind,
      Option.bind_some, ge_iff_le, if_neg hlimit, hstrategy, hreset]
  have hresets : ResetsTo definition hop (statusOf state.hops) (statusOf copy.hops) := by
    constructor
    · intro other hother hin
      rw [statusOf, hget, if_pos hin, hwf.findHop hother]
      rfl
    · intro id hout
      rw [statusOf, hget, if_neg hout]
      rfl
  rw [hresets.opensNoHop_iff hwf]
  apply agree_of_rejection hcopy hresult
  intro id hafter hbefore
  by_cases hin : id ∈ resetSet hop
  · have hid : id ∈ definition.hops.map Hop.id := by
      rw [← htracks id]
      exact htracked id hin
    exact List.mem_map.mp hid
  · rw [hresets.outside id hin] at hafter
    exact absurd hafter hbefore

theorem exists_hop_of_rejection (htracks : Tracks definition state.hops) {hopId : String}
    (hresult : evaluateRejection definition state hopId timestamp = some result) :
    ∃ hop ∈ definition.hops, hop.id = hopId := by
  cases hfind : definition.findHop hopId with
  | some hop => exact ⟨hop, mem_of_findHop hfind⟩
  | none =>
      have hnone : state.hops.get? hopId = none := by
        rw [← Option.not_isSome_iff_eq_none, htracks hopId]
        exact find?_id_eq_none.mp hfind
      simp [evaluateRejection, applyRejection, nextRejectionCount, hnone, hfind,
        DEFAULT_MAX_REJECTIONS] at hresult

end Rejection

/-- In every reachable state, the ready hops of a result agree with its statuses if and only if the
event leaves no pending hop with a satisfied join. -/
theorem readyHops_agree_iff {definition : WorkflowDefinition}
    (haccepted : validateDAG definition = []) {state : WorkflowState}
    (hreach : Reachable definition state) {event : HopEvent} {task : TaskMeta} {timestamp : String}
    {result : DAGEvaluationResult}
    (hresult : evaluateDAG definition state event task timestamp = some result) :
    ReadyHopsAgree state result ↔ OpensNoHop definition state event := by
  have hwf := WellFormed.of_validateDAG haccepted
  have htracks := hreach.tracks hwf
  by_cases hrejected : event.outcome = .rejected
  · rw [evaluateDAG, if_pos hrejected] at hresult
    obtain ⟨hop, hhop, hid⟩ := exists_hop_of_rejection htracks hresult
    rw [← hid] at hresult
    have hcondition : OpensNoHop definition state event ↔
        if DEFAULT_MAX_REJECTIONS ≤ rejectionsOf state.hops hop.id + 1 then
          BreakerOpensNoHop definition (statusOf state.hops) hop.id
        else
          hop.rejectionStrategy.getD .origin = .predecessors →
            ResetOpensNoHop definition (statusOf state.hops) hop := by
      constructor
      · intro hopens
        exact hopens hrejected hop hhop hid
      · intro hrule _ other hother hsame
        obtain rfl := hwf.eq_of_id_eq hother hhop (hsame.trans hid.symm)
        exact hrule
    rw [hcondition]
    split
    · rename_i hlimit
      exact agree_of_trip hwf hlimit hresult
    · rename_i hlimit
      cases hstrategy : hop.rejectionStrategy.getD .origin with
      | origin =>
          exact iff_of_true (agree_of_origin hwf htracks hhop hlimit hstrategy hresult)
            fun hother => by cases hother
      | predecessors =>
          rw [agree_of_predecessors hwf htracks hhop hlimit hstrategy hresult]
          exact ⟨fun hopens _ => hopens, fun hopens => hopens rfl⟩
  · exact iff_of_true (agree_of_outcome hwf hrejected hresult) fun h => absurd h hrejected

def releaseTrain : WorkflowDefinition :=
  { name := "release-train"
    hops := [{ id := "review", role := "qa", canReject := true },
      { id := "publish", role := "ops", dependsOn := ["review"] },
      { id := "docs", role := "writer" },
      { id := "announce", role := "pm", dependsOn := ["publish", "docs"] }] }

def rejectReview : HopEvent := ⟨"review", .rejected, none⟩

def reviewedTwice : List WorkflowStep :=
  [.dispatch "review" "s1" "t1", .evaluate rejectReview ⟨"in-progress", [], "normal", []⟩ "t2",
    .dispatch "review" "s2" "t3", .evaluate rejectReview ⟨"in-progress", [], "normal", []⟩ "t4",
    .dispatch "docs" "s3" "t5",
    .evaluate ⟨"docs", .complete, none⟩ ⟨"in-progress", [], "normal", []⟩ "t6",
    .dispatch "review" "s4" "t7"]

/-- The first rejection restarts everything, and reports the roots. -/
theorem releaseTrain_agrees : ∃ state result, Reachable releaseTrain state ∧
    evaluateDAG releaseTrain state rejectReview ⟨"in-progress", [], "normal", []⟩ "t2" =
      some result ∧ ReadyHopsAgree state result := by
  obtain ⟨state, hexec, htest⟩ : ∃ state,
      StepSystem.exec (workflowStep releaseTrain) (initializeWorkflowState releaseTrain)
        (reviewedTwice.take 1) = some state ∧
      (evaluateDAG releaseTrain state rejectReview ⟨"in-progress", [], "normal", []⟩ "t2").isSome =
        true ∧ rejectionsOf state.hops "review" = 0 := ⟨_, rfl, by decide +kernel⟩
  have hreach : Reachable releaseTrain state := ⟨_, StepSystem.freeRun_iff_exec.mpr hexec⟩
  obtain ⟨result, hresult⟩ := Option.isSome_iff_exists.mp htest.1
  refine ⟨state, result, hreach, hresult, ?_⟩
  apply (readyHops_agree_iff (by decide +kernel) hreach hresult).mpr
  intro _ hop hhop hid
  rw [hid, show rejectReview.hopId = "review" from rfl, htest.2, if_neg (by decide)]
  have horigin : ∀ hop ∈ releaseTrain.hops,
      hop.rejectionStrategy.getD .origin = RejectionStrategy.origin := by decide
  rw [horigin hop hhop]
  exact nofun

/-- The third rejection trips the circuit breaker and skips the publication, whereupon the
announcement is reported as ready and stays pending. -/
theorem announced_pending : ¬∀ definition : WorkflowDefinition, validateDAG definition = [] →
    ∀ state, Reachable definition state → ∀ event task timestamp result,
      evaluateDAG definition state event task timestamp = some result →
      ReadyHopsAgree state result := by
  intro hall
  obtain ⟨state, result, hexec, hresult, htest⟩ : ∃ state result,
      StepSystem.exec (workflowStep releaseTrain) (initializeWorkflowState releaseTrain)
        reviewedTwice = some state ∧
      evaluateDAG releaseTrain state rejectReview ⟨"in-progress", [], "normal", []⟩ "t8" =
        some result ∧
      "announce" ∈ result.readyHops ∧ statusOf result.state.hops "announce" = some .pending :=
    ⟨_, _, rfl, rfl, by decide +kernel⟩
  have hreach : Reachable releaseTrain state := ⟨_, StepSystem.freeRun_iff_exec.mpr hexec⟩
  have hready := (hall releaseTrain (by decide +kernel) state hreach _ _ _ result hresult).ready
    "announce" htest.1
  rw [htest.2] at hready
  cases hready

end Aof
