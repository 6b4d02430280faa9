import Aof.Lib.OnePass
import Aof.Proof.Deadlock

/-!
# Independence of the array order

Everything in an evaluation but the pass over the conditions is determined by the set of hops.
The pass is determined by it exactly when no condition, and no hop's turn to be read, depends on
the other hops that are declined in the same pass.
-/

namespace Aof

/-- The same statuses, verdicts and ready hops, or a `TypeError` on both sides. -/
def SameOutcome : Option DAGEvaluationResult → Option DAGEvaluationResult → Prop
  | some result, some result' =>
      (∀ id, statusOf result.state.hops id = statusOf result'.state.hops id) ∧
        result.dagStatus = result'.dagStatus ∧ result.taskStatus = result'.taskStatus ∧
        ∀ id, id ∈ result.readyHops ↔ id ∈ result'.readyHops
  | none, none => True
  | _, _ => False

open Classical in
noncomputable def skipAll (hops : Set Hop) (statuses : Statuses) : Statuses := fun id =>
  if ∃ hop ∈ hops, hop.id = id then some .skipped else statuses id

/-- The event is a rejection, or: with the event recorded and the hops that fall with it skipped,
skipping hops that are declined there leaves every other hop's answer as it is. -/
def OrderInsensitive (definition : WorkflowDefinition) (state : WorkflowState) (event : HopEvent)
    (task : TaskMeta) : Prop :=
  event.outcome = .rejected ∨
    let holds := eventReader state event task
    let statuses :=
      afterEvent definition (statusOf state.hops) event.hopId event.outcome.toStatus
    ∀ hop ∈ definition.hops, ∀ others : Set Hop,
      (∀ other ∈ others, other ∈ definition.hops ∧ Declines holds other statuses) →
      hop ∉ others → (Declines holds hop (skipAll others statuses) ↔ Declines holds hop statuses)

section Pass

variable {holds : ConditionReader} {statuses : Statuses}

@[simp]
theorem skipAll_empty : skipAll ∅ statuses = statuses := by
  funext id
  simp [skipAll]

theorem decline_skipAll (hops : Set Hop) (hop : Hop) :
    decline (skipAll hops statuses) hop = skipAll (insert hop hops) statuses := by
  funext id
  by_cases heq : id = hop.id
  · subst heq
    rw [decline, recordStatus_self, skipAll, if_pos ⟨hop, Set.mem_insert hop hops, rfl⟩]
  · have hiff : (∃ other ∈ insert hop hops, other.id = id) ↔ ∃ other ∈ hops, other.id = id := by
      constructor
      · rintro ⟨other, rfl | hother, hid⟩
        · exact absurd hid.symm heq
        · exact ⟨other, hother, hid⟩
      · rintro ⟨other, hother, hid⟩
        exact ⟨other, .inr hother, hid⟩
    rw [decline, recordStatus_of_ne heq]
    classical exact (if_congr hiff rfl rfl).symm

def DeclinesAfter (holds : ConditionReader) (statuses : Statuses) (hops : Set Hop) (hop : Hop) :
    Prop :=
  Declines holds hop (skipAll hops statuses)

theorem declinePass_skipAll (hops : List Hop) (declined : Set Hop) :
    declinePass holds hops (skipAll declined statuses) =
      skipAll (OnePass.pass (DeclinesAfter holds statuses) hops declined) statuses := by
  induction hops generalizing declined with
  | nil => rfl
  | cons hop rest ih =>
      rw [OnePass.pass_cons, ← ih]
      simp only [declinePass, List.foldl_cons]
      congr 1
      unfold OnePass.mark DeclinesAfter
      split
      · exact decline_skipAll declined hop
      · rfl

theorem declinePass_eq (hops : List Hop) : declinePass holds hops statuses =
      skipAll (OnePass.pass (DeclinesAfter holds statuses) hops ∅) statuses := by
  rw [← declinePass_skipAll, skipAll_empty]

theorem mem_pass_declined {hops : List Hop} {declined : Set Hop} {hop : Hop}
    (hmem : hop ∈ OnePass.pass (DeclinesAfter holds statuses) hops declined) :
    hop ∈ declined ∨ hop ∈ hops ∧ statuses hop.id = some .pending := by
  induction hops generalizing declined with
  | nil => exact .inl hmem
  | cons first rest ih =>
      rw [OnePass.pass_cons] at hmem
      rcases ih hmem with hmem | ⟨hrest, hpending⟩
      · rcases OnePass.mem_mark.1 hmem with hmem | ⟨rfl, hdeclines⟩
        · exact .inl hmem
        · refine .inr ⟨List.mem_cons_self, ?_⟩
          have hpending := hdeclines.1
          unfold skipAll at hpending
          split at hpending
          · cases hpending
          · exact hpending
      · exact .inr ⟨List.mem_cons_of_mem _ hrest, hpending⟩

theorem mem_pass_iff_skipped {hops : List Hop} (hnodup : (hops.map Hop.id).Nodup) {hop : Hop} :
    hop ∈ OnePass.pass (DeclinesAfter holds statuses) hops ∅ ↔
      hop ∈ hops ∧ statuses hop.id = some .pending ∧
        declinePass holds hops statuses hop.id = some .skipped := by
  rw [declinePass_eq]
  constructor
  · intro hmem
    obtain hempty | ⟨hhop, hpending⟩ := mem_pass_declined hmem
    · exact absurd hempty (Set.notMem_empty hop)
    · exact ⟨hhop, hpending, if_pos ⟨hop, hmem, rfl⟩⟩
  · rintro ⟨hhop, hpending, hskipped⟩
    unfold skipAll at hskipped
    split at hskipped
    · rename_i hdeclined
      obtain ⟨other, hother, hid⟩ := hdeclined
      obtain hempty | ⟨hmem, -⟩ := mem_pass_declined hother
      · exact absurd hempty (Set.notMem_empty other)
      · exact List.inj_on_of_nodup_map hnodup hmem hhop hid ▸ hother
    · rw [hpending] at hskipped
      cases hskipped

end Pass

section Permuted

variable {definition : WorkflowDefinition} {hops : List Hop}

def reorder (definition : WorkflowDefinition) (hops : List Hop) : WorkflowDefinition :=
  { definition with hops := hops }

theorem WellFormed.perm (hwf : WellFormed definition) (hperm : hops.Perm definition.hops) :
    WellFormed (reorder definition hops) := by
  have hmem : ∀ hop, hop ∈ hops ↔ hop ∈ definition.hops := fun hop => hperm.mem_iff
  refine ⟨(hperm.map Hop.id).nodup_iff.2 hwf.ids_nodup, ?_, ?_, ?_⟩
  · intro hop hhop dep hdep
    exact (hperm.map Hop.id).mem_iff.2 (hwf.deps_exist hop ((hmem hop).1 hhop) dep hdep)
  · obtain ⟨root, hroot, hdeps⟩ := hwf.root
    exact ⟨root, (hmem root).2 hroot, hdeps⟩
  · obtain ⟨rank, hrank⟩ := hwf.ranked
    exact ⟨rank, fun hop hhop => hrank hop ((hmem hop).1 hhop)⟩

theorem findHop_perm (hwf : WellFormed definition) (hperm : hops.Perm definition.hops)
    (id : String) : (reorder definition hops).findHop id = definition.findHop id := by
  cases hfind : definition.findHop id with
  | none =>
      refine find?_id_eq_none.2 fun hmem => find?_id_eq_none.1 hfind ?_
      exact (hperm.map Hop.id).mem_iff.1 hmem
  | some hop =>
      obtain ⟨hhop, rfl⟩ := mem_of_findHop hfind
      exact (hwf.perm hperm).findHop (hperm.mem_iff.2 hhop)

section

variable (hperm : hops.Perm definition.hops)
include hperm

theorem falls_perm {statuses : Statuses} {start id : String}
    (hfalls : Falls definition statuses start id) :
    Falls (reorder definition hops) statuses start id := by
  induction hfalls with
  | intro hhop hpending hdep _ _ ihthrough ihall =>
      exact .intro (hperm.mem_iff.2 hhop) hpending hdep ihthrough ihall

theorem fall_perm (statuses : Statuses) (start : String) :
    fall (reorder definition hops) statuses start = fall definition statuses start := by
  funext id
  have hiff : Falls (reorder definition hops) statuses start id ↔
      Falls definition statuses start id :=
    ⟨fun h => @falls_perm (reorder definition hops) _ hperm.symm _ _ _ h, falls_perm hperm⟩
  classical exact if_congr hiff rfl rfl

theorem afterEvent_perm (statuses : Statuses) (hopId : String) (status : HopStatus) :
    afterEvent (reorder definition hops) statuses hopId status =
      afterEvent definition statuses hopId status := by
  simp only [afterEvent, fall_perm hperm]

theorem openJoins_perm (statuses : Statuses) :
    openJoins (reorder definition hops) statuses = openJoins definition statuses := by
  funext id
  classical exact if_congr (by simp only [reorder, hperm.mem_iff]) rfl rfl

theorem mem_determineReadyHops_perm {table table' : Dict String HopState}
    (hstatus : statusOf table = statusOf table') (id : String) :
    id ∈ determineReadyHops (reorder definition hops) table ↔
      id ∈ determineReadyHops definition table' := by
  simp only [mem_determineReadyHops, reorder, hperm.mem_iff, hstatus]

end

theorem sameOutcome_finish {state : WorkflowState} {copy copy' : WorkingCopy}
    {ready ready' : List String} {timestamp : String}
    (hstatus : statusOf copy.hops = statusOf copy'.hops) (hready : ∀ id, id ∈ ready ↔ id ∈ ready') :
    SameOutcome (some (finishEvaluation state copy ready timestamp))
      (some (finishEvaluation state copy' ready' timestamp)) := by
  have hcheck := checkDAGCompletion_congr hstatus
  refine ⟨fun id => congrFun hstatus id, hcheck, ?_, hready⟩
  simp only [finishEvaluation, hcheck]

theorem tracked_of_foldlM_resetForOrigin {rejectedHopId : String} {currentCount : Nat}
    {hops : List Hop} {copy result : WorkingCopy}
    (hresult : hops.foldlM (resetForOrigin rejectedHopId currentCount) copy = some result) :
    ∀ hop ∈ hops, (copy.hops.get? hop.id).isSome := by
  induction hops generalizing copy with
  | nil => simp
  | cons hop rest ih =>
      rw [List.foldlM_cons, Option.bind_eq_bind, Option.bind_eq_some_iff] at hresult
      obtain ⟨turn, hturn, hrest⟩ := hresult
      cases hprev : copy.hops.get? hop.id with
      | none => simp [resetForOrigin, hprev] at hturn
      | some prev =>
          obtain ⟨turn', hturn', hset⟩ := resetForOrigin_eq rejectedHopId currentCount hprev
          obtain rfl : turn' = turn := by simpa [hturn'] using hturn
          intro other hother
          rcases List.mem_cons.1 hother with rfl | hother
          · simp [hprev]
          · have hafter := ih hrest other hother
            rw [hset, Dict.get?_set] at hafter
            split at hafter
            · rename_i hid
              simp [← hid, hprev]
            · exact hafter

section

variable (hwf : WellFormed definition) (hperm : hops.Perm definition.hops)
include hwf hperm

theorem resetAllHopsForOrigin_perm (copy : WorkingCopy) (rejectedHopId : String)
    (currentCount : Nat) : (∃ result result',
      resetAllHopsForOrigin (reorder definition hops) copy rejectedHopId currentCount =
        some result ∧
      resetAllHopsForOrigin definition copy rejectedHopId currentCount = some result' ∧
      statusOf result.hops = statusOf result'.hops) ∨
    resetAllHopsForOrigin (reorder definition hops) copy rejectedHopId currentCount = none ∧
      resetAllHopsForOrigin definition copy rejectedHopId currentCount = none := by
  by_cases htracked : ∀ hop ∈ definition.hops, (copy.hops.get? hop.id).isSome
  · obtain ⟨result', hresult', hget'⟩ :=
      resetAllHopsForOrigin_eq rejectedHopId currentCount hwf copy htracked
    obtain ⟨result, hresult, hget⟩ := resetAllHopsForOrigin_eq rejectedHopId currentCount
      (hwf.perm hperm) copy fun hop hhop => htracked hop (hperm.mem_iff.1 hhop)
    refine .inl ⟨result, result', hresult, hresult', ?_⟩
    funext id
    rw [statusOf, statusOf, hget, hget', findHop_perm hwf hperm]
  · refine .inr ⟨?_, ?_⟩
    · rw [Option.eq_none_iff_forall_ne_some]
      intro result hresult
      exact htracked fun hop hhop =>
        tracked_of_foldlM_resetForOrigin hresult hop (hperm.mem_iff.2 hhop)
    · rw [Option.eq_none_iff_forall_ne_some]
      intro result hresult
      exact htracked (tracked_of_foldlM_resetForOrigin hresult)

theorem resetPredecessorHops_perm (copy : WorkingCopy) (rejectedHopId : String)
    (currentCount : Nat) :
    resetPredecessorHops (reorder definition hops) copy rejectedHopId currentCount =
      resetPredecessorHops definition copy rejectedHopId currentCount := by
  have hturn : ∀ set, resetPredecessor (reorder definition hops) set rejectedHopId currentCount =
      resetPredecessor definition set rejectedHopId currentCount := by
    intro set
    funext copy hopId
    simp only [resetPredecessor, findHop_perm hwf hperm]
  simp only [resetPredecessorHops, findHop_perm hwf hperm, hturn]

theorem applyRejection_perm (table : Dict String HopState) (hopId timestamp : String) :
    (∃ result result', applyRejection (reorder definition hops) table hopId timestamp =
        some result ∧ applyRejection definition table hopId timestamp = some result' ∧
      statusOf result.hops = statusOf result'.hops) ∨
    applyRejection (reorder definition hops) table hopId timestamp = none ∧
      applyRejection definition table hopId timestamp = none := by
  unfold applyRejection
  simp only [findHop_perm hwf hperm, resetPredecessorHops_perm hwf hperm]
  split
  · refine .inl ⟨_, _, rfl, rfl, ?_⟩
    rw [statusOf_tripCircuitBreaker _ (hwf.perm hperm), statusOf_tripCircuitBreaker _ hwf,
      fall_perm hperm]
  · cases definition.findHop hopId with
    | none => exact .inr ⟨rfl, rfl⟩
    | some hop =>
        simp only [Option.bind_eq_bind, Option.bind_some]
        cases hop.rejectionStrategy.getD .origin with
        | origin => exact resetAllHopsForOrigin_perm hwf hperm _ _ _
        | predecessors =>
            cases resetPredecessorHops definition ⟨table, []⟩ hopId
              (nextRejectionCount table hopId) with
            | none => exact .inr ⟨rfl, rfl⟩
            | some result => exact .inl ⟨result, result, rfl, rfl, rfl⟩

theorem sameOutcome_rejection (state : WorkflowState) (hopId timestamp : String) :
    SameOutcome (evaluateRejection (reorder definition hops) state hopId timestamp)
      (evaluateRejection definition state hopId timestamp) := by
  unfold evaluateRejection
  rcases applyRejection_perm hwf hperm state.hops hopId timestamp with
    ⟨result, result', hresult, hresult', hstatus⟩ | ⟨hnone, hnone'⟩
  · have hready := mem_determineReadyHops_perm hperm hstatus
    simp only [hresult, hresult', Option.bind_eq_bind, Option.bind_some]
    refine sameOutcome_finish hstatus fun id => ?_
    simp only [List.mem_append, List.mem_eraseDups, List.mem_map, List.mem_filter,
      decide_eq_true_eq, hready, hstatus]
    simp only [reorder, hperm.mem_iff]
  · simp only [hnone, hnone', Option.bind_eq_bind, Option.bind_none, SameOutcome]

end

section Outcome

variable {state : WorkflowState} {event : HopEvent} {task : TaskMeta} {timestamp : String}

noncomputable def settleEvent (definition : WorkflowDefinition) (state : WorkflowState)
    (event : HopEvent) (task : TaskMeta) : Statuses :=
  settle (eventReader state event task) definition (statusOf state.hops) event.hopId
    event.outcome.toStatus

theorem openJoins_skipped_iff (definition : WorkflowDefinition) (statuses : Statuses)
    (id : String) :
    openJoins definition statuses id = some .skipped ↔ statuses id = some .skipped := by
  rcases openJoins_cases definition statuses id with ⟨hsame, -⟩ | ⟨hpending, hready, -⟩
  · rw [hsame]
  · simp [hpending, hready]

section

variable (hwf : WellFormed definition) (hperm : hops.Perm definition.hops)
  (hrejected : event.outcome ≠ .rejected)
include hwf hperm hrejected

theorem sameOutcome_of_settleEvent_eq
    (hsettle : settleEvent (reorder definition hops) state event task = settleEvent definition
      state event task) :
    SameOutcome (evaluateDAG (reorder definition hops) state event task timestamp)
      (evaluateDAG definition state event task timestamp) := by
  have hcopy : statusOf (settledCopy (reorder definition hops) state event task timestamp).hops =
      statusOf (settledCopy definition state event task timestamp).hops := by
    rw [statusOf_settledCopy (hwf.perm hperm), statusOf_settledCopy hwf]
    exact hsettle
  rw [evaluateDAG, evaluateDAG, if_neg hrejected, if_neg hrejected]
  refine sameOutcome_finish ?_ (mem_determineReadyHops_perm hperm hcopy)
  refine (statusOf_promote _).trans (Eq.trans ?_ (statusOf_promote _).symm)
  rw [openJoins_perm hperm]
  exact congrArg _ hcopy

theorem settleEvent_skipped_iff
    (hsame : SameOutcome (evaluateDAG (reorder definition hops) state event task timestamp)
      (evaluateDAG definition state event task timestamp)) (id : String) :
    settleEvent (reorder definition hops) state event task id = some .skipped ↔
      settleEvent definition state event task id = some .skipped := by
  obtain ⟨result, hresult, hstatuses, -⟩ :=
    evaluateDAG_eq (hwf.perm hperm) state hrejected task timestamp
  obtain ⟨result', hresult', hstatuses', -⟩ := evaluateDAG_eq hwf state hrejected task timestamp
  rw [hresult, hresult'] at hsame
  have hid := hsame.1 id
  rw [hstatuses, hstatuses'] at hid
  calc
    settleEvent (reorder definition hops) state event task id = some .skipped ↔
        openJoins (reorder definition hops)
          (settleEvent (reorder definition hops) state event task) id = some .skipped :=
      (openJoins_skipped_iff _ _ id).symm
    _ ↔ openJoins definition (settleEvent definition state event task) id = some .skipped :=
      iff_of_eq (congrArg (· = some HopStatus.skipped) hid)
    _ ↔ settleEvent definition state event task id = some .skipped :=
      openJoins_skipped_iff _ _ id

end

/-- The array order is invisible exactly when the pass over the conditions is insensitive. -/
theorem evaluateDAG_perm_iff (haccepted : validateDAG definition = []) (state : WorkflowState)
    (event : HopEvent) (task : TaskMeta) (timestamp : String) : (∀ hops, hops.Perm definition.hops →
      SameOutcome (evaluateDAG (reorder definition hops) state event task timestamp)
        (evaluateDAG definition state event task timestamp)) ↔
      OrderInsensitive definition state event task := by
  have hwf := WellFormed.of_validateDAG haccepted
  by_cases hrejected : event.outcome = .rejected
  · refine ⟨fun _ => .inl hrejected, fun _ hops hperm => ?_⟩
    rw [evaluateDAG, evaluateDAG, if_pos hrejected, if_pos hrejected]
    exact sameOutcome_rejection hwf hperm state event.hopId timestamp
  let holds := eventReader state event task
  let statuses := afterEvent definition (statusOf state.hops) event.hopId event.outcome.toStatus
  have hsettle : ∀ hops, hops.Perm definition.hops →
      settleEvent (reorder definition hops) state event task =
        declinePass holds hops statuses := by
    intro hops hperm
    rw [settleEvent, settle, afterEvent_perm hperm]
    rfl
  have hnodup : definition.hops.Nodup := hwf.ids_nodup.of_map
  have hpass : (∀ hops, hops.Perm definition.hops →
      SameOutcome (evaluateDAG (reorder definition hops) state event task timestamp)
        (evaluateDAG definition state event task timestamp)) ↔
      ∀ hops, hops.Perm definition.hops →
        OnePass.pass (DeclinesAfter holds statuses) hops ∅ =
          OnePass.pass (DeclinesAfter holds statuses) definition.hops ∅ := by
    refine forall₂_congr fun hops hperm => ?_
    constructor
    · intro hsame
      ext hop
      rw [mem_pass_iff_skipped ((hperm.map Hop.id).nodup_iff.2 hwf.ids_nodup),
        mem_pass_iff_skipped hwf.ids_nodup, hperm.mem_iff, ← hsettle hops hperm,
        settleEvent_skipped_iff hwf hperm hrejected hsame]
      rfl
    · intro heq
      refine sameOutcome_of_settleEvent_eq hwf hperm hrejected ?_
      rw [hsettle hops hperm, declinePass_eq, heq, ← declinePass_eq]
      rfl
  rw [hpass, OnePass.pass_perm_iff hnodup]
  simp only [OnePass.Insensitive, OrderInsensitive, hrejected, false_or, DeclinesAfter,
    skipAll_empty]
  rfl

end Outcome

end Permuted

section Examples

/-- In a definition without conditions no order of the hops can be told from another. -/
theorem linear_order_invisible : validateDAG linear = [] ∧ ∀ hops, hops.Perm linear.hops →
    SameOutcome (evaluateDAG (reorder linear hops) (initializeWorkflowState linear)
        ⟨"implement", .complete, none⟩ plainTask "t1")
      (evaluateDAG linear (initializeWorkflowState linear) ⟨"implement", .complete, none⟩ plainTask
        "t1") := by
  have haccepted : validateDAG linear = [] := by decide
  refine ⟨haccepted, (evaluateDAG_perm_iff haccepted (initializeWorkflowState linear)
    ⟨"implement", .complete, none⟩ plainTask "t1").2 (.inr ?_)⟩
  have hnone : ∀ hop ∈ linear.hops, hop.condition = none := by simp [linear]
  intro holds statuses hop hhop others _ _
  constructor
  · rintro ⟨-, -, condition, hcondition, -⟩
    rw [hnone hop hhop] at hcondition
    cases hcondition
  · rintro ⟨-, -, condition, hcondition, -⟩
    rw [hnone hop hhop] at hcondition
    cases hcondition

def fallback : WorkflowDefinition :=
  { name := "fallback"
    hops := [{ id := "plan", role := "swe" },
      { id := "manual", role := "swe", dependsOn := ["plan"],
        condition := some (.hopStatus "auto" "skipped") },
      { id := "auto", role := "swe", dependsOn := ["plan"], condition := some .false }] }

/-- Listed in front of the hop whose status it reads, the fallback is skipped too. -/
theorem order_visible_fallback : ¬∀ definition : WorkflowDefinition,
    validateDAG definition = [] → ∀ hops, hops.Perm definition.hops → ∀ state event task timestamp,
      SameOutcome (evaluateDAG (reorder definition hops) state event task timestamp)
        (evaluateDAG definition state event task timestamp) := by
  intro hall
  let state := markDispatched { id := "plan", role := "swe" } (initializeWorkflowState fallback)
    "s1" "t1"
  have hsame := hall fallback (by decide)
    [{ id := "plan", role := "swe" },
      { id := "auto", role := "swe", dependsOn := ["plan"], condition := some .false },
      { id := "manual", role := "swe", dependsOn := ["plan"],
        condition := some (.hopStatus "auto" "skipped") }]
    (.cons _ (.swap _ _ [])) state ⟨"plan", .complete, none⟩ plainTask "t2"
  have hstatus := hsame.1 "manual"
  revert hstatus
  decide

end Examples

end Aof
