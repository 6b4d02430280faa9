import Aof.Dispatch.DagTransitionHandler
import Aof.Proof.Cascade

/-!
# The evaluator follows the rules

Each step of `evaluateDAG` acts on the statuses as the rule of the same step says; what else a
hop state holds is framed along the way.
-/

namespace Aof

section Fall

variable {definition : WorkflowDefinition} {before after : Dict String HopState} {start : String}

variable {statuses : Statuses} {id : String}

theorem Falls.pending (hfalls : Falls definition statuses start id) :
    statuses id = some .pending := by
  cases hfalls with
  | intro _ hpending => exact hpending

theorem Falls.of_blocked {hop : Hop} (hhop : hop ∈ definition.hops)
    (hpending : statuses hop.id = some .pending) (hdep : start ∈ hop.dependsOn)
    (hblocked : Blocked hop statuses) : Falls definition statuses start hop.id :=
  .intro hhop hpending hdep (fun hne => absurd rfl hne)
    fun other hother hnot => absurd (hblocked other hother) hnot

theorem Cascade.skipped_of_falls (hcascade : Cascade definition (· = start) before after)
    (hsettled : Settled definition after start)
    (hfalls : Falls definition (statusOf before) start id) : statusOf after id = some .skipped := by
  induction hfalls with
  | @intro hop dep hhop hpending hdep hthrough hall ihthrough ihall =>
      have hblocked : Blocked hop (statusOf after) := by
        intro other hother
        by_cases hnon : IsNonSuccess (statusOf before other)
        · exact hcascade.skips.nonSuccess hnon
        · exact .inl (ihall other hother hnon)
      have hdepSettled : Settled definition after dep := by
        by_cases heq : dep = start
        · exact heq ▸ hsettled
        · refine hcascade.settled dep ?_
          rw [ihthrough heq, (hthrough heq).pending]
          simp
      rcases hcascade.skips.statusOf hop.id with hsame | ⟨-, hskipped⟩
      · exact absurd hblocked (hdepSettled hop hhop hdep (hsame.trans hpending))
      · exact hskipped

section

variable (hwf : WellFormed definition) (hcascade : Cascade definition (· = start) before after)
include hwf hcascade

theorem Cascade.falls_of_changed :
    ∀ hop ∈ definition.hops, statusOf after hop.id ≠ statusOf before hop.id →
      Falls definition (statusOf before) start hop.id := by
  refine hwf.induction fun hop hhop ih hchanged => ?_
  obtain ⟨other, hother, hid, hblocked, dep, hdep, htouch⟩ := hcascade.blocked _ hchanged
  obtain rfl := hwf.eq_of_id_eq hother hhop hid
  have hfalls : ∀ dep ∈ other.dependsOn, statusOf after dep ≠ statusOf before dep →
      Falls definition (statusOf before) start dep := by
    intro dep hdep hdepChanged
    obtain ⟨pred, hpred, rfl⟩ := hwf.exists_hop_of_dep hother hdep
    exact ih pred hpred hdep hdepChanged
  refine .intro hother (hcascade.skips.changed_nonSuccess hchanged).1 hdep ?_ ?_
  · exact fun hne => hfalls dep hdep (htouch.resolve_left hne)
  · intro pred hpred hnon
    refine hfalls pred hpred fun hsame => hnon ?_
    exact hsame ▸ hblocked pred hpred

theorem Cascade.statusOf_eq_fall (hsettled : Settled definition after start) :
    statusOf after = fall definition (statusOf before) start := by
  funext id
  unfold fall
  split
  · rename_i hfalls
    exact hcascade.skipped_of_falls hsettled hfalls
  · rename_i hnot
    by_contra hchanged
    obtain ⟨hop, hhop, rfl, -⟩ := hcascade.blocked id hchanged
    exact hnot (hcascade.falls_of_changed hwf hop hhop hchanged)

end

theorem statusOf_recordHopEvent (hops : Dict String HopState) (event : HopEvent)
    (timestamp : String) : statusOf (recordHopEvent hops event timestamp) =
      recordStatus (statusOf hops) event.hopId event.outcome.toStatus := by
  funext id
  rw [recordHopEvent, statusOf_set, recordStatus, Function.update_apply]
  simp only [eq_comm]

theorem applyHopEvent_skips (definition : WorkflowDefinition) (hops : Dict String HopState)
    (event : HopEvent) (timestamp : String) : SkipsOnly (recordHopEvent hops event timestamp)
      (applyHopEvent definition hops event timestamp).hops := by
  simp only [applyHopEvent]
  split
  · exact cascadeSkips_skips definition
      { hops := recordHopEvent hops event timestamp, changes := _ } _ _ _
  · exact .refl _

theorem statusOf_applyHopEvent (hwf : WellFormed definition) (hops : Dict String HopState)
    (event : HopEvent) (timestamp : String) :
    statusOf (applyHopEvent definition hops event timestamp).hops =
      afterEvent definition (statusOf hops) event.hopId event.outcome.toStatus := by
  have hcomplete : event.outcome.toStatus = .complete ↔ event.outcome = .complete := by
    cases event.outcome <;> simp [HopOutcome.toStatus]
  unfold applyHopEvent afterEvent
  simp only [hcomplete]
  by_cases heq : event.outcome = .complete
  · rw [if_neg (not_not.2 heq), if_pos heq]
    exact statusOf_recordHopEvent hops event timestamp
  · rw [if_pos heq, if_neg heq, ← statusOf_recordHopEvent hops event timestamp]
    obtain ⟨hcascade, hsettled⟩ := cascadeSkips_spec hwf.ids_nodup
      listsDependents_buildDownstreamIndex
      { hops := recordHopEvent hops event timestamp
        changes := [{ hopId := event.hopId, fromStatus := statusOf hops event.hopId,
                      toStatus := event.outcome.toStatus }] } event.hopId timestamp
    exact hcascade.statusOf_eq_fall hwf hsettled

end Fall

section Conditions

variable {condContext : JsValue} {task : TaskMeta} {timestamp : String}

theorem evaluateEligibleCondition_skips (copy : WorkingCopy) (hop : Hop) : SkipsOnly copy.hops
      (evaluateEligibleCondition condContext task timestamp copy hop).hops := by
  unfold evaluateEligibleCondition
  split
  · rename_i hopState condition hget hcondition
    split
    · rename_i hdeclines
      exact .skip hget hdeclines.1
    · exact .refl _
  · exact .refl _

theorem foldl_condition_skips (hops : List Hop) (copy : WorkingCopy) : SkipsOnly copy.hops
      (hops.foldl (evaluateEligibleCondition condContext task timestamp) copy).hops := by
  induction hops generalizing copy with
  | nil => exact .refl _
  | cons hop rest ih =>
      exact (evaluateEligibleCondition_skips copy hop).trans (ih _)

def fieldReader (condContext : JsValue) (task : TaskMeta) : ConditionReader :=
  fun condition statuses => evaluateCondition ⟨condContext, statuses, task⟩ condition

open Classical in
theorem statusOf_evaluateEligibleCondition (copy : WorkingCopy) (hop : Hop) :
    statusOf (evaluateEligibleCondition condContext task timestamp copy hop).hops =
      if Declines (fieldReader condContext task) hop (statusOf copy.hops) then
        decline (statusOf copy.hops) hop else statusOf copy.hops := by
  unfold evaluateEligibleCondition
  split
  · rename_i hopState condition hget hcondition
    have hstatus : statusOf copy.hops hop.id = some hopState.status := by simp [statusOf, hget]
    have hiff : (hopState.status = .pending ∧ AllTerminal hop (statusOf copy.hops) ∧
        evaluateCondition ⟨condContext, statusOf copy.hops, task⟩ condition = false) ↔
        Declines (fieldReader condContext task) hop (statusOf copy.hops) := by
      simp [Declines, hstatus, hcondition, fieldReader]
    simp only [hiff]
    split
    · funext id
      rw [WorkingCopy.skip, statusOf_set, decline, recordStatus, Function.update_apply]
      simp only [eq_comm]
    · rfl
  · rename_i hnone
    rw [if_neg]
    rintro ⟨hpending, -, condition, hcondition, -⟩
    obtain ⟨hopState, hget, -⟩ := statusOf_eq_some_iff.1 hpending
    exact hnone hopState condition hget hcondition

theorem statusOf_foldl_condition (hops : List Hop) (copy : WorkingCopy) :
    statusOf (hops.foldl (evaluateEligibleCondition condContext task timestamp) copy).hops =
      declinePass (fieldReader condContext task) hops (statusOf copy.hops) := by
  induction hops generalizing copy with
  | nil => rfl
  | cons hop rest ih =>
      rw [List.foldl_cons, ih, statusOf_evaluateEligibleCondition]
      rfl

end Conditions

theorem buildConditionContext_congr {state state' : WorkflowState} (task : TaskMeta)
    (hkeys : state.hops.keys = state'.hops.keys)
    (hresults : ∀ id, (state.hops.get? id).map HopState.result =
      (state'.hops.get? id).map HopState.result) :
    buildConditionContext state task = buildConditionContext state' task := by
  have hentries := Dict.map_entries_congr HopState.result hkeys hresults
  have hfields := congrArg (List.map fun entry : String × Option JsObject =>
    (entry.1, JsValue.obj [("result", .obj (entry.2.getD []))])) hentries
  simp only [List.map_map, Function.comp_def] at hfields
  simp only [buildConditionContext, hfields]

theorem SkipsOnly.buildConditionContext (state : WorkflowState)
    {before after : Dict String HopState} (hskips : SkipsOnly before after) (task : TaskMeta) :
    buildConditionContext { state with hops := after } task =
      buildConditionContext { state with hops := before } task :=
  buildConditionContext_congr task hskips.keys (hskips.frame HopState.result fun _ _ => rfl)

def eventReader (state : WorkflowState) (event : HopEvent) (task : TaskMeta) : ConditionReader :=
  fieldReader (buildConditionContext
    { state with hops := recordHopEvent state.hops event "" } task) task

theorem buildConditionContext_recordHopEvent (state : WorkflowState) (event : HopEvent)
    (task : TaskMeta) (timestamp timestamp' : String) :
    buildConditionContext { state with hops := recordHopEvent state.hops event timestamp } task =
      buildConditionContext
        { state with hops := recordHopEvent state.hops event timestamp' } task := by
  refine buildConditionContext_congr task ?_ fun id => ?_
  · simp only [recordHopEvent, Dict.keys_set]
  · simp only [recordHopEvent, Dict.get?_set]
    split <;> rfl

theorem mem_determineReadyHops {definition : WorkflowDefinition} (hops : Dict String HopState)
    {id : String} : id ∈ determineReadyHops definition hops ↔
      ∃ hop ∈ definition.hops, hop.id = id ∧ Opens hop (statusOf hops) := by
  simp only [determineReadyHops, Opens, List.mem_map, List.mem_filter, decide_eq_true_eq]
  grind

theorem get?_foldl_promote (ids : List String) (copy : WorkingCopy) (id : String) :
    ((ids.foldl WorkingCopy.promote copy).hops.get? id) =
      if id ∈ ids then
        some { (copy.hops.get? id).getD { status := .ready } with status := .ready }
      else copy.hops.get? id := by
  induction ids generalizing copy with
  | nil => simp
  | cons first rest ih =>
      rw [List.foldl_cons, ih]
      simp only [WorkingCopy.promote, Dict.get?_set, List.mem_cons]
      by_cases heq : first = id
      · subst heq
        by_cases hmem : first ∈ rest <;> simp [hmem]
      · by_cases hmem : id ∈ rest <;> simp [heq, Ne.symm heq, hmem]

theorem keys_foldl_promote (ids : List String) (copy : WorkingCopy)
    (hids : ∀ id ∈ ids, id ∈ copy.hops.keys) :
    (ids.foldl WorkingCopy.promote copy).hops.keys = copy.hops.keys := by
  induction ids generalizing copy with
  | nil => rfl
  | cons first rest ih =>
      have hfirst : (copy.promote first).hops.keys = copy.hops.keys := by
        rw [WorkingCopy.promote, Dict.keys_set, if_pos (hids first List.mem_cons_self)]
      rw [List.foldl_cons, ih _ fun id hid => ?_, hfirst]
      rw [hfirst]
      exact hids id (List.mem_cons_of_mem _ hid)

theorem statusOf_promote {definition : WorkflowDefinition} (copy : WorkingCopy) :
    statusOf ((determineReadyHops definition copy.hops).foldl WorkingCopy.promote copy).hops =
      openJoins definition (statusOf copy.hops) := by
  funext id
  unfold openJoins
  simp only [← mem_determineReadyHops copy.hops]
  rw [statusOf, get?_foldl_promote]
  split <;> rfl

section Evaluation

variable {definition : WorkflowDefinition}

def settledCopy (definition : WorkflowDefinition) (state : WorkflowState) (event : HopEvent)
    (task : TaskMeta) (timestamp : String) : WorkingCopy :=
  applyConditions definition state (applyHopEvent definition state.hops event timestamp) task
    timestamp

theorem settledCopy_skips (definition : WorkflowDefinition) (state : WorkflowState)
    (event : HopEvent) (task : TaskMeta) (timestamp : String) :
    SkipsOnly (recordHopEvent state.hops event timestamp)
      (settledCopy definition state event task timestamp).hops :=
  (applyHopEvent_skips definition state.hops event timestamp).trans (foldl_condition_skips _ _)

theorem statusOf_settledCopy (hwf : WellFormed definition) (state : WorkflowState)
    (event : HopEvent) (task : TaskMeta) (timestamp : String) :
    statusOf (settledCopy definition state event task timestamp).hops =
      settle (eventReader state event task) definition (statusOf state.hops) event.hopId
        event.outcome.toStatus := by
  have hcontext := ((applyHopEvent_skips definition state.hops event timestamp).buildConditionContext
    state task).trans
      (buildConditionContext_recordHopEvent state event task timestamp "")
  rw [settledCopy, applyConditions, evaluateNewlyEligibleConditions, statusOf_foldl_condition,
    statusOf_applyHopEvent hwf, hcontext]
  rfl

/-- Evaluating any outcome but a rejection advances the statuses by the rules. -/
theorem evaluateDAG_eq (hwf : WellFormed definition) (state : WorkflowState) {event : HopEvent}
    (hrejected : event.outcome ≠ .rejected) (task : TaskMeta) (timestamp : String) :
    ∃ result, evaluateDAG definition state event task timestamp = some result ∧
      statusOf result.state.hops =
        advance (eventReader state event task) definition (statusOf state.hops) event.hopId
          event.outcome.toStatus ∧ result.readyHops = determineReadyHops definition
        (settledCopy definition state event task timestamp).hops ∧ result = finishEvaluation state
        (result.readyHops.foldl WorkingCopy.promote
          (settledCopy definition state event task timestamp)) result.readyHops timestamp := by
  refine ⟨_, if_neg hrejected, ?_, rfl, rfl⟩
  rw [advance, ← statusOf_settledCopy hwf state event task timestamp]
  exact statusOf_promote _

end Evaluation

section Rejection

variable {definition : WorkflowDefinition} (rejectedHopId : String) (currentCount : Nat)

variable {hop : Hop} {copy : WorkingCopy} {prev : HopState} {set : List String}

theorem mem_resetSet {id : String} : id ∈ resetSet hop ↔ id = hop.id ∨ id ∈ hop.dependsOn := by
  simp [resetSet, List.mem_eraseDups]

theorem resetForOrigin_eq (hprev : copy.hops.get? hop.id = some prev) :
    ∃ turn, resetForOrigin rejectedHopId currentCount copy hop = some turn ∧
      turn.hops = copy.hops.set hop.id
        (resetHopState rejectedHopId currentCount hop.id (freshStatus hop)) := by
  simp only [resetForOrigin, hprev, Option.bind_eq_bind, Option.bind_some]
  exact ⟨_, rfl, rfl⟩

theorem foldlM_resetForOrigin (hops : List Hop) (hnodup : (hops.map Hop.id).Nodup)
    (copy : WorkingCopy) (htracked : ∀ hop ∈ hops, (copy.hops.get? hop.id).isSome) :
    ∃ result, hops.foldlM (resetForOrigin rejectedHopId currentCount) copy = some result ∧
      (∀ hop ∈ hops, result.hops.get? hop.id =
        some (resetHopState rejectedHopId currentCount hop.id (freshStatus hop))) ∧
      ∀ id, id ∉ hops.map Hop.id → result.hops.get? id = copy.hops.get? id := by
  induction hops generalizing copy with
  | nil => exact ⟨copy, rfl, by simp, fun _ _ => rfl⟩
  | cons hop rest ih =>
      rw [List.map_cons, List.nodup_cons] at hnodup
      obtain ⟨prev, hprev⟩ := Option.isSome_iff_exists.1 (htracked hop List.mem_cons_self)
      obtain ⟨turn, hturn, hset⟩ := resetForOrigin_eq rejectedHopId currentCount hprev
      have hstill : ∀ other ∈ rest, (turn.hops.get? other.id).isSome := by
        intro other hother
        rw [hset, Dict.get?_set_of_ne]
        · exact htracked other (List.mem_cons_of_mem _ hother)
        · exact fun hid => hnodup.1 (hid ▸ List.mem_map_of_mem hother)
      obtain ⟨result, hresult, hwritten, hframe⟩ := ih hnodup.2 turn hstill
      refine ⟨result, by simp [hturn, hresult], ?_, ?_⟩
      · intro other hother
        rcases List.mem_cons.1 hother with rfl | hother
        · rw [hframe _ hnodup.1, hset, Dict.get?_set_self]
        · exact hwritten other hother
      · intro id hid
        rw [List.map_cons, List.mem_cons, not_or] at hid
        rw [hframe id hid.2, hset, Dict.get?_set_of_ne _ _ (Ne.symm hid.1)]

theorem resetAllHopsForOrigin_eq (hwf : WellFormed definition) (copy : WorkingCopy)
    (htracked : ∀ hop ∈ definition.hops, (copy.hops.get? hop.id).isSome) :
    ∃ result, resetAllHopsForOrigin definition copy rejectedHopId currentCount = some result ∧
      ∀ id, result.hops.get? id =
        match definition.findHop id with
        | some hop => some (resetHopState rejectedHopId currentCount id (freshStatus hop))
        | none => copy.hops.get? id := by
  obtain ⟨result, hresult, hwritten, hframe⟩ :=
    foldlM_resetForOrigin rejectedHopId currentCount definition.hops hwf.ids_nodup copy htracked
  refine ⟨result, hresult, fun id => ?_⟩
  cases hfind : definition.findHop id with
  | none => exact hframe id (find?_id_eq_none.1 hfind)
  | some hop =>
      obtain ⟨hhop, rfl⟩ := mem_of_findHop hfind
      exact hwritten hop hhop

theorem resetPredecessor_eq (set : List String) {hopId : String}
    (hfind : definition.findHop hopId = some hop) (hprev : copy.hops.get? hopId = some prev) :
    ∃ turn, resetPredecessor definition set rejectedHopId currentCount copy hopId = some turn ∧
      turn.hops = copy.hops.set hopId (resetHopState rejectedHopId currentCount hopId
        (resetStatus set (statusOf copy.hops) hop)) := by
  simp only [resetPredecessor, hfind, hprev, Option.bind_eq_bind, Option.bind_some]
  exact ⟨_, rfl, rfl⟩

theorem resetStatus_congr {statuses statuses' : Statuses} (hop : Hop)
    (hsame : ∀ id, id ∉ set → statuses id = statuses' id) :
    resetStatus set statuses hop = resetStatus set statuses' hop := by
  have hiff : (∀ dep ∈ hop.dependsOn, dep ∉ set ∧ IsSatisfied (statuses dep)) ↔
      ∀ dep ∈ hop.dependsOn, dep ∉ set ∧ IsSatisfied (statuses' dep) := by
    refine forall₂_congr fun dep _ => and_congr_right fun hout => ?_
    rw [hsame dep hout]
  simp only [resetStatus, hiff]

theorem foldlM_resetPredecessor (statuses : Statuses) (ids : List String)
    (hids : ∀ id ∈ ids, id ∈ set ∧ ∃ hop, definition.findHop id = some hop) (copy : WorkingCopy)
    (htracked : ∀ id ∈ ids, (copy.hops.get? id).isSome)
    (hsame : ∀ id, id ∉ set → statusOf copy.hops id = statuses id) :
    ∃ result, ids.foldlM (resetPredecessor definition set rejectedHopId currentCount) copy =
        some result ∧ (∀ id ∈ ids, result.hops.get? id = (definition.findHop id).map fun hop =>
        resetHopState rejectedHopId currentCount id (resetStatus set statuses hop)) ∧
      ∀ id, id ∉ ids → result.hops.get? id = copy.hops.get? id := by
  induction ids generalizing copy with
  | nil => exact ⟨copy, rfl, by simp, fun _ _ => rfl⟩
  | cons first rest ih =>
      obtain ⟨hset, hop, hfind⟩ := hids first List.mem_cons_self
      obtain ⟨prev, hprev⟩ := Option.isSome_iff_exists.1 (htracked first List.mem_cons_self)
      obtain ⟨turn, hturn, hwrite⟩ := resetPredecessor_eq rejectedHopId currentCount set hfind
        hprev
      rw [resetStatus_congr hop hsame] at hwrite
      obtain ⟨result, hresult, hwritten, hframe⟩ :=
        ih (fun id hid => hids id (List.mem_cons_of_mem _ hid)) turn
          (fun id hid => by
            rw [hwrite, Dict.get?_set]
            split
            · rfl
            · exact htracked id (List.mem_cons_of_mem _ hid))
          (fun id hid => by
            have hne : first ≠ id := fun h => hid (h ▸ hset)
            rw [hwrite, statusOf_set_of_ne _ _ hne]
            exact hsame id hid)
      refine ⟨result, by simp [hturn, hresult], ?_, ?_⟩
      · intro id hid
        by_cases hrest : id ∈ rest
        · exact hwritten id hrest
        · obtain rfl := (List.mem_cons.1 hid).resolve_right hrest
          rw [hframe id hrest, hwrite, Dict.get?_set_self, hfind]
          rfl
      · intro id hid
        rw [List.mem_cons, not_or] at hid
        rw [hframe id hid.2, hwrite, Dict.get?_set_of_ne _ _ (Ne.symm hid.1)]

theorem resetPredecessorHops_eq (hwf : WellFormed definition) (copy : WorkingCopy)
    {rejectedHop : Hop} (hfind : definition.findHop rejectedHopId = some rejectedHop)
    (htracked : ∀ id ∈ resetSet rejectedHop, (copy.hops.get? id).isSome) :
    ∃ result, resetPredecessorHops definition copy rejectedHopId currentCount = some result ∧
      ∀ id, result.hops.get? id =
        if id ∈ resetSet rejectedHop then
          (definition.findHop id).map fun hop => resetHopState rejectedHopId currentCount id
            (resetStatus (resetSet rejectedHop) (statusOf copy.hops) hop)
        else copy.hops.get? id := by
  obtain ⟨hhop, rfl⟩ := mem_of_findHop hfind
  have hids : ∀ id ∈ resetSet rejectedHop, id ∈ resetSet rejectedHop ∧
      ∃ hop, definition.findHop id = some hop := by
    intro id hid
    refine ⟨hid, ?_⟩
    rcases mem_resetSet.1 hid with rfl | hdep
    · exact ⟨rejectedHop, hfind⟩
    · obtain ⟨pred, hpred, rfl⟩ := hwf.exists_hop_of_dep hhop hdep
      exact ⟨pred, hwf.findHop hpred⟩
  obtain ⟨result, hresult, hwritten, hframe⟩ := foldlM_resetPredecessor rejectedHop.id
    currentCount (statusOf copy.hops) (resetSet rejectedHop) hids copy htracked fun _ _ => rfl
  refine ⟨result, by simp [resetPredecessorHops, hfind, hresult], fun id => ?_⟩
  split
  · rename_i hid
    exact hwritten id hid
  · rename_i hid
    exact hframe id hid

def trippedCopy (hops : Dict String HopState) (hopId timestamp : String) : WorkingCopy :=
  { hops := hops.set hopId
      { (hops.get? hopId).getD { status := .failed } with
        status := .failed
        completedAt := some timestamp
        rejectionCount := some currentCount }
    changes := [{ hopId, fromStatus := statusOf hops hopId, toStatus := .failed,
                  reason := some "circuit_breaker" }] }

theorem tripCircuitBreaker_eq (definition : WorkflowDefinition) (hops : Dict String HopState)
    (hopId timestamp : String) :
    tripCircuitBreaker definition hops hopId currentCount timestamp =
      cascadeSkips definition (trippedCopy currentCount hops hopId timestamp)
        (buildDownstreamIndex definition) hopId timestamp := rfl

theorem statusOf_trippedCopy (hops : Dict String HopState) (hopId timestamp : String) :
    statusOf (trippedCopy currentCount hops hopId timestamp).hops =
      recordStatus (statusOf hops) hopId .failed := by
  funext id
  rw [trippedCopy, statusOf_set, recordStatus, Function.update_apply]
  simp only [eq_comm]

theorem tripCircuitBreaker_skips (definition : WorkflowDefinition) (hops : Dict String HopState)
    (hopId timestamp : String) : SkipsOnly (trippedCopy currentCount hops hopId timestamp).hops
      (tripCircuitBreaker definition hops hopId currentCount timestamp).hops :=
  cascadeSkips_skips definition _ _ hopId timestamp

theorem statusOf_tripCircuitBreaker (hwf : WellFormed definition) (hops : Dict String HopState)
    (hopId timestamp : String) :
    statusOf (tripCircuitBreaker definition hops hopId currentCount timestamp).hops =
      fall definition (recordStatus (statusOf hops) hopId .failed) hopId := by
  obtain ⟨hcascade, hsettled⟩ :=
    cascadeSkips_spec hwf.ids_nodup listsDependents_buildDownstreamIndex
      (trippedCopy currentCount hops hopId timestamp) hopId timestamp
  rw [tripCircuitBreaker_eq, hcascade.statusOf_eq_fall hwf hsettled, statusOf_trippedCopy]

end Rejection

end Aof
