import Aof.Proof.SkipClosure

/-!
# Replaying the changes

Each helper of `evaluateDAG` that writes a hop appends the change that it made, so that the list of
changes leads from the statuses of the input to those of the result.
-/

namespace Aof

/-- A change is made to statuses that have the hop where the change says it was. -/
def followChange (statuses : Statuses) (change : HopTransition) : Option Statuses :=
  if statuses change.hopId = change.fromStatus then
    some (recordStatus statuses change.hopId change.toStatus)
  else none

def replayChanges (statuses : Statuses) (changes : List HopTransition) : Option Statuses :=
  changes.foldlM followChange statuses

def Replays (statuses : Statuses) (copy : WorkingCopy) : Prop :=
  replayChanges statuses copy.changes = some (statusOf copy.hops)

variable {definition : WorkflowDefinition} {statuses : Statuses} {copy : WorkingCopy}

theorem statusOf_set_eq (hops : Dict String HopState) (id : String) (hopState : HopState) :
    statusOf (hops.set id hopState) = recordStatus (statusOf hops) id hopState.status := by
  funext other
  rw [statusOf_set, recordStatus, Function.update_apply]
  simp only [eq_comm]

namespace Replays

theorem start (hops : Dict String HopState) : Replays (statusOf hops) ⟨hops, []⟩ := rfl

variable {hopState : HopState} {next : WorkingCopy} {hopId rejectedHopId : String}
  {currentCount : Nat}

theorem write (hreplays : Replays statuses copy) {change : HopTransition}
    (hfrom : statusOf copy.hops change.hopId = change.fromStatus)
    (hto : hopState.status = change.toStatus) : Replays statuses
      { hops := copy.hops.set change.hopId hopState, changes := copy.changes ++ [change] } := by
  unfold Replays replayChanges at hreplays ⊢
  rw [List.foldlM_append, hreplays, statusOf_set_eq, hto]
  simp [followChange, hfrom]

theorem keep (hreplays : Replays statuses copy) {id : String}
    (hsame : statusOf copy.hops id = some hopState.status) :
    Replays statuses { hops := copy.hops.set id hopState, changes := copy.changes } := by
  unfold Replays at hreplays ⊢
  rw [hreplays, statusOf_set_eq, recordStatus, ← hsame, Function.update_eq_self]

theorem foldlM {α : Type} {f : WorkingCopy → α → Option WorkingCopy}
    (hf : ∀ copy a next, Replays statuses copy → f copy a = some next → Replays statuses next)
    {as : List α} (hreplays : Replays statuses copy) (hfold : as.foldlM f copy = some next) :
    Replays statuses next := by
  induction as generalizing copy with
  | nil =>
      obtain rfl := Option.some.inj hfold
      exact hreplays
  | cons a rest ih =>
      rw [List.foldlM_cons] at hfold
      obtain ⟨turn, hturn, hrest⟩ := Option.bind_eq_some_iff.mp hfold
      exact ih (hf copy a turn hreplays hturn) hrest

theorem skip (hreplays : Replays statuses copy) {timestamp reason : String}
    (hget : copy.hops.get? hopId = some hopState) (hpending : hopState.status = .pending) :
    Replays statuses (copy.skip hopId hopState timestamp reason) := by
  apply hreplays.write
  · exact statusOf_eq_some_iff.mpr ⟨hopState, hget, hpending⟩
  · rfl

theorem cascadeSkips (hids : DistinctIds definition) (hreplays : Replays statuses copy)
    (start timestamp : String) : Replays statuses
      (cascadeSkips definition copy (buildDownstreamIndex definition) start timestamp) := by
  apply cascadeSkipsAux_invariant hids listsDependents_buildDownstreamIndex
    (P := Replays statuses) (Q := fun _ => True) _ hreplays trivial
  intro copy start hop hopState hreplays _ _ _ hget hpending _
  exact ⟨hreplays.skip hget hpending, trivial⟩

theorem evaluateEligibleCondition (hreplays : Replays statuses copy) (condContext : JsValue)
    (task : TaskMeta) (timestamp : String) (hop : Hop) :
    Replays statuses (evaluateEligibleCondition condContext task timestamp copy hop) := by
  unfold Aof.evaluateEligibleCondition
  split
  · rename_i hopState condition hget hcondition
    split
    · rename_i hdeclines
      exact hreplays.skip hget hdeclines.1
    · exact hreplays
  · exact hreplays

theorem applyConditions (hreplays : Replays statuses copy) (state : WorkflowState)
    (task : TaskMeta) (timestamp : String) :
    Replays statuses (applyConditions definition state copy task timestamp) := by
  unfold Aof.applyConditions evaluateNewlyEligibleConditions
  apply List.foldlRecOn _ _ hreplays
  intro copy hreplays hop _
  exact hreplays.evaluateEligibleCondition _ task timestamp hop

theorem promote {ids : List String} (hreplays : Replays statuses copy) (hnodup : ids.Nodup)
    (hpending : ∀ id ∈ ids, statusOf copy.hops id = some .pending) :
    Replays statuses (ids.foldl WorkingCopy.promote copy) := by
  induction ids generalizing copy with
  | nil => exact hreplays
  | cons id rest ih =>
      obtain ⟨hfresh, hrest⟩ := List.nodup_cons.mp hnodup
      rw [List.foldl_cons]
      apply ih _ hrest
      · intro other hother
        have hne : id ≠ other := fun heq => hfresh (heq ▸ hother)
        exact (statusOf_set_of_ne _ _ hne).trans (hpending other (List.mem_cons_of_mem _ hother))
      · apply hreplays.write
        · exact hpending id List.mem_cons_self
        · rfl

theorem resetForOrigin {hop : Hop} (hreplays : Replays statuses copy)
    (hturn : resetForOrigin rejectedHopId currentCount copy hop = some next) :
    Replays statuses next := by
  unfold Aof.resetForOrigin at hturn
  obtain ⟨prev, hprev, hnext⟩ := Option.bind_eq_some_iff.mp hturn
  obtain rfl := Option.some.inj hnext
  have hfrom : statusOf copy.hops hop.id = some prev.status :=
    statusOf_eq_some_iff.mpr ⟨prev, hprev, rfl⟩
  generalize (if hop.isRoot then HopStatus.ready else HopStatus.pending) = newStatus
  split
  · exact hreplays.write hfrom rfl
  · rename_i hsame
    rw [not_or, not_not] at hsame
    apply hreplays.keep
    exact hfrom.trans (congrArg some hsame.1)

theorem resetPredecessor {set : List String} (hreplays : Replays statuses copy)
    (hturn : resetPredecessor definition set rejectedHopId currentCount copy hopId = some next) :
    Replays statuses next := by
  unfold Aof.resetPredecessor at hturn
  obtain ⟨hop, -, hrest⟩ := Option.bind_eq_some_iff.mp hturn
  obtain ⟨prev, hprev, hnext⟩ := Option.bind_eq_some_iff.mp hrest
  obtain rfl := Option.some.inj hnext
  exact hreplays.write (statusOf_eq_some_iff.mpr ⟨prev, hprev, rfl⟩) rfl

end Replays

theorem replays_applyHopEvent (hids : DistinctIds definition) (hops : Dict String HopState)
    (event : HopEvent) (timestamp : String) :
    Replays (statusOf hops) (applyHopEvent definition hops event timestamp) := by
  have hrecorded : Replays (statusOf hops)
      { hops := recordHopEvent hops event timestamp
        changes := [{ hopId := event.hopId, fromStatus := statusOf hops event.hopId,
                      toStatus := event.outcome.toStatus }] } :=
    (Replays.start hops).write rfl rfl
  unfold applyHopEvent
  split
  · exact hrecorded.cascadeSkips hids event.hopId timestamp
  · exact hrecorded

theorem replays_applyRejection (hids : DistinctIds definition) {hops : Dict String HopState}
    {hopId timestamp : String}
    (hrejection : applyRejection definition hops hopId timestamp = some copy) :
    Replays (statusOf hops) copy := by
  simp only [applyRejection] at hrejection
  split at hrejection
  · obtain rfl := Option.some.inj hrejection
    rw [tripCircuitBreaker_eq]
    have htripped : Replays (statusOf hops)
        (trippedCopy (nextRejectionCount hops hopId) hops hopId timestamp) :=
      (Replays.start hops).write rfl rfl
    exact htripped.cascadeSkips hids hopId timestamp
  · obtain ⟨hopDef, -, hreset⟩ := Option.bind_eq_some_iff.mp hrejection
    split at hreset
    · exact (Replays.start hops).foldlM (fun _ _ _ => Replays.resetForOrigin) hreset
    · obtain ⟨rejectedHop, -, hfold⟩ := Option.bind_eq_some_iff.mp hreset
      exact (Replays.start hops).foldlM (fun _ _ _ => Replays.resetPredecessor) hfold

theorem nodup_determineReadyHops (hids : DistinctIds definition) (hops : Dict String HopState) :
    (determineReadyHops definition hops).Nodup :=
  hids.sublist (List.filter_sublist.map Hop.id)

/-- The changes of an evaluation, made one after the other to the statuses of the input, lead to
the statuses of the result. -/
theorem changes_replay (hids : DistinctIds definition) {state : WorkflowState} {event : HopEvent}
    {task : TaskMeta} {timestamp : String} {result : DAGEvaluationResult}
    (hresult : evaluateDAG definition state event task timestamp = some result) :
    replayChanges (statusOf state.hops) result.changes = some (statusOf result.state.hops) := by
  unfold evaluateDAG at hresult
  split at hresult
  · obtain ⟨copy, hrejection, hfinish⟩ := Option.bind_eq_some_iff.mp hresult
    obtain rfl := Option.some.inj hfinish
    exact replays_applyRejection hids hrejection
  · obtain rfl := Option.some.inj hresult
    have hsettled : Replays (statusOf state.hops) (applyConditions definition state
        (applyHopEvent definition state.hops event timestamp) task timestamp) :=
      (replays_applyHopEvent hids state.hops event timestamp).applyConditions state task timestamp
    apply hsettled.promote (nodup_determineReadyHops hids _)
    intro id hid
    obtain ⟨hop, -, rfl, hopens⟩ := (mem_determineReadyHops _).mp hid
    exact hopens.1

/-- A failure with a cascade. -/
theorem changes_replay_diamond :
    ∃ result, evaluateDAG diamond (initializeWorkflowState diamond) ⟨"plan", .failed, none⟩
        ⟨"in-progress", [], "normal", []⟩ "t" = some result ∧
      replayChanges (statusOf (initializeWorkflowState diamond).hops) result.changes =
        some (statusOf result.state.hops) := by
  have hids : DistinctIds diamond := by decide
  obtain ⟨result, hresult⟩ := Option.isSome_iff_exists.mp
    (show (evaluateDAG diamond (initializeWorkflowState diamond) ⟨"plan", .failed, none⟩
      ⟨"in-progress", [], "normal", []⟩ "t").isSome from rfl)
  exact ⟨result, hresult, changes_replay hids hresult⟩

end Aof
