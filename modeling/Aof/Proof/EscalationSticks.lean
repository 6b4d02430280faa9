import Aof.Dispatch.Escalation
import Aof.Proof.Rules

/-!
# Escalation sticks

A hop is marked once between two resets, since nothing but a reset takes the mark away.  The
sessions of a marked hop go to the role it was escalated to, unless the hop fell back to ready and
is dispatched like any other.
-/

namespace Aof

/-- The hop was escalated and has not been reset since; the latest event comes first. -/
def marked : List SessionEvent → String → Bool
  | [], _ => false
  | .spawned .. :: earlier, id => marked earlier id
  | .escalated hopId :: earlier, id => hopId = id || marked earlier id
  | .reset hopId :: earlier, id => hopId ≠ id && marked earlier id

def Sticks (definition : WorkflowDefinition) : List SessionEvent → Prop
  | [] => True
  | .spawned hopId role :: earlier =>
      (marked earlier hopId = true →
        (definition.findHop hopId).bind Hop.escalateTo = some role) ∧ Sticks definition earlier
  | .escalated hopId :: earlier => marked earlier hopId = false ∧ Sticks definition earlier
  | .reset _ :: earlier => Sticks definition earlier

/-- A marked hop is dispatched only if its own role is the one that it is escalated to. -/
def Undiverted (definition : WorkflowDefinition) (run : EscalationRun) : EscalationMove → Prop
  | .dispatch hopId (.success _) _ => ∀ hop, definition.findHop hopId = some hop →
      (run.workflow.hops.get? hopId).bind HopState.escalated = some true →
      hop.escalateTo = some hop.role
  | _ => True

section Record

variable {definition : WorkflowDefinition} {trace : List SessionEvent} {ids : List String}

theorem marked_resets (ids : List String) (trace : List SessionEvent) (id : String) :
    marked (ids.map .reset ++ trace) id = (decide (id ∉ ids) && marked trace id) := by
  induction ids with
  | nil => simp
  | cons first rest ih =>
      rw [List.map_cons, List.cons_append, marked, ih]
      by_cases heq : first = id
      · simp [heq]
      · simp [heq, Ne.symm heq]

theorem sticks_resets : Sticks definition (ids.map .reset ++ trace) ↔ Sticks definition trace := by
  induction ids with
  | nil => rfl
  | cons first rest ih => exact ih

end Record

section Mark

variable {definition : WorkflowDefinition} {state next : WorkflowState}

theorem escalated_markDispatched (hop : Hop) (sessionId timestamp id : String) :
    ((markDispatched hop state sessionId timestamp).hops.get? id).bind HopState.escalated =
      (state.hops.get? id).bind HopState.escalated := by
  rw [markDispatched, Dict.get?_set]
  split
  · rename_i heq
    rw [← heq]
    cases state.hops.get? hop.id <;> rfl
  · rfl

theorem escalated_enforceFailure (hopId timestamp id : String) :
    ((enforceFailure state hopId timestamp).hops.get? id).bind HopState.escalated =
      (state.hops.get? id).bind HopState.escalated := by
  rw [enforceFailure, Dict.get?_set]
  split
  · rename_i heq
    rw [← heq]
    cases state.hops.get? hopId <;> rfl
  · rfl

theorem escalated_escalateHop (hopId : String) (hopState : HopState) (role : String)
    (spawn : Option SpawnResult) (timestamp id : String) :
    ((escalateHop state hopId hopState role spawn timestamp).hops.get? id).bind
        HopState.escalated =
      if hopId = id then some true else (state.hops.get? id).bind HopState.escalated := by
  rw [escalateHop, Dict.get?_set]
  split
  · unfold escalatedHop
    split <;> rfl
  · rfl

theorem bind_eq_of_map_eq {table table' : Dict String HopState} {id : String}
    (hsame : (table'.get? id).map HopState.escalated = (table.get? id).map HopState.escalated) :
    (table'.get? id).bind HopState.escalated = (table.get? id).bind HopState.escalated := by
  have hjoin : ∀ entry : Option HopState,
      entry.bind HopState.escalated = (entry.map HopState.escalated).join := by
    intro entry
    cases entry <;> rfl
  rw [hjoin, hjoin, hsame]

section Evaluate

variable {event : HopEvent} {task : TaskMeta} {timestamp : String} {hop : Hop}

theorem escalated_reset (hwf : WellFormed definition) (htracks : Tracks definition state.hops)
    (hfind : definition.findHop event.hopId = some hop)
    (hdispatched : statusOf state.hops hop.id = some .dispatched)
    (hrejected : event.outcome = .rejected) (hallowed : hop.canReject = true)
    (hlimit : nextRejectionCount state.hops event.hopId < DEFAULT_MAX_REJECTIONS)
    (hstep : (evaluateDAG definition state event task timestamp).map DAGEvaluationResult.state =
      some next)
    (id : String) : (next.hops.get? id).bind HopState.escalated =
      if id ∈ resetBy definition state event then none
      else (state.hops.get? id).bind HopState.escalated := by
  obtain ⟨hhop, hid⟩ := mem_of_findHop hfind
  have hmove := workflowMove_of_evaluate_rejected hwf htracks hhop hid hdispatched hrejected
    hallowed hstep
  have hresets : resetBy definition state event =
      if hop.rejectionStrategy.getD .origin = .origin then definition.hops.map Hop.id
      else resetSet hop := by
    cases hstrategy : hop.rejectionStrategy.getD .origin <;>
      simp [resetBy, hrejected, hlimit, hfind, hstrategy]
  have hsame : ∀ {acting : Hop}, acting ∈ definition.hops → acting.id = event.hopId →
      acting = hop := by
    intro acting hacting heq
    have hfound := hwf.findHop hacting
    rw [heq, hfind] at hfound
    exact (Option.some.inj hfound).symm
  cases hmove with
  | advance _ _ _ houtcome =>
      rw [hrejected] at houtcome
      cases houtcome with
      | inl h => cases h
      | inr h => cases h
  | trip _ heq _ _ _ hbreaks =>
      rw [heq] at hbreaks
      exact absurd hlimit (Nat.not_lt.mpr hbreaks)
  | restart hacting heq _ _ _ _ hstrategy hhops =>
      obtain rfl := hsame hacting heq
      rw [hresets, hstrategy, if_pos rfl, hhops id]
      split
      · cases definition.findHop id <;> rfl
      · rename_i hunknown
        have hnone : state.hops.get? id = none := by simpa [hunknown] using htracks id
        have hmissing : definition.findHop id = none := find?_id_eq_none.mpr hunknown
        rw [hnone, hmissing]
        rfl
  | restartPredecessors hacting heq _ _ _ _ hstrategy hhops =>
      obtain rfl := hsame hacting heq
      rw [hstrategy] at hresets
      rw [hresets.trans (if_neg fun hother => by cases hother), hhops id]
      split
      · cases definition.findHop id <;> rfl
      · rfl

theorem escalated_tripped (hdispatched : statusOf state.hops event.hopId = some .dispatched)
    (hrejected : event.outcome = .rejected)
    (hlimit : DEFAULT_MAX_REJECTIONS ≤ nextRejectionCount state.hops event.hopId)
    (hstep : (evaluateDAG definition state event task timestamp).map DAGEvaluationResult.state =
      some next) (id : String) : (next.hops.get? id).bind HopState.escalated =
      (state.hops.get? id).bind HopState.escalated := by
  apply bind_eq_of_map_eq
  rw [evaluateDAG, if_pos hrejected, evaluateRejection, applyRejection, if_pos hlimit] at hstep
  obtain rfl := Option.some.inj hstep
  obtain ⟨prev, hprev, -⟩ := statusOf_eq_some_iff.mp hdispatched
  refine (tripCircuitBreaker_frame definition hprev HopState.escalated
    (fun _ _ => rfl) id).trans ?_
  split
  · rename_i heq
    rw [heq, hprev]
    rfl
  · rfl

theorem escalated_settled (hwf : WellFormed definition)
    (hdispatched : statusOf state.hops event.hopId = some .dispatched)
    (hrejected : event.outcome ≠ .rejected)
    (hstep : (evaluateDAG definition state event task timestamp).map DAGEvaluationResult.state =
      some next) (id : String) : (next.hops.get? id).bind HopState.escalated =
      (state.hops.get? id).bind HopState.escalated := by
  apply bind_eq_of_map_eq
  obtain ⟨result, hresult, -, hready, hfinish⟩ :=
    evaluateDAG_eq hwf state hrejected task timestamp
  obtain rfl : result.state = next := by simpa [hresult] using hstep
  have hhops : result.state.hops = ((determineReadyHops definition
      (settledCopy definition state event task timestamp).hops).foldl WorkingCopy.promote
      (settledCopy definition state event task timestamp)).hops := by
    rw [hfinish, ← hready]
    rfl
  obtain ⟨prev, hprev, -⟩ := statusOf_eq_some_iff.mp hdispatched
  rw [hhops, advance_frame definition HopState.escalated (fun _ _ => rfl) fun _ => rfl,
    recordHopEvent, Dict.get?_set]
  split
  · rename_i heq
    rw [← heq, hprev]
    rfl
  · rfl

/-- An outcome takes the mark from the hops that it resets, and from no other. -/
theorem escalated_evaluate (hwf : WellFormed definition) (htracks : Tracks definition state.hops)
    (hstep : workflowStep definition state (.evaluate event task timestamp) = some next)
    (id : String) : (next.hops.get? id).bind HopState.escalated =
      if id ∈ resetBy definition state event then none
      else (state.hops.get? id).bind HopState.escalated := by
  simp only [workflowStep, Option.bind_eq_bind, Option.bind_eq_some_iff] at hstep
  obtain ⟨hop, hfind, hstep⟩ := hstep
  obtain ⟨hhop, hid⟩ := mem_of_findHop hfind
  split at hstep
  swap
  · cases hstep
  rename_i hguard
  obtain ⟨hdispatched, hallowed⟩ := hguard
  by_cases hrejected : event.outcome = .rejected
  · rw [hrejected] at hallowed
    by_cases hlimit : nextRejectionCount state.hops event.hopId < DEFAULT_MAX_REJECTIONS
    · exact escalated_reset hwf htracks hfind (hid ▸ hdispatched) hrejected hallowed hlimit hstep id
    · have hnone : resetBy definition state event = [] := by
        rw [resetBy, if_neg fun hboth => hlimit hboth.2]
      rw [hnone, if_neg List.not_mem_nil]
      exact escalated_tripped hdispatched hrejected (Nat.not_lt.mp hlimit) hstep id
  · have hnone : resetBy definition state event = [] := by
      rw [resetBy, if_neg fun hboth => hrejected hboth.1]
    rw [hnone, if_neg List.not_mem_nil]
    exact escalated_settled hwf hdispatched hrejected hstep id

end Evaluate

theorem Tracks.set {hops : Dict String HopState} (htracks : Tracks definition hops) {hopId : String}
    (hhop : hopId ∈ definition.hops.map Hop.id) (hopState : HopState) :
    Tracks definition (hops.set hopId hopState) := by
  intro id
  rw [Dict.get?_set]
  split
  · rename_i heq
    exact iff_of_true rfl (heq ▸ hhop)
  · exact htracks id

theorem escalatable_eq_some {hopId : String} {hopState : HopState} {role : String}
    (hsome : escalatable definition state hopId = some (hopState, role)) :
    state.hops.get? hopId = some hopState ∧ hopState.escalated ≠ some true ∧
      (definition.findHop hopId).bind Hop.escalateTo = some role := by
  unfold escalatable at hsome
  split at hsome
  · rename_i entry escalateToRole hget hrole
    split at hsome
    · cases hsome
    · rename_i hopen
      obtain ⟨rfl, rfl⟩ := Prod.mk.inj (Option.some.inj hsome)
      exact ⟨hget, fun hescalated => hopen (.inr hescalated), hrole⟩
  · cases hsome

end Mark

section Steps

variable {definition : WorkflowDefinition} {run next : EscalationRun}

structure Marks (definition : WorkflowDefinition) (run : EscalationRun) : Prop where
  tracks : Tracks definition run.workflow.hops
  marked : ∀ id, (run.workflow.hops.get? id).bind HopState.escalated = some true ↔
    marked run.trace id = true

theorem Marks.step {move : EscalationMove} (hwf : WellFormed definition)
    (hmarks : Marks definition run) (hstep : escalationStep definition run move = some next) :
    Marks definition next := by
  cases move with
  | dispatch hopId spawn timestamp =>
      unfold escalationStep at hstep
      dsimp only at hstep
      split at hstep
      · rename_i hop sessionId hfind
        obtain ⟨hhop, rfl⟩ := mem_of_findHop hfind
        obtain rfl := Option.some.inj hstep
        refine ⟨hmarks.tracks.set (List.mem_map_of_mem hhop) _, fun id => ?_⟩
        rw [escalated_markDispatched]
        exact hmarks.marked id
      · exact Option.some.inj hstep ▸ hmarks
  | timeout hopId spawn timestamp =>
      unfold escalationStep at hstep
      dsimp only at hstep
      split at hstep
      · exact Option.some.inj hstep ▸ hmarks
      · rename_i hopState role hescalates
        obtain ⟨hget, -, -⟩ := escalatable_eq_some hescalates
        obtain rfl := Option.some.inj hstep
        have hhop : hopId ∈ definition.hops.map Hop.id := by
          apply (hmarks.tracks hopId).mp
          rw [hget, Option.isSome_some]
        have hsession : ∀ id, Aof.marked (escalationSession hopId role spawn ++
            .escalated hopId :: run.trace) id =
              (decide (hopId = id) || Aof.marked run.trace id) := by
          intro id
          unfold escalationSession
          split <;> rfl
        refine ⟨hmarks.tracks.set hhop _, fun id => ?_⟩
        rw [escalated_escalateHop, hsession]
        by_cases heq : hopId = id
        · simp [heq]
        · simpa [heq] using hmarks.marked id
  | exit hopId timestamp =>
      unfold escalationStep at hstep
      dsimp only at hstep
      split at hstep
      · rename_i hdispatched
        obtain ⟨hopState, hget, -⟩ := statusOf_eq_some_iff.mp hdispatched
        obtain rfl := Option.some.inj hstep
        have hhop : hopId ∈ definition.hops.map Hop.id := by
          apply (hmarks.tracks hopId).mp
          rw [hget, Option.isSome_some]
        refine ⟨hmarks.tracks.set hhop _, fun id => ?_⟩
        rw [escalated_enforceFailure]
        exact hmarks.marked id
      · exact Option.some.inj hstep ▸ hmarks
  | evaluate event task timestamp =>
      obtain ⟨state, hstate, rfl⟩ := Option.map_eq_some_iff.mp hstep
      have hmove := workflowMove_of_step hwf hmarks.tracks hstate
      refine ⟨hmove.tracks hmarks.tracks, fun id => ?_⟩
      rw [escalated_evaluate hwf hmarks.tracks hstate, marked_resets]
      by_cases hreset : id ∈ resetBy definition run.workflow event
      · simp [hreset]
      · simpa [hreset] using hmarks.marked id

theorem Marks.sticks_step {move : EscalationMove} (hmarks : Marks definition run)
    (hstep : escalationStep definition run move = some next) : Sticks definition next.trace ↔
      Sticks definition run.trace ∧ Undiverted definition run move := by
  cases move with
  | dispatch hopId spawn timestamp =>
      unfold escalationStep at hstep
      dsimp only at hstep
      cases spawn with
      | failure error =>
          have hsame : run = next := by
            cases hfind : definition.findHop hopId <;> simpa [hfind] using hstep
          have hfree : Undiverted definition run (.dispatch hopId (.failure error) timestamp) :=
            trivial
          rw [← hsame, and_iff_left hfree]
      | success sessionId =>
          cases hfind : definition.findHop hopId with
          | none =>
              rw [hfind] at hstep
              obtain rfl := Option.some.inj hstep
              have hfree : Undiverted definition run
                  (.dispatch hopId (.success sessionId) timestamp) := by
                intro hop hhop
                rw [hfind] at hhop
                cases hhop
              rw [and_iff_left hfree]
          | some hop =>
              rw [hfind] at hstep
              obtain rfl := Option.some.inj hstep
              obtain ⟨-, rfl⟩ := mem_of_findHop hfind
              rw [Sticks, hfind, ← hmarks.marked hop.id, Option.bind_some, and_comm]
              apply and_congr_right
              intro _
              constructor
              · intro hrole other hother hescalated
                rw [hfind] at hother
                exact Option.some.inj hother ▸ hrole hescalated
              · intro hfree hescalated
                exact hfree hop hfind hescalated
  | timeout hopId spawn timestamp =>
      have hfree : Undiverted definition run (.timeout hopId spawn timestamp) := trivial
      rw [and_iff_left hfree]
      unfold escalationStep at hstep
      dsimp only at hstep
      split at hstep
      · rw [← Option.some.inj hstep]
      · rename_i hopState role hescalates
        obtain ⟨hget, hopen, hrole⟩ := escalatable_eq_some hescalates
        obtain rfl := Option.some.inj hstep
        have hunmarked : Aof.marked run.trace hopId = false := by
          rw [← Bool.not_eq_true, ← hmarks.marked hopId, hget, Option.bind_some]
          exact hopen
        cases spawn with
        | none => simp [escalationSession, Sticks, hunmarked]
        | some answer =>
            cases answer with
            | success sessionId => simp [escalationSession, Sticks, hunmarked, hrole]
            | failure error => simp [escalationSession, Sticks, hunmarked]
  | exit hopId timestamp =>
      have hfree : Undiverted definition run (.exit hopId timestamp) := trivial
      rw [and_iff_left hfree]
      unfold escalationStep at hstep
      dsimp only at hstep
      split at hstep
      · rw [← Option.some.inj hstep]
      · rw [← Option.some.inj hstep]
  | evaluate event task timestamp =>
      have hfree : Undiverted definition run (.evaluate event task timestamp) := trivial
      obtain ⟨state, hstate, rfl⟩ := Option.map_eq_some_iff.mp hstep
      rw [and_iff_left hfree, sticks_resets]

end Steps

section Runs

variable {definition : WorkflowDefinition} {moves : List EscalationMove} {run : EscalationRun}

theorem marks_start (hwf : WellFormed definition) :
    Marks definition (startEscalationRun definition) := by
  refine ⟨tracks_initializeWorkflowState hwf, fun id => ?_⟩
  have hfresh : ((startEscalationRun definition).workflow.hops.get? id).bind HopState.escalated =
      none := by
    change ((initializeWorkflowState definition).hops.get? id).bind HopState.escalated = none
    rw [initializeWorkflowState_get? hwf]
    cases definition.findHop id <;> rfl
  rw [hfresh]
  exact iff_of_false nofun Bool.false_ne_true

/-- Escalation sticks in exactly the runs that divert no hop. -/
theorem escalation_sticks_iff (haccepted : validateDAG definition = [])
    (hrun : StepSystem.FreeRun (escalationStep definition) (startEscalationRun definition) moves
      run) : Sticks definition run.trace ↔ StepSystem.Run (escalationStep definition)
      (Undiverted definition) (startEscalationRun definition) moves run := by
  have hwf := WellFormed.of_validateDAG haccepted
  induction hrun with
  | refl => exact iff_of_true trivial (.refl _)
  | @snoc before after labels move hbefore _ hlast ih =>
      have hmarks : Marks definition before := by
        apply hbefore.invariant (Marks definition)
        · intro s l t hs _ hstep
          exact hs.step hwf hstep
        · exact marks_start hwf
      rw [hmarks.sticks_step hlast]
      constructor
      · intro hboth
        exact .snoc (ih.mp hboth.1) hboth.2 hlast
      · intro hwhole
        obtain ⟨reached, hfirst, hguard, -⟩ := hwhole.unsnoc
        -- the step function is deterministic, so the run came to the same state
        have hsame : reached = before := by
          have hexec := hfirst.exec_eq
          rw [hbefore.exec_eq] at hexec
          exact (Option.some.inj hexec).symm
        rw [hsame] at hfirst hguard
        exact ⟨ih.mpr hfirst, hguard⟩

def passedOn : WorkflowDefinition :=
  ⟨"passed-on", [{ id := "build", role := "swe", timeout := some "1h", escalateTo := some "lead" }]⟩

def timesOut (spawn : SpawnResult) : List EscalationMove :=
  [.dispatch "build" (.success "s1") "t1", .timeout "build" (some spawn) "t2"]

theorem passedOn_sticks : ∃ run,
    StepSystem.FreeRun (escalationStep passedOn) (startEscalationRun passedOn)
      (timesOut (.success "s2")) run ∧
    (Sticks passedOn run.trace ↔ StepSystem.Run (escalationStep passedOn) (Undiverted passedOn)
      (startEscalationRun passedOn) (timesOut (.success "s2")) run) := by
  obtain ⟨run, hexec⟩ : ∃ run, StepSystem.exec (escalationStep passedOn)
      (startEscalationRun passedOn) (timesOut (.success "s2")) = some run := ⟨_, rfl⟩
  have hrun := StepSystem.freeRun_iff_exec.mpr hexec
  exact ⟨run, hrun, escalation_sticks_iff (by decide +kernel) hrun⟩

/-- After a failed escalation the hop goes back to the role that timed out. -/
theorem passedOn_diverted : ¬∀ (definition : WorkflowDefinition) (moves : List EscalationMove)
    (run : EscalationRun), validateDAG definition = [] →
    StepSystem.FreeRun (escalationStep definition) (startEscalationRun definition) moves run →
    Sticks definition run.trace := by
  intro hall
  obtain ⟨run, hexec, htrace⟩ : ∃ run, StepSystem.exec (escalationStep passedOn)
      (startEscalationRun passedOn)
      (timesOut (.failure "no lead") ++ [.dispatch "build" (.success "s3") "t3"]) = some run ∧
      run.trace = [.spawned "build" "swe", .escalated "build", .spawned "build" "swe"] :=
    ⟨_, rfl, by decide +kernel⟩
  have hsticks := hall passedOn _ run (by decide +kernel) (StepSystem.freeRun_iff_exec.mpr hexec)
  rw [htrace] at hsticks
  exact absurd (hsticks.1 rfl) (by decide +kernel)

end Runs

end Aof
