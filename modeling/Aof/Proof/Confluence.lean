import Aof.Proof.Deadlock

/-!
# Schedule independence

Without conditions, and with a fixed outcome for every hop, the end of a workflow does not depend
on the order in which the hops are dispatched and finish.
-/

namespace Aof

/-- What a hop will report whenever it runs. -/
structure HopScript where
  outcome : HopOutcome
  result : Option JsObject
  decided : outcome = .complete ∨ outcome = .failed

def Follows (script : String → HopScript) (_ : WorkflowState) : WorkflowStep → Prop
  | .dispatch .. => True
  | .evaluate event _ _ =>
      event.outcome = (script event.hopId).outcome ∧ event.result = (script event.hopId).result

def Quiescent (definition : WorkflowDefinition) (state : WorkflowState) : Prop :=
  ∀ hop ∈ definition.hops, statusOf state.hops hop.id ≠ some .ready ∧
    statusOf state.hops hop.id ≠ some .dispatched

/-- How the status of a hop is tied to those of its predecessors. -/
def Explained (script : String → HopScript) (statuses : Statuses) (hop : Hop) : Prop :=
  match statuses hop.id with
  | none => False
  | some .pending =>
      hop.dependsOn ≠ [] ∧ ¬Blocked hop statuses ∧ ¬JoinSatisfied hop statuses
  | some .skipped => hop.dependsOn ≠ [] ∧ Blocked hop statuses
  | some status =>
      (hop.dependsOn = [] ∨ JoinSatisfied hop statuses ∧ ¬Blocked hop statuses) ∧
        (IsTerminal (some status) → status = (script hop.id).outcome.toStatus)

structure Scripted (definition : WorkflowDefinition) (script : String → HopScript)
    (state : WorkflowState) : Prop where
  tracks : Tracks definition state.hops
  explained : ∀ hop ∈ definition.hops, Explained script (statusOf state.hops) hop
  results : ∀ hop ∈ definition.hops, resultOf state.hops hop.id =
    if statusOf state.hops hop.id = some .complete ∨ statusOf state.hops hop.id = some .failed then
      (script hop.id).result
    else none
  verdict : state.status = (checkDAGCompletion state.hops).getD .pending

section Hop

variable {script : String → HopScript} {statuses before after : Statuses} {hop : Hop}

theorem explained_iff_of_pending (hstatus : statuses hop.id = some .pending) :
    Explained script statuses hop ↔
      hop.dependsOn ≠ [] ∧ ¬Blocked hop statuses ∧ ¬JoinSatisfied hop statuses := by
  unfold Explained
  rw [hstatus]

theorem explained_iff_of_skipped (hstatus : statuses hop.id = some .skipped) :
    Explained script statuses hop ↔ hop.dependsOn ≠ [] ∧ Blocked hop statuses := by
  unfold Explained
  rw [hstatus]

theorem explained_iff_of_started {status : HopStatus} (hstatus : statuses hop.id = some status)
    (hactive : status ≠ .pending ∧ status ≠ .skipped) : Explained script statuses hop ↔
      (hop.dependsOn = [] ∨ JoinSatisfied hop statuses ∧ ¬Blocked hop statuses) ∧
        (IsTerminal (some status) → status = (script hop.id).outcome.toStatus) := by
  unfold Explained
  rw [hstatus]
  cases status <;> simp_all

theorem exists_complete_of_join (hjoin : JoinSatisfied hop statuses)
    (hnot : ¬Blocked hop statuses) : ∃ dep ∈ hop.dependsOn, statuses dep = some .complete := by
  unfold JoinSatisfied at hjoin
  split at hjoin
  · exact hjoin
  · by_contra hnone
    simp only [not_exists, not_and] at hnone
    refine hnot fun dep hdep => ?_
    rcases hjoin dep hdep with h | h
    · exact absurd h (hnone dep hdep)
    · exact .inl h

theorem exists_terminal_of_join (hdeps : hop.dependsOn ≠ []) (hjoin : JoinSatisfied hop statuses) :
    ∃ dep ∈ hop.dependsOn, IsTerminal (statuses dep) := by
  unfold JoinSatisfied at hjoin
  split at hjoin
  · obtain ⟨dep, hdep, hcomplete⟩ := hjoin
    exact ⟨dep, hdep, .inl hcomplete⟩
  · obtain ⟨dep, hdep⟩ := List.exists_mem_of_ne_nil _ hdeps
    exact ⟨dep, hdep, (hjoin dep hdep).imp_right .inl⟩

theorem not_blocked_of_complete {dep : String} (hdep : dep ∈ hop.dependsOn)
    (hcomplete : statuses dep = some .complete) : ¬Blocked hop statuses := by
  intro hblocked
  rcases hblocked dep hdep with h | h <;> rw [hcomplete] at h <;> cases h

theorem started_mono (hkeeps : KeepsTerminal before after)
    (hstarted : hop.dependsOn = [] ∨ JoinSatisfied hop before ∧ ¬Blocked hop before) :
    hop.dependsOn = [] ∨ JoinSatisfied hop after ∧ ¬Blocked hop after := by
  by_cases hdeps : hop.dependsOn = []
  · exact .inl hdeps
  · obtain ⟨hjoin, hnot⟩ := hstarted.resolve_left hdeps
    obtain ⟨dep, hdep, hcomplete⟩ := exists_complete_of_join hjoin hnot
    refine .inr ⟨hkeeps.joinSatisfied hjoin, not_blocked_of_complete hdep ?_⟩
    rw [hkeeps dep (.inl hcomplete), hcomplete]

theorem Explained.congr (hexplained : Explained script before hop)
    (hkeeps : KeepsTerminal before after) (hreflects : KeepsTerminal after before)
    (hsame : after hop.id = before hop.id) : Explained script after hop := by
  cases hstatus : before hop.id with
  | none => simp [Explained, hstatus] at hexplained
  | some status =>
      have hafter : after hop.id = some status := hsame.trans hstatus
      by_cases hpending : status = .pending
      · subst hpending
        obtain ⟨hdeps, hblocked, hjoin⟩ := (explained_iff_of_pending hstatus).1 hexplained
        exact (explained_iff_of_pending hafter).2
          ⟨hdeps, fun h => hblocked (hreflects.blocked h), fun h => hjoin (hreflects.joinSatisfied h)⟩
      · by_cases hskipped : status = .skipped
        · subst hskipped
          obtain ⟨hdeps, hblocked⟩ := (explained_iff_of_skipped hstatus).1 hexplained
          exact (explained_iff_of_skipped hafter).2 ⟨hdeps, hkeeps.blocked hblocked⟩
        · obtain ⟨hstarted, hscript⟩ :=
            (explained_iff_of_started hstatus ⟨hpending, hskipped⟩).1 hexplained
          exact (explained_iff_of_started hafter ⟨hpending, hskipped⟩).2
            ⟨started_mono hkeeps hstarted, hscript⟩

theorem explained_cases (hexplained : Explained script statuses hop)
    (hquiet : statuses hop.id ≠ some .ready ∧ statuses hop.id ≠ some .dispatched) :
    (statuses hop.id = some .pending ∧
        hop.dependsOn ≠ [] ∧ ¬Blocked hop statuses ∧ ¬JoinSatisfied hop statuses) ∨
      (statuses hop.id = some .skipped ∧ hop.dependsOn ≠ [] ∧ Blocked hop statuses) ∨
      (statuses hop.id = some (script hop.id).outcome.toStatus ∧
        (hop.dependsOn = [] ∨ JoinSatisfied hop statuses ∧ ¬Blocked hop statuses)) := by
  cases hstatus : statuses hop.id with
  | none => simp [Explained, hstatus] at hexplained
  | some status =>
      by_cases hpending : status = .pending
      · subst hpending
        exact .inl ⟨rfl, (explained_iff_of_pending hstatus).1 hexplained⟩
      · by_cases hskipped : status = .skipped
        · subst hskipped
          exact .inr (.inl ⟨rfl, (explained_iff_of_skipped hstatus).1 hexplained⟩)
        · obtain ⟨hstarted, hover⟩ :=
            (explained_iff_of_started hstatus ⟨hpending, hskipped⟩).1 hexplained
          refine .inr (.inr ⟨?_, hstarted⟩)
          rw [hstatus] at hquiet
          rw [← hover]
          cases status <;> simp_all [IsTerminal, IsNonSuccess]

theorem explained_unique {statuses' : Statuses}
    (hdeps : ∀ dep ∈ hop.dependsOn, statuses dep = statuses' dep)
    (hexplained : Explained script statuses hop) (hexplained' : Explained script statuses' hop)
    (hquiet : statuses hop.id ≠ some .ready ∧ statuses hop.id ≠ some .dispatched)
    (hquiet' : statuses' hop.id ≠ some .ready ∧ statuses' hop.id ≠ some .dispatched) :
    statuses hop.id = statuses' hop.id := by
  have hblocked : Blocked hop statuses ↔ Blocked hop statuses' :=
    forall₂_congr fun dep hdep => by rw [hdeps dep hdep]
  have hjoin : JoinSatisfied hop statuses ↔ JoinSatisfied hop statuses' := by
    unfold JoinSatisfied
    split
    · exact exists_congr fun dep => and_congr_right fun hdep => by rw [hdeps dep hdep]
    · exact forall₂_congr fun dep hdep => by rw [hdeps dep hdep]
  rcases explained_cases hexplained hquiet with
    ⟨hstatus, hpart⟩ | ⟨hstatus, hpart⟩ | ⟨hstatus, hpart⟩ <;>
  rcases explained_cases hexplained' hquiet' with
    ⟨hstatus', hpart'⟩ | ⟨hstatus', hpart'⟩ | ⟨hstatus', hpart'⟩ <;>
  first
    | exact hstatus.trans hstatus'.symm
    | (simp only [hblocked, hjoin] at hpart; tauto)

end Hop

section Step

variable {definition : WorkflowDefinition} {script : String → HopScript} {statuses : Statuses}
variable {hopId : String} {status : HopStatus}

theorem blocked_of_fallsOn {hop : Hop} (hwf : WellFormed definition) (hhop : hop ∈ definition.hops)
    (hfalls : FallsOn definition statuses hopId status hop.id) :
    hop.dependsOn ≠ [] ∧ Blocked hop (afterEvent definition statuses hopId status) := by
  obtain ⟨hfailure, hfall⟩ := hfalls
  generalize hid : hop.id = id at hfall
  cases hfall with
  | @intro other dep hother hpending hdep hthrough hall =>
      obtain rfl := hwf.eq_of_id_eq hhop hother hid
      refine ⟨List.ne_nil_of_mem hdep, fun pred hpred => ?_⟩
      by_cases hnon : IsNonSuccess (recordStatus statuses hopId status pred)
      · have hterminal : IsTerminal (recordStatus statuses hopId status pred) := .inr hnon
        rwa [onlySkips_afterEvent.terminal hterminal]
      · rw [afterEvent_of_falls ⟨hfailure, hall pred hpred hnon⟩]
        exact .inl rfl

theorem not_blocked_of_pending {hop : Hop} (hhop : hop ∈ definition.hops)
    (hbefore : statuses hop.id = some .pending → ¬Blocked hop statuses)
    (hterminal : IsTerminal (some status))
    (hpending : afterEvent definition statuses hopId status hop.id = some .pending) :
    ¬Blocked hop (afterEvent definition statuses hopId status) := by
  intro hblocked
  have hrecorded := onlySkips_afterEvent.pending hpending
  have hne : hop.id ≠ hopId := by
    intro heq
    rw [heq, recordStatus_self, Option.some.injEq] at hrecorded
    simp [hrecorded, IsTerminal] at hterminal
  have hstatus : statuses hop.id = some .pending := by
    rwa [recordStatus_of_ne hne] at hrecorded
  obtain ⟨dep, hdep, hfresh⟩ : ∃ dep ∈ hop.dependsOn, ¬IsNonSuccess (statuses dep) := by
    simpa only [Blocked, not_forall, exists_prop] using hbefore hstatus
  -- The predecessor that is out now was taken out by the event or by the fall it caused.
  have hout : ∀ pred ∈ hop.dependsOn,
      ¬IsNonSuccess (recordStatus statuses hopId status pred) →
      FallsOn definition statuses hopId status pred := by
    intro pred hpred hnon
    by_contra hnot
    have hafter := hblocked pred hpred
    rw [afterEvent_of_not_falls hnot] at hafter
    exact hnon hafter
  have hfailure : status ≠ .complete := by
    rintro rfl
    have hnon := hblocked dep hdep
    rw [afterEvent, if_pos rfl] at hnon
    by_cases heq : dep = hopId
    · rw [heq, recordStatus_self] at hnon
      simp [IsNonSuccess] at hnon
    · rw [recordStatus_of_ne heq] at hnon
      exact hfresh hnon
  have hfalls : Falls definition (recordStatus statuses hopId status) hopId hop.id := by
    refine .intro hhop hrecorded hdep (fun hdepne => ?_) fun pred hpred hnon =>
      (hout pred hpred hnon).2
    refine (hout dep hdep ?_).2
    rwa [recordStatus_of_ne hdepne]
  rw [afterEvent_of_falls ⟨hfailure, hfalls⟩] at hpending
  cases hpending

theorem explained_advance (hwf : WellFormed definition)
    (hopen : statuses hopId = some .dispatched) (hterminal : IsTerminal (some status))
    (hscript : status = (script hopId).outcome.toStatus)
    (hall : ∀ hop ∈ definition.hops, Explained script statuses hop) : ∀ hop ∈ definition.hops,
      Explained script (openJoins definition (afterEvent definition statuses hopId status)) hop := by
  intro hop hhop
  have hnotOver : ¬IsTerminal (statuses hopId) := by simp [hopen, IsTerminal]
  have hkeeps : KeepsTerminal statuses (afterEvent definition statuses hopId status) :=
    (recordStatus_keepsTerminal hnotOver).trans onlySkips_afterEvent.keepsTerminal
  have hopens := openJoins_keepsTerminal definition (afterEvent definition statuses hopId status)
  have hreflects := hopens.reflects fun id => (openJoins_terminal_iff id).1
  have hnotBlocked : afterEvent definition statuses hopId status hop.id = some .pending →
      ¬Blocked hop (afterEvent definition statuses hopId status) :=
    not_blocked_of_pending hhop
      (fun hpending => ((explained_iff_of_pending hpending).1 (hall hop hhop)).2.1) hterminal
  rcases openJoins_cases definition (afterEvent definition statuses hopId status) hop.id with
    ⟨hsame, hclosed⟩ | ⟨hpending, hready, other, hother, hid, hopensHop⟩
  · refine Explained.congr ?_ hopens hreflects hsame
    by_cases heq : hop.id = hopId
    · have hdone : afterEvent definition statuses hopId status hop.id = some status := by
        rw [heq, onlySkips_afterEvent.terminal (by rw [recordStatus_self]; exact hterminal),
          recordStatus_self]
      have hactive : status ≠ .pending ∧ status ≠ .skipped := by
        rcases (script hopId).decided with h | h <;> rw [hscript, h] <;> simp [HopOutcome.toStatus]
      have hstarted := ((explained_iff_of_started (heq ▸ hopen) (by simp)).1 (hall hop hhop)).1
      exact (explained_iff_of_started hdone hactive).2
        ⟨started_mono hkeeps hstarted, fun _ => heq ▸ hscript⟩
    · by_cases hfalls : FallsOn definition statuses hopId status hop.id
      · exact (explained_iff_of_skipped (afterEvent_of_falls hfalls)).2
          (blocked_of_fallsOn hwf hhop hfalls)
      · have hkept : afterEvent definition statuses hopId status hop.id = statuses hop.id := by
          rw [afterEvent_of_not_falls hfalls, recordStatus_of_ne heq]
        have hexplained := hall hop hhop
        cases hstatus : statuses hop.id with
        | none => simp [Explained, hstatus] at hexplained
        | some old =>
            have hnow := hkept.trans hstatus
            by_cases hpending : old = .pending
            · subst hpending
              have hdeps := ((explained_iff_of_pending hstatus).1 hexplained).1
              refine (explained_iff_of_pending hnow).2 ⟨hdeps, hnotBlocked hnow, fun hjoin => ?_⟩
              exact hclosed ⟨hop, hhop, rfl, hnow, by simpa [Hop.isRoot] using hdeps, hjoin⟩
            · by_cases hskipped : old = .skipped
              · subst hskipped
                obtain ⟨hdeps, hblocked⟩ := (explained_iff_of_skipped hstatus).1 hexplained
                exact (explained_iff_of_skipped hnow).2 ⟨hdeps, hkeeps.blocked hblocked⟩
              · obtain ⟨hstarted, hover⟩ :=
                  (explained_iff_of_started hstatus ⟨hpending, hskipped⟩).1 hexplained
                exact (explained_iff_of_started hnow ⟨hpending, hskipped⟩).2
                  ⟨started_mono hkeeps hstarted, hover⟩
  · obtain rfl := hwf.eq_of_id_eq hother hhop hid
    refine (explained_iff_of_started hready (by simp)).2 ⟨.inr ⟨?_, fun hblocked => ?_⟩, ?_⟩
    · exact hopens.joinSatisfied hopensHop.2.2
    · exact hnotBlocked hpending (hreflects.blocked hblocked)
    · simp [IsTerminal]

theorem started_advance_iff {id : String} (hne : id ≠ hopId) :
    (openJoins definition (afterEvent definition statuses hopId status) id = some .complete ∨
      openJoins definition (afterEvent definition statuses hopId status) id = some .failed) ↔
    (statuses id = some .complete ∨ statuses id = some .failed) := by
  have hafter : OnlySkips (recordStatus statuses hopId status)
      (afterEvent definition statuses hopId status) := onlySkips_afterEvent
  have hrecorded : recordStatus statuses hopId status id = statuses id := recordStatus_of_ne hne
  rcases openJoins_cases definition (afterEvent definition statuses hopId status) id with
    ⟨hsame, -⟩ | ⟨hpending, hready, -⟩
  · rw [hsame, hafter.complete_iff, hafter.failed_iff, hrecorded]
  · have hbefore := hafter.pending hpending
    rw [hrecorded] at hbefore
    simp [hready, hbefore]

end Step

section Runs

variable {definition : WorkflowDefinition} {script : String → HopScript}
variable {state next : WorkflowState}

variable {hop : Hop} {other : WorkflowState}

theorem freshStatus_not_over (hwf : WellFormed definition) (hhop : hop ∈ definition.hops)
    {dep : String} (hdep : dep ∈ hop.dependsOn) :
    ¬IsTerminal (statusOf (initializeWorkflowState definition).hops dep) := by
  obtain ⟨pred, hpred, rfl⟩ := hwf.exists_hop_of_dep hhop hdep
  rw [statusOf_initializeWorkflowState hwf hpred]
  exact not_terminal_freshStatus pred

theorem scripted_initializeWorkflowState (hwf : WellFormed definition) :
    Scripted definition script (initializeWorkflowState definition) := by
  have hfresh : ∀ hop ∈ definition.hops,
      statusOf (initializeWorkflowState definition).hops hop.id = some (freshStatus hop) :=
    fun hop hhop => statusOf_initializeWorkflowState hwf hhop
  have htracks := tracks_initializeWorkflowState hwf
  refine ⟨htracks, fun hop hhop => ?_, fun hop hhop => ?_, ?_⟩
  · rcases freshStatus_cases hop with ⟨hroot, hready⟩ | ⟨hdeps, hpending⟩
    · refine (explained_iff_of_started ((hfresh hop hhop).trans (congrArg some hready))
        (by simp)).2 ⟨.inl hroot, ?_⟩
      simp [IsTerminal]
    · refine (explained_iff_of_pending ((hfresh hop hhop).trans (congrArg some hpending))).2
        ⟨hdeps, fun hblocked => ?_, fun hjoin => ?_⟩
      · obtain ⟨dep, hdep⟩ := List.exists_mem_of_ne_nil _ hdeps
        exact freshStatus_not_over hwf hhop hdep (.inr (hblocked dep hdep))
      · obtain ⟨dep, hdep, hover⟩ := exists_terminal_of_join hdeps hjoin
        exact freshStatus_not_over hwf hhop hdep hover
  · have hnot := not_terminal_freshStatus hop
    rw [hfresh hop hhop, if_neg, resultOf, initializeWorkflowState_get? hwf,
      hwf.findHop hhop]
    · rfl
    · rintro (h | h) <;> simp [h, IsTerminal] at hnot
  · obtain ⟨root, hroot, -⟩ := hwf.root
    have hnone : checkDAGCompletion (initializeWorkflowState definition).hops = none := by
      refine htracks.checkDAGCompletion_eq.2 fun hall => not_terminal_freshStatus root ?_
      rw [← hfresh root hroot]
      exact hall root hroot
    rw [hnone]
    rfl

theorem Scripted.dispatch (hscripted : Scripted definition script state)
    {sessionId timestamp : String} (hhop : hop ∈ definition.hops)
    (hready : statusOf state.hops hop.id = some .ready)
    (htracks : Tracks definition (markDispatched hop state sessionId timestamp).hops)
    (hwf : WellFormed definition) :
    Scripted definition script (markDispatched hop state sessionId timestamp) := by
  have hstatuses := statusOf_markDispatched hop state sessionId timestamp
  have hkeeps : KeepsTerminal (statusOf state.hops)
      (statusOf (markDispatched hop state sessionId timestamp).hops) := by
    rw [hstatuses]
    exact recordStatus_keepsTerminal (by simp [hready, IsTerminal])
  have hreflects := hkeeps.reflects fun id hover => by
    by_cases heq : id = hop.id
    · rw [hstatuses, heq, recordStatus_self] at hover
      simp [IsTerminal] at hover
    · rwa [hstatuses, recordStatus_of_ne heq] at hover
  refine ⟨htracks, fun other hother => ?_, fun other hother => ?_, ?_⟩
  · by_cases heq : other.id = hop.id
    · obtain rfl := hwf.eq_of_id_eq hother hhop heq
      have hstarted :=
        ((explained_iff_of_started hready (by simp)).1 (hscripted.explained other hother)).1
      refine (explained_iff_of_started (by rw [hstatuses, recordStatus_self]) (by simp)).2
        ⟨started_mono hkeeps hstarted, ?_⟩
      simp [IsTerminal]
    · refine (hscripted.explained other hother).congr hkeeps hreflects ?_
      rw [hstatuses, recordStatus_of_ne heq]
  · by_cases heq : other.id = hop.id
    · have hresult := hscripted.results hop hhop
      obtain ⟨hopState, hget, -⟩ := statusOf_eq_some_iff.1 hready
      rw [hready, if_neg (by simp), resultOf, hget, Option.bind_some] at hresult
      rw [heq, hstatuses, recordStatus_self, if_neg (by simp), resultOf, markDispatched,
        Dict.get?_set_self, hget]
      exact hresult
    · rw [hstatuses, recordStatus_of_ne heq, ← hscripted.results other hother, resultOf, resultOf,
        markDispatched, Dict.get?_set_of_ne _ _ (Ne.symm heq)]
  · rw [htracks.no_verdict hhop (by rw [hstatuses, recordStatus_self]; simp [IsTerminal])]
    have hverdict := hscripted.verdict
    rwa [hscripted.tracks.no_verdict hhop (by simp [hready, IsTerminal])] at hverdict

theorem Scripted.advance (hscripted : Scripted definition script state)
    (hwf : WellFormed definition) (hconditions : ∀ hop ∈ definition.hops, hop.condition = none)
    {event : HopEvent} {holds : ConditionReader} (hhop : hop ∈ definition.hops)
    (hdispatched : statusOf state.hops hop.id = some .dispatched)
    (houtcome : event.outcome = (script hop.id).outcome)
    (hresult : event.result = (script hop.id).result) (htracks : Tracks definition next.hops)
    (hstatuses : statusOf next.hops = Aof.advance holds definition (statusOf state.hops) hop.id
      event.outcome.toStatus) (hresults : ∀ id, (next.hops.get? id).map HopState.result = if id =
      hop.id then some event.result else (state.hops.get? id).map HopState.result)
    (hstatus : next.status = (checkDAGCompletion next.hops).getD state.status) :
    Scripted definition script next := by
  have hdone : IsTerminal (some event.outcome.toStatus) ∧
      (event.outcome.toStatus = .complete ∨ event.outcome.toStatus = .failed) := by
    rw [houtcome]
    rcases (script hop.id).decided with h | h <;>
      simp [h, HopOutcome.toStatus, IsTerminal]
  have hadvance : statusOf next.hops = openJoins definition
      (afterEvent definition (statusOf state.hops) hop.id event.outcome.toStatus) := by
    rw [hstatuses, Aof.advance, settle, declinePass_of_unconditional hconditions]
  have hresultOf : ∀ id, resultOf next.hops id =
      if id = hop.id then event.result else resultOf state.hops id := by
    intro id
    rw [resultOf_eq_join, resultOf_eq_join, hresults]
    split <;> rfl
  refine ⟨htracks, ?_, fun other hother => ?_, ?_⟩
  · rw [hadvance]
    exact explained_advance hwf hdispatched hdone.1 (by rw [houtcome]) hscripted.explained
  · rw [hresultOf]
    by_cases heq : other.id = hop.id
    · have hstatus : statusOf next.hops other.id = some event.outcome.toStatus := by
        have hself : recordStatus (statusOf state.hops) hop.id event.outcome.toStatus hop.id =
            some event.outcome.toStatus := recordStatus_self
        have hover := hself ▸ hdone.1
        rw [hadvance, heq, openJoins_keepsTerminal, onlySkips_afterEvent.terminal hover, hself]
        rwa [onlySkips_afterEvent.terminal hover]
      rw [if_pos heq, if_pos (by rw [hstatus]; simpa using hdone.2), hresult, heq]
    · rw [if_neg heq, hscripted.results other hother, hadvance]
      exact if_congr (started_advance_iff heq).symm rfl rfl
  · have hverdict := hscripted.verdict
    rw [hscripted.tracks.no_verdict hhop (by simp [hdispatched, IsTerminal])] at hverdict
    rw [hstatus, hverdict]
    rfl

theorem scripted_of_step (hwf : WellFormed definition)
    (hconditions : ∀ hop ∈ definition.hops, hop.condition = none) {step : WorkflowStep}
    (hscripted : Scripted definition script state) (hfollows : Follows script state step)
    (hstep : workflowStep definition state step = some next) : Scripted definition script next := by
  have hmove := workflowMove_of_step hwf hscripted.tracks hstep
  have htracks := hmove.tracks hscripted.tracks
  have hdecided : ∀ {event : HopEvent}, event.outcome = (script event.hopId).outcome →
      event.outcome ≠ .rejected := by
    intro event houtcome
    rcases (script event.hopId).decided with h | h <;> simp [houtcome, h]
  cases hmove with
  | dispatch hhop hready => exact hscripted.dispatch hhop hready htracks hwf
  | advance hhop hid hdispatched _ _ hstatuses hresults _ hstatus =>
      obtain ⟨houtcome, hresult⟩ := hfollows
      rw [← hid] at houtcome hresult
      exact hscripted.advance hwf hconditions hhop hdispatched houtcome hresult htracks hstatuses
        hresults hstatus
  | trip _ _ _ hrejected => exact absurd hrejected (hdecided hfollows.1)
  | restart _ _ _ hrejected => exact absurd hrejected (hdecided hfollows.1)
  | restartPredecessors _ _ _ hrejected => exact absurd hrejected (hdecided hfollows.1)

variable (hwf : WellFormed definition) (hscripted : Scripted definition script state)
  (hscripted' : Scripted definition script other) (hquiet : Quiescent definition state)
  (hquiet' : Quiescent definition other)
include hwf hscripted hscripted' hquiet hquiet'

theorem Scripted.status_unique :
    ∀ hop ∈ definition.hops, statusOf state.hops hop.id = statusOf other.hops hop.id := by
  refine hwf.induction fun hop hhop ih => ?_
  have hdeps : ∀ dep ∈ hop.dependsOn, statusOf state.hops dep = statusOf other.hops dep := by
    intro dep hdep
    obtain ⟨pred, hpred, rfl⟩ := hwf.exists_hop_of_dep hhop hdep
    exact ih pred hpred hdep
  exact explained_unique hdeps (hscripted.explained hop hhop) (hscripted'.explained hop hhop)
    (hquiet hop hhop) (hquiet' hop hhop)

theorem Scripted.agree :
    (∀ hop ∈ definition.hops, statusOf state.hops hop.id = statusOf other.hops hop.id ∧
      resultOf state.hops hop.id = resultOf other.hops hop.id) ∧ state.status = other.status := by
  have hstatuses := hscripted.status_unique hwf hscripted' hquiet hquiet'
  refine ⟨fun hop hhop => ⟨hstatuses hop hhop, ?_⟩, ?_⟩
  · rw [hscripted.results hop hhop, hscripted'.results hop hhop, hstatuses hop hhop]
  · rw [hscripted.verdict, hscripted'.verdict,
      checkDAGCompletion_congr (hscripted.tracks.statusOf_ext hscripted'.tracks hstatuses)]

end Runs

/-- Without conditions, and with a fixed outcome and result for every hop, any two runs that end
with no hop ready or in flight end alike. -/
theorem schedule_independent {definition : WorkflowDefinition}
    (haccepted : validateDAG definition = [])
    (hconditions : ∀ hop ∈ definition.hops, hop.condition = none) (script : String → HopScript)
    {steps steps' : List WorkflowStep} {state state' : WorkflowState}
    (hrun : StepSystem.Run (workflowStep definition) (Follows script)
      (initializeWorkflowState definition) steps state)
    (hrun' : StepSystem.Run (workflowStep definition) (Follows script)
      (initializeWorkflowState definition) steps' state')
    (hquiet : Quiescent definition state) (hquiet' : Quiescent definition state') :
    (∀ hop ∈ definition.hops, statusOf state.hops hop.id = statusOf state'.hops hop.id ∧
      resultOf state.hops hop.id = resultOf state'.hops hop.id) ∧ state.status = state'.status := by
  have hwf := WellFormed.of_validateDAG haccepted
  have hinvariant : ∀ {steps state}, StepSystem.Run (workflowStep definition) (Follows script)
      (initializeWorkflowState definition) steps state → Scripted definition script state :=
    fun hrun => hrun.invariant (Scripted definition script)
      (fun _ _ _ hscripted hfollows hstep => scripted_of_step hwf hconditions hscripted hfollows hstep)
      (scripted_initializeWorkflowState hwf)
  exact (hinvariant hrun).agree hwf (hinvariant hrun') hquiet hquiet'

section FanIn

def failedBuild (id : String) : HopScript :=
  if id = "build" then ⟨.failed, none, .inr rfl⟩ else ⟨.complete, none, .inl rfl⟩

/-- One hop after the other, and both at once with the later one finishing first. -/
theorem fanIn_schedules_agree : ∃ state state',
    StepSystem.Run (workflowStep fanIn) (Follows failedBuild) (initializeWorkflowState fanIn)
      [.dispatch "build" "s1" "t1", .evaluate ⟨"build", .failed, none⟩ plainTask "t2",
        .dispatch "test" "s2" "t3", .evaluate ⟨"test", .complete, none⟩ plainTask "t4"] state ∧
    StepSystem.Run (workflowStep fanIn) (Follows failedBuild) (initializeWorkflowState fanIn)
      [.dispatch "build" "s1" "t1", .dispatch "test" "s2" "t1",
        .evaluate ⟨"test", .complete, none⟩ plainTask "t2",
        .evaluate ⟨"build", .failed, none⟩ plainTask "t3"] state' ∧
    (∀ hop ∈ fanIn.hops, statusOf state.hops hop.id = statusOf state'.hops hop.id ∧
      resultOf state.hops hop.id = resultOf state'.hops hop.id) ∧ state.status = state'.status := by
  have hrun : ∃ state, StepSystem.Run (workflowStep fanIn) (Follows failedBuild)
      (initializeWorkflowState fanIn)
      [.dispatch "build" "s1" "t1", .evaluate ⟨"build", .failed, none⟩ plainTask "t2",
        .dispatch "test" "s2" "t3", .evaluate ⟨"test", .complete, none⟩ plainTask "t4"] state ∧
      Quiescent fanIn state := by
    refine ⟨_, .head trivial rfl (.head ⟨rfl, rfl⟩ rfl (.head trivial rfl
      (.head ⟨rfl, rfl⟩ rfl (.refl _)))), ?_⟩
    unfold Quiescent
    decide
  have hrun' : ∃ state', StepSystem.Run (workflowStep fanIn) (Follows failedBuild)
      (initializeWorkflowState fanIn)
      [.dispatch "build" "s1" "t1", .dispatch "test" "s2" "t1",
        .evaluate ⟨"test", .complete, none⟩ plainTask "t2",
        .evaluate ⟨"build", .failed, none⟩ plainTask "t3"] state' ∧ Quiescent fanIn state' := by
    refine ⟨_, .head trivial rfl (.head trivial rfl (.head ⟨rfl, rfl⟩ rfl
      (.head ⟨rfl, rfl⟩ rfl (.refl _)))), ?_⟩
    unfold Quiescent
    decide
  obtain ⟨state, hleft, hquiet⟩ := hrun
  obtain ⟨state', hright, hquiet'⟩ := hrun'
  exact ⟨state, state', hleft, hright, schedule_independent (by decide) (by simp [fanIn])
    failedBuild hleft hright hquiet hquiet'⟩

end FanIn

end Aof
