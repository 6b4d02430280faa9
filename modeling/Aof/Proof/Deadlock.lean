import Aof.Proof.Rules

/-!
# Progress and deadlock

A run gets stuck where the last open predecessors of a pending hop settle in a mix for which its
join has no rule.  Runs whose steps avoid that always have a hop to work on, or are over.
-/

namespace Aof

/-- Over, with the verdict written, or some hop is ready or in flight. -/
abbrev Progresses (definition : WorkflowDefinition) (state : WorkflowState) : Prop :=
  (AllHopsTerminal definition (statusOf state.hops) ∧
      (state.status = .complete ∨ state.status = .failed)) ∨
    ∃ hop ∈ definition.hops, statusOf state.hops hop.id = some .ready ∨
      statusOf state.hops hop.id = some .dispatched

section Guard

variable (holds : ConditionReader) (definition : WorkflowDefinition) (statuses : Statuses)
variable (hopId : String) (status : HopStatus)

def FallsOn (id : String) : Prop :=
  status ≠ .complete ∧ Falls definition (recordStatus statuses hopId status) hopId id

/-- The hop is still pending once the outcome is recorded, and its own condition then turns it
down. -/
def DeclinedOn (id : String) : Prop :=
  afterEvent definition statuses hopId status id = some .pending ∧
    settle holds definition statuses hopId status id = some .skipped

/-- The outcome settles the last predecessors of a hop that stays pending. -/
def ClosesOn (hop : Hop) : Prop :=
  statuses hop.id = some .pending ∧ hop.id ≠ hopId ∧
    ¬FallsOn definition statuses hopId status hop.id ∧
    ¬DeclinedOn holds definition statuses hopId status hop.id ∧
    ∀ dep ∈ hop.dependsOn, IsTerminal (recordStatus statuses hopId status dep) ∨
      FallsOn definition statuses hopId status dep ∨
      DeclinedOn holds definition statuses hopId status dep

/-- The join has a rule for its settled predecessors: an any-join for one that is complete, an
all-join for none that failed. -/
def JoinHasRule (hop : Hop) : Prop :=
  match hop.joinType with
  | .any => ∃ dep ∈ hop.dependsOn, recordStatus statuses hopId status dep = some .complete
  | .all => ∀ dep ∈ hop.dependsOn, recordStatus statuses hopId status dep ≠ some .failed

/-- Wherever an outcome closes a hop, the hop's join has a rule. -/
def OutcomeStrandsNoHop : Prop :=
  ∀ hop ∈ definition.hops, ClosesOn holds definition statuses hopId status hop →
    JoinHasRule statuses hopId status hop

def BreakerStrandsNoHop : Prop :=
  ∀ hop ∈ definition.hops, statuses hop.id = some .pending →
    ¬FallsOn definition statuses hopId .failed hop.id →
    ∃ dep ∈ hop.dependsOn, ¬IsTerminal (recordStatus statuses hopId .failed dep) ∧
      ¬FallsOn definition statuses hopId .failed dep

/-- No hop that is reset together with the rejected one waits for nothing but a failed hop. -/
def ResetStrandsNoHop (rejectedHop : Hop) : Prop :=
  ∀ hop ∈ definition.hops, hop.id ∈ resetSet rejectedHop →
    (∀ dep ∈ hop.dependsOn, dep ∉ resetSet rejectedHop ∧ IsTerminal (statuses dep)) →
    ∀ dep ∈ hop.dependsOn, statuses dep ≠ some .failed

end Guard

def StrandsNoHop (definition : WorkflowDefinition) (state : WorkflowState) : WorkflowStep → Prop
  | .dispatch .. => True
  | .evaluate event task _ => ∀ hop ∈ definition.hops, hop.id = event.hopId →
      if event.outcome = .rejected then
        if DEFAULT_MAX_REJECTIONS ≤ rejectionsOf state.hops hop.id + 1 then
          BreakerStrandsNoHop definition (statusOf state.hops) hop.id
        else if hop.rejectionStrategy.getD .origin = .predecessors then
          ResetStrandsNoHop definition (statusOf state.hops) hop
        else True
      else
        OutcomeStrandsNoHop (eventReader state event task) definition (statusOf state.hops)
          hop.id event.outcome.toStatus

/-- Every pending hop waits for a predecessor that is not over, and a finished workflow has its
verdict. -/
structure Live (definition : WorkflowDefinition) (state : WorkflowState) : Prop where
  tracks : Tracks definition state.hops
  waits : ∀ hop ∈ definition.hops, statusOf state.hops hop.id = some .pending →
    ∃ dep ∈ hop.dependsOn, ¬IsTerminal (statusOf state.hops dep)
  verdict : AllHopsTerminal definition (statusOf state.hops) →
    state.status = .complete ∨ state.status = .failed

section Invariant

variable {definition : WorkflowDefinition} {state next : WorkflowState}

theorem verdict_of_check {hops : Dict String HopState} {old status : WorkflowStatus}
    (htracks : Tracks definition hops) (hstatus : status = (checkDAGCompletion hops).getD old)
    (hall : AllHopsTerminal definition (statusOf hops)) :
    status = .complete ∨ status = .failed := by
  rw [hstatus, htracks.checkDAGCompletion_eq.1 hall]
  split <;> simp

variable {statuses : Statuses} {hop : Hop} {hopId id : String} {status : HopStatus}
  {holds : ConditionReader}

theorem freshStatus_waits (hwf : WellFormed definition)
    (hfresh : ∀ hop ∈ definition.hops, statuses hop.id = some (freshStatus hop))
    (hhop : hop ∈ definition.hops) (hpending : statuses hop.id = some .pending) :
    ∃ dep ∈ hop.dependsOn, ¬IsTerminal (statuses dep) := by
  rw [hfresh hop hhop, Option.some.injEq] at hpending
  obtain ⟨-, hready⟩ | ⟨hdeps, -⟩ := freshStatus_cases hop
  · rw [hready] at hpending
    cases hpending
  · obtain ⟨dep, hdep⟩ := List.exists_mem_of_ne_nil _ hdeps
    obtain ⟨pred, hpred, rfl⟩ := hwf.exists_hop_of_dep hhop hdep
    exact ⟨pred.id, hdep, hfresh pred hpred ▸ not_terminal_freshStatus pred⟩

theorem live_initializeWorkflowState (hwf : WellFormed definition) :
    Live definition (initializeWorkflowState definition) := by
  have hfresh := fun hop (hhop : hop ∈ definition.hops) =>
    statusOf_initializeWorkflowState hwf hhop
  refine ⟨tracks_initializeWorkflowState hwf,
    fun hop hhop => freshStatus_waits hwf hfresh hhop, fun hall => ?_⟩
  obtain ⟨root, hroot, -⟩ := hwf.root
  exact absurd (hfresh root hroot ▸ hall root hroot) (not_terminal_freshStatus root)

theorem afterEvent_of_falls (hfalls : FallsOn definition statuses hopId status id) :
    afterEvent definition statuses hopId status id = some .skipped := by
  rw [afterEvent, if_neg hfalls.1, fall, if_pos hfalls.2]

theorem afterEvent_of_not_falls (hnot : ¬FallsOn definition statuses hopId status id) :
    afterEvent definition statuses hopId status id = recordStatus statuses hopId status id := by
  unfold afterEvent
  split
  · rfl
  · rename_i hne
    exact if_neg fun hfalls => hnot ⟨hne, hfalls⟩

theorem settled_cases (hterminal : IsTerminal (settle holds definition statuses hopId status id)) :
    IsTerminal (recordStatus statuses hopId status id) ∨
      FallsOn definition statuses hopId status id ∨
      DeclinedOn holds definition statuses hopId status id := by
  rcases onlySkips_declinePass holds definition.hops
    (afterEvent definition statuses hopId status) id with hsame | ⟨hpending, hskipped⟩
  · by_cases hfalls : FallsOn definition statuses hopId status id
    · exact .inr (.inl hfalls)
    · rw [settle, hsame, afterEvent_of_not_falls hfalls] at hterminal
      exact .inl hterminal
  · exact .inr (.inr ⟨hpending, hskipped⟩)

theorem joinSatisfied_of_rule (hrule : JoinHasRule statuses hopId status hop)
    (hterminal : AllTerminal hop (settle holds definition statuses hopId status)) :
    JoinSatisfied hop (settle holds definition statuses hopId status) := by
  have hskips : OnlySkips (recordStatus statuses hopId status)
    (settle holds definition statuses hopId status) := onlySkips_settle
  unfold JoinHasRule at hrule
  unfold JoinSatisfied
  split <;> rename_i hjoin <;> rw [hjoin] at hrule
  · obtain ⟨dep, hdep, hcomplete⟩ := hrule
    exact ⟨dep, hdep, (hskips.complete_iff dep).2 hcomplete⟩
  · intro dep hdep
    have hnot : ¬settle holds definition statuses hopId status dep = some .failed :=
      fun hfailed => hrule dep hdep ((hskips.failed_iff dep).1 hfailed)
    rcases hterminal dep hdep with h | h | h
    · exact .inl h
    · exact .inr h
    · exact absurd h hnot

theorem waits_advance (hterminal : IsTerminal (some status))
    (hwaits : ∀ hop ∈ definition.hops, statuses hop.id = some .pending → hop.dependsOn ≠ [])
    (hguard : OutcomeStrandsNoHop holds definition statuses hopId status)
    (hhop : hop ∈ definition.hops)
    (hpending : advance holds definition statuses hopId status hop.id = some .pending) :
    ∃ dep ∈ hop.dependsOn, ¬IsTerminal (advance holds definition statuses hopId status dep) := by
  obtain ⟨hstill, hclosed⟩ := pending_of_advance hpending
  have hrecorded := onlySkips_settle.pending hstill
  have hne : hop.id ≠ hopId := by
    intro heq
    rw [heq, recordStatus_self, Option.some.injEq] at hrecorded
    simp [hrecorded, IsTerminal] at hterminal
  rw [recordStatus_of_ne hne] at hrecorded
  by_contra hnone
  simp only [not_exists, not_and, not_not] at hnone
  have hall : AllTerminal hop (settle holds definition statuses hopId status) := fun dep hdep =>
    (openJoins_terminal_iff dep).1 (hnone dep hdep)
  have hafter : afterEvent definition statuses hopId status hop.id = some .pending :=
    (onlySkips_declinePass _ _ _).pending hstill
  have hcloses : ClosesOn holds definition statuses hopId status hop := by
    refine ⟨hrecorded, hne, ?_, ?_, fun dep hdep => settled_cases (hall dep hdep)⟩
    · intro hfalls
      rw [afterEvent_of_falls hfalls] at hafter
      cases hafter
    · rintro ⟨-, hskipped⟩
      rw [hstill] at hskipped
      cases hskipped
  refine hclosed ⟨hop, hhop, rfl, hstill, ?_, ?_⟩
  · simpa [Hop.isRoot] using hwaits hop hhop hrecorded
  · exact joinSatisfied_of_rule (hguard hop hhop hcloses) hall

theorem waits_trip {statuses : Statuses} {hopId : String}
    (hguard : BreakerStrandsNoHop definition statuses hopId) {hop : Hop}
    (hhop : hop ∈ definition.hops)
    (hpending : fall definition (recordStatus statuses hopId .failed) hopId hop.id =
      some .pending) : ∃ dep ∈ hop.dependsOn,
      ¬IsTerminal (fall definition (recordStatus statuses hopId .failed) hopId dep) := by
  have hrecorded := onlySkips_fall.pending hpending
  have hne : hop.id ≠ hopId := by
    intro heq
    rw [heq, recordStatus_self] at hrecorded
    cases hrecorded
  have hstays : ¬FallsOn definition statuses hopId .failed hop.id := by
    rintro ⟨-, hfalls⟩
    rw [fall, if_pos hfalls] at hpending
    cases hpending
  rw [recordStatus_of_ne hne] at hrecorded
  obtain ⟨dep, hdep, hopen, hnot⟩ := hguard hop hhop hrecorded hstays
  refine ⟨dep, hdep, ?_⟩
  rw [fall, if_neg fun hfalls => hnot ⟨by simp, hfalls⟩]
  exact hopen

theorem waits_reset (hwf : WellFormed definition) (rejectedHop : Hop) {after : Statuses}
    (hinside : ∀ hop ∈ definition.hops, hop.id ∈ resetSet rejectedHop →
      after hop.id = some (resetStatus (resetSet rejectedHop) statuses hop))
    (houtside : ∀ id, id ∉ resetSet rejectedHop → after id = statuses id)
    (hwaits : ∀ hop ∈ definition.hops, statuses hop.id = some .pending →
      ∃ dep ∈ hop.dependsOn, ¬IsTerminal (statuses dep))
    (hguard : ResetStrandsNoHop definition statuses rejectedHop) (hhop : hop ∈ definition.hops)
    (hpending : after hop.id = some .pending) : ∃ dep ∈ hop.dependsOn, ¬IsTerminal (after dep) := by
  have hopen : ∀ dep ∈ hop.dependsOn, dep ∈ resetSet rejectedHop → ¬IsTerminal (after dep) := by
    intro dep hdep hin
    obtain ⟨pred, hpred, rfl⟩ := hwf.exists_hop_of_dep hhop hdep
    rw [hinside pred hpred hin]
    exact not_terminal_resetStatus _ _ _
  by_cases hin : hop.id ∈ resetSet rejectedHop
  · by_contra hnone
    simp only [not_exists, not_and, not_not] at hnone
    have hsettled : ∀ dep ∈ hop.dependsOn,
        dep ∉ resetSet rejectedHop ∧ IsTerminal (statuses dep) := by
      intro dep hdep
      have hout : dep ∉ resetSet rejectedHop := fun h => hopen dep hdep h (hnone dep hdep)
      exact ⟨hout, houtside dep hout ▸ hnone dep hdep⟩
    have hsatisfied : ∀ dep ∈ hop.dependsOn,
        dep ∉ resetSet rejectedHop ∧ IsSatisfied (statuses dep) := by
      intro dep hdep
      obtain ⟨hout, hterminal⟩ := hsettled dep hdep
      refine ⟨hout, ?_⟩
      rcases hterminal with h | h | h
      · exact .inl h
      · exact .inr h
      · exact absurd h (hguard hop hhop hin hsettled dep hdep)
    rw [hinside hop hhop hin, resetStatus, if_pos hsatisfied, ite_self] at hpending
    cases hpending
  · rw [houtside _ hin] at hpending
    obtain ⟨dep, hdep, hwait⟩ := hwaits hop hhop hpending
    refine ⟨dep, hdep, ?_⟩
    by_cases hdepIn : dep ∈ resetSet rejectedHop
    · exact hopen dep hdep hdepIn
    · rwa [houtside dep hdepIn]

theorem WorkflowMove.live (hwf : WellFormed definition) (hlive : Live definition state)
    {step : WorkflowStep} (hguard : StrandsNoHop definition state step)
    (hmove : WorkflowMove definition state step next) : Live definition next := by
  have htracks := hmove.tracks hlive.tracks
  cases hmove with
  | @dispatch hop sessionId timestamp hhop hready =>
      have hstatuses := statusOf_markDispatched hop state sessionId timestamp
      refine ⟨htracks, fun other hother hpending => ?_, fun hall => ?_⟩
      · rw [hstatuses] at hpending ⊢
        have hne : other.id ≠ hop.id := by
          intro heq
          rw [heq, recordStatus_self] at hpending
          cases hpending
        rw [recordStatus_of_ne hne] at hpending
        obtain ⟨dep, hdep, hwait⟩ := hlive.waits other hother hpending
        refine ⟨dep, hdep, ?_⟩
        by_cases heq : dep = hop.id
        · rw [heq, recordStatus_self]
          simp [IsTerminal]
        · rwa [recordStatus_of_ne heq]
      · have hself := hall hop hhop
        rw [hstatuses, recordStatus_self] at hself
        simp [IsTerminal] at hself
  | @advance hop event task timestamp _ hhop hid hdispatched houtcome _ hstatuses _ _ hstatus =>
      have hrejected : event.outcome ≠ .rejected := by
        rcases houtcome with h | h <;> simp [h]
      have hterminal : IsTerminal (some event.outcome.toStatus) := by
        rcases houtcome with h | h <;> simp [h, HopOutcome.toStatus, IsTerminal]
      have hrule := hguard hop hhop hid
      rw [if_neg hrejected] at hrule
      refine ⟨htracks, fun other hother hpending => ?_, verdict_of_check htracks hstatus⟩
      rw [hstatuses] at hpending ⊢
      refine waits_advance hterminal (fun other hother hpending => ?_) hrule hother hpending
      obtain ⟨dep, hdep, -⟩ := hlive.waits other hother hpending
      exact List.ne_nil_of_mem hdep
  | @trip hop event task timestamp _ hhop hid _ houtcome _ hlimit hstatuses _ _ hstatus =>
      have hbreaker := hguard hop hhop hid
      rw [if_pos houtcome, if_pos hlimit] at hbreaker
      refine ⟨htracks, fun other hother hpending => ?_, verdict_of_check htracks hstatus⟩
      rw [hstatuses] at hpending ⊢
      exact waits_trip hbreaker hother hpending
  | restart _ _ _ _ _ _ _ hhops hstatus =>
      have hfresh : ∀ other ∈ definition.hops,
          statusOf next.hops other.id = some (freshStatus other) := by
        intro other hother
        rw [statusOf, hhops, hwf.findHop hother]
        rfl
      exact ⟨htracks, fun other hother => freshStatus_waits hwf hfresh hother,
        verdict_of_check htracks hstatus⟩
  | @restartPredecessors hop event task timestamp _ hhop hid _ houtcome _ hlimit hstrategy hhops
      hstatus =>
      have hreset := hguard hop hhop hid
      rw [if_pos houtcome, if_neg (Nat.not_le.2 hlimit), if_pos hstrategy] at hreset
      refine ⟨htracks, fun other hother hpending => ?_, verdict_of_check htracks hstatus⟩
      refine waits_reset hwf hop (fun other hother hin => ?_)
        (fun id hout => ?_) hlive.waits hreset hother hpending
      · rw [statusOf, hhops, if_pos hin, hwf.findHop hother]
        rfl
      · rw [statusOf, hhops, if_neg hout, statusOf]

theorem Live.progresses (hwf : WellFormed definition) (hlive : Live definition state) :
    Progresses definition state := by
  by_cases hwork : ∃ hop ∈ definition.hops, statusOf state.hops hop.id = some .ready ∨
      statusOf state.hops hop.id = some .dispatched
  · exact .inr hwork
  · have hall : AllHopsTerminal definition (statusOf state.hops) := by
      refine hwf.induction fun hop hhop ih => ?_
      obtain ⟨status, hstatus⟩ := hlive.tracks.exists_status hhop
      rw [hstatus]
      cases status with
      | pending =>
          obtain ⟨dep, hdep, hwait⟩ := hlive.waits hop hhop hstatus
          obtain ⟨pred, hpred, rfl⟩ := hwf.exists_hop_of_dep hhop hdep
          exact absurd (ih pred hpred hdep) hwait
      | ready => exact absurd ⟨hop, hhop, .inl hstatus⟩ hwork
      | dispatched => exact absurd ⟨hop, hhop, .inr hstatus⟩ hwork
      | complete => exact .inl rfl
      | failed => exact .inr (.inr rfl)
      | skipped => exact .inr (.inl rfl)
    exact .inl ⟨hall, hlive.verdict hall⟩

end Invariant

/-- In every run that strands no hop, the workflow is over or has a hop to work on. -/
theorem no_deadlock {definition : WorkflowDefinition} (haccepted : validateDAG definition = [])
    {steps : List WorkflowStep} {state : WorkflowState}
    (hrun : StepSystem.Run (workflowStep definition) (StrandsNoHop definition)
      (initializeWorkflowState definition) steps state) : Progresses definition state := by
  have hwf := WellFormed.of_validateDAG haccepted
  refine Live.progresses hwf (hrun.invariant (Live definition) ?_ (live_initializeWorkflowState hwf))
  exact fun _ _ _ hlive hguard hstep =>
    (workflowMove_of_step hwf hlive.tracks hstep).live hwf hlive hguard

section Linear

def linear : WorkflowDefinition :=
  { name := "linear"
    hops := [{ id := "implement", role := "swe" },
      { id := "review", role := "qa", dependsOn := ["implement"] }] }

def plainTask : TaskMeta :=
  { status := "in-progress", tags := [], priority := "normal", routing := [] }

theorem linear_failed_run : ∃ state, StepSystem.Run (workflowStep linear) (StrandsNoHop linear)
      (initializeWorkflowState linear)
      [.dispatch "implement" "s1" "t1", .evaluate ⟨"implement", .failed, none⟩ plainTask "t2"]
      state := by
  refine ⟨_, .head trivial rfl (.head ?_ rfl (.refl _))⟩
  intro hop hhop hid
  obtain rfl : hop = { id := "implement", role := "swe" } := by
    simp only [linear, List.mem_cons, List.not_mem_nil, or_false] at hhop
    rcases hhop with rfl | rfl
    · rfl
    · simp at hid
  rw [if_neg (by decide)]
  intro other hother hcloses
  simp only [linear, List.mem_cons, List.not_mem_nil, or_false] at hother
  rcases hother with rfl | rfl
  · exact absurd rfl hcloses.2.1
  · refine absurd ⟨by decide, ?_⟩ hcloses.2.2.1
    exact Falls.of_blocked (by simp [linear]) (by decide) (by decide) (by decide)

theorem linear_progresses : ∃ state, StepSystem.Run (workflowStep linear) (StrandsNoHop linear)
    (initializeWorkflowState linear)
    [.dispatch "implement" "s1" "t1", .evaluate ⟨"implement", .failed, none⟩ plainTask "t2"]
    state ∧ Progresses linear state := by
  obtain ⟨state, hrun⟩ := linear_failed_run
  exact ⟨state, hrun, no_deadlock (by decide) hrun⟩

end Linear

section Stuck

def fanIn : WorkflowDefinition :=
  { name := "fan-in"
    hops := [{ id := "build", role := "swe" }, { id := "test", role := "qa" },
      { id := "deploy", role := "ops", dependsOn := ["build", "test"] }] }

/-- One failed and one complete predecessor leave an all-join pending for good. -/
theorem deadlock_fanIn : ¬∀ definition : WorkflowDefinition, validateDAG definition = [] →
    ∀ state, Reachable definition state → Progresses definition state := by
  intro hall
  obtain ⟨state, hexec, hstuck⟩ : ∃ state, StepSystem.exec (workflowStep fanIn)
      (initializeWorkflowState fanIn)
      [.dispatch "build" "s1" "t1", .dispatch "test" "s2" "t1",
        .evaluate ⟨"build", .failed, none⟩ plainTask "t2",
        .evaluate ⟨"test", .complete, none⟩ plainTask "t3"] = some state ∧
      ¬Progresses fanIn state := by
    refine ⟨_, rfl, ?_⟩
    decide
  exact hstuck (hall fanIn (by decide) state ⟨_, StepSystem.freeRun_iff_exec.2 hexec⟩)

end Stuck

end Aof
