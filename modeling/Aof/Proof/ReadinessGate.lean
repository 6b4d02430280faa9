import Aof.Proof.Deadlock

/-!
# The readiness gate

A hop should become ready only where its join is satisfied and its condition is true.  The normal
pass reads a condition once, in array order, and the other ways to become ready read none; runs
that steer clear of both keep the gate.
-/

namespace Aof

/-- The join is satisfied and the condition, if any, is true in this state. -/
def Gate (state : WorkflowState) (task : TaskMeta) (hop : Hop) : Prop :=
  (hop.dependsOn = [] ∨ JoinSatisfied hop (statusOf state.hops)) ∧
    ∀ condition, hop.condition = some condition →
      evaluateCondition ⟨buildConditionContext state task, statusOf state.hops, task⟩
        condition = true

section RunProperty

variable (definition : WorkflowDefinition) (created : TaskMeta) (steps : List WorkflowStep)

/-- The gate of a hop that initialisation makes ready, under the metadata at creation. -/
def InitialGate : Prop :=
  ∀ hop ∈ definition.hops,
    statusOf (initializeWorkflowState definition).hops hop.id = some .ready →
    Gate (initializeWorkflowState definition) created hop

/-- The gate of a hop that an evaluation of the run makes ready, in the state it returns. -/
def EvaluationGate : Prop :=
  ∀ front event task timestamp back state next,
    steps = front ++ .evaluate event task timestamp :: back →
    StepSystem.exec (workflowStep definition) (initializeWorkflowState definition) front =
      some state →
    workflowStep definition state (.evaluate event task timestamp) = some next →
    ∀ hop ∈ definition.hops, statusOf state.hops hop.id ≠ some .ready →
      statusOf next.hops hop.id = some .ready → Gate next task hop

/-- Some decision of the run made the hop ready, and its gate held in the state it returned. -/
def AdmittedBy (hop : Hop) : Prop :=
  ∃ front back state task, steps = front ++ back ∧
    StepSystem.exec (workflowStep definition) (initializeWorkflowState definition) front =
      some state ∧
    statusOf state.hops hop.id = some .ready ∧ Gate state task hop

/-- A hop is dispatched only after a decision that passed its gate. -/
def DispatchGate : Prop :=
  ∀ front hopId sessionId timestamp back,
    steps = front ++ .dispatch hopId sessionId timestamp :: back →
    ∀ hop ∈ definition.hops, hop.id = hopId → AdmittedBy definition front hop

structure ReadinessGate : Prop where
  initial : InitialGate definition created
  evaluation : EvaluationGate definition steps
  dispatch : DispatchGate definition steps

end RunProperty

section Guard

variable (holds : ConditionReader) (definition : WorkflowDefinition) (statuses : Statuses)
variable (hopId : String) (status : HopStatus)

noncomputable def statusesAtTurn (front : List Hop) : Statuses :=
  declinePass holds front (afterEvent definition statuses hopId status)

def OpensOn (hop : Hop) : Prop :=
  Opens hop (settle holds definition statuses hopId status)

/-- After the turn of the hop behind `front`, the step still declines `id` or opens its join. -/
def MovesAfterTurn (front : List Hop) (id : String) : Prop :=
  (statusesAtTurn holds definition statuses hopId status front id = some .pending ∧
      settle holds definition statuses hopId status id = some .skipped) ∨
    ∃ other ∈ definition.hops, other.id = id ∧ OpensOn holds definition statuses hopId status other

/-- Every conditional hop that the outcome opens is read when all its predecessors are over, and
no hop whose status it reads moves after that. -/
def ConditionsReadInTime : Prop :=
  ∀ front hop back condition, definition.hops = front ++ hop :: back →
    hop.condition = some condition → OpensOn holds definition statuses hopId status hop →
    AllTerminal hop (statusesAtTurn holds definition statuses hopId status front) ∧
      ∀ read ∈ hopStatusReads condition,
        ¬MovesAfterTurn holds definition statuses hopId status front read.1

/-- A hop that a predecessors reset makes ready has no condition, and its any-join has a complete
predecessor. -/
def ResetKeepsGate (rejectedHop : Hop) : Prop :=
  ∀ hop ∈ definition.hops, hop.id ∈ resetSet rejectedHop →
    (∀ dep ∈ hop.dependsOn, dep ∉ resetSet rejectedHop ∧ IsSatisfied (statuses dep)) →
    hop.condition = none ∧
      (hop.dependsOn ≠ [] → hop.joinType = .any →
        ∃ dep ∈ hop.dependsOn, statuses dep = some .complete)

end Guard

/-- The step evaluates every condition it has to, judged on the state before it. -/
def KeepsGate (definition : WorkflowDefinition) (state : WorkflowState) : WorkflowStep → Prop
  | .dispatch .. => True
  | .evaluate event task _ => ∀ hop ∈ definition.hops, hop.id = event.hopId →
      if event.outcome = .rejected then
        rejectionsOf state.hops hop.id + 1 < DEFAULT_MAX_REJECTIONS →
        hop.rejectionStrategy.getD .origin = .predecessors →
        ResetKeepsGate definition (statusOf state.hops) hop
      else
        ConditionsReadInTime (eventReader state event task) definition (statusOf state.hops)
          hop.id event.outcome.toStatus

def RootsUnconditional (definition : WorkflowDefinition) : Prop :=
  ∀ hop ∈ definition.hops, hop.dependsOn = [] → hop.condition = none

section Step

variable {definition : WorkflowDefinition} {state next : WorkflowState}

variable {task : TaskMeta} {hop : Hop} {front back : List Hop} {holds : ConditionReader}
  {statuses : Statuses} {hopId : String} {status : HopStatus} {event : HopEvent}

theorem gate_of_unconditional (hcondition : hop.condition = none)
    (hjoin : hop.dependsOn = [] ∨ JoinSatisfied hop (statusOf state.hops)) : Gate state task hop :=
  ⟨hjoin, fun condition hsome => by rw [hcondition] at hsome; cases hsome⟩

theorem declinePass_append (holds : ConditionReader) (front back : List Hop) (statuses : Statuses) :
    declinePass holds (front ++ back) statuses =
      declinePass holds back (declinePass holds front statuses) :=
  List.foldl_append ..

theorem onlySkips_from_turn (holds : ConditionReader) (statuses : Statuses) (hopId : String)
    (status : HopStatus) (hsplit : definition.hops = front ++ back) :
    OnlySkips (statusesAtTurn holds definition statuses hopId status front)
      (settle holds definition statuses hopId status) := by
  rw [settle, hsplit, declinePass_append]
  exact onlySkips_declinePass _ _ _

theorem not_declines_at_turn (hsplit : definition.hops = front ++ hop :: back)
    (hpending : settle holds definition statuses hopId status hop.id = some .pending) :
    ¬Declines holds hop (statusesAtTurn holds definition statuses hopId status front) := by
  intro hdeclines
  have hskipped : declinePass holds [hop]
      (statusesAtTurn holds definition statuses hopId status front) hop.id = some .skipped := by
    simp [declinePass, hdeclines, decline, recordStatus_self]
  have hrest := onlySkips_declinePass holds back (declinePass holds [hop]
    (statusesAtTurn holds definition statuses hopId status front))
  have hfinal := hrest.eq_of_ne_pending (by rw [hskipped]; simp)
  rw [hskipped, ← declinePass_append, statusesAtTurn, ← declinePass_append,
    show front ++ ([hop] ++ back) = definition.hops by simp [hsplit]] at hfinal
  rw [settle, hfinal] at hpending
  cases hpending

theorem advance_eq_of_not_moves {id : String} (hsplit : definition.hops = front ++ back)
    (hstays : ¬MovesAfterTurn holds definition statuses hopId status front id) :
    advance holds definition statuses hopId status id =
      statusesAtTurn holds definition statuses hopId status front id := by
  rw [MovesAfterTurn, not_or] at hstays
  rcases openJoins_cases definition (settle holds definition statuses hopId status) id with
    ⟨hsame, -⟩ | ⟨-, -, hop, hhop, hid, hopens⟩
  · rcases onlySkips_from_turn holds statuses hopId status hsplit id with hturn | hmoved
    · rw [advance, hsame, hturn]
    · exact absurd hmoved hstays.1
  · exact absurd ⟨hop, hhop, hid, hopens⟩ hstays.2

theorem condition_holds_of_read_in_time {condition : ConditionExpr}
    (hsplit : definition.hops = front ++ hop :: back) (hcondition : hop.condition = some condition)
    (hopens : OpensOn holds definition statuses hopId status hop)
    (hguard : ConditionsReadInTime holds definition statuses hopId status) :
    holds condition (statusesAtTurn holds definition statuses hopId status front) = true ∧
      SameAnswers (statusesAtTurn holds definition statuses hopId status front)
        (advance holds definition statuses hopId status) (hopStatusReads condition) := by
  obtain ⟨hterminal, hreads⟩ := hguard front hop back condition hsplit hcondition hopens
  have hturn := (onlySkips_from_turn holds statuses hopId status hsplit).pending hopens.1
  refine ⟨?_, fun read hread => ?_⟩
  · by_contra hfalse
    exact not_declines_at_turn hsplit hopens.1
      ⟨hturn, hterminal, condition, hcondition, by simpa using hfalse⟩
  · rw [advance_eq_of_not_moves hsplit (hreads read hread)]

theorem gate_of_advance (hwf : WellFormed definition) {acting : Hop}
    (hacting : acting.id = event.hopId)
    (hdispatched : statusOf state.hops acting.id = some .dispatched)
    (houtcome : event.outcome = .complete ∨ event.outcome = .failed)
    (hkeys : next.hops.keys = state.hops.keys)
    (hstatuses : statusOf next.hops = advance (eventReader state event task) definition (statusOf
      state.hops) acting.id event.outcome.toStatus)
    (hresults : ∀ id, (next.hops.get? id).map HopState.result = if id =
      acting.id then some event.result else (state.hops.get? id).map HopState.result)
    (hguard : ConditionsReadInTime (eventReader state event task) definition (statusOf
      state.hops) acting.id event.outcome.toStatus)
    (hhop : hop ∈ definition.hops) (hbefore : statusOf state.hops hop.id ≠ some .ready)
    (hready : statusOf next.hops hop.id = some .ready) : Gate next task hop := by
  have hopens : OpensOn (eventReader state event task) definition (statusOf state.hops)
      acting.id event.outcome.toStatus hop := by
    rw [hstatuses] at hready
    rcases openJoins_cases definition (settle (eventReader state event task) definition
      (statusOf state.hops) acting.id event.outcome.toStatus) hop.id with
      ⟨hsame, -⟩ | ⟨-, -, other, hother, hid, hopens⟩
    · rw [advance, hsame] at hready
      have hrecorded : recordStatus (statusOf state.hops) acting.id event.outcome.toStatus
          hop.id = some .ready :=
        (onlySkips_settle.eq_of_ne_skipped (by rw [hready]; simp)).trans hready
      by_cases heq : hop.id = acting.id
      · rw [heq, recordStatus_self] at hrecorded
        rcases houtcome with h | h <;> simp [h, HopOutcome.toStatus] at hrecorded
      · rw [recordStatus_of_ne heq] at hrecorded
        exact absurd hrecorded hbefore
    · exact hwf.eq_of_id_eq hother hhop hid ▸ hopens
  refine ⟨.inr ?_, fun condition hcondition => ?_⟩
  · rw [hstatuses]
    exact (openJoins_keepsTerminal _ _).joinSatisfied hopens.2.2
  · obtain ⟨front, back, hsplit⟩ := List.append_of_mem hhop
    obtain ⟨htrue, hanswers⟩ :=
      condition_holds_of_read_in_time hsplit hcondition hopens hguard
    have hcontext : buildConditionContext next task = buildConditionContext
        { state with hops := recordHopEvent state.hops event "" } task := by
      obtain ⟨prev, hprev, -⟩ := statusOf_eq_some_iff.1 hdispatched
      refine buildConditionContext_congr task ?_ fun id => ?_
      · rw [hkeys]
        exact (Dict.keys_set_of_get? (hacting ▸ hprev) _).symm
      · rw [hresults, recordHopEvent, Dict.get?_set, hacting]
        simp only [eq_comm (a := id)]
        split <;> rfl
    rw [hcontext, hstatuses, ← evaluateCondition_congr _ task condition hanswers]
    exact htrue

theorem gate_of_resetStatus {rejectedHop : Hop} (hhop : hop ∈ definition.hops)
    (hin : hop.id ∈ resetSet rejectedHop)
    (houtside : ∀ id, id ∉ resetSet rejectedHop → statusOf next.hops id = statuses id)
    (hready : resetStatus (resetSet rejectedHop) statuses hop = .ready)
    (hguard : ResetKeepsGate definition statuses rejectedHop) : Gate next task hop := by
  have hsatisfied : ∀ dep ∈ hop.dependsOn,
      dep ∉ resetSet rejectedHop ∧ IsSatisfied (statuses dep) := by
    unfold resetStatus at hready
    split at hready
    · rename_i hroot
      have hnil : hop.dependsOn = [] := by simpa [Hop.isRoot] using hroot
      simp [hnil]
    · split at hready
      · assumption
      · cases hready
  obtain ⟨hcondition, hany⟩ := hguard hop hhop hin hsatisfied
  refine gate_of_unconditional hcondition ?_
  by_cases hroot : hop.dependsOn = []
  · exact .inl hroot
  · right
    unfold JoinSatisfied
    split <;> rename_i htype
    · obtain ⟨dep, hdep, hcomplete⟩ := hany hroot htype
      exact ⟨dep, hdep, by rw [houtside dep (hsatisfied dep hdep).1, hcomplete]⟩
    · intro dep hdep
      rw [houtside dep (hsatisfied dep hdep).1]
      exact (hsatisfied dep hdep).2

theorem gate_of_step (hwf : WellFormed definition) (hroots : RootsUnconditional definition)
    (htracks : Tracks definition state.hops) {timestamp : String}
    (hguard : KeepsGate definition state (.evaluate event task timestamp))
    (hstep : workflowStep definition state (.evaluate event task timestamp) = some next)
    (hhop : hop ∈ definition.hops) (hbefore : statusOf state.hops hop.id ≠ some .ready)
    (hready : statusOf next.hops hop.id = some .ready) : Gate next task hop := by
  cases workflowMove_of_step hwf htracks hstep with
  | @advance acting _ _ _ _ hacting hid hdispatched houtcome hkeys hstatuses hresults =>
      have hrejected : event.outcome ≠ .rejected := by
        rcases houtcome with h | h <;> simp [h]
      have hread := hguard acting hacting hid
      rw [if_neg hrejected] at hread
      exact gate_of_advance hwf hid hdispatched houtcome hkeys hstatuses hresults hread hhop
        hbefore hready
  | @trip acting _ _ _ _ _ _ _ _ _ _ hstatuses =>
      rw [hstatuses] at hready
      have hrecorded : recordStatus (statusOf state.hops) acting.id .failed hop.id =
          some .ready := (onlySkips_fall.eq_of_ne_skipped (by rw [hready]; simp)).trans hready
      by_cases heq : hop.id = acting.id
      · rw [heq, recordStatus_self] at hrecorded
        cases hrecorded
      · rw [recordStatus_of_ne heq] at hrecorded
        exact absurd hrecorded hbefore
  | @restart acting _ _ _ _ hacting _ _ _ _ _ _ hhops =>
      have hfresh : freshStatus hop = .ready := by
        rw [statusOf, hhops, hwf.findHop hhop] at hready
        simpa [resetHopState] using hready
      rcases freshStatus_cases hop with ⟨hroot, -⟩ | ⟨-, hpending⟩
      · exact gate_of_unconditional (hroots hop hhop hroot) (.inl hroot)
      · rw [hfresh] at hpending
        cases hpending
  | @restartPredecessors acting _ _ _ _ hacting hid _ houtcome _ hlimit hstrategy hhops =>
      have hreset := hguard acting hacting hid
      rw [if_pos houtcome] at hreset
      by_cases hin : hop.id ∈ resetSet acting
      · refine gate_of_resetStatus hhop hin (fun id hout => ?_) ?_ (hreset hlimit hstrategy)
        · rw [statusOf, hhops, if_neg hout, statusOf]
        · rw [statusOf, hhops, if_pos hin, hwf.findHop hhop] at hready
          simpa [resetHopState] using hready
      · rw [statusOf, hhops, if_neg hin] at hready
        exact absurd hready hbefore

end Step

section Runs

variable {definition : WorkflowDefinition} {created : TaskMeta} {steps : List WorkflowStep}
variable {state : WorkflowState}

theorem initialGate (hwf : WellFormed definition) (hroots : RootsUnconditional definition) :
    InitialGate definition created := by
  intro hop hhop hready
  rw [statusOf_initializeWorkflowState hwf hhop, Option.some.injEq] at hready
  rcases freshStatus_cases hop with ⟨hroot, -⟩ | ⟨-, hpending⟩
  · exact gate_of_unconditional (hroots hop hhop hroot) (.inl hroot)
  · rw [hready] at hpending
    cases hpending

theorem AdmittedBy.append {hop : Hop} (hadmitted : AdmittedBy definition steps hop)
    (more : List WorkflowStep) : AdmittedBy definition (steps ++ more) hop := by
  obtain ⟨front, back, state, task, rfl, hexec, hready, hgate⟩ := hadmitted
  exact ⟨front, back ++ more, state, task, by simp, hexec, hready, hgate⟩

theorem admitted_of_ready (hwf : WellFormed definition) (hroots : RootsUnconditional definition)
    (created : TaskMeta) (hrun : StepSystem.Run (workflowStep definition) (KeepsGate definition)
      (initializeWorkflowState definition) steps state) :
    ∀ hop ∈ definition.hops, statusOf state.hops hop.id = some .ready →
      AdmittedBy definition steps hop := by
  induction hrun with
  | refl =>
      intro hop hhop hready
      exact ⟨[], [], _, created, rfl, rfl, hready, initialGate hwf hroots hop hhop hready⟩
  | @snoc middle last front step hprefix hguard hstep ih =>
      intro hop hhop hready
      by_cases hbefore : statusOf middle.hops hop.id = some .ready
      · exact (ih hop hhop hbefore).append [step]
      · have htracks := Reachable.tracks hwf ⟨front, hprefix.free⟩
        have hexec : StepSystem.exec (workflowStep definition)
            (initializeWorkflowState definition) (front ++ [step]) = some last :=
          (StepSystem.Run.snoc hprefix hguard hstep).exec_eq
        cases step with
        | dispatch hopId sessionId timestamp =>
            cases workflowMove_of_step hwf htracks hstep with
            | @dispatch acting _ _ _ hwasReady =>
                rw [statusOf_markDispatched] at hready
                by_cases heq : hop.id = acting.id
                · rw [heq, recordStatus_self] at hready
                  cases hready
                · rw [recordStatus_of_ne heq] at hready
                  exact absurd hready hbefore
        | evaluate event task timestamp =>
            exact ⟨_, [], last, task, by simp, hexec, hready,
              gate_of_step hwf hroots htracks hguard hstep hhop hbefore hready⟩

/-- Runs whose steps evaluate every condition they have to keep the readiness gate. -/
theorem readiness_gate (haccepted : validateDAG definition = [])
    (hroots : RootsUnconditional definition)
    (hrun : StepSystem.Run (workflowStep definition) (KeepsGate definition)
      (initializeWorkflowState definition) steps state) :
    ReadinessGate definition created steps := by
  have hwf := WellFormed.of_validateDAG haccepted
  refine ⟨initialGate hwf hroots, ?_, ?_⟩
  · intro front event task timestamp back before after hsplit hexec hstep hop hhop hbefore hready
    rw [hsplit] at hrun
    obtain ⟨middle, _, hprefix, hguard, -⟩ := hrun.step_at
    obtain rfl : middle = before := by
      have := hprefix.exec_eq.symm.trans hexec
      simpa using this
    exact gate_of_step hwf hroots (Reachable.tracks hwf ⟨front, hprefix.free⟩) hguard hstep hhop
      hbefore hready
  · intro front hopId sessionId timestamp back hsplit hop hhop hid
    rw [hsplit] at hrun
    obtain ⟨middle, _, hprefix, -, hstep⟩ := hrun.step_at
    have htracks := Reachable.tracks hwf ⟨front, hprefix.free⟩
    cases workflowMove_of_step hwf htracks hstep with
    | dispatch hacting hready =>
        exact admitted_of_ready hwf hroots created hprefix hop hhop (hid ▸ hready)

end Runs

section Conditional

def afterReview : WorkflowDefinition :=
  { name := "after-review"
    hops := [{ id := "review", role := "qa" },
      { id := "deploy", role := "ops", dependsOn := ["review"],
        condition := some (.hopStatus "review" "complete") }] }

theorem afterReview_run : ∃ state, StepSystem.Run (workflowStep afterReview)
    (KeepsGate afterReview) (initializeWorkflowState afterReview)
    [.dispatch "review" "s1" "t1", .evaluate ⟨"review", .complete, none⟩ plainTask "t2",
      .dispatch "deploy" "s2" "t3"] state := by
  refine ⟨_, .head trivial rfl (.head ?_ rfl (.head trivial rfl (.refl _)))⟩
  intro acting hacting hid
  obtain rfl : acting = { id := "review", role := "qa" } := by
    simp only [afterReview, List.mem_cons, List.not_mem_nil, or_false] at hacting
    rcases hacting with rfl | rfl
    · rfl
    · simp at hid
  rw [if_neg (by decide)]
  intro front hop back condition hsplit hcondition hopens
  obtain ⟨rfl, rfl, rfl⟩ : front = [{ id := "review", role := "qa" }] ∧ back = [] ∧
      hop = { id := "deploy", role := "ops", dependsOn := ["review"],
              condition := some (.hopStatus "review" "complete") } := by
    rcases front with _ | ⟨first, _ | ⟨second, front⟩⟩ <;>
      simp only [afterReview, List.nil_append, List.cons_append, List.cons.injEq] at hsplit
    · obtain ⟨rfl, -⟩ := hsplit
      cases hcondition
    · obtain ⟨rfl, rfl, rfl⟩ := hsplit
      exact ⟨rfl, rfl, rfl⟩
    · simp at hsplit
  obtain rfl : condition = .hopStatus "review" "complete" := by simpa using hcondition.symm
  have hturn : ∀ holds statuses, statusesAtTurn holds afterReview statuses "review" .complete
      [{ id := "review", role := "qa" }] "review" = some .complete := by
    intro holds statuses
    rw [statusesAtTurn, declinePass_of_unconditional (by simp), afterEvent, if_pos rfl,
      recordStatus_self]
  refine ⟨fun dep hdep => ?_, fun read hread hmoves => ?_⟩
  · obtain rfl : dep = "review" := by simpa using hdep
    exact .inl (hturn _ _)
  · obtain rfl : read = ("review", "complete") := by simpa [hopStatusReads] using hread
    rcases hmoves with ⟨hpending, -⟩ | ⟨other, hother, hotherId, hotherOpens⟩
    · have hdone := (hturn _ _).symm.trans hpending
      cases hdone
    · have hrecorded := onlySkips_settle.pending hotherOpens.1
      rw [hotherId] at hrecorded
      change recordStatus _ "review" .complete "review" = _ at hrecorded
      rw [recordStatus_self] at hrecorded
      cases hrecorded

theorem afterReview_gate : ReadinessGate afterReview plainTask [.dispatch "review" "s1" "t1",
      .evaluate ⟨"review", .complete, none⟩ plainTask "t2", .dispatch "deploy" "s2" "t3"] := by
  obtain ⟨state, hrun⟩ := afterReview_run
  exact readiness_gate (by decide) (by simp [RootsUnconditional, afterReview]) hrun

def earlyJoin : WorkflowDefinition :=
  { name := "early-join"
    hops := [{ id := "fast", role := "swe" }, { id := "slow", role := "swe" },
      { id := "publish", role := "ops", dependsOn := ["fast", "slow"], joinType := .any,
        condition := some .false }] }

/-- An any-join opens before its condition is read. -/
theorem gate_broken_earlyJoin : ¬∀ definition : WorkflowDefinition, validateDAG definition = [] →
    ∀ created steps state, StepSystem.FreeRun (workflowStep definition)
      (initializeWorkflowState definition) steps state →
    ReadinessGate definition created steps := by
  intro hall
  obtain ⟨before, after, hexec, hstep, hopened⟩ : ∃ before after,
      StepSystem.exec (workflowStep earlyJoin) (initializeWorkflowState earlyJoin)
        [.dispatch "fast" "s1" "t1"] = some before ∧
      workflowStep earlyJoin before (.evaluate ⟨"fast", .complete, none⟩ plainTask "t2") =
        some after ∧
      statusOf before.hops "publish" ≠ some .ready ∧
        statusOf after.hops "publish" = some .ready := by
    refine ⟨_, _, rfl, rfl, ?_⟩
    decide
  have hrun : StepSystem.exec (workflowStep earlyJoin) (initializeWorkflowState earlyJoin)
      [.dispatch "fast" "s1" "t1", .evaluate ⟨"fast", .complete, none⟩ plainTask "t2"] =
      some after := by
    rw [show [WorkflowStep.dispatch "fast" "s1" "t1",
      .evaluate ⟨"fast", .complete, none⟩ plainTask "t2"] =
      [.dispatch "fast" "s1" "t1"] ++ [.evaluate ⟨"fast", .complete, none⟩ plainTask "t2"] from rfl,
      StepSystem.exec_snoc, hexec, Option.bind_some, hstep]
  have hgate := (hall earlyJoin (by decide) plainTask _ _
    (StepSystem.freeRun_iff_exec.2 hrun)).evaluation _ _ _ _ [] before after rfl hexec hstep
    { id := "publish", role := "ops", dependsOn := ["fast", "slow"], joinType := .any,
      condition := some .false } (by simp [earlyJoin]) hopened.1 hopened.2
  have hfalse := hgate.2 .false rfl
  simp [evaluateCondition] at hfalse

end Conditional

end Aof
