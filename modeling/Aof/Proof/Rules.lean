import Aof.Proof.WorkflowMove

/-!
# Facts about the rules

How the rules change single statuses, and that every move keeps the state tracking its hops.
-/

namespace Aof

def OnlySkips (before after : Statuses) : Prop :=
  ∀ id, after id = before id ∨ before id = some .pending ∧ after id = some .skipped

namespace OnlySkips

variable {before middle after : Statuses}

theorem refl (statuses : Statuses) : OnlySkips statuses statuses := fun _ => .inl rfl

theorem trans (hfirst : OnlySkips before middle) (hsecond : OnlySkips middle after) :
    OnlySkips before after := by
  intro id
  rcases hfirst id with h | ⟨h, h'⟩ <;> rcases hsecond id with k | ⟨k, k'⟩ <;> simp_all

variable (hskips : OnlySkips before after)
include hskips

variable {id : String}

theorem eq_of_ne_pending (hne : before id ≠ some .pending) : after id = before id := by
  rcases hskips id with hsame | ⟨hpending, -⟩
  · exact hsame
  · exact absurd hpending hne

theorem eq_of_ne_skipped (hne : after id ≠ some .skipped) : before id = after id := by
  rcases hskips id with hsame | ⟨-, hskipped⟩
  · exact hsame.symm
  · exact absurd hskipped hne

theorem terminal (hterminal : IsTerminal (before id)) : after id = before id :=
  hskips.eq_of_ne_pending fun hpending => by simp [hpending, IsTerminal] at hterminal

theorem pending (hpending : after id = some .pending) : before id = some .pending := by
  rcases hskips id with hsame | ⟨hbefore, -⟩
  · rw [← hsame, hpending]
  · exact hbefore

theorem complete_iff (id : String) : after id = some .complete ↔ before id = some .complete := by
  rcases hskips id with hsame | ⟨hbefore, hafter⟩
  · rw [hsame]
  · simp [hbefore, hafter]

theorem failed_iff (id : String) : after id = some .failed ↔ before id = some .failed := by
  rcases hskips id with hsame | ⟨hbefore, hafter⟩
  · rw [hsame]
  · simp [hbefore, hafter]

theorem isSome (id : String) : (after id).isSome ↔ (before id).isSome := by
  rcases hskips id with hsame | ⟨hbefore, hafter⟩
  · rw [hsame]
  · simp [hbefore, hafter]

end OnlySkips

def KeepsTerminal (before after : Statuses) : Prop :=
  ∀ id, IsTerminal (before id) → after id = before id

section Terminal

variable {before after : Statuses} {hop : Hop}

theorem OnlySkips.keepsTerminal (hskips : OnlySkips before after) : KeepsTerminal before after :=
  fun _ hterminal => hskips.terminal hterminal

theorem KeepsTerminal.trans {middle : Statuses} (hfirst : KeepsTerminal before middle)
    (hsecond : KeepsTerminal middle after) : KeepsTerminal before after := by
  intro id hterminal
  have hmiddle := hfirst id hterminal
  rw [hsecond id (hmiddle ▸ hterminal), hmiddle]

variable (hkeeps : KeepsTerminal before after)
include hkeeps

theorem KeepsTerminal.blocked (hblocked : Blocked hop before) : Blocked hop after := by
  intro dep hdep
  have hnon := hblocked dep hdep
  rwa [hkeeps dep (.inr hnon)]

theorem KeepsTerminal.joinSatisfied (hjoin : JoinSatisfied hop before) :
    JoinSatisfied hop after := by
  unfold JoinSatisfied at hjoin ⊢
  split <;> rename_i htype <;> rw [htype] at hjoin
  · obtain ⟨dep, hdep, hcomplete⟩ := hjoin
    exact ⟨dep, hdep, by rw [hkeeps dep (.inl hcomplete), hcomplete]⟩
  · intro dep hdep
    have hsatisfied := hjoin dep hdep
    have hterminal : IsTerminal (before dep) := by
      rcases hsatisfied with h | h
      · exact .inl h
      · exact .inr (.inl h)
    rwa [hkeeps dep hterminal]

/-- A pending hop that is neither blocked nor satisfied before is not so after a step that
changes no terminal status and ends no hop. -/
theorem KeepsTerminal.reflects (hends : ∀ id, IsTerminal (after id) → IsTerminal (before id)) :
    KeepsTerminal after before :=
  fun id hterminal => (hkeeps id (hends id hterminal)).symm

end Terminal

section Steps

variable {definition : WorkflowDefinition} {statuses : Statuses} {hopId : String}
variable {status : HopStatus} {holds : ConditionReader}

theorem recordStatus_self : recordStatus statuses hopId status hopId = some status :=
  Function.update_self ..

theorem recordStatus_of_ne {id : String} (hne : id ≠ hopId) :
    recordStatus statuses hopId status id = statuses id :=
  Function.update_of_ne hne ..

theorem onlySkips_fall : OnlySkips statuses (fall definition statuses hopId) := by
  intro id
  unfold fall
  split
  · rename_i hfalls
    exact .inr ⟨hfalls.pending, rfl⟩
  · exact .inl rfl

theorem onlySkips_afterEvent : OnlySkips (recordStatus statuses hopId status)
      (afterEvent definition statuses hopId status) := by
  unfold afterEvent
  split
  · exact .refl _
  · exact onlySkips_fall

theorem onlySkips_declinePass (holds : ConditionReader) (hops : List Hop) (statuses : Statuses) :
    OnlySkips statuses (declinePass holds hops statuses) := by
  induction hops generalizing statuses with
  | nil => exact .refl _
  | cons hop rest ih =>
      unfold declinePass at ih ⊢
      rw [List.foldl_cons]
      refine OnlySkips.trans ?_ (ih _)
      split
      · rename_i hdeclines
        intro id
        by_cases heq : id = hop.id
        · subst heq
          exact .inr ⟨hdeclines.1, recordStatus_self⟩
        · exact .inl (recordStatus_of_ne heq)
      · exact .refl _

open Classical in
theorem declinePass_eq_self_iff {hops : List Hop} :
    declinePass holds hops statuses = statuses ↔ ∀ hop ∈ hops, ¬Declines holds hop statuses := by
  induction hops with
  | nil => simp [declinePass]
  | cons hop rest ih =>
      have hcons : declinePass holds (hop :: rest) statuses = declinePass holds rest
          (if Declines holds hop statuses then decline statuses hop else statuses) := rfl
      rw [List.forall_mem_cons, hcons]
      by_cases hdeclines : Declines holds hop statuses
      · rw [if_pos hdeclines]
        refine iff_of_false (fun hsame => ?_) fun hnone => hnone.1 hdeclines
        have hskipped : decline statuses hop hop.id = some .skipped := recordStatus_self
        have hkept : declinePass holds rest (decline statuses hop) hop.id =
            decline statuses hop hop.id :=
          (onlySkips_declinePass holds rest (decline statuses hop)).terminal (.inr (.inl hskipped))
        rw [hsame, hskipped, hdeclines.1] at hkept
        cases hkept
      · rw [if_neg hdeclines, ih]
        exact ⟨fun hrest => ⟨hdeclines, hrest⟩, And.right⟩

theorem declinePass_of_unconditional {hops : List Hop}
    (hconditions : ∀ hop ∈ hops, hop.condition = none) (statuses : Statuses) :
    declinePass holds hops statuses = statuses := by
  refine declinePass_eq_self_iff.2 fun hop hhop hdeclines => ?_
  obtain ⟨-, -, condition, hcondition, -⟩ := hdeclines
  rw [hconditions hop hhop] at hcondition
  cases hcondition

theorem onlySkips_settle : OnlySkips (recordStatus statuses hopId status)
      (settle holds definition statuses hopId status) :=
  onlySkips_afterEvent.trans (onlySkips_declinePass _ _ _)

theorem openJoins_cases (definition : WorkflowDefinition) (statuses : Statuses) (id : String) :
    openJoins definition statuses id = statuses id ∧
        (¬∃ hop ∈ definition.hops, hop.id = id ∧ Opens hop statuses) ∨
      statuses id = some .pending ∧ openJoins definition statuses id = some .ready ∧
        ∃ hop ∈ definition.hops, hop.id = id ∧ Opens hop statuses := by
  unfold openJoins
  split
  · rename_i hopens
    obtain ⟨hop, hhop, rfl, hopen⟩ := hopens
    exact .inr ⟨hopen.1, rfl, hop, hhop, rfl, hopen⟩
  · rename_i hclosed
    exact .inl ⟨rfl, hclosed⟩

theorem openJoins_terminal_iff (id : String) :
    IsTerminal (openJoins definition statuses id) ↔ IsTerminal (statuses id) := by
  rcases openJoins_cases definition statuses id with ⟨h, -⟩ | ⟨hpending, hready, -⟩
  · rw [h]
  · simp [hpending, hready, IsTerminal]

theorem openJoins_keepsTerminal (definition : WorkflowDefinition) (statuses : Statuses) :
    KeepsTerminal statuses (openJoins definition statuses) := by
  intro id hterminal
  rcases openJoins_cases definition statuses id with ⟨hsame, -⟩ | ⟨hpending, -⟩
  · exact hsame
  · simp [hpending, IsTerminal] at hterminal

theorem recordStatus_keepsTerminal (hopen : ¬IsTerminal (statuses hopId)) :
    KeepsTerminal statuses (recordStatus statuses hopId status) := by
  intro id hterminal
  refine recordStatus_of_ne fun heq => hopen ?_
  rwa [← heq]

theorem openJoins_isSome (id : String) :
    (openJoins definition statuses id).isSome ↔ (statuses id).isSome := by
  rcases openJoins_cases definition statuses id with ⟨h, -⟩ | ⟨hpending, hready, -⟩
  · rw [h]
  · simp [hpending, hready]

theorem pending_of_advance {id : String}
    (hpending : advance holds definition statuses hopId status id = some .pending) :
    settle holds definition statuses hopId status id = some .pending ∧
      ¬∃ hop ∈ definition.hops, hop.id = id ∧
        Opens hop (settle holds definition statuses hopId status) := by
  rcases openJoins_cases definition (settle holds definition statuses hopId status) id with
    ⟨hsame, hclosed⟩ | ⟨-, hready, -⟩
  · exact ⟨hsame ▸ hpending, hclosed⟩
  · rw [advance, hready] at hpending
    cases hpending

theorem freshStatus_cases (hop : Hop) : hop.dependsOn = [] ∧ freshStatus hop = .ready ∨
      hop.dependsOn ≠ [] ∧ freshStatus hop = .pending := by
  by_cases hroot : hop.dependsOn = []
  · exact .inl ⟨hroot, by simp [freshStatus, Hop.isRoot, hroot]⟩
  · exact .inr ⟨hroot, by simp [freshStatus, Hop.isRoot, hroot]⟩

theorem freshStatus_open (hop : Hop) : freshStatus hop = .ready ∨ freshStatus hop = .pending :=
  (freshStatus_cases hop).imp And.right And.right

theorem not_terminal_freshStatus (hop : Hop) : ¬IsTerminal (some (freshStatus hop)) := by
  rcases freshStatus_cases hop with ⟨-, h⟩ | ⟨-, h⟩ <;> simp [h, IsTerminal]

theorem resetStatus_open (set : List String) (statuses : Statuses) (hop : Hop) :
    resetStatus set statuses hop = .ready ∨ resetStatus set statuses hop = .pending := by
  unfold resetStatus
  split
  · exact .inl rfl
  · split
    · exact .inl rfl
    · exact .inr rfl

theorem not_terminal_resetStatus (set : List String) (statuses : Statuses) (hop : Hop) :
    ¬IsTerminal (some (resetStatus set statuses hop)) := by
  rcases resetStatus_open set statuses hop with h | h <;> simp [h, IsTerminal]

end Steps

section Tracked

variable {definition : WorkflowDefinition} {state next : WorkflowState}

theorem statusOf_markDispatched (hop : Hop) (state : WorkflowState) (sessionId timestamp : String) :
    statusOf (markDispatched hop state sessionId timestamp).hops =
      recordStatus (statusOf state.hops) hop.id .dispatched := by
  funext id
  rw [markDispatched, statusOf_set, recordStatus, Function.update_apply]
  simp only [eq_comm]

theorem recordStatus_isSome {statuses : Statuses} {hopId : String} {status : HopStatus}
    (hsome : (statuses hopId).isSome) (id : String) :
    (recordStatus statuses hopId status id).isSome ↔ (statuses id).isSome := by
  by_cases heq : id = hopId
  · subst heq
    simp [recordStatus_self, hsome]
  · rw [recordStatus_of_ne heq]

theorem WorkflowMove.tracks {step : WorkflowStep} (htracks : Tracks definition state.hops)
    (hmove : WorkflowMove definition state step next) : Tracks definition next.hops := by
  cases hmove with
  | dispatch hhop hready =>
      refine htracks.of_statusOf fun id => ?_
      rw [statusOf_markDispatched]
      exact recordStatus_isSome (by simp [hready]) id
  | advance hhop _ hdispatched _ _ hstatuses =>
      refine htracks.of_statusOf fun id => ?_
      rw [hstatuses, Aof.advance, openJoins_isSome, onlySkips_settle.isSome]
      exact recordStatus_isSome (by simp [hdispatched]) id
  | trip hhop _ hdispatched _ _ _ hstatuses =>
      refine htracks.of_statusOf fun id => ?_
      rw [hstatuses, onlySkips_fall.isSome]
      exact recordStatus_isSome (by simp [hdispatched]) id
  | restart _ _ _ _ _ _ _ hhops =>
      intro id
      rw [hhops, Option.isSome_map, Option.isSome_iff_ne_none, WorkflowDefinition.findHop, Ne,
        find?_id_eq_none, not_not]
  | restartPredecessors hhop _ _ _ _ _ _ hhops =>
      intro id
      rw [hhops]
      split
      · rw [Option.isSome_map, Option.isSome_iff_ne_none, WorkflowDefinition.findHop, Ne,
          find?_id_eq_none, not_not]
      · exact htracks id

theorem Reachable.tracks (hwf : WellFormed definition) (hreach : Reachable definition state) :
    Tracks definition state.hops := by
  obtain ⟨steps, hrun⟩ := hreach
  refine hrun.invariant (fun state => Tracks definition state.hops) ?_
    (tracks_initializeWorkflowState hwf)
  exact fun _ _ _ htracks _ hstep => (workflowMove_of_step hwf htracks hstep).tracks htracks

end Tracked

end Aof
