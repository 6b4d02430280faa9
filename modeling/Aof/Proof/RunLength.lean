import Aof.Proof.RejectionCount
import Mathlib.Algebra.Order.BigOperators.Group.List

/-!
# The length of a run

Between two rejections every hop goes its way once: it opens or is skipped, it is dispatched, it
ends.  Each step takes a hop further unless it is a rejection, which may send all of them back.
-/

namespace Aof

open Relation (ReflTransGen)
open StepSystem (FreeRun)

/-- One step on the way of a hop. -/
inductive HopAdvance : Option HopStatus → Option HopStatus → Prop
  | opens : HopAdvance (some .pending) (some .ready)
  | skips : HopAdvance (some .pending) (some .skipped)
  | starts : HopAdvance (some .ready) (some .dispatched)
  | completes : HopAdvance (some .dispatched) (some .complete)
  | fails : HopAdvance (some .dispatched) (some .failed)

/-- No hop is further back on its way. -/
def Forward (before after : Statuses) : Prop := ∀ id, ReflTransGen HopAdvance (before id) (after id)

instance : IsPreorder Statuses Forward where
  refl _ _ := .refl
  trans _ _ _ hab hbc id := (hab id).trans (hbc id)

/-- The steps that a hop still has to come under; that it opens is the work of another hop. -/
def stepsLeft : Option HopStatus → Nat
  | some .pending | some .ready => 2
  | some .dispatched => 1
  | _ => 0

def workLeft (definition : WorkflowDefinition) (statuses : Statuses) : Nat :=
  (definition.hops.map fun hop => stepsLeft (statuses hop.id)).sum

section

variable {before after statuses : Statuses} {definition : WorkflowDefinition}

theorem Forward.stepsLeft_le (hforward : Forward before after) (id : String) :
    stepsLeft (after id) ≤ stepsLeft (before id) := by
  have hpath := hforward id
  generalize after id = status at hpath ⊢
  induction hpath with
  | refl => exact le_rfl
  | tail _ hadvance ih =>
      refine le_trans ?_ ih
      cases hadvance <;> decide

theorem OnlySkips.forward (hskips : OnlySkips before after) : Forward before after := by
  intro id
  rcases hskips id with hsame | ⟨hpending, hskipped⟩
  · rw [hsame]
  · rw [hpending, hskipped]
    exact .single .skips

theorem forward_recordStatus {hopId : String} {new : HopStatus}
    (hadvance : HopAdvance (statuses hopId) (some new)) :
    Forward statuses (recordStatus statuses hopId new) := by
  intro id
  by_cases heq : id = hopId
  · subst heq
    rw [recordStatus_self]
    exact .single hadvance
  · rw [recordStatus_of_ne heq]

theorem forward_openJoins (definition : WorkflowDefinition) (statuses : Statuses) :
    Forward statuses (openJoins definition statuses) := by
  intro id
  rcases openJoins_cases definition statuses id with ⟨hsame, -⟩ | ⟨hpending, hready, -⟩
  · rw [hsame]
  · rw [hpending, hready]
    exact .single .opens

theorem workLeft_le (definition : WorkflowDefinition) (statuses : Statuses) :
    workLeft definition statuses ≤ 2 * definition.hops.length := by
  have hbound : ∀ steps ∈ definition.hops.map fun hop => stepsLeft (statuses hop.id),
      steps ≤ 2 := by
    intro steps hsteps
    obtain ⟨hop, -, rfl⟩ := List.mem_map.mp hsteps
    unfold stepsLeft
    split <;> omega
  calc workLeft definition statuses
      ≤ (definition.hops.map fun hop => stepsLeft (statuses hop.id)).length • 2 :=
        List.sum_le_card_nsmul _ 2 hbound
    _ = 2 * definition.hops.length := by rw [List.length_map, Nat.nsmul_eq_mul, Nat.mul_comm]

theorem Forward.workLeft_lt (hforward : Forward before after) {hop : Hop}
    (hhop : hop ∈ definition.hops) (hless : stepsLeft (after hop.id) < stepsLeft (before hop.id)) :
    workLeft definition after < workLeft definition before :=
  List.sum_lt_sum _ _ (fun other _ => hforward.stepsLeft_le other.id) ⟨hop, hhop, hless⟩

variable {state next : WorkflowState} {step : WorkflowStep}

/-- A step that is no rejection takes every hop forward, and the hop that it is about further. -/
theorem WorkflowMove.forward (hmove : WorkflowMove definition state step next)
    (hnone : step.rejectedHop = none) : Forward (statusOf state.hops) (statusOf next.hops) ∧
      workLeft definition (statusOf next.hops) < workLeft definition (statusOf state.hops) := by
  cases hmove with
  | @dispatch hop sessionId timestamp hhop hready =>
      rw [statusOf_markDispatched]
      have hforward : Forward (statusOf state.hops)
          (recordStatus (statusOf state.hops) hop.id .dispatched) :=
        forward_recordStatus (hready ▸ .starts)
      refine ⟨hforward, hforward.workLeft_lt hhop ?_⟩
      rw [recordStatus_self, hready]
      decide
  | @advance hop event task timestamp next hhop hid hdispatched houtcome _ hstatuses =>
      have hadvance : HopAdvance (statusOf state.hops hop.id) (some event.outcome.toStatus) := by
        rcases houtcome with h | h <;> rw [h, hdispatched]
        · exact .completes
        · exact .fails
      have hforward : Forward (statusOf state.hops) (statusOf next.hops) := by
        rw [hstatuses]
        apply trans_of Forward (forward_recordStatus hadvance)
        exact trans_of Forward onlySkips_settle.forward (forward_openJoins definition _)
      refine ⟨hforward, hforward.workLeft_lt hhop ?_⟩
      have hover : IsTerminal (some event.outcome.toStatus) := by
        rcases houtcome with h | h <;> rw [h] <;> decide
      have hends : statusOf next.hops hop.id = some event.outcome.toStatus := by
        rw [hstatuses, Aof.advance, openJoins_keepsTerminal _ _ hop.id] <;>
          rw [onlySkips_settle.terminal] <;> rw [recordStatus_self] <;> exact hover
      rw [hends, hdispatched]
      rcases houtcome with h | h <;> rw [h] <;> decide
  | trip _ _ _ houtcome | restart _ _ _ houtcome | restartPredecessors _ _ _ houtcome =>
      simp [WorkflowStep.rejectedHop, houtcome] at hnone

theorem WorkflowMove.work_pos (hmove : WorkflowMove definition state step next) :
    0 < workLeft definition (statusOf state.hops) := by
  have hpos : ∀ {hop : Hop} {status : HopStatus}, hop ∈ definition.hops →
      statusOf state.hops hop.id = some status → 0 < stepsLeft (some status) →
      0 < workLeft definition (statusOf state.hops) := by
    intro hop status hhop hstatus hleft
    refine lt_of_lt_of_le hleft ?_
    rw [← hstatus]
    exact List.le_sum_of_mem (List.mem_map_of_mem hhop)
  cases hmove with
  | dispatch hhop hready => exact hpos hhop hready (by decide)
  | advance hhop _ hdispatched | trip hhop _ hdispatched | restart hhop _ hdispatched
  | restartPredecessors hhop _ hdispatched => exact hpos hhop hdispatched (by decide)

variable {steps more : List WorkflowStep} {later : WorkflowState}

/-- A run has at most two steps for each hop, and as many again for each rejection. -/
theorem run_length_le (haccepted : validateDAG definition = [])
    (hrun : FreeRun (workflowStep definition) (initializeWorkflowState definition) steps state) :
    steps.length + workLeft definition (statusOf state.hops) ≤
      2 * definition.hops.length * ((rejections steps).length + 1) := by
  have hwf := WellFormed.of_validateDAG haccepted
  refine (hrun.invariant_trace (fun steps state => Tracks definition state.hops ∧
    steps.length + workLeft definition (statusOf state.hops) ≤
      2 * definition.hops.length * ((rejections steps).length + 1)) ?_
    ⟨tracks_initializeWorkflowState hwf, ?_⟩).2
  · intro steps state step next hinv _ hstep
    have hmove := workflowMove_of_step hwf hinv.1 hstep
    refine ⟨hmove.tracks hinv.1, ?_⟩
    have hbound := hinv.2
    rw [List.length_append, List.length_singleton, rejections_snoc, List.length_append]
    cases hrejected : step.rejectedHop with
    | none =>
        have hless := (hmove.forward hrejected).2
        simp only [Option.toList_none, List.length_nil, Nat.add_zero]
        omega
    | some hopId =>
        have hpos := hmove.work_pos
        have hmost := workLeft_le definition (statusOf next.hops)
        rw [Option.toList_some, List.length_singleton, Nat.mul_add _ (_ + 1)]
        omega
  · simpa [rejections] using workLeft_le definition _

end

def reviewed : WorkflowDefinition where
  name := "reviewed"
  hops := [{ id := "implement", role := "swe" },
    { id := "qa", role := "qa", dependsOn := ["implement"], canReject := true }]

def built : List WorkflowStep :=
  [.dispatch "implement" "s1" "t1", .evaluate ⟨"implement", .complete, none⟩ plainTask "t2"]

theorem built_run : ∃ state,
    FreeRun (workflowStep reviewed) (initializeWorkflowState reviewed) built state ∧
      ∃ later, FreeRun (workflowStep reviewed) state [.dispatch "qa" "s2" "t3"] later :=
  ⟨_, .head trivial rfl (.head trivial rfl (.refl _)), _, .head trivial rfl (.refl _)⟩

theorem built_length : ∃ state : WorkflowState,
    built.length + workLeft reviewed (statusOf state.hops) ≤ 2 * 2 * 1 := by
  obtain ⟨state, hrun, -⟩ := built_run
  exact ⟨state, run_length_le (by decide) hrun⟩

end Aof
