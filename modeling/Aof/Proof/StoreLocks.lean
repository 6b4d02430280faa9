import Aof.Store.TaskLifecycle

/-!
# The locks of the task store are fair

A call goes through a few phases, and its phase gives all promises and microtasks that it has.
-/

namespace Aof

namespace TaskLocks

open KeyedLock LockChain Promises

/-- `link` is the call that awaits this one. -/
inductive Phase (Outcome : Type) where
  | absent
  | waiting (prior : Nat) (link : Option Nat)
  | resumed (outcome : Outcome) (link : Option Nat)
  | entered (body : Option Outcome) (link : Option Nat)
  | running (link : Option Nat)
  | ended (outcome : Outcome) (link : Option Nat)
  | settled (outcome : Outcome) (thrown : Bool)
  | left (outcome : Outcome) (thrown : Bool)
  | told (outcome : Outcome) (thrown : Bool)

section Tables

variable {Outcome : Type}

def promised (ours op result : Option (Settlement LockReaction Outcome)) :
    LockPromise → Option (Settlement LockReaction Outcome)
  | .ours => ours
  | .op => op
  | .result => result

def awaiting (call : Nat) (link : Option Nat) : Option (Settlement LockReaction Outcome) :=
  some (.pending ((call, .leave) :: link.toList.map fun next => (next, .resume)))

def listening (call : Nat) : Option (Settlement LockReaction Outcome) :=
  some (.pending [(call, .tell)])

def returned (outcome : Outcome) (thrown : Bool) : Option (Settlement LockReaction Outcome) :=
  if thrown then none else some (.settled outcome)

namespace Phase

def cell (call : Nat) : Phase Outcome → Cell LockPromise LockReaction Outcome
  | absent => {}
  | waiting _ link => ⟨promised (awaiting call link) none (listening call), []⟩
  | resumed outcome link =>
      ⟨promised (awaiting call link) none (listening call), [.react .resume outcome]⟩
  | entered none link =>
      ⟨promised (awaiting call link) (some (.pending [])) (listening call), [.adopt .op .follow]⟩
  | entered (some outcome) link =>
      ⟨promised (awaiting call link) (some (.settled outcome)) (listening call),
        [.adopt .op .follow]⟩
  | running link =>
      ⟨promised (awaiting call link) (some (.pending [(call, .follow)])) (listening call), []⟩
  | ended outcome link =>
      ⟨promised (awaiting call link) (some (.settled outcome)) (listening call),
        [.react .follow outcome]⟩
  | settled outcome thrown =>
      ⟨promised (some (.settled outcome)) (returned outcome thrown) (listening call),
        [.react .leave outcome]⟩
  | left outcome thrown =>
      ⟨promised (some (.settled outcome)) (returned outcome thrown) (some (.settled outcome)),
        [.react .tell outcome]⟩
  | told outcome thrown =>
      ⟨promised (some (.settled outcome)) (returned outcome thrown) (some (.settled outcome)), []⟩

def view : Phase Outcome → View Outcome
  | absent => {}
  | waiting prior link => { prior := some prior, link }
  | resumed _ link => { link }
  | entered body link => { link, started := true, outcome := body }
  | running link => { link, started := true }
  | ended outcome link => { link, started := true, outcome := some outcome }
  | settled outcome _ => { started := true, outcome := some outcome, settled := true }
  | left outcome _ =>
      { started := true, outcome := some outcome, settled := true, cleaned := true }
  | told outcome _ =>
      { started := true, outcome := some outcome, settled := true, cleaned := true, told := true }

def spent : Phase Outcome → Nat
  | absent => 0
  | waiting .. => 0
  | resumed .. => 0
  | entered .. => 1
  | running _ => 2
  | ended .. => 2
  | settled .. => 3
  | left .. => 4
  | told .. => 5

def isAbsent : Phase Outcome → Bool
  | absent => true
  | _ => false

theorem ne_absent {phase : Phase Outcome} (hmade : phase.isAbsent = false) : phase ≠ .absent := by
  rintro rfl
  cases hmade

end Phase

end Tables

variable {Value Error : Type} {state next : State Value Error}
  {phases : Nat → Phase (Except Error Value)}

def table : PhaseTable (Phase (Except Error Value)) LockPromise LockReaction
    (Except Error Value) where
  absent := .absent
  cell := Phase.cell
  view := Phase.view
  spent := Phase.spent

section Updates

variable {Outcome : Type} {ours op result settlement : Option (Settlement LockReaction Outcome)}

@[simp]
theorem update_ours :
    Function.update (promised ours op result) .ours settlement =
      promised settlement op result := by
  funext name
  cases name <;> rfl

@[simp]
theorem update_op :
    Function.update (promised ours op result) .op settlement =
      promised ours settlement result := by
  funext name
  cases name <;> rfl

@[simp]
theorem update_result :
    Function.update (promised ours op result) .result settlement =
      promised ours op settlement := by
  funext name
  cases name <;> rfl

end Updates

section Ticks

variable {call : Nat} {link : Option Nat} {outcome : Except Error Value}

variable {phase : Phase (Except Error Value)} {thrown : Bool}

theorem view_eq (hphase : phases call = phase) : table.view (phases call) = phase.view := by
  rw [hphase]
  rfl

theorem ne_absent (hphase : phases call = phase) (hmade : phase.isAbsent = false) :
    phases call ≠ table.absent := by
  rw [hphase]
  exact Phase.ne_absent hmade

theorem Phase.waiting_of_prior {first : Nat} (hprior : phase.view.prior = some first) :
    ∃ beyond, phase = .waiting first beyond := by
  cases phase with
  | waiting prior beyond =>
      obtain rfl : prior = first := Option.some.inj hprior
      exact ⟨beyond, rfl⟩
  | _ => cases hprior

variable (hphases : InPhases table state phases)
include hphases

theorem onward_waits {onward : Nat} (hlink : (table.view (phases call)).link = some onward) :
    (∃ beyond, phases onward = .waiting call beyond) ∧ onward ≠ call := by
  have hprior := (hphases.orderly.chained.linked call onward).mp hlink
  refine ⟨Phase.waiting_of_prior hprior, ?_⟩
  have hbefore := (hphases.orderly.chained.behind onward call hprior).1
  omega

theorem tick_resumed (hphase : phases call = .resumed outcome link)
    (hstep : lockStep program state (.tick call) = some next) :
    ∃ phases', InPhases table next phases' ∧ Advanced table phases phases' call := by
  have hcell := hphases.heap call
  have hmade := ne_absent hphase rfl
  have hlt := (hphases.made call).mpr hmade
  have hview := view_eq hphase
  rw [hphase] at hcell
  rw [tick_react hcell] at hstep
  obtain rfl := Option.some.inj hstep
  simp only [program, react, callOp, LockState.start]
  split
  · rename_i error _
    cases link with
    | none =>
        refine ⟨Function.update phases call (.settled (.error error) true), ?_,
          advanced_update ?_⟩
        · apply hphases.update
          · exact hphases.known hmade
          · exact (Heap.settle_own rfl _).trans (by rw [update_ours]; rfl)
          · exact Phase.ne_absent rfl
          · have hfailed := hphases.orderly.fail hview hlt rfl rfl rfl (.error error)
            have hsettled := hfailed.settle (Function.update_self _ _ _) (Option.some_ne_none _) rfl
            rwa [Function.update_idem] at hsettled
        · rw [hphase]
          exact Nat.zero_lt_succ 2
    | some onward =>
        obtain ⟨⟨beyond, honward⟩, hne⟩ := onward_waits hphases (congrArg View.link hview)
        refine ⟨Function.update (Function.update phases call (.settled (.error error) true)) onward
          (.resumed (.error error) beyond), ?_, advanced_update_two hne ?_ ?_⟩
        · apply hphases.update_two
          · exact hphases.known (ne_absent honward rfl)
          · exact hmade
          · exact (Heap.settle_own_next hne rfl _).trans
              (by rw [update_ours, hphases.heap onward, honward]; rfl)
          · exact Phase.ne_absent rfl
          · exact Phase.ne_absent rfl
          · have hfailed := hphases.orderly.fail hview hlt rfl rfl rfl (.error error)
            have hreleased := hfailed.release (Function.update_self _ _ _)
              ((Function.update_of_ne hne _ _).trans (view_eq honward)) rfl (Option.some_ne_none _)
            rwa [Function.update_idem] at hreleased
        · rw [hphase]
          exact Nat.zero_lt_succ 2
        · rw [honward]
          exact Nat.le_refl 0
  · refine ⟨Function.update phases call (.entered none link), ?_, advanced_update ?_⟩
    · apply hphases.update
      · exact hphases.known hmade
      · dsimp only [Heap.create]
        rw [Heap.put_update, Heap.enqueue_update, update_op]
        rfl
      · exact Phase.ne_absent rfl
      · exact hphases.orderly.start hview hlt rfl rfl
    · rw [hphase]
      exact Nat.zero_lt_succ 0

theorem tick_entered {body : Option (Except Error Value)}
    (hphase : phases call = .entered body link)
    (hstep : lockStep program state (.tick call) = some next) :
    ∃ phases', InPhases table next phases' ∧ Advanced table phases phases' call := by
  have hcell := hphases.heap call
  have hmade := ne_absent hphase rfl
  rw [hphase] at hcell
  cases body with
  | none =>
      rw [tick_adopt hcell] at hstep
      obtain rfl := Option.some.inj hstep
      refine ⟨Function.update phases call (.running link), ?_, advanced_update ?_⟩
      · apply hphases.quiet hmade
        · exact Phase.ne_absent rfl
        · exact (view_eq hphase).symm
        · rw [Heap.subscribe_pending rfl, update_op]
          rfl
      · rw [hphase]
        exact Nat.lt_succ_self 1
  | some outcome =>
      rw [tick_adopt hcell] at hstep
      obtain rfl := Option.some.inj hstep
      refine ⟨Function.update phases call (.ended outcome link), ?_, advanced_update ?_⟩
      · apply hphases.quiet hmade
        · exact Phase.ne_absent rfl
        · exact (view_eq hphase).symm
        · rw [Heap.subscribe_settled rfl]
          rfl
      · rw [hphase]
        exact Nat.lt_succ_self 1

theorem tick_ended (hphase : phases call = .ended outcome link)
    (hstep : lockStep program state (.tick call) = some next) :
    ∃ phases', InPhases table next phases' ∧ Advanced table phases phases' call := by
  have hcell := hphases.heap call
  have hmade := ne_absent hphase rfl
  have hview := view_eq hphase
  rw [hphase] at hcell
  rw [tick_react hcell] at hstep
  obtain rfl := Option.some.inj hstep
  cases link with
  | none =>
      refine ⟨Function.update phases call (.settled outcome false), ?_, advanced_update ?_⟩
      · apply hphases.update
        · exact hphases.known hmade
        · exact (Heap.settle_own rfl outcome).trans (by rw [update_ours]; rfl)
        · exact Phase.ne_absent rfl
        · have hsettled := hphases.orderly.settle hview (Option.some_ne_none _) rfl
          exact hsettled
      · rw [hphase]
        exact Nat.lt_succ_self 2
  | some onward =>
      obtain ⟨⟨beyond, honward⟩, hne⟩ := onward_waits hphases (congrArg View.link hview)
      refine ⟨Function.update (Function.update phases call (.settled outcome false)) onward
        (.resumed outcome beyond), ?_, advanced_update_two hne ?_ ?_⟩
      · apply hphases.update_two
        · exact hphases.known (ne_absent honward rfl)
        · exact hmade
        · exact (Heap.settle_own_next hne rfl _).trans
            (by rw [update_ours, hphases.heap onward, honward]; rfl)
        · exact Phase.ne_absent rfl
        · exact Phase.ne_absent rfl
        · have hreleased := hphases.orderly.release hview (view_eq honward) rfl (Option.some_ne_none _)
          exact hreleased
      · rw [hphase]
        exact Nat.lt_succ_self 2
      · rw [honward]
        exact Nat.le_refl 0

theorem tick_settled (hphase : phases call = .settled outcome thrown)
    (hstep : lockStep program state (.tick call) = some next) :
    ∃ phases', InPhases table next phases' ∧ Advanced table phases phases' call := by
  have hcell := hphases.heap call
  have hmade := ne_absent hphase rfl
  have hlt := (hphases.made call).mpr hmade
  have hkey : state.keys[call]? = some state.keys[call] := List.getElem?_eq_getElem hlt
  rw [hphase] at hcell
  rw [tick_react hcell] at hstep
  obtain rfl := Option.some.inj hstep
  refine ⟨Function.update phases call (.left outcome thrown), ?_, advanced_update ?_⟩
  · dsimp only [program, react, LockState.settle]
    rw [LockState.deleteEntry_eq hkey]
    apply hphases.update
    · exact hphases.known hmade
    · exact (Heap.settle_own rfl outcome).trans (by rw [update_result]; rfl)
    · exact Phase.ne_absent rfl
    · have hcleaned := hphases.orderly.clean (view_eq hphase) hkey (Option.some_ne_none _)
      exact hcleaned
  · rw [hphase]
    exact Nat.lt_succ_self 3

theorem tick_left (hphase : phases call = .left outcome thrown)
    (hstep : lockStep program state (.tick call) = some next) :
    ∃ phases', InPhases table next phases' ∧ Advanced table phases phases' call := by
  have hcell := hphases.heap call
  rw [hphase] at hcell
  rw [tick_react hcell] at hstep
  obtain rfl := Option.some.inj hstep
  refine ⟨Function.update phases call (.told outcome thrown), ?_, advanced_update ?_⟩
  · apply hphases.update
    · exact hphases.known (ne_absent hphase rfl)
    · rfl
    · exact Phase.ne_absent rfl
    · have htold := hphases.orderly.tell (view_eq hphase) rfl rfl rfl
      exact htold
  · rw [hphase]
    exact Nat.lt_succ_self 4

theorem phases_tick (hstep : lockStep program state (.tick call) = some next) :
    ∃ phases', InPhases table next phases' ∧ Advanced table phases phases' call := by
  have hcell := hphases.heap call
  cases hphase : phases call with
  | absent | waiting | running | told =>
      rw [hphase] at hcell
      rw [tick_idle hcell] at hstep
      cases hstep
  | resumed => exact tick_resumed hphases hphase hstep
  | entered => exact tick_entered hphases hphase hstep
  | ended => exact tick_ended hphases hphase hstep
  | settled => exact tick_settled hphases hphase hstep
  | left => exact tick_left hphases hphase hstep

end Ticks

variable {Outcome : Type} {call first : Nat} {outcome : Except Error Value} {id : String}

theorem returned_ne_pending (outcome : Outcome) (thrown : Bool)
    (reactions : List (Nat × LockReaction)) :
    returned outcome thrown ≠ some (.pending reactions) := by
  intro hpending
  cases thrown <;> cases hpending

theorem phases_settle (hphases : InPhases table state phases)
    (hstep : lockStep program state (.settle call outcome) = some next) :
    ∃ phases', InPhases table next phases' ∧
      ∀ other, table.spent (phases other) ≤ table.spent (phases' other) := by
  obtain ⟨⟨reactions, hpending⟩, rfl⟩ := settle_eq_some hstep
  have hcell := hphases.heap call
  rw [hcell] at hpending ⊢
  cases hphase : phases call with
  | entered body link =>
      rw [hphase] at hpending
      cases body with
      | none =>
          refine ⟨Function.update phases call (.entered (some outcome) link), ?_, ?_⟩
          · apply hphases.update
            · exact hphases.known (ne_absent hphase rfl)
            · exact (Heap.settle_alone rfl outcome).trans (by
                dsimp only [table, program, Phase.cell]
                rw [update_op])
            · exact Phase.ne_absent rfl
            · have hfinished := hphases.orderly.finish (view_eq hphase) outcome rfl rfl
              exact hfinished
          · apply spent_update_le
            rw [hphase]
            exact Nat.le_refl 1
      | some settled => cases hpending
  | running link =>
      refine ⟨Function.update phases call (.ended outcome link), ?_, ?_⟩
      · apply hphases.update
        · exact hphases.known (ne_absent hphase rfl)
        · exact (Heap.settle_own rfl outcome).trans (by
            dsimp only [table, program, Phase.cell]
            rw [update_op]
            rfl)
        · exact Phase.ne_absent rfl
        · have hfinished := hphases.orderly.finish (view_eq hphase) outcome rfl rfl
          exact hfinished
      · apply spent_update_le
        rw [hphase]
        exact Nat.le_refl 2
  | settled settled thrown | left settled thrown | told settled thrown =>
      rw [hphase] at hpending
      exact absurd hpending (returned_ne_pending settled thrown reactions)
  | absent | waiting | resumed | ended =>
      rw [hphase] at hpending
      cases hpending

theorem created_eq :
    (created : LockPromise → Option (Settlement LockReaction (Except Error Value))) =
      promised (some (.pending [])) none (some (.pending [])) := by
  funext name
  cases name <;> rfl

theorem run_throws (hentry : state.entries id = none) (error : Error) :
    run state id (some error) =
      { calls := state.calls ++ [⟨id, some error⟩]
        entries := Function.update state.entries id (some state.calls.length)
        heap := Function.update state.heap state.calls.length
          ((Phase.settled (.error error) true).cell state.calls.length)
        trace := .finished state.calls.length (.error error) ::
          .started state.calls.length :: state.trace } := by
  dsimp only [run]
  rw [hentry]
  dsimp only [callOp, LockState.enter]
  rw [start_new_throws]
  dsimp only [LockState.setEntry, LockState.subscribe]
  rw [created_eq, Heap.settle_alone rfl, update_ours, Heap.subscribe_settled rfl,
    Heap.subscribe_pending rfl, update_result]
  rfl

theorem run_returns (hentry : state.entries id = none) :
    run state id none =
      { calls := state.calls ++ [⟨id, none⟩]
        entries := Function.update state.entries id (some state.calls.length)
        heap := Function.update state.heap state.calls.length
          ((Phase.entered none none).cell state.calls.length)
        trace := .started state.calls.length :: state.trace } := by
  dsimp only [run]
  rw [hentry]
  dsimp only [callOp, LockState.enter]
  rw [start_new_returns]
  dsimp only [LockState.setEntry, LockState.subscribe, Heap.create]
  rw [created_eq, Heap.put_update, Heap.enqueue_update, update_op, Heap.subscribe_pending rfl,
    update_ours, Heap.subscribe_pending rfl, update_result]
  rfl

theorem run_waits (hentry : state.entries id = some first) (hne : first ≠ state.calls.length)
    (hwaiting : (state.heap first).promises .ours = awaiting first none) (thrown : Option Error) :
    run state id thrown =
      { calls := state.calls ++ [⟨id, thrown⟩]
        entries := Function.update state.entries id (some state.calls.length)
        heap := Function.update
          (Function.update state.heap first
            { state.heap first with
              promises := Function.update (state.heap first).promises .ours
                (awaiting first (some state.calls.length)) })
          state.calls.length ((Phase.waiting first none).cell state.calls.length)
        trace := state.trace } := by
  dsimp only [run]
  rw [hentry]
  dsimp only [LockState.enter, LockState.setEntry, LockState.subscribe]
  rw [Heap.subscribe_pending_other hne hwaiting, created_eq, Heap.subscribe_pending rfl,
    update_ours, Heap.subscribe_pending rfl, update_result]
  rfl

theorem run_resumes (hentry : state.entries id = some first) (hne : first ≠ state.calls.length)
    (hsettled : (state.heap first).promises .ours = some (.settled outcome))
    (thrown : Option Error) :
    run state id thrown =
      { calls := state.calls ++ [⟨id, thrown⟩]
        entries := Function.update state.entries id (some state.calls.length)
        heap := Function.update state.heap state.calls.length
          ((Phase.resumed outcome none).cell state.calls.length)
        trace := state.trace } := by
  dsimp only [run]
  rw [hentry]
  dsimp only [LockState.enter, LockState.setEntry, LockState.subscribe]
  rw [Heap.subscribe_settled_other hne hsettled, created_eq, Heap.subscribe_pending rfl,
    update_ours, Heap.subscribe_pending rfl, update_result]
  rfl

theorem phases_free (hphases : InPhases table state phases) (hentry : state.entries id = none)
    (thrown : Option Error) :
    ∃ phases', InPhases table (run state id thrown) phases' ∧
      ∀ other, table.spent (phases other) ≤ table.spent (phases' other) := by
  have hentered := hphases.orderly.enter fun first => hphases.orderly.chained.free id first hentry
  have hnew := hphases.orderly.chained.fresh state.keys.length (Nat.le_refl _)
  have hlt : state.keys.length < (state.keys ++ [id]).length := by simp
  cases thrown with
  | some error =>
      rw [run_throws hentry, ← state.keys_length]
      refine ⟨Function.update phases state.keys.length (.settled (.error error) true), ?_, ?_⟩
      · apply hphases.enter rfl rfl
        · exact Phase.ne_absent rfl
        have hfailed := hentered.fail hnew hlt rfl rfl rfl (.error error)
        have hsettled := hfailed.settle (Function.update_self _ _ _) (Option.some_ne_none _) rfl
        rwa [Function.update_idem] at hsettled
      · apply spent_update_le
        rw [hphases.absent_new]
        exact Nat.zero_le _
  | none =>
      rw [run_returns hentry, ← state.keys_length]
      refine ⟨Function.update phases state.keys.length (.entered none none), ?_, ?_⟩
      · apply hphases.enter rfl rfl
        · exact Phase.ne_absent rfl
        have hstarted := hentered.start hnew hlt rfl rfl
        exact hstarted
      · apply spent_update_le
        rw [hphases.absent_new]
        exact Nat.zero_le _

def Phase.linked {Outcome : Type} (onward : Nat) : Phase Outcome → Phase Outcome
  | .waiting prior _ => .waiting prior (some onward)
  | .resumed outcome _ => .resumed outcome (some onward)
  | .entered body _ => .entered body (some onward)
  | .running _ => .running (some onward)
  | .ended outcome _ => .ended outcome (some onward)
  | phase => phase

section Linked

variable {Outcome : Type} {phase : Phase Outcome} {onward call : Nat}

theorem Phase.linked_ne_absent (hmade : phase ≠ .absent) : phase.linked onward ≠ .absent := by
  cases phase with
  | absent => exact absurd rfl hmade
  | _ => exact Phase.ne_absent rfl

theorem Phase.spent_linked : (phase.linked onward).spent = phase.spent := by
  cases phase <;> rfl

theorem Phase.view_linked (hopen : phase.view.settled = false) (hmade : phase ≠ .absent) :
    (phase.linked onward).view = { phase.view with link := some onward } := by
  cases phase with
  | absent => exact absurd rfl hmade
  | settled | left | told => cases hopen
  | _ => rfl

theorem Phase.eq_settled (hsettled : phase.view.settled = true)
    (hcleaned : phase.view.cleaned = false) :
    ∃ outcome thrown, phase = .settled outcome thrown := by
  cases phase with
  | settled outcome thrown => exact ⟨outcome, thrown, rfl⟩
  | left | told => cases hcleaned
  | _ => cases hsettled

theorem Phase.ours_awaited (hopen : phase.view.settled = false) (hmade : phase ≠ .absent) :
    (phase.cell call).promises .ours = awaiting call phase.view.link := by
  cases phase with
  | absent => exact absurd rfl hmade
  | settled | left | told => cases hopen
  | entered body => cases body <;> rfl
  | _ => rfl

theorem Phase.cell_linked (hopen : phase.view.settled = false) (hmade : phase ≠ .absent) :
    (phase.linked onward).cell call =
      { phase.cell call with
        promises := Function.update (phase.cell call).promises .ours
          (awaiting call (some onward)) } := by
  cases phase with
  | absent => exact absurd rfl hmade
  | settled | left | told => cases hopen
  | entered body =>
      cases body <;> dsimp only [Phase.cell, Phase.linked] <;> rw [update_ours]
  | _ =>
      dsimp only [Phase.cell, Phase.linked]
      rw [update_ours]

end Linked

theorem phases_behind (hphases : InPhases table state phases)
    (hentry : state.entries id = some first) (thrown : Option Error) :
    ∃ phases', InPhases table (run state id thrown) phases' ∧
      ∀ other, table.spent (phases other) ≤ table.spent (phases' other) := by
  obtain ⟨hkey, hcleaned, -⟩ := hphases.orderly.chained.latest id first hentry
  have hlt := (List.getElem?_eq_some_iff.mp hkey).1
  have hmade := (hphases.made first).mp hlt
  have hne : first ≠ state.calls.length := by
    rw [← state.keys_length]
    omega
  have hcell := hphases.heap first
  by_cases hopen : (table.view (phases first)).settled = false
  · -- the last call has not finished, and the new one awaits it
    have hlink := hphases.orderly.chained.latest_unlinked hentry
    have hwaiting : (state.heap first).promises .ours = awaiting first none := by
      rw [hcell, ← hlink]
      exact Phase.ours_awaited hopen hmade
    rw [run_waits hentry hne hwaiting, ← state.keys_length, hcell]
    apply hphases.behind ((phases first).linked state.keys.length) (.waiting first none) hentry
      hopen
    · rfl
    · dsimp only [table]
      rw [Phase.cell_linked hopen hmade]
    · rfl
    · rfl
    · exact Phase.linked_ne_absent hmade
    · exact Phase.ne_absent rfl
    · exact Phase.view_linked hopen hmade
    · rfl
    · exact Phase.spent_linked.symm
    · exact Nat.zero_le _
  · have hsettled : (table.view (phases first)).settled = true := by
      rwa [Bool.not_eq_false] at hopen
    obtain ⟨outcome, thrown', hphase⟩ := Phase.eq_settled hsettled hcleaned
    have hours : (state.heap first).promises .ours = some (.settled outcome) := by
      rw [hcell, hphase]
      rfl
    rw [run_resumes hentry hne hours, ← state.keys_length]
    refine ⟨Function.update phases state.keys.length (.resumed outcome none), ?_, ?_⟩
    · apply hphases.enter rfl rfl
      · exact Phase.ne_absent rfl
      · have hended := hphases.orderly.ended_of_settled hentry hsettled
        have hentered := hphases.orderly.enter hended
        have hnew := hphases.orderly.chained.fresh state.keys.length (Nat.le_refl _)
        have hview : table.view (.resumed outcome none) =
            table.view (phases state.keys.length) := hnew.symm
        rw [hview, Function.update_eq_self]
        exact hentered
    · apply spent_update_le
      rw [hphases.absent_new]
      exact Nat.zero_le _

theorem Phase.idle {phase : Phase (Except Error Value)} (hmade : phase ≠ .absent)
    (hqueue : (phase.cell call).queue = []) : AtRest phase.view := by
  cases phase with
  | absent => exact absurd rfl hmade
  | waiting => exact .inl (Option.some_ne_none _)
  | running => exact .inr (.inl ⟨rfl, rfl⟩)
  | told => exact .inr (.inr ⟨rfl, rfl⟩)
  | entered body => cases body <;> cases hqueue
  | resumed | ended | settled | left => cases hqueue

theorem Phase.spent_le (phase : Phase Outcome) : phase.spent ≤ 5 := by
  cases phase <;> simp only [Phase.spent] <;> omega

theorem stepwise : Stepwise (program : LockProgram LockPromise LockReaction String Value Error)
    table 5 where
  empty _ := rfl
  blank := rfl
  idle _ _ := Phase.idle
  spent := Phase.spent_le
  run {state _} id thrown hphases := by
    cases hentry : state.entries id with
    | none => exact phases_free hphases hentry thrown
    | some first => exact phases_behind hphases hentry thrown
  settle := phases_settle
  tick := phases_tick

end TaskLocks

end Aof
