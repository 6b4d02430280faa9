import Aof.Protocol.Router
import Aof.Proof.StoreLocks

/-!
# The locks of the protocol are fair

The phases of a call follow its promises one by one, from `currentLock` to `nextLock`.
-/

namespace Aof

namespace InMemoryTaskLockManager

open KeyedLock LockChain Promises

/-- `link` is the call whose `currentLock` is the lock of this one. -/
inductive Phase (Value Error : Type) where
  | absent
  | fresh (link : Option Nat)
  | queued (prior : Nat) (link : Option Nat)
  | released (prior : Except Error Value) (link : Option Nat)
  | waiting (prior : Nat) (link : Option Nat)
  | free (prior : Except Error Value) (link : Option Nat)
  | entering (value : Value) (link : Option Nat)
  | ready (value : Value) (link : Option Nat)
  | entered (value : Value) (body : Option (Except Error Value)) (link : Option Nat)
  | running (value : Value) (link : Option Nat)
  | ended (value : Value) (outcome : Except Error Value) (link : Option Nat)
  | ran (value : Value) (outcome : Except Error Value) (thrown : Bool) (link : Option Nat)
  | resolved (value : Value) (outcome : Except Error Value) (thrown : Bool) (link : Option Nat)
  | survived (value : Value) (outcome : Except Error Value) (thrown : Bool) (link : Option Nat)
  | answered (value : Value) (outcome : Except Error Value) (thrown : Bool) (link : Option Nat)
  | cleaned (value : Value) (outcome : Except Error Value) (thrown : Bool) (link : Option Nat)
  | told (value : Value) (outcome : Except Error Value) (thrown : Bool) (link : Option Nat)
  | passed (value : Value) (outcome : Except Error Value) (thrown : Bool) (link : Option Nat)
  | closing (value : Value) (outcome : Except Error Value) (thrown : Bool) (link : Option Nat)
  | closed (value : Value) (outcome : Except Error Value) (thrown : Bool)

section Tables

variable {Outcome : Type}

def promised (caught ran fn resultPromise survived passed nextLock returned :
    Option (Settlement LockReaction Outcome)) :
    LockPromise → Option (Settlement LockReaction Outcome)
  | .caught => caught
  | .ran => ran
  | .fn => fn
  | .resultPromise => resultPromise
  | .survived => survived
  | .passed => passed
  | .nextLock => nextLock
  | .returned => returned

def awaited (call : Nat) (reaction : LockReaction) : Option (Settlement LockReaction Outcome) :=
  some (.pending [(call, reaction)])

def shared (call : Nat) : Option (Settlement LockReaction Outcome) :=
  some (.pending [(call, .keepAlive), (call, .answer)])

def held (link : Option Nat) : Option (Settlement LockReaction Outcome) :=
  some (.pending (link.toList.map fun next => (next, .continueChain)))

def done (outcome : Outcome) : Option (Settlement LockReaction Outcome) :=
  some (.settled outcome)

def bodyDone (outcome : Outcome) (thrown : Bool) : Option (Settlement LockReaction Outcome) :=
  if thrown then none else done outcome

end Tables

variable {Value Error : Type} [Inhabited Value]

namespace Phase

def cell (call : Nat) : Phase Value Error → Cell LockPromise LockReaction (Except Error Value)
  | absent => {}
  | fresh link =>
      ⟨promised (awaited call .callFn) (awaited call .resolve) none (awaited call .keepAlive)
        (awaited call .cleanUp) none (held link) (awaited call .tell),
        [.react .continueChain (.ok default), .adopt .resultPromise .answer]⟩
  | queued _ link =>
      ⟨promised (awaited call .callFn) (awaited call .resolve) none (awaited call .keepAlive)
        (awaited call .cleanUp) none (held link) (awaited call .tell),
        [.adopt .resultPromise .answer]⟩
  | released prior link =>
      ⟨promised (awaited call .callFn) (awaited call .resolve) none (awaited call .keepAlive)
        (awaited call .cleanUp) none (held link) (awaited call .tell),
        [.adopt .resultPromise .answer, .react .continueChain prior]⟩
  | waiting _ link =>
      ⟨promised (awaited call .callFn) (awaited call .resolve) none (shared call)
        (awaited call .cleanUp) none (held link) (awaited call .tell), []⟩
  | free prior link =>
      ⟨promised (awaited call .callFn) (awaited call .resolve) none (shared call)
        (awaited call .cleanUp) none (held link) (awaited call .tell),
        [.react .continueChain prior]⟩
  | entering value link =>
      ⟨promised (done (.ok value)) (awaited call .resolve) none (awaited call .keepAlive)
        (awaited call .cleanUp) none (held link) (awaited call .tell),
        [.adopt .resultPromise .answer, .react .callFn (.ok value)]⟩
  | ready value link =>
      ⟨promised (done (.ok value)) (awaited call .resolve) none (shared call)
        (awaited call .cleanUp) none (held link) (awaited call .tell),
        [.react .callFn (.ok value)]⟩
  | entered value none link =>
      ⟨promised (done (.ok value)) (awaited call .resolve) (some (.pending [])) (shared call)
        (awaited call .cleanUp) none (held link) (awaited call .tell), [.adopt .fn .follow]⟩
  | entered value (some outcome) link =>
      ⟨promised (done (.ok value)) (awaited call .resolve) (done outcome) (shared call)
        (awaited call .cleanUp) none (held link) (awaited call .tell), [.adopt .fn .follow]⟩
  | running value link =>
      ⟨promised (done (.ok value)) (awaited call .resolve) (awaited call .follow) (shared call)
        (awaited call .cleanUp) none (held link) (awaited call .tell), []⟩
  | ended value outcome link =>
      ⟨promised (done (.ok value)) (awaited call .resolve) (done outcome) (shared call)
        (awaited call .cleanUp) none (held link) (awaited call .tell), [.react .follow outcome]⟩
  | ran value outcome thrown link =>
      ⟨promised (done (.ok value)) (done outcome) (bodyDone outcome thrown) (shared call)
        (awaited call .cleanUp) none (held link) (awaited call .tell), [.react .resolve outcome]⟩
  | resolved value outcome thrown link =>
      ⟨promised (done (.ok value)) (done outcome) (bodyDone outcome thrown) (done outcome)
        (awaited call .cleanUp) none (held link) (awaited call .tell),
        [.react .keepAlive outcome, .react .answer outcome]⟩
  | survived value outcome thrown link =>
      ⟨promised (done (.ok value)) (done outcome) (bodyDone outcome thrown) (done outcome)
        (done (.ok (logged outcome))) none (held link) (awaited call .tell),
        [.react .answer outcome, .react .cleanUp (.ok (logged outcome))]⟩
  | answered value outcome thrown link =>
      ⟨promised (done (.ok value)) (done outcome) (bodyDone outcome thrown) (done outcome)
        (done (.ok (logged outcome))) none (held link) (done outcome),
        [.react .cleanUp (.ok (logged outcome)), .react .tell outcome]⟩
  | cleaned value outcome thrown link =>
      ⟨promised (done (.ok value)) (done outcome) (bodyDone outcome thrown) (done outcome)
        (done (.ok (logged outcome))) (some (.pending [])) (held link) (done outcome),
        [.react .tell outcome, .react .pass (.ok (logged outcome)), .adopt .passed .close]⟩
  | told value outcome thrown link =>
      ⟨promised (done (.ok value)) (done outcome) (bodyDone outcome thrown) (done outcome)
        (done (.ok (logged outcome))) (some (.pending [])) (held link) (done outcome),
        [.react .pass (.ok (logged outcome)), .adopt .passed .close]⟩
  | passed value outcome thrown link =>
      ⟨promised (done (.ok value)) (done outcome) (bodyDone outcome thrown) (done outcome)
        (done (.ok (logged outcome))) (done (.ok (logged outcome))) (held link) (done outcome),
        [.adopt .passed .close]⟩
  | closing value outcome thrown link =>
      ⟨promised (done (.ok value)) (done outcome) (bodyDone outcome thrown) (done outcome)
        (done (.ok (logged outcome))) (done (.ok (logged outcome))) (held link) (done outcome),
        [.react .close (.ok (logged outcome))]⟩
  | closed value outcome thrown =>
      ⟨promised (done (.ok value)) (done outcome) (bodyDone outcome thrown) (done outcome)
        (done (.ok (logged outcome))) (done (.ok (logged outcome)))
        (done (.ok (logged outcome))) (done outcome), []⟩

omit [Inhabited Value] in
def view : Phase Value Error → View (Except Error Value)
  | absent => {}
  | fresh link => { link }
  | queued prior link => { prior := some prior, link }
  | released _ link => { link }
  | waiting prior link => { prior := some prior, link }
  | free _ link => { link }
  | entering _ link => { link }
  | ready _ link => { link }
  | entered _ body link => { link, started := true, outcome := body }
  | running _ link => { link, started := true }
  | ended _ outcome link => { link, started := true, outcome := some outcome }
  | ran _ outcome _ link => { link, started := true, outcome := some outcome }
  | resolved _ outcome _ link => { link, started := true, outcome := some outcome }
  | survived _ outcome _ link => { link, started := true, outcome := some outcome }
  | answered _ outcome _ link => { link, started := true, outcome := some outcome }
  | cleaned _ outcome _ link =>
      { link, started := true, outcome := some outcome, cleaned := true }
  | told _ outcome _ link =>
      { link, started := true, outcome := some outcome, cleaned := true, told := true }
  | passed _ outcome _ link =>
      { link, started := true, outcome := some outcome, cleaned := true, told := true }
  | closing _ outcome _ link =>
      { link, started := true, outcome := some outcome, cleaned := true, told := true }
  | closed _ outcome _ =>
      { started := true, outcome := some outcome, settled := true, cleaned := true, told := true }

def spent : Phase Value Error → Nat
  | absent => 0
  | fresh _ => 0
  | queued .. => 0
  | released .. => 0
  | waiting .. => 1
  | free .. => 1
  | entering .. => 1
  | ready .. => 2
  | entered .. => 3
  | running .. => 4
  | ended .. => 4
  | ran .. => 5
  | resolved .. => 6
  | survived .. => 7
  | answered .. => 8
  | cleaned .. => 9
  | told .. => 10
  | passed .. => 11
  | closing .. => 12
  | closed .. => 13

def isAbsent : Phase Value Error → Bool
  | absent => true
  | _ => false

omit [Inhabited Value] in
theorem ne_absent {phase : Phase Value Error} (hmade : phase.isAbsent = false) :
    phase ≠ .absent := by
  rintro rfl
  cases hmade

def advance : Phase Value Error → Option (Phase Value Error)
  | fresh link => some (.entering default link)
  | queued prior link => some (.waiting prior link)
  | released prior link => some (.free prior link)
  | free prior link => some (.ready (logged prior) link)
  | entering value link => some (.ready value link)
  | entered value none link => some (.running value link)
  | entered value (some outcome) link => some (.ended value outcome link)
  | ended value outcome link => some (.ran value outcome false link)
  | ran value outcome thrown link => some (.resolved value outcome thrown link)
  | resolved value outcome thrown link => some (.survived value outcome thrown link)
  | survived value outcome thrown link => some (.answered value outcome thrown link)
  | told value outcome thrown link => some (.passed value outcome thrown link)
  | passed value outcome thrown link => some (.closing value outcome thrown link)
  | _ => none

end Phase

section Updates

variable {Outcome : Type}
  {caught ran fn resultPromise survived passed nextLock returned settlement :
    Option (Settlement LockReaction Outcome)}

@[simp]
theorem update_caught :
    Function.update
        (promised caught ran fn resultPromise survived passed nextLock returned) .caught
        settlement =
      promised settlement ran fn resultPromise survived passed nextLock returned := by
  funext name
  cases name <;> rfl

@[simp]
theorem update_ran :
    Function.update
        (promised caught ran fn resultPromise survived passed nextLock returned) .ran
        settlement =
      promised caught settlement fn resultPromise survived passed nextLock returned := by
  funext name
  cases name <;> rfl

@[simp]
theorem update_fn :
    Function.update
        (promised caught ran fn resultPromise survived passed nextLock returned) .fn
        settlement =
      promised caught ran settlement resultPromise survived passed nextLock returned := by
  funext name
  cases name <;> rfl

@[simp]
theorem update_resultPromise :
    Function.update
        (promised caught ran fn resultPromise survived passed nextLock returned) .resultPromise
        settlement =
      promised caught ran fn settlement survived passed nextLock returned := by
  funext name
  cases name <;> rfl

@[simp]
theorem update_survived :
    Function.update
        (promised caught ran fn resultPromise survived passed nextLock returned) .survived
        settlement =
      promised caught ran fn resultPromise settlement passed nextLock returned := by
  funext name
  cases name <;> rfl

@[simp]
theorem update_passed :
    Function.update
        (promised caught ran fn resultPromise survived passed nextLock returned) .passed
        settlement =
      promised caught ran fn resultPromise survived settlement nextLock returned := by
  funext name
  cases name <;> rfl

@[simp]
theorem update_nextLock :
    Function.update
        (promised caught ran fn resultPromise survived passed nextLock returned) .nextLock
        settlement =
      promised caught ran fn resultPromise survived passed settlement returned := by
  funext name
  cases name <;> rfl

@[simp]
theorem update_returned :
    Function.update
        (promised caught ran fn resultPromise survived passed nextLock returned) .returned
        settlement =
      promised caught ran fn resultPromise survived passed nextLock settlement := by
  funext name
  cases name <;> rfl

end Updates

def table : PhaseTable (Phase Value Error) LockPromise LockReaction (Except Error Value) where
  absent := .absent
  cell := Phase.cell
  view := Phase.view
  spent := Phase.spent

variable {state next : State Value Error} {phases : Nat → Phase Value Error} {call : Nat}

variable {phase phase' : Phase Value Error} {taskId : String} {first : Nat}

theorem Phase.view_advance (hadvance : phase.advance = some phase') : phase'.view = phase.view := by
  unfold Phase.advance at hadvance
  split at hadvance <;> cases hadvance <;> rfl

theorem Phase.spent_advance (hadvance : phase.advance = some phase') :
    phase.spent < phase'.spent := by
  unfold Phase.advance at hadvance
  split at hadvance <;> cases hadvance <;> simp only [Phase.spent] <;> omega

theorem heap_advance (hadvance : phase.advance = some phase')
    (hcell : state.heap call = phase.cell call) :
    lockStep program state (.tick call) =
      some { state with heap := Function.update state.heap call (phase'.cell call) } := by
  cases phase with
  | fresh link =>
      obtain rfl := Option.some.inj hadvance
      rw [tick_react hcell]
      dsimp only [program, react, LockState.settle]
      rw [Heap.settle_own rfl, update_caught]
      rfl
  | queued prior link =>
      obtain rfl := Option.some.inj hadvance
      rw [tick_adopt hcell, Heap.subscribe_pending rfl, update_resultPromise]
      rfl
  | released prior link =>
      obtain rfl := Option.some.inj hadvance
      rw [tick_adopt hcell, Heap.subscribe_pending rfl, update_resultPromise]
      rfl
  | free prior link =>
      obtain rfl := Option.some.inj hadvance
      rw [tick_react hcell]
      dsimp only [program, react, LockState.settle]
      rw [Heap.settle_own rfl, update_caught]
      rfl
  | entering value link =>
      obtain rfl := Option.some.inj hadvance
      rw [tick_adopt hcell, Heap.subscribe_pending rfl, update_resultPromise]
      rfl
  | entered value body link =>
      cases body with
      | none =>
          obtain rfl := Option.some.inj hadvance
          rw [tick_adopt hcell, Heap.subscribe_pending rfl, update_fn]
          rfl
      | some outcome =>
          obtain rfl := Option.some.inj hadvance
          rw [tick_adopt hcell, Heap.subscribe_settled rfl]
          rfl
  | ended value outcome link =>
      obtain rfl := Option.some.inj hadvance
      rw [tick_react hcell]
      dsimp only [program, react, LockState.settle]
      rw [Heap.settle_own rfl, update_ran]
      rfl
  | ran value outcome thrown link =>
      obtain rfl := Option.some.inj hadvance
      rw [tick_react hcell]
      dsimp only [program, react, LockState.settle]
      rw [Heap.settle_own_twice rfl, update_resultPromise]
      rfl
  | resolved value outcome thrown link =>
      obtain rfl := Option.some.inj hadvance
      rw [tick_react hcell]
      dsimp only [program, react, LockState.settle]
      rw [Heap.settle_own rfl, update_survived]
      rfl
  | survived value outcome thrown link =>
      obtain rfl := Option.some.inj hadvance
      rw [tick_react hcell]
      dsimp only [program, react, LockState.settle]
      rw [Heap.settle_own rfl, update_returned]
      rfl
  | told value outcome thrown link =>
      obtain rfl := Option.some.inj hadvance
      rw [tick_react hcell]
      dsimp only [program, react, LockState.settle]
      rw [Heap.settle_alone rfl, update_passed]
      rfl
  | passed value outcome thrown link =>
      obtain rfl := Option.some.inj hadvance
      rw [tick_adopt hcell, Heap.subscribe_settled rfl]
      rfl
  | absent | waiting | ready | running | answered | cleaned | closing | closed => cases hadvance

theorem tick_advance (hphases : InPhases table state phases)
    (hadvance : (phases call).advance = some phase')
    (hstep : lockStep program state (.tick call) = some next) :
    ∃ phases', InPhases table next phases' ∧ Advanced table phases phases' call := by
  rw [heap_advance hadvance (hphases.heap call)] at hstep
  obtain rfl := Option.some.inj hstep
  have hlt := Phase.spent_advance hadvance
  refine ⟨Function.update phases call phase', ?_, advanced_update hlt⟩
  apply hphases.quiet
  · intro habsent
    rw [habsent] at hadvance
    cases hadvance
  · intro habsent
    rw [habsent] at hlt
    cases hlt
  · exact Phase.view_advance hadvance
  · rfl

section Ticks

variable {value : Value} {outcome : Except Error Value} {thrown : Bool} {link : Option Nat}

theorem view_eq {phase : Phase Value Error} (hphase : phases call = phase) :
    table.view (phases call) = phase.view := by
  rw [hphase]
  rfl

theorem ne_absent {phase : Phase Value Error} (hphase : phases call = phase)
    (hmade : phase.isAbsent = false) : phases call ≠ table.absent := by
  rw [hphase]
  exact Phase.ne_absent hmade

theorem tick_ready (hphases : InPhases table state phases)
    (hphase : phases call = .ready value link)
    (hstep : lockStep program state (.tick call) = some next) :
    ∃ phases', InPhases table next phases' ∧ Advanced table phases phases' call := by
  have hcell := hphases.heap call
  have hmade := ne_absent hphase rfl
  have hlt := (hphases.made call).mpr hmade
  rw [hphase] at hcell
  rw [tick_react hcell] at hstep
  obtain rfl := Option.some.inj hstep
  simp only [program, react, LockState.start]
  split
  · rename_i error _
    refine ⟨Function.update phases call (.ran value (.error error) true link), ?_,
      advanced_update ?_⟩
    · apply hphases.update
      · exact hphases.known hmade
      · exact (Heap.settle_own rfl _).trans (by rw [update_ran]; rfl)
      · exact Phase.ne_absent rfl
      · have hfailed := hphases.orderly.fail (view_eq hphase) hlt rfl rfl rfl (.error error)
        exact hfailed
    · rw [hphase]
      exact (by omega : 2 < 5)
  · refine ⟨Function.update phases call (.entered value none link), ?_, advanced_update ?_⟩
    · apply hphases.update
      · exact hphases.known hmade
      · dsimp only [Heap.create]
        rw [Heap.put_update, Heap.enqueue_update, update_fn]
        rfl
      · exact Phase.ne_absent rfl
      · have hstarted := hphases.orderly.start (view_eq hphase) hlt rfl rfl
        exact hstarted
    · rw [hphase]
      exact Nat.lt_succ_self 2

theorem tick_answered (hphases : InPhases table state phases)
    (hphase : phases call = .answered value outcome thrown link)
    (hstep : lockStep program state (.tick call) = some next) :
    ∃ phases', InPhases table next phases' ∧ Advanced table phases phases' call := by
  have hcell := hphases.heap call
  have hmade := ne_absent hphase rfl
  have hlt := (hphases.made call).mpr hmade
  have hkey : state.keys[call]? = some state.keys[call] := List.getElem?_eq_getElem hlt
  rw [hphase] at hcell
  rw [tick_react hcell] at hstep
  obtain rfl := Option.some.inj hstep
  refine ⟨Function.update phases call (.cleaned value outcome thrown link), ?_,
    advanced_update ?_⟩
  · dsimp only [program, react, LockState.enqueue]
    rw [LockState.deleteEntry_eq hkey]
    apply hphases.update
    · exact hphases.known hmade
    · dsimp only [Heap.create]
      rw [Heap.put_update, Heap.enqueue_update, Heap.enqueue_update, update_passed]
      rfl
    · exact Phase.ne_absent rfl
    · have hcleaned := hphases.orderly.clean (view_eq hphase) hkey (Option.some_ne_none _)
      exact hcleaned
  · rw [hphase]
    exact Nat.lt_succ_self 8

theorem tick_cleaned (hphases : InPhases table state phases)
    (hphase : phases call = .cleaned value outcome thrown link)
    (hstep : lockStep program state (.tick call) = some next) :
    ∃ phases', InPhases table next phases' ∧ Advanced table phases phases' call := by
  have hcell := hphases.heap call
  rw [hphase] at hcell
  rw [tick_react hcell] at hstep
  obtain rfl := Option.some.inj hstep
  refine ⟨Function.update phases call (.told value outcome thrown link), ?_, advanced_update ?_⟩
  · apply hphases.update
    · exact hphases.known (ne_absent hphase rfl)
    · rfl
    · exact Phase.ne_absent rfl
    · have htold := hphases.orderly.tell (view_eq hphase) rfl rfl rfl
      exact htold
  · rw [hphase]
    exact Nat.lt_succ_self 9

def Phase.freed (prior : Except Error Value) : Phase Value Error → Phase Value Error
  | .queued _ link => .released prior link
  | .waiting _ link => .free prior link
  | phase => phase

section Freed

variable {phase : Phase Value Error} {prior : Except Error Value} {first onward : Nat}

theorem Phase.cell_freed (hprior : phase.view.prior = some first) :
    { phase.cell onward with
      queue := (phase.cell onward).queue ++ [.react .continueChain prior] } =
        (phase.freed prior).cell onward := by
  cases phase with
  | queued | waiting => rfl
  | _ => cases hprior

omit [Inhabited Value] in
theorem Phase.view_freed (hprior : phase.view.prior = some first) :
    (phase.freed prior).view = { phase.view with prior := none } := by
  cases phase with
  | queued | waiting => rfl
  | _ => cases hprior

omit [Inhabited Value] in
theorem Phase.spent_freed : (phase.freed prior).spent = phase.spent := by
  cases phase <;> rfl

omit [Inhabited Value] in
theorem Phase.freed_ne_absent (hprior : phase.view.prior = some first) :
    phase.freed prior ≠ .absent := by
  cases phase with
  | queued | waiting => exact Phase.ne_absent rfl
  | _ => cases hprior

end Freed

/-- `nextLock` settles, and the call behind it goes on. -/
theorem tick_closing (hphases : InPhases table state phases)
    (hphase : phases call = .closing value outcome thrown link)
    (hstep : lockStep program state (.tick call) = some next) :
    ∃ phases', InPhases table next phases' ∧ Advanced table phases phases' call := by
  have hcell := hphases.heap call
  have hmade := ne_absent hphase rfl
  have hview := view_eq hphase
  rw [hphase] at hcell
  rw [tick_react hcell] at hstep
  obtain rfl := Option.some.inj hstep
  cases link with
  | none =>
      refine ⟨Function.update phases call (.closed value outcome thrown), ?_, advanced_update ?_⟩
      · apply hphases.update
        · exact hphases.known hmade
        · exact (Heap.settle_alone rfl _).trans (by rw [update_nextLock]; rfl)
        · exact Phase.ne_absent rfl
        · have hsettled := hphases.orderly.settle hview (Option.some_ne_none _) rfl
          exact hsettled
      · rw [hphase]
        exact Nat.lt_succ_self 12
  | some onward =>
      have hlink : (table.view (phases call)).link = some onward := congrArg View.link hview
      have hprior := (hphases.orderly.chained.linked call onward).mp hlink
      have hbefore := (hphases.orderly.chained.behind onward call hprior).1
      have hne : onward ≠ call := by omega
      have honward := hphases.orderly.chained.lt_of_linked hlink
      refine ⟨Function.update (Function.update phases call (.closed value outcome thrown)) onward
        ((phases onward).freed (.ok (logged outcome))), ?_, advanced_update_two hne ?_ ?_⟩
      · apply hphases.update_two
        · exact hphases.known ((hphases.made onward).mp honward)
        · exact hmade
        · refine (Heap.settle_other hne rfl _).trans ?_
          rw [update_nextLock, hphases.heap onward]
          exact congrArg _ (Phase.cell_freed hprior)
        · exact Phase.ne_absent rfl
        · exact Phase.freed_ne_absent hprior
        · have hreleased := hphases.orderly.release hview rfl rfl (Option.some_ne_none _)
          dsimp only [table] at hreleased ⊢
          rw [Phase.view_freed hprior]
          exact hreleased
      · rw [hphase]
        exact Nat.lt_succ_self 12
      · exact Nat.le_of_eq Phase.spent_freed.symm

theorem phases_tick (hphases : InPhases table state phases)
    (hstep : lockStep program state (.tick call) = some next) :
    ∃ phases', InPhases table next phases' ∧ Advanced table phases phases' call := by
  have hcell := hphases.heap call
  cases hphase : phases call with
  | absent | waiting | running | closed =>
      rw [hphase] at hcell
      rw [tick_idle hcell] at hstep
      cases hstep
  | ready => exact tick_ready hphases hphase hstep
  | answered => exact tick_answered hphases hphase hstep
  | cleaned => exact tick_cleaned hphases hphase hstep
  | closing => exact tick_closing hphases hphase hstep
  | entered value body =>
      cases body with
      | none => exact tick_advance hphases (by rw [hphase]; rfl) hstep
      | some outcome => exact tick_advance hphases (by rw [hphase]; rfl) hstep
  | _ => exact tick_advance hphases (by rw [hphase]; rfl) hstep

end Ticks

theorem bodyDone_ne_pending {Outcome : Type} (outcome : Outcome) (thrown : Bool)
    (reactions : List (Nat × LockReaction)) :
    bodyDone outcome thrown ≠ some (.pending reactions) := by
  intro hpending
  cases thrown <;> cases hpending

theorem phases_settle {outcome : Except Error Value} (hphases : InPhases table state phases)
    (hstep : lockStep program state (.settle call outcome) = some next) :
    ∃ phases', InPhases table next phases' ∧
      ∀ other, table.spent (phases other) ≤ table.spent (phases' other) := by
  obtain ⟨⟨reactions, hpending⟩, rfl⟩ := settle_eq_some hstep
  have hcell := hphases.heap call
  rw [hcell] at hpending ⊢
  cases hphase : phases call with
  | entered value body link =>
      rw [hphase] at hpending
      cases body with
      | none =>
          refine ⟨Function.update phases call (.entered value (some outcome) link), ?_, ?_⟩
          · apply hphases.update
            · exact hphases.known (ne_absent hphase rfl)
            · refine (Heap.settle_alone rfl outcome).trans ?_
              dsimp only [table, program, Phase.cell]
              rw [update_fn]
              rfl
            · exact Phase.ne_absent rfl
            · have hfinished := hphases.orderly.finish (view_eq hphase) outcome rfl rfl
              exact hfinished
          · apply spent_update_le
            rw [hphase]
            exact Nat.le_refl 3
      | some settled => cases hpending
  | running value link =>
      refine ⟨Function.update phases call (.ended value outcome link), ?_, ?_⟩
      · apply hphases.update
        · exact hphases.known (ne_absent hphase rfl)
        · refine (Heap.settle_own rfl outcome).trans ?_
          dsimp only [table, program, Phase.cell]
          rw [update_fn]
          rfl
        · exact Phase.ne_absent rfl
        · have hfinished := hphases.orderly.finish (view_eq hphase) outcome rfl rfl
          exact hfinished
      · apply spent_update_le
        rw [hphase]
        exact Nat.le_refl 4
  | ran _ settled thrown | resolved _ settled thrown | survived _ settled thrown
  | answered _ settled thrown | cleaned _ settled thrown | told _ settled thrown
  | passed _ settled thrown | closing _ settled thrown | closed _ settled thrown =>
      rw [hphase] at hpending
      exact absurd hpending (bodyDone_ne_pending settled thrown reactions)
  | absent | fresh | queued | released | waiting | free | entering | ready | ended =>
      rw [hphase] at hpending
      cases hpending

omit [Inhabited Value] in
theorem created_eq :
    (created : LockPromise → Option (Settlement LockReaction (Except Error Value))) =
      promised (some (.pending [])) (some (.pending [])) none (some (.pending []))
        (some (.pending [])) none (held none) (some (.pending [])) := by
  funext name
  cases name <;> rfl

theorem withLock_free (hentry : state.entries taskId = none) (thrown : Option Error) :
    withLock state taskId thrown =
      { calls := state.calls ++ [⟨taskId, thrown⟩]
        entries := Function.update state.entries taskId (some state.calls.length)
        heap := Function.update state.heap state.calls.length
          ((Phase.fresh none).cell state.calls.length)
        trace := state.trace } := by
  dsimp only [withLock]
  rw [hentry]
  dsimp only [LockState.enter, LockState.setEntry, LockState.subscribe, LockState.enqueue]
  rw [created_eq, Heap.enqueue_update, Heap.subscribe_pending rfl, update_caught,
    Heap.subscribe_pending rfl, update_ran, Heap.subscribe_pending rfl, update_resultPromise,
    Heap.subscribe_pending rfl, update_survived, Heap.enqueue_update, Heap.subscribe_pending rfl,
    update_returned]
  rfl

theorem withLock_waits (hentry : state.entries taskId = some first)
    (hne : first ≠ state.calls.length) (hheld : (state.heap first).promises .nextLock = held none)
    (thrown : Option Error) :
    withLock state taskId thrown =
      { calls := state.calls ++ [⟨taskId, thrown⟩]
        entries := Function.update state.entries taskId (some state.calls.length)
        heap := Function.update
          (Function.update state.heap first
            { state.heap first with
              promises := Function.update (state.heap first).promises .nextLock
                (held (some state.calls.length)) })
          state.calls.length ((Phase.queued first none).cell state.calls.length)
        trace := state.trace } := by
  dsimp only [withLock]
  rw [hentry]
  dsimp only [LockState.enter, LockState.setEntry, LockState.subscribe, LockState.enqueue]
  rw [Heap.subscribe_pending_other hne hheld, created_eq, Heap.subscribe_pending rfl,
    update_caught, Heap.subscribe_pending rfl, update_ran, Heap.subscribe_pending rfl,
    update_resultPromise, Heap.subscribe_pending rfl, update_survived, Heap.enqueue_update,
    Heap.subscribe_pending rfl, update_returned]
  rfl

theorem phases_free (hphases : InPhases table state phases) (hentry : state.entries taskId = none)
    (thrown : Option Error) :
    ∃ phases', InPhases table (withLock state taskId thrown) phases' ∧
      ∀ other, table.spent (phases other) ≤ table.spent (phases' other) := by
  have hended := hphases.orderly.chained.free taskId
  have hentered := hphases.orderly.enter fun first => hended first hentry
  have hnew := hphases.orderly.chained.fresh state.keys.length (Nat.le_refl _)
  rw [withLock_free hentry, ← state.keys_length]
  refine ⟨Function.update phases state.keys.length (.fresh none), ?_, ?_⟩
  · apply hphases.enter rfl rfl
    · exact Phase.ne_absent rfl
    · have hview : table.view (.fresh none) = table.view (phases state.keys.length) := hnew.symm
      rw [hview, Function.update_eq_self]
      exact hentered
  · apply spent_update_le
    rw [hphases.absent_new]
    exact Nat.zero_le _

def Phase.linked (onward : Nat) : Phase Value Error → Phase Value Error
  | .fresh _ => .fresh (some onward)
  | .queued prior _ => .queued prior (some onward)
  | .released prior _ => .released prior (some onward)
  | .waiting prior _ => .waiting prior (some onward)
  | .free prior _ => .free prior (some onward)
  | .entering value _ => .entering value (some onward)
  | .ready value _ => .ready value (some onward)
  | .entered value body _ => .entered value body (some onward)
  | .running value _ => .running value (some onward)
  | .ended value outcome _ => .ended value outcome (some onward)
  | .ran value outcome thrown _ => .ran value outcome thrown (some onward)
  | .resolved value outcome thrown _ => .resolved value outcome thrown (some onward)
  | .survived value outcome thrown _ => .survived value outcome thrown (some onward)
  | .answered value outcome thrown _ => .answered value outcome thrown (some onward)
  | phase => phase

section Linked

variable {phase : Phase Value Error} {onward : Nat}

omit [Inhabited Value] in
theorem Phase.linked_ne_absent (hmade : phase ≠ .absent) : phase.linked onward ≠ .absent := by
  cases phase with
  | absent => exact absurd rfl hmade
  | _ => exact Phase.ne_absent rfl

omit [Inhabited Value] in
theorem Phase.spent_linked : (phase.linked onward).spent = phase.spent := by
  cases phase <;> rfl

section

variable (hopen : phase.view.cleaned = false) (hmade : phase ≠ .absent)
include hopen hmade

omit [Inhabited Value] in
theorem Phase.view_linked :
    (phase.linked onward).view = { phase.view with link := some onward } := by
  cases phase with
  | absent => exact absurd rfl hmade
  | cleaned | told | passed | closing | closed => cases hopen
  | _ => rfl

theorem Phase.lock_held : (phase.cell call).promises .nextLock = held phase.view.link := by
  cases phase with
  | absent => exact absurd rfl hmade
  | cleaned | told | passed | closing | closed => cases hopen
  | entered value body => cases body <;> rfl
  | _ => rfl

theorem Phase.cell_linked :
    (phase.linked onward).cell call =
      { phase.cell call with
        promises := Function.update (phase.cell call).promises .nextLock
          (held (some onward)) } := by
  cases phase with
  | absent => exact absurd rfl hmade
  | cleaned | told | passed | closing | closed => cases hopen
  | entered value body =>
      cases body <;> dsimp only [Phase.cell, Phase.linked] <;> rw [update_nextLock]
  | _ =>
      dsimp only [Phase.cell, Phase.linked]
      rw [update_nextLock]

end

omit [Inhabited Value] in
theorem Phase.open_of_not_cleaned (hopen : phase.view.cleaned = false) :
    phase.view.settled = false := by
  cases phase with
  | closed => cases hopen
  | _ => rfl

end Linked

theorem phases_behind (hphases : InPhases table state phases)
    (hentry : state.entries taskId = some first) (thrown : Option Error) :
    ∃ phases', InPhases table (withLock state taskId thrown) phases' ∧
      ∀ other, table.spent (phases other) ≤ table.spent (phases' other) := by
  obtain ⟨hkey, hopen, -⟩ := hphases.orderly.chained.latest taskId first hentry
  have hlt := (List.getElem?_eq_some_iff.mp hkey).1
  have hmade := (hphases.made first).mp hlt
  have hne : first ≠ state.calls.length := by
    rw [← state.keys_length]
    omega
  have hlink := hphases.orderly.chained.latest_unlinked hentry
  have hheld : (state.heap first).promises .nextLock = held none := by
    rw [hphases.heap first, ← hlink]
    exact Phase.lock_held hopen hmade
  rw [withLock_waits hentry hne hheld, ← state.keys_length, hphases.heap first]
  apply hphases.behind ((phases first).linked state.keys.length) (.queued first none) hentry
    (Phase.open_of_not_cleaned hopen)
  · rfl
  · dsimp only [table]
    rw [Phase.cell_linked hopen hmade]
  · rfl
  · rfl
  · exact Phase.linked_ne_absent hmade
  · exact Phase.ne_absent rfl
  · exact Phase.view_linked hopen hmade
  · rfl
  · exact Phase.spent_linked.symm
  · exact Nat.zero_le _

theorem Phase.idle (hmade : phase ≠ .absent) (hqueue : (phase.cell call).queue = []) :
    AtRest phase.view := by
  cases phase with
  | absent => exact absurd rfl hmade
  | waiting => exact .inl (Option.some_ne_none _)
  | running => exact .inr (.inl ⟨rfl, rfl⟩)
  | closed => exact .inr (.inr ⟨rfl, rfl⟩)
  | entered value body => cases body <;> cases hqueue
  | _ => cases hqueue

omit [Inhabited Value] in
theorem Phase.spent_le (phase : Phase Value Error) : phase.spent ≤ 13 := by
  cases phase <;> simp only [Phase.spent] <;> omega

theorem stepwise : Stepwise (program : LockProgram LockPromise LockReaction String Value Error)
    table 13 where
  empty _ := rfl
  blank := rfl
  idle _ _ := Phase.idle
  spent := Phase.spent_le
  run {state _} taskId thrown hphases := by
    cases hentry : state.entries taskId with
    | none => exact phases_free hphases hentry thrown
    | some first => exact phases_behind hphases hentry thrown
  settle := phases_settle
  tick := phases_tick

end InMemoryTaskLockManager

end Aof

/-!
## Both locks by task are fair

Under every schedule the locks of the task store and of the protocol run the bodies of a task alone
and in call order, and hold up nothing else.
-/

namespace Aof

open KeyedLock

variable {Value Error : Type} [Inhabited Value]

theorem taskLocks_fair :
    (∀ (moves : List (LockMove String Value Error)) (state : TaskLocks.State Value Error),
      LockRun TaskLocks.program moves state → FairMutex 5 moves state) ∧
    ∀ (moves : List (LockMove String Value Error))
      (state : InMemoryTaskLockManager.State Value Error),
      LockRun InMemoryTaskLockManager.program moves state → FairMutex 13 moves state := by
  constructor
  · intro moves state hrun
    exact TaskLocks.stepwise.fairMutex hrun
  · intro moves state hrun
    exact InMemoryTaskLockManager.stepwise.fairMutex hrun

def storeSchedule : List (LockMove String Nat String) :=
  [.call "a" (some "broken"), .call "a" none, .call "b" none, .tick 1, .tick 1, .settle 2 (.ok 2),
    .settle 1 (.ok 1), .tick 0, .tick 0, .tick 1, .tick 1, .tick 1]

def protocolSchedule : List (LockMove String Nat String) :=
  [.call "a" (some "broken"), .call "a" none] ++ List.replicate 11 (.tick 0) ++
    List.replicate 4 (.tick 1) ++ [.settle 1 (.ok 1)] ++ List.replicate 9 (.tick 1)

theorem taskLocks_fair_throws :
    (∃ state : TaskLocks.State Nat String,
      LockRun TaskLocks.program storeSchedule state ∧ FairMutex 5 storeSchedule state) ∧
    ∃ state : InMemoryTaskLockManager.State Nat String,
      LockRun InMemoryTaskLockManager.program protocolSchedule state ∧
      FairMutex 13 protocolSchedule state := by
  obtain ⟨store, hstore⟩ : ∃ state, StepSystem.exec (lockStep TaskLocks.program)
      ({} : TaskLocks.State Nat String) storeSchedule = some state := ⟨_, rfl⟩
  obtain ⟨protocol, hprotocol⟩ : ∃ state,
      StepSystem.exec (lockStep InMemoryTaskLockManager.program)
        ({} : InMemoryTaskLockManager.State Nat String) protocolSchedule = some state := ⟨_, rfl⟩
  have hstoreRun := StepSystem.freeRun_iff_exec.mpr hstore
  have hprotocolRun := StepSystem.freeRun_iff_exec.mpr hprotocol
  exact ⟨⟨store, hstoreRun, taskLocks_fair.1 _ _ hstoreRun⟩,
    ⟨protocol, hprotocolRun, taskLocks_fair.2 _ _ hprotocolRun⟩⟩

end Aof
