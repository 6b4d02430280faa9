import Aof.Lib.LockChain
import Aof.Lib.Promises
import Aof.Lib.Run

/-!
# Locks by key

A lock is given by the code of one call up to its first wait and by the code of its reactions.  It
runs under any schedule of calls, of microtasks and of bodies that settle their promises.  A call
that a body makes before its first wait counts as a later call.
-/

namespace KeyedLock

open LockChain

structure Call (Key Error : Type) where
  key : Key
  thrown : Option Error := none

/-- The entry of a key is the promise on which the next call on the key waits; it is given by the
call that made it. -/
structure LockState (Name Reaction Key Value Error : Type) where
  calls : List (Call Key Error) := []
  entries : Key → Option Nat := fun _ => none
  heap : Promises.Heap Name Reaction (Except Error Value) := fun _ => {}
  trace : List (Event (Except Error Value)) := []

inductive LockMove (Key Value Error : Type) where
  | call (key : Key) (thrown : Option Error)
  | settle (call : Nat) (outcome : Except Error Value)
  | tick (call : Nat)

variable {Name Reaction Key Value Error : Type}

/-- The code of a lock; `body` is the promise that the body of a call returns. -/
structure LockProgram (Name Reaction Key Value Error : Type) where
  body : Name
  run : LockState Name Reaction Key Value Error → Key → Option Error →
    LockState Name Reaction Key Value Error
  react : LockState Name Reaction Key Value Error → Nat → Reaction → Except Error Value →
    LockState Name Reaction Key Value Error

namespace LockState

def keys (state : LockState Name Reaction Key Value Error) : List Key :=
  state.calls.map Call.key

theorem keys_length (state : LockState Name Reaction Key Value Error) :
    state.keys.length = state.calls.length :=
  List.length_map _

def enter (state : LockState Name Reaction Key Value Error) (key : Key) (thrown : Option Error)
    (promises : Name → Option (Promises.Settlement Reaction (Except Error Value))) :
    LockState Name Reaction Key Value Error :=
  { state with
    calls := state.calls ++ [{ key, thrown }]
    heap := Function.update state.heap state.calls.length { promises } }

def setEntry [DecidableEq Key] (state : LockState Name Reaction Key Value Error) (key : Key)
    (call : Nat) : LockState Name Reaction Key Value Error :=
  { state with entries := Function.update state.entries key (some call) }

def deleteEntry [DecidableEq Key] (state : LockState Name Reaction Key Value Error) (call : Nat) :
    LockState Name Reaction Key Value Error :=
  match state.keys[call]? with
  | none => state
  | some key =>
      { state with
        entries := if state.entries key = some call then Function.update state.entries key none
          else state.entries }

theorem deleteEntry_eq [DecidableEq Key] {state : LockState Name Reaction Key Value Error}
    {call : Nat} {key : Key} (hkey : state.keys[call]? = some key)
    (heap : Promises.Heap Name Reaction (Except Error Value)) :
    deleteEntry { state with heap } call =
      { state with
        heap
        entries := if state.entries key = some call then Function.update state.entries key none
          else state.entries } := by
  unfold deleteEntry
  change (match state.keys[call]? with | none => _ | some key => _) = _
  rw [hkey]

def tell (state : LockState Name Reaction Key Value Error) (call : Nat)
    (outcome : Except Error Value) : LockState Name Reaction Key Value Error :=
  { state with trace := .received call outcome :: state.trace }

def enqueue (state : LockState Name Reaction Key Value Error) (call : Nat)
    (task : Promises.Microtask Name Reaction (Except Error Value)) :
    LockState Name Reaction Key Value Error :=
  { state with heap := state.heap.enqueue call task }

variable [DecidableEq Name]

def subscribe (state : LockState Name Reaction Key Value Error) (call : Nat) (name : Name)
    (reaction : Nat × Reaction) : LockState Name Reaction Key Value Error :=
  { state with heap := state.heap.subscribe call name reaction }

def settle (state : LockState Name Reaction Key Value Error) (call : Nat) (name : Name)
    (outcome : Except Error Value) : LockState Name Reaction Key Value Error :=
  { state with heap := state.heap.settle call name outcome }

/-- The body is called, and `target` is to follow the promise that it returns. -/
def start (state : LockState Name Reaction Key Value Error) (call : Nat) (body target : Name)
    (follow : Reaction) : LockState Name Reaction Key Value Error :=
  match (state.calls[call]?).bind Call.thrown with
  | some error =>
      { state with
        heap := state.heap.settle call target (.error error)
        trace := .finished call (.error error) :: .started call :: state.trace }
  | none =>
      { state with
        heap := (state.heap.create call body).enqueue call (.adopt body follow)
        trace := .started call :: state.trace }

end LockState

variable [DecidableEq Name]

/-- A call, a body that settles its promise, or the next microtask of a call. -/
def lockStep (program : LockProgram Name Reaction Key Value Error)
    (state : LockState Name Reaction Key Value Error) :
    LockMove Key Value Error → Option (LockState Name Reaction Key Value Error)
  | .call key thrown => some (program.run state key thrown)
  | .settle call outcome =>
      match (state.heap call).promises program.body with
      | some (.pending _) =>
          some
            { state with
              heap := state.heap.settle call program.body outcome
              trace := .finished call outcome :: state.trace }
      | _ => none
  | .tick call =>
      match (state.heap call).queue with
      | [] => none
      | task :: rest =>
          let popped : LockState Name Reaction Key Value Error :=
            { state with
              heap := Function.update state.heap call { state.heap call with queue := rest } }
          match task with
          | .adopt source reaction => some (popped.subscribe call source (call, reaction))
          | .react reaction outcome => some (program.react popped call reaction outcome)

abbrev LockRun (program : LockProgram Name Reaction Key Value Error)
    (moves : List (LockMove Key Value Error)) (state : LockState Name Reaction Key Value Error) :
    Prop :=
  StepSystem.FreeRun (lockStep program) {} moves state

section Start

variable {state : LockState Name Reaction Key Value Error} {key : Key}
  {heap : Promises.Heap Name Reaction (Except Error Value)}

theorem start_new_throws (error : Error) (body target : Name) (follow : Reaction) :
    LockState.start
        { state with calls := state.calls ++ [⟨key, some error⟩], heap } state.calls.length body
        target follow =
      { state with
        calls := state.calls ++ [⟨key, some error⟩]
        heap := heap.settle state.calls.length target (.error error)
        trace := .finished state.calls.length (.error error) ::
          .started state.calls.length :: state.trace } := by
  simp [LockState.start]

theorem start_new_returns (body target : Name) (follow : Reaction) :
    LockState.start
        { state with calls := state.calls ++ [⟨key, none⟩], heap } state.calls.length body
        target follow =
      { state with
        calls := state.calls ++ [⟨key, none⟩]
        heap := (heap.create state.calls.length body).enqueue state.calls.length
          (.adopt body follow)
        trace := .started state.calls.length :: state.trace } := by
  simp [LockState.start]

end Start

def LockMove.ticks (call : Nat) : LockMove Key Value Error → Bool
  | .tick other => other = call
  | _ => false

/-- What a fair lock guarantees in every state that it comes to: bodies run alone and in the order
of the calls on their key, callers receive their own outcomes, a call waits for nothing but the
bodies before it on its own key, at the end of a bounded number of microtasks, and an entry belongs
to a key with a caller that has received nothing yet. -/
structure FairMutex (bound : Nat) (moves : List (LockMove Key Value Error))
    (state : LockState Name Reaction Key Value Error) : Prop where
  fair : Fair state.keys state.trace
  alone : ∀ call other, Running state.trace call → Running state.trace other →
    state.keys[call]? = state.keys[other]? → call = other
  unblocked : ∀ key, (∀ call : Nat, state.keys[call]? = some key → (state.heap call).queue = []) →
    ∀ call : Nat, state.keys[call]? = some key →
      (∀ first < call, state.keys[first]? = some key →
        ∃ outcome, .finished first outcome ∈ state.trace) →
      .started call ∈ state.trace ∧
        ∀ outcome, .finished call outcome ∈ state.trace → .received call outcome ∈ state.trace
  bounded : ∀ call, moves.countP (LockMove.ticks call) ≤ bound
  cleaned : ∀ key call, state.entries key = some call → ∃ pending : Nat,
    state.keys[pending]? = some key ∧ ∀ outcome, .received pending outcome ∉ state.trace

/-- The phases that a call of a lock can be in: the promises and microtasks of the call, how it is
seen, and how many microtasks it has had at most. -/
structure PhaseTable (Phase Name Reaction Outcome : Type) where
  absent : Phase
  cell : Nat → Phase → Promises.Cell Name Reaction Outcome
  view : Phase → View Outcome
  spent : Phase → Nat

variable {Phase : Type} {table : PhaseTable Phase Name Reaction (Except Error Value)}
  {state next : LockState Name Reaction Key Value Error} {phases : Nat → Phase}

structure InPhases (table : PhaseTable Phase Name Reaction (Except Error Value))
    (state : LockState Name Reaction Key Value Error) (phases : Nat → Phase) : Prop where
  heap : ∀ call, state.heap call = table.cell call (phases call)
  made : ∀ call, call < state.keys.length ↔ phases call ≠ table.absent
  orderly : Orderly state.keys state.entries (fun call => table.view (phases call)) state.trace

namespace InPhases

omit [DecidableEq Name] in
theorem view_update (phases : Nat → Phase) (call : Nat) (phase : Phase) :
    (fun other => table.view (Function.update phases call phase other)) =
      Function.update (fun other => table.view (phases other)) call (table.view phase) := by
  funext other
  by_cases heq : other = call
  · rw [heq, Function.update_self, Function.update_self]
  · rw [Function.update_of_ne heq, Function.update_of_ne heq]

omit [DecidableEq Name] in
theorem update (hphases : InPhases table state phases) {call : Nat} {phase : Phase}
    (hkeys : ∀ other, other < next.keys.length ↔ other = call ∨ other < state.keys.length)
    (hheap : next.heap = Function.update state.heap call (table.cell call phase))
    (hphase : phase ≠ table.absent)
    (horderly : Orderly next.keys next.entries
      (Function.update (fun other => table.view (phases other)) call (table.view phase))
      next.trace) :
    InPhases table next (Function.update phases call phase) where
  heap other := by
    rw [hheap]
    by_cases heq : other = call
    · rw [heq, Function.update_self, Function.update_self]
    · rw [Function.update_of_ne heq, Function.update_of_ne heq]
      exact hphases.heap other
  made other := by
    rw [hkeys]
    by_cases heq : other = call
    · rw [heq, Function.update_self]
      exact iff_of_true (.inl rfl) hphase
    · rw [Function.update_of_ne heq, ← hphases.made]
      exact or_iff_right heq
  orderly := by
    rwa [view_update]

omit [DecidableEq Name] in
theorem update_two (hphases : InPhases table state phases) {first call : Nat}
    {phase phase' : Phase}
    (hkeys : ∀ other, other < next.keys.length ↔ other = call ∨ other < state.keys.length)
    (hfirst : phases first ≠ table.absent)
    (hheap : next.heap = Function.update
      (Function.update state.heap first (table.cell first phase)) call (table.cell call phase'))
    (hphase : phase ≠ table.absent) (hphase' : phase' ≠ table.absent)
    (horderly : Orderly next.keys next.entries
      (Function.update
        (Function.update (fun other => table.view (phases other)) first (table.view phase))
        call (table.view phase'))
      next.trace) :
    InPhases table next (Function.update (Function.update phases first phase) call phase') where
  heap other := by
    rw [hheap]
    by_cases heq : other = call
    · rw [heq, Function.update_self, Function.update_self]
    · rw [Function.update_of_ne heq, Function.update_of_ne heq]
      by_cases hother : other = first
      · rw [hother, Function.update_self, Function.update_self]
      · rw [Function.update_of_ne hother, Function.update_of_ne hother]
        exact hphases.heap other
  made other := by
    rw [hkeys]
    by_cases heq : other = call
    · rw [heq, Function.update_self]
      exact iff_of_true (.inl rfl) hphase'
    · rw [Function.update_of_ne heq, or_iff_right heq, hphases.made]
      by_cases hother : other = first
      · rw [hother, Function.update_self]
        exact iff_of_true hfirst hphase
      · rw [Function.update_of_ne hother]
  orderly := by
    rwa [view_update, view_update]

omit [DecidableEq Name] in
theorem keys_snoc {key : Key} {thrown : Option Error}
    (hcalls : next.calls = state.calls ++ [⟨key, thrown⟩]) : next.keys = state.keys ++ [key] := by
  rw [LockState.keys, hcalls, List.map_append]
  rfl

omit [DecidableEq Name] in
theorem lt_keys_snoc {key : Key} {thrown : Option Error}
    (hcalls : next.calls = state.calls ++ [⟨key, thrown⟩]) (other : Nat) :
    other < next.keys.length ↔ other = state.keys.length ∨ other < state.keys.length := by
  rw [keys_snoc hcalls, List.length_append, List.length_singleton]
  omega

omit [DecidableEq Name] in
theorem absent_new (hphases : InPhases table state phases) :
    phases state.keys.length = table.absent := by
  apply Classical.byContradiction
  intro hne
  exact Nat.lt_irrefl _ ((hphases.made state.keys.length).mpr hne)

omit [DecidableEq Name] in
theorem enter (hphases : InPhases table state phases) {key : Key} {thrown : Option Error}
    {phase : Phase} (hcalls : next.calls = state.calls ++ [⟨key, thrown⟩]) (hheap : next.heap =
      Function.update state.heap state.keys.length (table.cell state.keys.length phase))
    (hphase : phase ≠ table.absent) (horderly : Orderly (state.keys ++ [key]) next.entries
      (Function.update (fun other => table.view (phases other)) state.keys.length
        (table.view phase)) next.trace) :
    InPhases table next (Function.update phases state.keys.length phase) := by
  apply hphases.update (lt_keys_snoc hcalls) hheap hphase
  rwa [keys_snoc hcalls]

omit [DecidableEq Name] in
theorem enter_behind (hphases : InPhases table state phases) {key : Key} {thrown : Option Error}
    {first : Nat} {phase phase' : Phase} (hcalls : next.calls = state.calls ++ [⟨key, thrown⟩])
    (hfirst : phases first ≠ table.absent) (hheap : next.heap = Function.update
      (Function.update state.heap first (table.cell first phase)) state.keys.length
      (table.cell state.keys.length phase'))
    (hphase : phase ≠ table.absent) (hphase' : phase' ≠ table.absent)
    (horderly : Orderly (state.keys ++ [key]) next.entries (Function.update
        (Function.update (fun other => table.view (phases other)) first (table.view phase))
        state.keys.length (table.view phase')) next.trace) : InPhases table next
      (Function.update (Function.update phases first phase) state.keys.length phase') := by
  apply hphases.update_two (lt_keys_snoc hcalls) hfirst hheap hphase hphase'
  rwa [keys_snoc hcalls]

omit [DecidableEq Name] in
theorem known (hphases : InPhases table state phases) {call : Nat}
    (hphase : phases call ≠ table.absent) (other : Nat) :
    other < state.keys.length ↔ other = call ∨ other < state.keys.length := by
  have hlt := (hphases.made call).mpr hphase
  omega

omit [DecidableEq Name] in
theorem quiet (hphases : InPhases table state phases) {call : Nat} {phase : Phase}
    (hmade : phases call ≠ table.absent) (hphase : phase ≠ table.absent)
    (hview : table.view phase = table.view (phases call))
    {heap : Promises.Heap Name Reaction (Except Error Value)}
    (hheap : heap = Function.update state.heap call (table.cell call phase)) :
    InPhases table { state with heap } (Function.update phases call phase) := by
  apply hphases.update
  · exact hphases.known hmade
  · exact hheap
  · exact hphase
  · rw [hview, Function.update_eq_self]
    exact hphases.orderly

end InPhases

variable {phase : Phase} {first bound : Nat} {reaction : Reaction} {outcome : Except Error Value}
  {moves : List (LockMove Key Value Error)}

omit [DecidableEq Name] in
theorem spent_update_le {call : Nat} (hle : table.spent (phases call) ≤ table.spent phase)
    (other : Nat) :
    table.spent (phases other) ≤ table.spent (Function.update phases call phase other) := by
  by_cases heq : other = call
  · rw [heq, Function.update_self]
    exact hle
  · exact Nat.le_of_eq (by rw [Function.update_of_ne heq])

omit [DecidableEq Name] in
theorem InPhases.behind [DecidableEq Key] (hphases : InPhases table state phases) {key : Key}
    {thrown : Option Error} (phase phase' : Phase) (hentry : state.entries key = some first)
    (hopen : (table.view (phases first)).settled = false)
    (hcalls : next.calls = state.calls ++ [⟨key, thrown⟩])
    (hheap : next.heap = Function.update (Function.update state.heap first (table.cell first
      phase)) state.keys.length (table.cell state.keys.length phase'))
    (hentries : next.entries = Function.update state.entries key (some state.keys.length))
    (htrace : next.trace = state.trace) (hphase : phase ≠ table.absent)
    (hphase' : phase' ≠ table.absent)
    (hview : table.view phase = { table.view (phases first) with link := some state.keys.length })
    (hview' : table.view phase' = { prior := some first })
    (hspent : table.spent (phases first) = table.spent phase)
    (hnew : table.spent table.absent ≤ table.spent phase') :
    ∃ phases', InPhases table next phases' ∧
      ∀ other, table.spent (phases other) ≤ table.spent (phases' other) := by
  have hlt := hphases.orderly.chained.lt_of_latest hentry
  refine ⟨Function.update (Function.update phases first phase) state.keys.length phase', ?_,
    fun other => ?_⟩
  · apply hphases.enter_behind hcalls ((hphases.made first).mp hlt) hheap hphase hphase'
    rw [hview, hview', hentries, htrace]
    exact hphases.orderly.enter_behind hentry hopen
  · apply Nat.le_trans (spent_update_le (Nat.le_of_eq hspent) other)
    apply spent_update_le
    rw [Function.update_of_ne (by omega), hphases.absent_new]
    exact hnew

/-- What a microtask does: its call comes to a later phase, and no call to an earlier one. -/
def Advanced (table : PhaseTable Phase Name Reaction (Except Error Value))
    (phases phases' : Nat → Phase) (call : Nat) : Prop :=
  table.spent (phases call) < table.spent (phases' call) ∧
    ∀ other, table.spent (phases other) ≤ table.spent (phases' other)

omit [DecidableEq Name] in
theorem advanced_update {call : Nat} (hlt : table.spent (phases call) < table.spent phase) :
    Advanced table phases (Function.update phases call phase) call :=
  ⟨by rwa [Function.update_self], spent_update_le (Nat.le_of_lt hlt)⟩

omit [DecidableEq Name] in
theorem advanced_update_two {call : Nat} {phase' : Phase} (hne : call ≠ first)
    (hlt : table.spent (phases first) < table.spent phase)
    (hle : table.spent (phases call) ≤ table.spent phase') : Advanced table phases
      (Function.update (Function.update phases first phase) call phase') first := by
  refine ⟨by rwa [Function.update_of_ne hne.symm, Function.update_self], fun other => ?_⟩
  apply Nat.le_trans (spent_update_le (Nat.le_of_lt hlt) other)
  apply spent_update_le
  rwa [Function.update_of_ne hne]

variable {program : LockProgram Name Reaction Key Value Error} {call : Nat}
  {promises : Name → Option (Promises.Settlement Reaction (Except Error Value))}
  {rest : List (Promises.Microtask Name Reaction (Except Error Value))}

theorem tick_idle (hcell : state.heap call = ⟨promises, []⟩) :
    lockStep program state (.tick call) = none := by
  simp [lockStep, hcell]

theorem tick_adopt {source : Name}
    (hcell : state.heap call = ⟨promises, .adopt source reaction :: rest⟩) :
    lockStep program state (.tick call) =
      some
        { state with
          heap := Promises.Heap.subscribe (Function.update state.heap call ⟨promises, rest⟩) call
            source (call, reaction) } := by
  simp [lockStep, hcell, LockState.subscribe]

theorem tick_react (hcell : state.heap call = ⟨promises, .react reaction outcome :: rest⟩) :
    lockStep program state (.tick call) = some (program.react
        { state with heap := Function.update state.heap call ⟨promises, rest⟩ } call reaction
        outcome) := by
  simp [lockStep, hcell]

theorem settle_eq_some (hstep : lockStep program state (.settle call outcome) = some next) :
    (∃ reactions, (state.heap call).promises program.body = some (.pending reactions)) ∧
      next =
        { state with
          heap := Promises.Heap.settle (Function.update state.heap call (state.heap call)) call
            program.body outcome
          trace := .finished call outcome :: state.trace } := by
  unfold lockStep at hstep
  dsimp only at hstep
  split at hstep
  · rename_i reactions hpending
    rw [Function.update_eq_self]
    exact ⟨⟨reactions, hpending⟩, (Option.some.inj hstep).symm⟩
  · cases hstep

/-- A call without microtasks waits for another one, has its body running, or is done. -/
def AtRest (view : View (Except Error Value)) : Prop :=
  view.prior ≠ none ∨ (view.started = true ∧ view.outcome = none) ∨
    (view.told = true ∧ view.settled = true)

omit [DecidableEq Name] in
theorem fairMutex_of_phases (hphases : InPhases table state phases)
    (hidle : ∀ (call : Nat) phase, phase ≠ table.absent → (table.cell call phase).queue = [] →
      AtRest (table.view phase))
    (hspent : ∀ phase, table.spent phase ≤ bound)
    (hmoves : ∀ call, moves.countP (LockMove.ticks call) ≤ table.spent (phases call)) :
    FairMutex bound moves state where
  fair := hphases.orderly.recorded.fair
  alone call other hcall hother hkey :=
    hphases.orderly.recorded.fair.alone hcall hother hkey
  bounded call := Nat.le_trans (hmoves call) (hspent _)
  cleaned key call hentry := by
    obtain ⟨hkey, hopen, -⟩ := hphases.orderly.chained.latest key call hentry
    refine ⟨call, hkey, fun outcome hreceived => ?_⟩
    have htold := ((hphases.orderly.recorded.received call outcome).mp hreceived).1
    have hcleaned := (hphases.orderly.chained.sound call).told htold
    rw [hopen] at hcleaned
    cases hcleaned
  unblocked key hdrained call hkey hfirst := by
    have hviews : ∀ {other : Nat}, state.keys[other]? = some key →
        AtRest (table.view (phases other)) := by
      intro other hother
      have hlt := (List.getElem?_eq_some_iff.mp hother).1
      apply hidle other _ ((hphases.made other).mp hlt)
      rw [← hphases.heap other]
      exact hdrained other hother
    have hcall := hphases.orderly.chained.sound call
    have hfree : (table.view (phases call)).prior = none := by
      apply Option.eq_none_iff_forall_ne_some.mpr
      intro prior hprior
      -- the call that it waits for has finished and is idle, so it has let this one go
      obtain ⟨hbefore, hsame, hopen, -⟩ := hphases.orderly.chained.behind call prior hprior
      have hpriorKey : state.keys[prior]? = some key := hsame.trans hkey
      obtain ⟨outcome, hfinished⟩ := hfirst prior hbefore hpriorKey
      have houtcome := (hphases.orderly.recorded.finished prior outcome).mp hfinished
      have hsound := hphases.orderly.chained.sound prior
      have hstarted := hsound.ended (by rw [houtcome]; exact Option.some_ne_none _)
      apply (hviews hpriorKey).elim
      · exact fun hwaits => hwaits (hsound.started hstarted)
      · intro hdone
        apply hdone.elim
        · intro hruns
          rw [houtcome] at hruns
          cases hruns.2
        · intro htold
          rw [hopen] at htold
          cases htold.2
    have hstages := (hviews hkey).resolve_left (fun hwaits => hwaits hfree)
    have hstarted : (table.view (phases call)).started = true := by
      apply hstages.elim
      · exact fun hruns => hruns.1
      · exact fun hdone => hcall.ended (hcall.settled hdone.2)
    refine ⟨(hphases.orderly.recorded.started call).mpr hstarted, fun outcome hfinished => ?_⟩
    have houtcome := (hphases.orderly.recorded.finished call outcome).mp hfinished
    apply (hphases.orderly.recorded.received call outcome).mpr
    apply hstages.elim
    · intro hruns
      rw [houtcome] at hruns
      cases hruns.2
    · exact fun hdone => ⟨hdone.1, houtcome⟩

structure Stepwise (program : LockProgram Name Reaction Key Value Error)
    (table : PhaseTable Phase Name Reaction (Except Error Value)) (bound : Nat) : Prop where
  empty : ∀ call, table.cell call table.absent = {}
  blank : table.view table.absent = {}
  idle : ∀ (call : Nat) phase, phase ≠ table.absent → (table.cell call phase).queue = [] →
    AtRest (table.view phase)
  spent : ∀ phase, table.spent phase ≤ bound
  run : ∀ {state phases} key thrown, InPhases table state phases →
    ∃ phases', InPhases table (program.run state key thrown) phases' ∧
      ∀ other, table.spent (phases other) ≤ table.spent (phases' other)
  settle : ∀ {state next phases call outcome}, InPhases table state phases →
    lockStep program state (.settle call outcome) = some next →
    ∃ phases', InPhases table next phases' ∧
      ∀ other, table.spent (phases other) ≤ table.spent (phases' other)
  tick : ∀ {state next phases call}, InPhases table state phases →
    lockStep program state (.tick call) = some next →
    ∃ phases', InPhases table next phases' ∧ Advanced table phases phases' call

def Counted (table : PhaseTable Phase Name Reaction (Except Error Value))
    (moves : List (LockMove Key Value Error)) (state : LockState Name Reaction Key Value Error) :
    Prop :=
  ∃ phases, InPhases table state phases ∧
    ∀ call, moves.countP (LockMove.ticks call) ≤ table.spent (phases call)

theorem Stepwise.counted_step (hsteps : Stepwise program table bound)
    {before : List (LockMove Key Value Error)} {move : LockMove Key Value Error}
    (hbefore : Counted table before state) (hstep : lockStep program state move = some next) :
    Counted table (before ++ [move]) next := by
  obtain ⟨phases, hphases, hcount⟩ := hbefore
  have hstays : ∀ {phases' : Nat → Phase}, (∀ call, LockMove.ticks call move = false) →
      (∀ other, table.spent (phases other) ≤ table.spent (phases' other)) →
      ∀ other, (before ++ [move]).countP (LockMove.ticks other) ≤
        table.spent (phases' other) := by
    intro phases' hquiet hle other
    rw [List.countP_append, List.countP_singleton, hquiet other]
    exact Nat.le_trans (hcount other) (hle other)
  cases move with
  | call key thrown =>
      obtain rfl := Option.some.inj hstep
      obtain ⟨phases', hnext, hle⟩ := hsteps.run key thrown hphases
      exact ⟨phases', hnext, hstays (fun _ => rfl) hle⟩
  | settle call outcome =>
      obtain ⟨phases', hnext, hle⟩ := hsteps.settle hphases hstep
      exact ⟨phases', hnext, hstays (fun _ => rfl) hle⟩
  | tick call =>
      obtain ⟨phases', hnext, hlt, hle⟩ := hsteps.tick hphases hstep
      refine ⟨phases', hnext, fun other => ?_⟩
      have hother := hcount other
      rw [List.countP_append, List.countP_singleton]
      by_cases heq : call = other
      · rw [← heq] at hother ⊢
        simp only [LockMove.ticks, decide_true, if_true]
        omega
      · simp only [LockMove.ticks, heq, decide_false, Bool.false_eq_true, if_false]
        exact Nat.le_trans hother (hle other)

/-- A lock whose steps take its calls from phase to phase is fair. -/
theorem Stepwise.fairMutex (hsteps : Stepwise program table bound)
    (hrun : LockRun program moves state) : FairMutex bound moves state := by
  have hcounted : Counted table moves state := by
    apply hrun.invariant_trace (Counted table)
    · exact fun _ _ _ _ hbefore _ hstep => hsteps.counted_step hbefore hstep
    · refine ⟨fun _ => table.absent, ⟨fun call => (hsteps.empty call).symm, ?_, ?_⟩,
        fun _ => Nat.zero_le _⟩
      · exact fun _ => iff_of_false (Nat.not_lt_zero _) fun hne => hne rfl
      · rw [hsteps.blank]
        exact Orderly.empty
  obtain ⟨phases, hphases, hcount⟩ := hcounted
  exact fairMutex_of_phases hphases hsteps.idle hsteps.spent hcount

end KeyedLock
