import Aof.Lib.Run

/-!
# Interleaved processes

A pool of processes over one shared state.  A process runs alone from one of its wait points to the
next, and in between any other process may run.  An invariant of the pool has a part about the
shared state, a part about each process at the point where it waits, and a part about each pair of
processes.
-/

namespace Interleaving

variable {Shared Process Event : Type}

structure Pool (Shared Process : Type) where
  shared : Shared
  processes : List Process

structure Turn (Event : Type) where
  index : Nat
  event : Event
  deriving DecidableEq, Repr

variable {advance : Event → Shared → Process → Option (Shared × Process)}

def step (advance : Event → Shared → Process → Option (Shared × Process))
    (pool : Pool Shared Process) (turn : Turn Event) : Option (Pool Shared Process) := do
  let process ← pool.processes[turn.index]?
  let (shared, process) ← advance turn.event pool.shared process
  some ⟨shared, pool.processes.set turn.index process⟩

theorem step_eq_some {pool next : Pool Shared Process} {turn : Turn Event} :
    step advance pool turn = some next ↔
      ∃ process shared process', pool.processes[turn.index]? = some process ∧
        advance turn.event pool.shared process = some (shared, process') ∧
        next = ⟨shared, pool.processes.set turn.index process'⟩ := by
  simp only [step, Option.bind_eq_bind, Option.bind_eq_some_iff, Option.some.injEq, Prod.exists]
  constructor
  · rintro ⟨process, hprocess, shared, process', hadvance, rfl⟩
    exact ⟨process, shared, process', hprocess, hadvance, rfl⟩
  · rintro ⟨process, shared, process', hprocess, hadvance, rfl⟩
    exact ⟨process, hprocess, shared, process', hadvance, rfl⟩

abbrev Runs (advance : Event → Shared → Process → Option (Shared × Process))
    (ok : Pool Shared Process → Turn Event → Prop) :
    Pool Shared Process → List (Turn Event) → Pool Shared Process → Prop :=
  StepSystem.Run (step advance) ok

/-- What holds of the shared state, of each waiting process, and of any two processes. -/
structure Assertion (Shared Process : Type) where
  global : Shared → Prop
  waiting : Shared → Process → Prop
  apart : Process → Process → Prop

structure Assertion.Holds (assertion : Assertion Shared Process) (pool : Pool Shared Process) :
    Prop where
  global : assertion.global pool.shared
  waiting : ∀ (index : Nat) (process : Process), pool.processes[index]? = some process →
    assertion.waiting pool.shared process
  apart : ∀ (i j : Nat) (p q : Process), i ≠ j → pool.processes[i]? = some p →
    pool.processes[j]? = some q →
    assertion.apart p q

/-- One turn preserves an assertion: the process whose turn it is reaches its next point, and
disturbs no other process. -/
structure Preserves (advance : Event → Shared → Process → Option (Shared × Process))
    (ok : Pool Shared Process → Turn Event → Prop) (assertion : Assertion Shared Process) :
    Prop where
  symm : ∀ {p q : Process}, assertion.apart p q → assertion.apart q p
  own : ∀ {pool turn process shared process'}, assertion.Holds pool → ok pool turn →
    pool.processes[turn.index]? = some process →
    advance turn.event pool.shared process = some (shared, process') →
    assertion.global shared ∧ assertion.waiting shared process'
  others : ∀ {pool turn process shared process'} {index : Nat} {other : Process},
    assertion.Holds pool → ok pool turn →
    pool.processes[turn.index]? = some process →
    advance turn.event pool.shared process = some (shared, process') →
    turn.index ≠ index → pool.processes[index]? = some other →
    assertion.waiting shared other ∧ assertion.apart process' other

section Rules

variable {ok : Pool Shared Process → Turn Event → Prop} {assertion : Assertion Shared Process}
variable {pool next : Pool Shared Process}

theorem Preserves.step {turn : Turn Event} (hpreserves : Preserves advance ok assertion)
    (hholds : assertion.Holds pool) (hok : ok pool turn)
    (hstep : step advance pool turn = some next) : assertion.Holds next := by
  obtain ⟨process, shared, process', hprocess, hadvance, rfl⟩ := step_eq_some.mp hstep
  obtain ⟨hglobal, hwaiting⟩ := hpreserves.own hholds hok hprocess hadvance
  have hlt : turn.index < pool.processes.length := (List.getElem?_eq_some_iff.mp hprocess).1
  have hself : (pool.processes.set turn.index process')[turn.index]? = some process' :=
    List.getElem?_set_self hlt
  have hne : ∀ index, turn.index ≠ index →
      (pool.processes.set turn.index process')[index]? = pool.processes[index]? :=
    fun index hindex => List.getElem?_set_ne hindex
  have hothers : ∀ index other, turn.index ≠ index → pool.processes[index]? = some other →
      assertion.waiting shared other ∧ assertion.apart process' other :=
    fun _ _ hindex hother => hpreserves.others hholds hok hprocess hadvance hindex hother
  refine ⟨hglobal, ?_, ?_⟩
  · intro index p hp
    by_cases hindex : turn.index = index
    · subst hindex
      rw [hself, Option.some.injEq] at hp
      exact hp ▸ hwaiting
    · exact (hothers index p hindex (hne index hindex ▸ hp)).1
  · intro i j p q hij hp hq
    by_cases hi : turn.index = i
    · subst hi
      rw [hself, Option.some.injEq] at hp
      exact hp ▸ (hothers j q hij (hne j hij ▸ hq)).2
    · rw [hne i hi] at hp
      by_cases hj : turn.index = j
      · subst hj
        rw [hself, Option.some.injEq] at hq
        exact hq ▸ hpreserves.symm (hothers i p hi hp).2
      · exact hholds.apart i j p q hij hp (hne j hj ▸ hq)

theorem Preserves.run {turns : List (Turn Event)} (hpreserves : Preserves advance ok assertion)
    (hrun : Runs advance ok pool turns next) (hinit : assertion.Holds pool) :
    assertion.Holds next :=
  hrun.invariant assertion.Holds (fun _ _ _ hholds hok hstep => hpreserves.step hholds hok hstep)
    hinit

end Rules

end Interleaving
