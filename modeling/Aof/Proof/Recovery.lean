import Aof.Dispatch.PlanExecution
import Aof.Proof.OneTask

/-!
# What a stale heartbeat does

The recovery of a task whose session has not been heard of, on an executor that may run the callback
of the session, and an assignment whose session is never spawned.
-/

namespace Aof

def Task.forced (task : Task) (forces : Bool) : Bool :=
  forces && (truthy task.metadata.sessionId).isSome

def Task.recovered (task : Task) (forces : Bool) (runResult : Option RunResult) : Task :=
  let current := if task.forced forces then task.afterRun none else task
  match runResult with
  | none => Store.transitioned current .ready
  | some runResult =>
      if task.forced forces then current
      else (resolveCompletionTransitions task runResult.outcome).foldl Store.transitioned current

def Task.heldBy (task : Task) (agent : Option String) : Bool :=
  agent.isNone || task.lease.map TaskLease.agent = agent

section

variable {id : String} {runResult : Option RunResult} {task : Task} {agent : Option String}
variable {forces : Bool}

theorem does_cascadeOnCompletion {completedTaskId : String} (hbacklog : task.status ≠ .backlog)
    (hblocked : task.status ≠ .blocked) :
    Does id runResult task (cascadeOnCompletion completedTaskId) (some ()) task := by
  intro store hholds
  obtain ⟨hreturns, htasks, hresults⟩ := run_cascadeOnCompletion completedTaskId store
  refine ⟨hreturns, ?_, (hresults id).trans hholds.runResult⟩
  rw [htasks, hholds.task, Option.map_some, Task.cascaded, if_neg]
  simp [Task.wokenBy, hbacklog, hblocked]

variable {newStatus : TaskStatus} {now ttlMs : Nat} {agentId : String}

theorem does_transition_valid (hvalid : isValidTransition task.status newStatus = true)
    (hne : task.status ≠ newStatus) :
    Does id runResult task (do let _ ← Store.transition id newStatus) (some ())
      (Store.transitioned task newStatus) := by
  have hdoes : Does id runResult task (do let _ ← Store.transition id newStatus) _ _ :=
    does_transition_then newStatus
  rwa [moved_valid hvalid hne] at hdoes

theorem does_transition_invalid (hvalid : isValidTransition task.status newStatus = false)
    (hne : task.status ≠ newStatus) :
    Does id runResult task (do let _ ← Store.transition id newStatus) none task := by
  have hdoes : Does id runResult task (do let _ ← Store.transition id newStatus) _ _ :=
    does_transition_then newStatus
  rwa [Task.moved, if_neg hne, if_neg (by rw [hvalid]; exact Bool.false_ne_true)] at hdoes

theorem afterRun_status (errorClass : Option String) :
    (task.afterRun errorClass).status =
      if shouldTransitionToDeadletter (task.withErrorClass errorClass).withDispatchFailure then
        .deadletter else .blocked := rfl

theorem does_recoverWith_of_not (hnot : task.status ≠ .inProgress ∨ task.heldBy agent = false) :
    Does id runResult task (recoverWith id agent forces) (some ()) task := by
  apply does_get.bind
  dsimp only
  by_cases hstatus : task.status ≠ .inProgress
  · rw [if_pos hstatus]
    exact does_pure ()
  · have hheld := hnot.resolve_left hstatus
    rw [if_neg hstatus, if_pos]
    · exact does_pure ()
    · simpa [Task.heldBy, Option.isSome_iff_ne_none] using hheld

theorem does_forced (hstatus : task.status = .inProgress) :
    Does id runResult task (forceCompleteSession task forces) (some ())
      (if task.forced forces then task.afterRun none else task) := by
  apply Does.of_id
  rintro rfl
  unfold Task.forced forceCompleteSession
  by_cases hforced : forces = true ∧ (truthy task.metadata.sessionId).isSome = true
  · rw [if_pos hforced, if_pos (by simpa using hforced)]
    exact (does_handleRunComplete hstatus).attempt
  · rw [if_neg hforced, if_neg (by simpa using hforced)]
    exact does_pure ()

theorem does_outcome (hstatus : task.status = .inProgress) (runResult : Option RunResult)
    (outcome : CompletionOutcome) :
    Does id runResult task
      ((resolveCompletionTransitions task outcome).forM fun targetStatus => do
        let _ ← Store.transition id targetStatus)
      (some ()) ((resolveCompletionTransitions task outcome).foldl Store.transitioned task) := by
  have hreview : Does id runResult task (do let _ ← Store.transition id .review) (some ())
      (Store.transitioned task .review) :=
    does_transition_valid (by rw [hstatus]; rfl) (by rw [hstatus]; decide)
  cases outcome with
  | done =>
      rw [resolveCompletionTransitions, if_neg (by rw [hstatus]; decide)]
      split
      · exact hreview.bind (does_pure ())
      · have hdone : Does id runResult (Store.transitioned task .review)
            (do let _ ← Store.transition id .done) (some ())
            (Store.transitioned (Store.transitioned task .review) .done) :=
          does_transition_valid rfl nofun
        exact hreview.bind (hdone.bind (does_pure ()))
  | blocked =>
      have hblocked : Does id runResult task (do let _ ← Store.transition id .blocked) (some ())
          (Store.transitioned task .blocked) :=
        does_transition_valid (by rw [hstatus]; rfl) (by rw [hstatus]; decide)
      exact hblocked.bind (does_pure ())
  | needsReview => exact hreview.bind (does_pure ())
  | partiallyDone => exact hreview.bind (does_pure ())

theorem outcome_status {outcome : CompletionOutcome} (hstatus : task.status = .inProgress)
    (hdone : outcome = .done) :
    ((resolveCompletionTransitions task outcome).foldl Store.transitioned task).status ≠ .backlog ∧
      ((resolveCompletionTransitions task outcome).foldl Store.transitioned task).status ≠
        .blocked := by
  rw [hdone, resolveCompletionTransitions, if_neg (by rw [hstatus]; decide)]
  split
  · exact ⟨nofun, nofun⟩
  · exact ⟨nofun, nofun⟩

theorem does_outcome_forced (runResult : Option RunResult) {current : Task}
    (hstatus : task.status = .inProgress)
    (hcurrent : current.status = .blocked ∨ current.status = .deadletter)
    (outcome : CompletionOutcome) :
    ∃ result, Does id runResult current
      ((resolveCompletionTransitions task outcome).forM fun targetStatus => do
        let _ ← Store.transition id targetStatus) result current ∧
      (outcome = .done → result = none) := by
  have hreview : Does id runResult current (do let _ ← Store.transition id .review) none
      current := by
    rcases hcurrent with h | h
    · exact does_transition_invalid (by rw [h]; rfl) (by rw [h]; decide)
    · exact does_transition_invalid (by rw [h]; rfl) (by rw [h]; decide)
  cases outcome with
  | done =>
      rw [resolveCompletionTransitions, if_neg (by rw [hstatus]; decide)]
      split
      · exact ⟨none, hreview.bind_throw, fun _ => rfl⟩
      · exact ⟨none, hreview.bind_throw, fun _ => rfl⟩
  | blocked =>
      have hblocked : Does id runResult current (do let _ ← Store.transition id .blocked) _ _ :=
        does_transition_then .blocked
      rcases hcurrent with h | h
      · rw [moved_same h] at hblocked
        exact ⟨some (), hblocked.bind (does_pure ()), fun h => by cases h⟩
      · rw [Task.moved, if_neg (by rw [h]; decide), if_neg (by rw [h]; decide)] at hblocked
        exact ⟨none, hblocked.bind_throw, fun h => by cases h⟩
  | needsReview => exact ⟨none, hreview.bind_throw, fun h => by cases h⟩
  | partiallyDone => exact ⟨none, hreview.bind_throw, fun h => by cases h⟩

theorem does_recoverWith (id : String) (runResult : Option RunResult) (forces : Bool)
    (hstatus : task.status = .inProgress) (hheld : task.heldBy agent = true) :
    ∃ result, Does id runResult task (recoverWith id agent forces) result
      (task.recovered forces runResult) := by
  have hskip : ¬(agent.isSome = true ∧ task.lease.map TaskLease.agent ≠ agent) := by
    rintro ⟨hsome, hother⟩
    simp only [Task.heldBy, Bool.or_eq_true, decide_eq_true_eq] at hheld
    rcases hheld with hnone | hsame
    · rw [Option.isNone_iff_eq_none.mp hnone] at hsome
      cases hsome
    · exact hother hsame
  suffices hrest : ∃ result, Does id runResult
      (if task.forced forces then task.afterRun none else task)
      (recoverByResult id task runResult)
      result (task.recovered forces runResult) by
    obtain ⟨result, hrest⟩ := hrest
    refine ⟨result, does_get.bind ?_⟩
    dsimp only
    rw [if_neg (not_not_intro hstatus), if_neg hskip]
    exact (does_forced hstatus).bind (does_readRunResult.bind hrest)
  unfold Task.recovered recoverByResult
  by_cases hforced : task.forced forces = true
  · have hcurrent : (task.afterRun none).status = .blocked ∨
        (task.afterRun none).status = .deadletter := by
      rw [afterRun_status]
      split
      · exact .inr rfl
      · exact .inl rfl
    simp only [hforced, ↓reduceIte]
    cases runResult with
    | none =>
        refine ⟨some (), ?_⟩
        rcases hcurrent with h | h
        · exact does_transition_valid (by rw [h]; rfl) (by rw [h]; decide)
        · exact does_transition_valid (by rw [h]; rfl) (by rw [h]; decide)
    | some runResult =>
        obtain ⟨result, hdoes, hdone⟩ := does_outcome_forced (some runResult) hstatus
          hcurrent runResult.outcome
        cases result with
        | none => exact ⟨none, hdoes.bind_throw⟩
        | some value =>
            have hother : runResult.outcome ≠ .done := fun h => absurd (hdone h) (by simp)
            refine ⟨some (), hdoes.bind ?_⟩
            rw [if_neg hother]
            exact does_pure ()
  · simp only [hforced, Bool.false_eq_true, ↓reduceIte]
    cases runResult with
    | none => exact ⟨some (), does_transition_valid (by rw [hstatus]; rfl) (by rw [hstatus]; decide)⟩
    | some runResult =>
        refine ⟨some (), (does_outcome hstatus _ runResult.outcome).bind ?_⟩
        split
        · rename_i hdone
          apply Does.attempt
          apply does_cascadeOnCompletion
          · exact (outcome_status hstatus hdone).1
          · exact (outcome_status hstatus hdone).2
        · exact does_pure ()

theorem does_acquired (hready : task.status = .ready)
    (hlease : Store.leaseActive task.lease now = false) :
    Does id runResult task (do
      let leasedTask ← Store.acquireLease id agentId now ttlMs
      Store.save leasedTask) (some ()) (task.assignedTo agentId now ttlMs) :=
  (does_acquireLease hready hlease).bind (does_save rfl)

/-- What an assignment leaves of its task; without an answer it is at work. -/
def Task.afterAssignWith (task : Task) (agent : String) (spawn : Option SpawnResult)
    (now ttlMs : Nat) : Task :=
  match spawn with
  | some spawn => task.afterAssign agent spawn now ttlMs
  | none => task.assignedTo agent now ttlMs

theorem does_assignWith {allTasks : List Task} {spawn : Option SpawnResult} :
    Does id runResult task (assignWith id agentId allTasks spawn now ttlMs) (some ())
      (if task.assignable allTasks now then task.afterAssignWith agentId spawn now ttlMs
        else task) := by
  cases spawn with
  | some spawn =>
      rw [assignWith_some]
      by_cases hassignable : task.assignable allTasks now = true
      · rw [if_pos hassignable]
        exact does_executeAssignAction hassignable
      · rw [if_neg hassignable]
        exact does_executeAssignAction_of_not (Bool.not_eq_true _ ▸ hassignable)
  | none =>
      apply Does.of_id
      rintro rfl
      apply does_get.bind
      dsimp only
      by_cases hassignable : task.assignable allTasks now = true
      · rw [if_pos hassignable]
        simp only [Task.assignable, Bool.and_eq_true, decide_eq_true_eq, Bool.not_eq_true']
          at hassignable
        obtain ⟨⟨hready, hlease⟩, hseen⟩ := hassignable
        rw [if_neg]
        · exact does_acquired hready hlease
        · rintro (h | h | h)
          · exact h hready
          · exact absurd h (by rw [hlease]; exact Bool.false_ne_true)
          · exact h hseen
      · rw [if_neg hassignable, if_pos]
        · exact does_pure ()
        · simp only [Task.assignable, Bool.and_eq_true, decide_eq_true_eq, Bool.not_eq_true',
            not_and_or, Bool.not_eq_false] at hassignable
          rcases hassignable with (h | h) | h
          · exact .inl h
          · exact .inr (.inl h)
          · exact .inr (.inr h)

end

end Aof
