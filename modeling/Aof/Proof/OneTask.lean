import Aof.Proof.PollStarts

/-!
# What a command does to its task

Most operations read and write one task and leave the others alone.  What such an operation does is
told by its result and the task that it leaves, given the task that it finds.
-/

namespace Aof

structure Only (id : String) (before after : Store) : Prop where
  others : ∀ other, other ≠ id → after.tasks.get? other = before.tasks.get? other
  runResults : ∀ other, other ≠ id → after.runResults.get? other = before.runResults.get? other

instance (id : String) : IsPreorder Store (Only id) where
  refl _ := ⟨fun _ _ => rfl, fun _ _ => rfl⟩
  trans _ _ _ hab hbc :=
    ⟨fun other hne => (hbc.others other hne).trans (hab.others other hne),
      fun other hne => (hbc.runResults other hne).trans (hab.runResults other hne)⟩

section Others

variable {store : Store} {taskId : String}

theorem only_put {task : Task} (hid : task.id = taskId) : Only taskId store (store.put task) := by
  constructor
  · intro other hne
    rw [Store.tasks_put, if_neg (hid ▸ hne.symm)]
  · exact fun other _ => by rw [Store.runResults_put]

theorem only_get {α : Type} {id : String} {next : Option Task → Command Store α}
    (hnext : Command.Relates (Only taskId) (next (store.tasks.get? id)) store) :
    Command.Relates (Only taskId) (Store.get id >>= next) store := hnext

theorem only_save {task : Task} (hid : task.id = taskId) :
    Command.Relates (Only taskId) (Store.save task) store := only_put hid

theorem only_patch {change : Task → Task} (hchange : ∀ task, (change task).id = task.id) :
    Command.Relates (Only taskId) (Store.patch taskId change) store := by
  apply only_get
  split
  · exact .pure () store
  · rename_i task hget
    exact only_save ((hchange task).trans (store.keyed taskId task hget))

theorem only_transition (newStatus : TaskStatus) :
    Command.Relates (Only taskId) (Store.transition taskId newStatus) store := by
  unfold Command.Relates
  rcases Store.transition_cases store taskId newStatus with hsame | ⟨task, hget, -, -, hrun⟩
  · rw [hsame]
    exact refl_of (Only taskId) store
  · rw [hrun]
    exact only_put (store.keyed taskId task hget)

theorem only_transition_then (newStatus : TaskStatus) :
    Command.Relates (Only taskId) (do let _ ← Store.transition taskId newStatus) store :=
  (only_transition newStatus).bind fun _ t _ => .pure () t

theorem only_transitionToDeadletter :
    Command.Relates (Only taskId) (transitionToDeadletter taskId) store := by
  apply only_get
  split
  · exact .throw store
  · exact only_transition_then .deadletter

theorem only_trackDispatchFailure :
    Command.Relates (Only taskId) (trackDispatchFailure taskId) store := by
  apply only_get
  split
  · exact .throw store
  · rename_i task hget
    exact only_save (store.keyed taskId task hget)

theorem only_handleExpireLease (allTasks : List Task) (maxRetries : Nat) (backoffElapsed : Bool) :
    Command.Relates (Only taskId) (handleExpireLease taskId allTasks maxRetries backoffElapsed)
      store := by
  apply only_get
  split
  · exact .pure () store
  rename_i task hget
  refine Command.Relates.bind (only_save (store.keyed taskId task hget)) fun _ t _ => ?_
  split
  · split
    · split
      · exact only_transitionToDeadletter
      · exact only_transition_then .ready
      · exact .pure () t
    · split
      · exact only_transition_then .ready
      · exact .pure () t
  · exact only_transition_then .ready

theorem only_handleRequeue : Command.Relates (Only taskId) (handleRequeue taskId) store := by
  apply (only_patch fun _ => rfl).bind
  exact fun _ t _ => only_transition_then .ready

theorem only_acquireLease (agentId : String) (now ttlMs : Nat) :
    Command.Relates (Only taskId) (Store.acquireLease taskId agentId now ttlMs) store := by
  apply only_get
  split
  · exact .throw store
  rename_i task hget
  split
  · exact .throw store
  split
  · exact .throw store
  refine Command.Relates.bind (only_save (store.keyed taskId task hget)) fun _ t _ => ?_
  split
  · exact only_transition .inProgress
  · exact .pure _ t

theorem only_releaseLease (agentId : String) :
    Command.Relates (Only taskId) (Store.releaseLease taskId agentId) store := by
  apply only_get
  split
  · exact .throw store
  · split
    · exact only_transition_then .ready
    · exact .throw store

theorem only_executeAssignAction (agent : String) (allTasks : List Task) (spawn : SpawnResult)
    (now ttlMs : Nat) : Command.Relates (Only taskId)
      (executeAssignAction taskId agent allTasks spawn now ttlMs) store := by
  apply only_get
  split
  · exact .pure () store
  split
  · exact .pure () store
  apply (only_acquireLease agent now ttlMs).bind
  intro leasedTask t hleased
  refine Command.Relates.bind (only_save (id_of_acquireLease hleased)) fun _ u _ => ?_
  split
  · exact only_patch fun _ => rfl
  · split
    · exact (only_releaseLease agent).attempt
    · refine Command.Relates.bind (only_patch fun _ => rfl) fun _ v _ => ?_
      split
      · exact only_transitionToDeadletter
      · exact only_transition_then .blocked

theorem only_handleRunComplete (errorClass : Option String) :
    Command.Relates (Only taskId) (handleRunComplete taskId errorClass) store := by
  apply only_get
  split
  · exact .pure () store
  split
  · exact .pure () store
  refine Command.Relates.bind (only_patch fun _ => rfl) fun _ t _ => ?_
  refine only_trackDispatchFailure.bind fun _ u _ => ?_
  apply only_get
  split
  · exact only_transition_then .blocked
  · split
    · exact only_transitionToDeadletter
    · exact only_transition_then .blocked

end Others

def Task.moved (task : Task) (newStatus : TaskStatus) : Option Task :=
  if task.status = newStatus then some task
  else if isValidTransition task.status newStatus then some (Store.transitioned task newStatus)
  else none

variable {task : Task} {newStatus : TaskStatus}

theorem moved_same (hsame : task.status = newStatus) :
    task.moved newStatus = some task := if_pos hsame

theorem moved_valid (hvalid : isValidTransition task.status newStatus = true)
    (hne : task.status ≠ newStatus) :
    task.moved newStatus = some (Store.transitioned task newStatus) := by
  rw [Task.moved, if_neg hne, if_pos hvalid]

theorem moved_eq_some {moved : Task} (hmoved : task.moved newStatus = some moved) :
    task.status = newStatus ∧ moved = task ∨ isValidTransition task.status newStatus = true ∧
        moved = Store.transitioned task newStatus := by
  unfold Task.moved at hmoved
  split at hmoved
  · rename_i hsame
    exact .inl ⟨hsame, (Option.some.inj hmoved).symm⟩
  · rw [Option.ite_none_right_eq_some, Option.some.injEq] at hmoved
    exact .inr ⟨hmoved.1, hmoved.2.symm⟩

/-- A store that holds the task and the run result under the id. -/
structure Holds (id : String) (runResult : Option RunResult) (task : Task) (store : Store) :
    Prop where
  task : store.tasks.get? id = some task
  runResult : store.runResults.get? id = runResult

/-- A command that finds the first task ends with the result and leaves the second one. -/
def Does {α : Type} (id : String) (runResult : Option RunResult) (task : Task)
    (command : Command Store α) (result : Option α) (after : Task) : Prop :=
  ∀ store, Holds id runResult task store → (command.run store).1 = result ∧
    Holds id runResult after (command.run store).2

section Does

variable {α β : Type} {id : String} {runResult : Option RunResult} {task middle after : Task}
variable {command : Command Store α} {next : α → Command Store β}

theorem Holds.id_eq {store : Store} (hholds : Holds id runResult task store) : task.id = id :=
  store.keyed id task hholds.task

theorem does_pure (value : α) : Does id runResult task (pure value) (some value) task :=
  fun _ hholds => ⟨rfl, hholds⟩

theorem does_throw : Does id runResult task (.throw : Command Store α) none task :=
  fun _ hholds => ⟨rfl, hholds⟩

theorem Does.bind {value : α} {result : Option β}
    (hcommand : Does id runResult task command (some value) middle)
    (hnext : Does id runResult middle (next value) result after) :
    Does id runResult task (command >>= next) result after := by
  intro store hholds
  obtain ⟨hvalue, hmiddle⟩ := hcommand store hholds
  rw [Command.run_bind_of_some (show command.run store = (some value, (command.run store).2) from
    Prod.ext hvalue rfl)]
  exact hnext _ hmiddle

theorem Does.bind_throw (hcommand : Does id runResult task command none after) :
    Does id runResult task (command >>= next) none after := by
  intro store hholds
  obtain ⟨hvalue, hafter⟩ := hcommand store hholds
  rw [Command.run_bind_of_none (show command.run store = (none, (command.run store).2) from
    Prod.ext hvalue rfl)]
  exact ⟨rfl, hafter⟩

variable {result : Option α} {allTasks : List Task} {agent : String} {spawn : SpawnResult}
  {now ttlMs : Nat} {errorClass : Option String}

theorem Does.attempt (hcommand : Does id runResult task command result after) :
    Does id runResult task command.attempt (some ()) after :=
  fun store hholds => ⟨rfl, (hcommand store hholds).2⟩

theorem Does.of_id (hcommand : task.id = id → Does id runResult task command result after) :
    Does id runResult task command result after :=
  fun store hholds => hcommand hholds.id_eq store hholds

theorem does_get : Does id runResult task (Store.get id) (some (some task)) task :=
  fun _ hholds => ⟨congrArg some hholds.task, hholds⟩

theorem does_readRunResult :
    Does id runResult task (Store.readRunResult id) (some runResult) task := by
  intro store hholds
  rw [Store.run_readRunResult, hholds.task, Option.bind_some, hholds.runResult]
  exact ⟨rfl, hholds⟩

theorem does_save {saved : Task} (hid : saved.id = task.id) :
    Does id runResult task (Store.save saved) (some ()) saved := by
  intro store hholds
  refine ⟨rfl, ?_, ?_⟩
  · rw [Store.run_save, Store.tasks_put, if_pos (hid.trans hholds.id_eq)]
  · rw [Store.run_save, Store.runResults_put]
    exact hholds.runResult

theorem does_patch {change : Task → Task} (hid : (change task).id = task.id) :
    Does id runResult task (Store.patch id change) (some ()) (change task) :=
  does_get.bind (does_save hid)

theorem does_transition (newStatus : TaskStatus) :
    Does id runResult task (Store.transition id newStatus) (task.moved newStatus)
      ((task.moved newStatus).getD task) := by
  apply does_get.bind
  by_cases hsame : task.status = newStatus
  · rw [moved_same hsame]
    simp only [hsame, ↓reduceIte]
    exact does_pure task
  by_cases hvalid : isValidTransition task.status newStatus = true
  · rw [moved_valid hvalid hsame]
    simp only [hsame, hvalid, ↓reduceIte]
    exact Does.bind (does_save rfl) (does_pure _)
  · rw [Task.moved, if_neg hsame, if_neg hvalid]
    simp only [hsame, hvalid, ↓reduceIte]
    exact does_throw

theorem does_transition_then (newStatus : TaskStatus) :
    Does id runResult task (do let _ ← Store.transition id newStatus)
      ((task.moved newStatus).map fun _ => ()) ((task.moved newStatus).getD task) := by
  have htransition : Does id runResult task (Store.transition id newStatus)
      (task.moved newStatus) ((task.moved newStatus).getD task) := does_transition newStatus
  cases hmoved : task.moved newStatus with
  | none =>
      rw [hmoved] at htransition
      exact htransition.bind_throw
  | some moved =>
      rw [hmoved] at htransition
      exact htransition.bind (does_pure ())

theorem does_transitionToDeadletter : Does id runResult task (transitionToDeadletter id)
      ((task.moved .deadletter).map fun _ => ()) ((task.moved .deadletter).getD task) :=
  does_get.bind (does_transition_then .deadletter)

theorem does_trackDispatchFailure :
    Does id runResult task (trackDispatchFailure id) (some ()) task.withDispatchFailure :=
  does_get.bind (does_save rfl)

theorem does_handleRequeue :
    Does id runResult task (handleRequeue id) ((task.moved .ready).map fun _ => ())
      ((task.moved .ready).getD task) :=
  Does.bind (does_patch rfl) (does_transition_then .ready)

/-- The task was last blocked by a failed spawn, as far as its metadata tell. -/
def Task.spawnFailed (task : Task) : Bool :=
  task.metadata.blockReason.any fun reason => includes reason "spawn_failed"

def Task.unleased (task : Task) : Task := { task with lease := none }

def Task.expiryTarget (task : Task) (allTasks : List Task) (maxRetries : Nat)
    (backoffElapsed : Bool) : Option TaskStatus :=
  if task.status = .blocked then
    if task.spawnFailed then
      match shouldAllowSpawnFailedRequeue task maxRetries backoffElapsed with
      | .shouldDeadletter => some .deadletter
      | .allow => some .ready
      | .wait => none
    else if allDependenciesDone allTasks task then some .ready
    else none
  else some .ready

def Task.sentTo (task : Task) (target : Option TaskStatus) : Option Task :=
  match target with
  | some newStatus => task.moved newStatus
  | none => some task

theorem does_handleExpireLease {maxRetries : Nat} {backoffElapsed : Bool} :
    Does id runResult task (handleExpireLease id allTasks maxRetries backoffElapsed)
      ((task.unleased.sentTo (task.expiryTarget allTasks maxRetries backoffElapsed)).map
        fun _ => ())
      ((task.unleased.sentTo (task.expiryTarget allTasks maxRetries backoffElapsed)).getD
        task.unleased) := by
  apply does_get.bind
  refine Does.bind (does_save rfl) ?_
  unfold Task.expiryTarget Task.spawnFailed
  by_cases hblocked : task.status = .blocked
  · rw [if_pos hblocked, if_pos hblocked]
    by_cases hspawn :
        (task.metadata.blockReason.any fun reason => includes reason "spawn_failed") = true
    · rw [if_pos hspawn, if_pos hspawn]
      cases shouldAllowSpawnFailedRequeue task maxRetries backoffElapsed with
      | allow => exact does_transition_then .ready
      | shouldDeadletter => exact does_transitionToDeadletter
      | wait => exact does_pure ()
    · rw [if_neg hspawn, if_neg hspawn]
      by_cases hdeps : allDependenciesDone allTasks task = true
      · rw [if_pos hdeps, if_pos hdeps]
        exact does_transition_then .ready
      · rw [if_neg hdeps, if_neg hdeps]
        exact does_pure ()
  · rw [if_neg hblocked, if_neg hblocked]
    exact does_transition_then .ready

def Task.assignedTo (task : Task) (agent : String) (now ttlMs : Nat) : Task :=
  Store.transitioned (Store.leased task agent now ttlMs) .inProgress

/-- An assignment goes through for a ready task without an active lease that the poll has seen. -/
def Task.assignable (task : Task) (allTasks : List Task) (now : Nat) : Bool :=
  task.status = .ready && !Store.leaseActive task.lease now &&
    allTasks.any fun other => other.id = task.id

def Task.afterAssign (task : Task) (agent : String) (spawn : SpawnResult) (now ttlMs : Nat) :
    Task :=
  let assigned := task.assignedTo agent now ttlMs
  match spawn with
  | .success sessionId => assigned.withSession sessionId
  | .failure error =>
      if error = "no-plugin-attached" then Store.transitioned assigned .ready
      else
        Store.transitioned (assigned.withSpawnFailure error)
          (if classifySpawnError error = "permanent" then .deadletter else .blocked)

theorem does_executeAssignAction_of_not (hassignable : task.assignable allTasks now = false) :
    Does id runResult task (executeAssignAction id agent allTasks spawn now ttlMs) (some ())
      task := by
  apply Does.of_id
  rintro rfl
  apply does_get.bind
  dsimp only
  rw [if_pos]
  · exact does_pure ()
  · simp only [Task.assignable, Bool.and_eq_false_iff, decide_eq_false_iff_not,
      Bool.not_eq_false'] at hassignable
    rcases hassignable with (h | h) | h
    · exact .inl h
    · exact .inr (.inl h)
    · exact .inr (.inr (by rw [h]; exact Bool.false_ne_true))

theorem does_acquireLease (hready : task.status = .ready)
    (hlease : Store.leaseActive task.lease now = false) :
    Does id runResult task (Store.acquireLease id agent now ttlMs)
      (some (task.assignedTo agent now ttlMs)) (task.assignedTo agent now ttlMs) := by
  apply does_get.bind
  dsimp only
  have hother :
      ¬(task.lease.any fun lease => now < lease.expiresAt ∧ lease.agent ≠ agent) = true := by
    intro hany
    obtain ⟨lease, hsome, htest⟩ := (Option.any_eq_true _ _).mp hany
    rw [Store.leaseActive, hsome, Option.any_some, decide_eq_false_iff_not] at hlease
    exact hlease (of_decide_eq_true htest).1
  rw [if_neg (fun h => h.1 hready), if_neg hother]
  refine Does.bind (does_save rfl) ?_
  rw [if_pos hready]
  have hmoved : (Store.leased task agent now ttlMs).moved .inProgress =
      some (task.assignedTo agent now ttlMs) := by
    apply moved_valid
    · rw [show (Store.leased task agent now ttlMs).status = .ready from hready]
      rfl
    · rw [show (Store.leased task agent now ttlMs).status = .ready from hready]
      decide
  have htransition : Does id runResult (Store.leased task agent now ttlMs)
      (Store.transition id .inProgress) _ _ := does_transition .inProgress
  rwa [hmoved] at htransition

theorem does_executeAssignAction (hassignable : task.assignable allTasks now = true) :
    Does id runResult task (executeAssignAction id agent allTasks spawn now ttlMs) (some ())
      (task.afterAssign agent spawn now ttlMs) := by
  apply Does.of_id
  rintro rfl
  apply does_get.bind
  dsimp only
  simp only [Task.assignable, Bool.and_eq_true, decide_eq_true_eq, Bool.not_eq_true']
    at hassignable
  obtain ⟨⟨hready, hlease⟩, hseen⟩ := hassignable
  rw [if_neg]
  swap
  · rintro (h | h | h)
    · exact h hready
    · rw [hlease] at h
      cases h
    · exact h hseen
  apply (does_acquireLease hready hlease).bind
  refine Does.bind (does_save rfl) ?_
  cases spawn with
  | success sessionId => exact does_patch rfl
  | failure error =>
      unfold Task.afterAssign
      by_cases hplugin : error = "no-plugin-attached"
      · simp only [hplugin, ↓reduceIte]
        have hrelease : Does task.id runResult (task.assignedTo agent now ttlMs)
            (Store.releaseLease task.id agent) (some ())
            (Store.transitioned (task.assignedTo agent now ttlMs) .ready) := by
          apply does_get.bind
          dsimp only
          have hagent : (task.assignedTo agent now ttlMs).lease.any
              (fun lease => lease.agent = agent) = true := by
            simp [Task.assignedTo, Store.transitioned, Store.leased]
          rw [if_pos hagent]
          exact does_transition_then .ready
        exact hrelease.attempt
      · simp only [hplugin, ↓reduceIte]
        refine Does.bind (does_patch rfl) ?_
        by_cases hpermanent : classifySpawnError error = "permanent"
        · simp only [hpermanent, ↓reduceIte]
          exact does_transitionToDeadletter
        · simp only [hpermanent, ↓reduceIte]
          exact does_transition_then .blocked

/-- What the callback of a run that ended leaves of a task that is still at work. -/
def Task.afterRun (task : Task) (errorClass : Option String) : Task :=
  let failed := (task.withErrorClass errorClass).withDispatchFailure
  Store.transitioned failed
    (if shouldTransitionToDeadletter failed then .deadletter else .blocked)

theorem does_handleRunComplete_of_ne (hstatus : task.status ≠ .inProgress) :
    Does id runResult task (handleRunComplete id errorClass) (some ()) task := by
  apply does_get.bind
  dsimp only
  rw [if_pos hstatus]
  exact does_pure ()

theorem does_handleRunComplete (hstatus : task.status = .inProgress) :
    Does id runResult task (handleRunComplete id errorClass) (some ())
      (task.afterRun errorClass) := by
  apply does_get.bind
  dsimp only
  rw [if_neg (not_not_intro hstatus)]
  refine Does.bind (does_patch rfl) ?_
  apply does_trackDispatchFailure.bind
  apply does_get.bind
  dsimp only
  have hwork : (task.withErrorClass errorClass).withDispatchFailure.status = .inProgress := hstatus
  unfold Task.afterRun
  by_cases hdeadletter :
      shouldTransitionToDeadletter (task.withErrorClass errorClass).withDispatchFailure = true
  · simp only [hdeadletter, ↓reduceIte]
    have hdoes : Does id runResult (task.withErrorClass errorClass).withDispatchFailure
        (transitionToDeadletter id) _ _ := does_transitionToDeadletter
    rwa [moved_valid (by rw [hwork]; rfl) (by rw [hwork]; decide)] at hdoes
  · simp only [hdeadletter]
    have hdoes : Does id runResult (task.withErrorClass errorClass).withDispatchFailure
        (do let _ ← Store.transition id .blocked) _ _ := does_transition_then .blocked
    rwa [moved_valid (by rw [hwork]; rfl) (by rw [hwork]; decide)] at hdoes

end Does

theorem run_forM_tasks {tasks : List Task} {body : Task → Command Store Unit}
    {effect : Task → Task} {store : Store} (hnodup : (tasks.map Task.id).Nodup)
    (hstored : ∀ task ∈ tasks, store.tasks.get? task.id = some task)
    (hdoes : ∀ task ∈ tasks, ∀ runResult,
      Does task.id runResult task (body task) (some ()) (effect task))
    (honly : ∀ task ∈ tasks, ∀ s, Command.Relates (Only task.id) (body task) s) :
    ((tasks.forM body).run store).1 = some () ∧
      (∀ task ∈ tasks, ((tasks.forM body).run store).2.tasks.get? task.id = some (effect task)) ∧
      (∀ id, (∀ task ∈ tasks, task.id ≠ id) →
        ((tasks.forM body).run store).2.tasks.get? id = store.tasks.get? id) ∧
      ∀ id, ((tasks.forM body).run store).2.runResults.get? id = store.runResults.get? id := by
  induction tasks generalizing store with
  | nil =>
      exact ⟨rfl, fun _ htask => absurd htask List.not_mem_nil, fun _ _ => rfl, fun _ => rfl⟩
  | cons task rest ih =>
      rw [List.map_cons, List.nodup_cons] at hnodup
      obtain ⟨hnew, hnodup⟩ := hnodup
      have hfresh : ∀ other ∈ rest, other.id ≠ task.id := fun other hother hsame =>
        hnew (List.mem_map.mpr ⟨other, hother, hsame⟩)
      have hholds : Holds task.id (store.runResults.get? task.id) task store :=
        { task := hstored task List.mem_cons_self, runResult := rfl }
      have hfirst := hdoes task List.mem_cons_self _ store hholds
      have hframe : Only task.id store ((body task).run store).2 :=
        honly task List.mem_cons_self store
      have hrest := ih hnodup
        (fun other hother => (hframe.others _ (hfresh other hother)).trans
          (hstored other (List.mem_cons_of_mem _ hother)))
        (fun other hother => hdoes other (List.mem_cons_of_mem _ hother))
        (fun other hother => honly other (List.mem_cons_of_mem _ hother))
      have hrun : ((task :: rest).forM body).run store =
          (rest.forM body).run ((body task).run store).2 :=
        Command.run_bind_of_some (Prod.ext hfirst.1 rfl)
      rw [hrun]
      obtain ⟨hreturns, heffects, hothers, hresults⟩ := hrest
      refine ⟨hreturns, ?_, ?_, fun id => (hresults id).trans ?_⟩
      · intro other hother
        rcases List.mem_cons.mp hother with rfl | hother
        · exact (hothers _ hfresh).trans hfirst.2.task
        · exact heffects other hother
      · intro id hid
        rw [hothers id fun other hother => hid other (List.mem_cons_of_mem _ hother)]
        exact hframe.others id (hid task List.mem_cons_self).symm
      · by_cases hid : id = task.id
        · rw [hid, hfirst.2.runResult]
        · exact hframe.runResults id hid

theorem run_forM_scanned {p : Task → Bool} {body : Task → Command Store Unit}
    {effect : Task → Task} {store : Store}
    (hdoes : ∀ task, p task = true → ∀ runResult,
      Does task.id runResult task (body task) (some ()) (effect task))
    (honly : ∀ task s, Command.Relates (Only task.id) (body task) s) :
    (((store.tasks.values.filter p).forM body).run store).1 = some () ∧
      (∀ id, (((store.tasks.values.filter p).forM body).run store).2.tasks.get? id =
        (store.tasks.get? id).map fun task => if p task then effect task else task) ∧
      ∀ id, (((store.tasks.values.filter p).forM body).run store).2.runResults.get? id =
        store.runResults.get? id := by
  have hscanned : ∀ task, task ∈ store.tasks.values.filter p ↔
      store.tasks.get? task.id = some task ∧ p task = true := fun task => by
    rw [List.mem_filter, mem_list_iff]
  obtain ⟨hreturns, heffects, hothers, hresults⟩ := run_forM_tasks
    ((nodup_list store).sublist (List.filter_sublist.map _))
    (fun task htask => ((hscanned task).mp htask).1)
    (fun task htask => hdoes task ((hscanned task).mp htask).2) (fun task _ => honly task)
  refine ⟨hreturns, fun id => ?_, hresults⟩
  by_cases hany : ∃ task ∈ store.tasks.values.filter p, task.id = id
  · obtain ⟨task, htask, rfl⟩ := hany
    obtain ⟨hget, hp⟩ := (hscanned task).mp htask
    rw [heffects task htask, hget, Option.map_some, if_pos hp]
  · rw [hothers id fun task htask hid => hany ⟨task, htask, hid⟩]
    cases hget : store.tasks.get? id with
    | none => rfl
    | some task =>
        obtain rfl := store.keyed id task hget
        rw [Option.map_some, if_neg fun hp => hany ⟨task, (hscanned task).mpr ⟨hget, hp⟩, rfl⟩]

def Task.wokenBy (task : Task) (completedTaskId : String) (allTasks : List Task) : Bool :=
  completedTaskId ∈ task.dependsOn ∧ (task.status = .backlog ∨ task.status = .blocked) ∧
    allDependenciesDone allTasks task

def Task.cascaded (task : Task) (completedTaskId : String) (allTasks : List Task) : Task :=
  if task.wokenBy completedTaskId allTasks then Store.transitioned task .ready else task

section Cascade

variable {completedTaskId : String} {store : Store}

theorem mem_completionDependents {allTasks : List Task} {task : Task} :
    task ∈ completionDependents completedTaskId allTasks ↔ task ∈ allTasks ∧
      completedTaskId ∈ task.dependsOn ∧ (task.status = .backlog ∨ task.status = .blocked) := by
  rw [completionDependents, List.mem_filter, decide_eq_true_eq]

def wake (allTasks : List Task) (dependent : Task) : Command Store Unit :=
  if allDependenciesDone allTasks dependent then do
    let _ ← Store.transition dependent.id .ready
  else pure ()

theorem only_wake (allTasks : List Task) (dependent : Task) :
    Command.Relates (Only dependent.id) (wake allTasks dependent) store := by
  unfold wake
  split
  · exact only_transition_then .ready
  · exact .pure () store

theorem does_wake {allTasks : List Task} {dependent : Task} (runResult : Option RunResult)
    (hwaits : completedTaskId ∈ dependent.dependsOn ∧
      (dependent.status = .backlog ∨ dependent.status = .blocked)) :
    Does dependent.id runResult dependent (wake allTasks dependent) (some ())
      (dependent.cascaded completedTaskId allTasks) := by
  unfold wake Task.cascaded
  by_cases hdeps : allDependenciesDone allTasks dependent = true
  · rw [if_pos hdeps, if_pos (by simpa [Task.wokenBy, hdeps] using hwaits)]
    have hmoved : dependent.moved .ready = some (Store.transitioned dependent .ready) := by
      rcases hwaits.2 with hstatus | hstatus
      · exact moved_valid (by rw [hstatus]; rfl) (by rw [hstatus]; decide)
      · exact moved_valid (by rw [hstatus]; rfl) (by rw [hstatus]; decide)
    have hdoes : Does dependent.id runResult dependent
        (do let _ ← Store.transition dependent.id .ready) _ _ := does_transition_then .ready
    rwa [hmoved] at hdoes
  · rw [if_neg hdeps, if_neg (by simp [Task.wokenBy, hdeps])]
    exact does_pure ()

theorem run_cascadeOnCompletion (completedTaskId : String) (store : Store) :
    ((cascadeOnCompletion completedTaskId).run store).1 = some () ∧
      (∀ id, ((cascadeOnCompletion completedTaskId).run store).2.tasks.get? id =
        (store.tasks.get? id).map fun task => task.cascaded completedTaskId store.tasks.values) ∧
      ∀ id, ((cascadeOnCompletion completedTaskId).run store).2.runResults.get? id =
        store.runResults.get? id := by
  have hrun : (cascadeOnCompletion completedTaskId).run store =
      ((completionDependents completedTaskId store.tasks.values).forM
        (wake store.tasks.values)).run store := Command.run_bind_of_some Store.run_list
  obtain ⟨hreturns, heffects, hresults⟩ := run_forM_scanned
    (fun task htask runResult => does_wake runResult (of_decide_eq_true htask))
    (fun task s => only_wake store.tasks.values task)
  rw [hrun]
  refine ⟨hreturns, fun id => (heffects id).trans ?_, hresults⟩
  congr 1
  funext task
  split
  · rfl
  · rename_i hother
    rw [Task.cascaded, if_neg]
    intro hwoken
    simp only [Task.wokenBy, decide_eq_true_eq] at hwoken
    exact hother (decide_eq_true ⟨hwoken.1, hwoken.2.1⟩)

end Cascade

end Aof
