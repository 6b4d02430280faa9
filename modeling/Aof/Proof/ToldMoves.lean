import Aof.Proof.JournalRules

/-!
# Moves that are told

What a command on a stored task has to do for the log to stay faithful to the task: leave its status
alone, or move it and say so.
-/

namespace Aof

open Command

/-- On a store that holds the task and its run result, the command keeps the log faithful to it. -/
def Tells {α : Type} (id : String) (runResult : Option RunResult) (task : Task)
    (command : Command Journal α) : Prop :=
  ∀ j : Journal, Holds id runResult task j.state → Relates (KeepsFaith id) command j

section

variable {options : TaskStoreOptions} {id : String} {runResult : Option RunResult}
variable {task middle : Task} {α β : Type}

theorem tells_pure (a : α) : Tells id runResult task (pure a) := fun j _ => .pure a j

theorem tells_throw : Tells id runResult task (.throw : Command Journal α) := fun j _ => .throw j

theorem Tells.attempt {command : Command Journal α} (htells : Tells id runResult task command) :
    Tells id runResult task command.attempt :=
  fun j hholds => (htells j hholds).attempt

theorem Tells.of_id {command : Command Journal α}
    (htells : task.id = id → Tells id runResult task command) : Tells id runResult task command :=
  fun j hholds => htells hholds.id_eq j hholds

variable {command : Command Store α} {result : Option α} {next : α → Command Journal β}
  {store : Store} {fromStatus toStatus : TaskStatus}

theorem Tells.bind {recorded : Command Journal α} (hfirst : Tells id runResult task recorded)
    (hrecords : Records (LeadsTask id) recorded command)
    (hdoes : Does id runResult task command result middle)
    (hnext : ∀ a, result = some a → Tells id runResult middle (next a)) :
    Tells id runResult task (recorded >>= next) := by
  intro j hholds
  apply (hfirst j hholds).bind
  intro a t hrun
  obtain ⟨hresult, hmiddle⟩ := hdoes j.state hholds
  have hreturns := hrecords.result j
  have hstate := hrecords.state j
  rw [hrun] at hreturns hstate
  apply hnext a (hresult.symm.trans hreturns.symm)
  rw [show t.state = _ from hstate]
  exact hmiddle

section

variable (hdoes : Does id runResult task command result middle)
  (hstatus : middle.status = task.status)
include hdoes hstatus

theorem tells_onStore : Tells id runResult task (options.onStore command) := by
  intro j hholds
  apply Unseen.keeps
  apply saysNothing_recording
  intro old new hold hnew
  obtain ⟨-, hmiddle⟩ := hdoes j.state hholds
  obtain rfl := Option.some.inj (hholds.task.symm.trans hold)
  obtain rfl := Option.some.inj (hmiddle.task.symm.trans hnew)
  exact hstatus.symm

theorem tells_onStore_bind (hnext : ∀ a, result = some a → Tells id runResult middle (next a)) :
    Tells id runResult task (options.onStore command >>= next) := by
  intro j hholds
  apply (tells_onStore hdoes hstatus j hholds).bind
  intro a t hrun
  obtain ⟨hresult, hmiddle⟩ := hdoes j.state hholds
  have hstore := of_run_onStore hrun
  rw [hstore] at hresult hmiddle
  exact hnext a hresult.symm t hmiddle

end

theorem tells_get {next : Option Task → Command Journal β}
    (hnext : Tells id runResult task (next (some task))) :
    Tells id runResult task (options.onStore (Store.get id) >>= next) := by
  apply tells_onStore_bind does_get rfl
  rintro a ⟨⟩
  exact hnext

theorem tells_readRunResult {next : Option RunResult → Command Journal β}
    (hnext : Tells id runResult task (next runResult)) :
    Tells id runResult task (options.onStore (Store.readRunResult id) >>= next) := by
  apply tells_onStore_bind does_readRunResult rfl
  rintro a ⟨⟩
  exact hnext

theorem tells_once (honce : options.once = true) :
    Tells id runResult task (options.onStore command) :=
  fun _ _ => keepsFaith_once honce

/-- A move from the status, told by its caller, is told rightly: it throws, or the task has that
status and the store leaves its transitions to the callers. -/
def Task.tellsMove (task : Task) (options : TaskStoreOptions) (fromStatus toStatus : TaskStatus) :
    Bool :=
  !(task.status = toStatus || isValidTransition task.status toStatus) ||
    (options.silent && task.status = fromStatus)

variable {before after : Task}

theorem changesOf_put {moved : Store} (hbefore : store.tasks.get? id = some before)
    (hafter : moved.tasks.get? id = some after) (hfrom : before.status = fromStatus)
    (hto : after.status = toStatus) (hne : fromStatus ≠ toStatus) :
    changesOf id (statusChanges store moved) = [⟨id, fromStatus, toStatus⟩] := by
  obtain rfl : after.id = id := moved.keyed id after hafter
  rw [changesOf_statusChanges, hafter, Option.bind_some, statusChange, hbefore, Option.bind_some,
    hfrom, hto, if_neg hne, Option.toList_some]

theorem changesOf_same {same : Store} (hbefore : store.tasks.get? id = some before)
    (hafter : same.tasks.get? id = some after) (hstatus : after.status = before.status) :
    changesOf id (statusChanges store same) = [] := by
  obtain rfl : after.id = id := same.keyed id after hafter
  rw [changesOf_statusChanges, hafter, Option.bind_some, statusChange, hbefore, Option.bind_some,
    if_pos hstatus.symm, Option.toList_none]

theorem tells_told (between : α → Command Journal Unit) (hsilent : options.silent = true)
    (hstatus : task.status = fromStatus) (hne : fromStatus ≠ toStatus)
    (hdoes : Does id runResult task command result middle)
    (hthrows : result = none → middle.status = fromStatus)
    (hmoves : ∀ a, result = some a → middle.status = toStatus)
    (hbetween : ∀ a (t : Journal), Holds id runResult middle t.state →
      ((between a).run t).1 = some () ∧ Relates (SaysNothing id) (between a) t ∧
      Holds id runResult middle ((between a).run t).2.state)
    (hnext : ∀ a, result = some a → Tells id runResult middle (next a)) : Tells id runResult task
      (options.onStore command >>= fun a => between a >>= fun _ =>
        logTransition id fromStatus toStatus >>= fun _ => next a) := by
  intro j hholds
  obtain ⟨hresult, hmiddle⟩ := hdoes j.state hholds
  apply keeps_recording_note (TaskStoreOptions.copies_of_silent hsilent)
  · intro hnone
    exact changesOf_same hholds.task hmiddle.task
      ((hthrows (hresult.symm.trans hnone)).trans hstatus.symm)
  · intro a hsome
    have hchange : changesOf id (statusChanges j.state (command.after j.state)) =
        [⟨id, fromStatus, toStatus⟩] :=
      changesOf_put hholds.task hmiddle.task hstatus (hmoves a (hresult.symm.trans hsome)) hne
    have habout : StatusChange.about id ⟨id, fromStatus, toStatus⟩ = true := decide_eq_true rfl
    rw [List.filter_cons_of_pos habout, List.filter_nil]
    exact hchange
  · intro a t _ hstate
    have hpasses := hbetween a t (by rw [hstate]; exact hmiddle)
    exact ⟨hpasses.1, hpasses.2.1⟩
  · intro a t u hsome hstate hlast
    have hpasses := hbetween a t (by rw [hstate]; exact hmiddle)
    exact hnext a (hresult.symm.trans hsome) u (by rw [hlast]; exact hpasses.2.2)

theorem passes_nothing (t : Journal) (hholds : Holds id runResult middle t.state) :
    (((pure () : Command Journal Unit)).run t).1 = some () ∧
      Relates (SaysNothing id) (pure () : Command Journal Unit) t ∧
        Holds id runResult middle ((pure () : Command Journal Unit).run t).2.state :=
  ⟨rfl, .pure () t, hholds⟩

theorem tells_move_then {fromStatus toStatus : TaskStatus} {next : Task → Command Journal β}
    (htells : task.tellsMove options fromStatus toStatus = true) (hne : fromStatus ≠ toStatus)
    (hnext : isValidTransition task.status toStatus = true →
      Tells id runResult (Store.transitioned task toStatus)
        (next (Store.transitioned task toStatus))) : Tells id runResult task
      (options.transition id toStatus >>= fun moved =>
        logTransition id fromStatus toStatus >>= fun _ => next moved) := by
  have hdoes : Does id runResult task (Store.transition id toStatus) _ _ :=
    does_transition toStatus
  rw [Task.tellsMove, Bool.or_eq_true] at htells
  by_cases hlands : (task.status = toStatus || isValidTransition task.status toStatus) = true
  · obtain ⟨hsilent, hstatus⟩ : options.silent = true ∧ task.status = fromStatus := by
      rcases htells with h | h
      · rw [hlands] at h
        cases h
      · simpa using h
    have hvalid : isValidTransition task.status toStatus = true := by
      rcases (Bool.or_eq_true _ _).mp hlands with h | h
      · exact absurd (hstatus.symm.trans (of_decide_eq_true h)) hne
      · exact h
    rw [moved_valid hvalid (hstatus ▸ hne), Option.getD_some] at hdoes
    have htold : Tells id runResult task
        (options.transition id toStatus >>= fun moved => pure () >>= fun _ =>
          logTransition id fromStatus toStatus >>= fun _ => next moved) := by
      refine tells_told (fun _ => pure ()) hsilent hstatus hne hdoes (fun h => nomatch h)
        (fun _ _ => rfl) (fun _ t hholds => passes_nothing t hholds) fun moved hmoved => ?_
      obtain rfl := Option.some.inj hmoved
      exact hnext hvalid
    simpa only [pure_bind] using htold
  · rw [Bool.or_eq_true, not_or, decide_eq_true_eq] at hlands
    rw [Task.moved, if_neg hlands.1, if_neg hlands.2, Option.getD_none] at hdoes
    apply tells_onStore_bind hdoes rfl
    intro a hsome
    cases hsome

theorem tells_move (htells : task.tellsMove options fromStatus toStatus = true)
    (hne : fromStatus ≠ toStatus) :
    Tells id runResult task
      (do
        let _ ← options.transition id toStatus
        logTransition id fromStatus toStatus) := by
  have hmove : Tells id runResult task
      (options.transition id toStatus >>= fun _ =>
        logTransition id fromStatus toStatus >>= fun _ => pure ()) :=
    tells_move_then htells hne fun _ => tells_pure ()
  simpa only [bind_pure_unit] using hmove

end

theorem tells_deadletter {options : TaskStoreOptions} {id : String} {runResult : Option RunResult}
    {task : Task} (hblocked : task.status = .blocked)
    (htells : task.tellsMove options .blocked .deadletter = true) :
    Tells id runResult task
      (do
        options.onStore (transitionToDeadletter id)
        logTransition id .blocked .deadletter) := by
  have hsilent : options.silent = true := by
    simpa [Task.tellsMove, hblocked, isValidTransition, VALID_TRANSITIONS] using htells
  have hdoes : Does id runResult task (transitionToDeadletter id) _ _ := does_transitionToDeadletter
  rw [moved_valid (by rw [hblocked]; rfl) (by rw [hblocked]; decide)] at hdoes
  have htold : Tells id runResult task
      (options.onStore (transitionToDeadletter id) >>= fun _ => pure () >>= fun _ =>
        logTransition id .blocked .deadletter >>= fun _ => pure ()) :=
    tells_told (fun _ => pure ()) hsilent hblocked (by decide) hdoes (fun h => by cases h)
      (fun _ _ => rfl) (fun _ t hholds => passes_nothing t hholds) fun _ _ => tells_pure ()
  simpa only [pure_bind, bind_pure_unit] using htold

def KeepsStatus (id : String) (before after : Store) : Prop := after.statusOf id = before.statusOf id

instance (id : String) : IsPreorder Store (KeepsStatus id) where
  refl _ := rfl
  trans _ _ _ hab hbc := hbc.trans hab

section

variable {options : TaskStoreOptions} {id taskId : String} {runResult : Option RunResult}
variable {task : Task} {store : Store} {α : Type}

theorem keepsStatus_put {old new : Task} (hget : store.tasks.get? new.id = some old)
    (hstatus : new.status = old.status) : KeepsStatus id store (store.put new) := by
  unfold KeepsStatus Store.statusOf
  rw [Store.tasks_put]
  split
  · rename_i hid
    rw [← hid, hget, Option.map_some, Option.map_some, hstatus]
  · rfl

theorem saysNothing_of_keepsStatus {command : Command Store α} {j : Journal}
    (hkeeps : Relates (KeepsStatus id) command j.state) :
    Relates (SaysNothing id) (options.onStore command) j := by
  apply saysNothing_recording
  intro old new hold hnew
  have hsame : (command.after j.state).statusOf id = j.state.statusOf id := hkeeps
  rw [Store.statusOf, hnew, Store.statusOf, hold] at hsame
  exact (Option.some.inj hsame).symm

theorem keepsStatus_persist {state : WorkflowState} (hget : store.tasks.get? task.id = some task) :
    Relates (KeepsStatus id) (persistWorkflowState task state) store :=
  keepsStatus_put hget rfl

theorem keepsStatus_dispatchDAGHop (hget : store.tasks.get? task.id = some task) (hopId : String)
    (spawn : SpawnResult) (timestamp : String) :
    Relates (KeepsStatus id) (dispatchDAGHop task hopId spawn timestamp) store := by
  unfold dispatchDAGHop
  split
  · exact .throw store
  split
  · exact (keepsStatus_persist hget).bind fun _ t _ => .pure true t
  · exact .pure false store

theorem keepsStatus_pollDispatch (hopId : String) (spawn : SpawnResult) (timestamp : String) :
    Relates (KeepsStatus id) (pollDispatch taskId hopId spawn timestamp) store := by
  apply relates_get_then
  · exact fun _ => .pure () store
  rintro task hget rfl
  dsimp only
  split
  · exact .pure () store
  split
  · exact .pure () store
  · exact (keepsStatus_dispatchDAGHop hget hopId spawn timestamp).bind fun _ t _ => .pure () t

theorem keepsStatus_checkHopTimeouts (input : PollInput) (hops : List Hop)
    (hget : store.tasks.get? task.id = some task) :
    Relates (KeepsStatus id) (hops.foldlM (checkHopTimeout input) task) store :=
  relates_foldlM_checkHopTimeout (fun _ _ _ _ hget => keepsStatus_put hget rfl) input hops hget rfl

theorem keepsStatus_checkTaskTimeouts (input : PollInput) :
    Relates (KeepsStatus id) (checkTaskTimeouts input taskId) store := by
  apply relates_get_then
  · exact fun _ => .pure () store
  rintro task hget rfl
  dsimp only
  split
  · exact (keepsStatus_checkHopTimeouts input _ hget).bind fun _ t _ => .pure () t
  · exact .pure () store

theorem keepsStatus_writeRunResult (result : RunResult) :
    Relates (KeepsStatus id) (Store.writeRunResult taskId result) store := by
  apply relates_get_then
  · exact fun _ => .throw store
  intro task _ _
  dsimp only
  split
  · rfl
  · exact .throw store

def Task.givesUp (task : Task) (hopId : String) : Bool :=
  (task.workflow.bind fun workflow => statusOf workflow.state.hops hopId) = some .dispatched &&
    shouldTransitionToDeadletter task.withDispatchFailure &&
    isValidTransition task.status .deadletter

theorem keepsStatus_transition {newStatus : TaskStatus} (hget : store.tasks.get? taskId = some task)
    (hinvalid : isValidTransition task.status newStatus = false) :
    Relates (KeepsStatus id) (Store.transition taskId newStatus) store := by
  unfold Relates
  rcases Store.transition_cases store taskId newStatus with hsame | ⟨other, hother, hvalid, -, -⟩
  · rw [hsame]
    exact refl_of (KeepsStatus id) store
  · obtain rfl := Option.some.inj (hget.symm.trans hother)
    rw [hinvalid] at hvalid
    cases hvalid

theorem keepsStatus_deadletter (hget : store.tasks.get? taskId = some task)
    (hinvalid : isValidTransition task.status .deadletter = false) :
    Relates (KeepsStatus id) (transitionToDeadletter taskId) store := by
  apply relates_get_then
  · exact fun _ => .throw store
  · exact fun _ _ _ => (keepsStatus_transition hget hinvalid).bind fun _ t _ => .pure () t

theorem keepsStatus_onRunComplete {hopId : String} (timestamp : String)
    (hholds : Holds id runResult task store) (hkept : task.givesUp hopId = false) :
    Relates (KeepsStatus id) (onRunComplete id hopId timestamp) store := by
  apply relates_get_then
  · exact fun _ => .pure () store
  intro found hfound _
  obtain rfl := Option.some.inj (hholds.task.symm.trans hfound)
  dsimp only
  split
  swap
  · exact .pure () store
  rename_i hdispatched
  apply Relates.attempt
  have hcounts : Relates (KeepsStatus id) (trackDispatchFailure id) store := by
    apply relates_get_then
    · exact fun _ => .throw store
    rintro other hother rfl
    exact keepsStatus_put hother rfl
  apply hcounts.bind
  intro _ t hrun
  obtain ⟨-, hcounted⟩ := does_trackDispatchFailure store hholds
  rw [hrun] at hcounted
  apply relates_get_then
  · exact fun _ => .pure () t
  rintro updatedTask hupdated rfl
  obtain rfl := Option.some.inj (hcounted.task.symm.trans hupdated)
  dsimp only
  split
  · rename_i hover
    apply keepsStatus_deadletter hcounted.task
    show isValidTransition task.status .deadletter = false
    simpa [Task.givesUp, hdispatched, hover] using hkept
  split
  · exact .pure () t
  · exact (keepsStatus_persist hupdated).bind fun _ u _ => .pure () u

theorem tells_of_keepsStatus {command : Command Store α}
    (hkeeps : ∀ store, Holds id runResult task store → Relates (KeepsStatus id) command store) :
    Tells id runResult task (options.onStore command) :=
  fun j hholds => (saysNothing_of_keepsStatus (hkeeps j.state hholds)).keeps

end

end Aof
