import Aof.Proof.JournalErasure

/-!
# When a handler keeps the log faithful

A handler that is about one task tells of that task what the store leaves to it.  A handler that is
about another task says nothing of this one, and moves it only in a cascade.
-/

namespace Aof

open Command

/-- Of the task the log tells each change once, in order and with its two statuses. -/
abbrev FaithfulTo (id : String) : Journal → Prop := Faithful (StatusChange.about id)

abbrev KeepsFaith (id : String) : Journal → Journal → Prop := Keeps (StatusChange.about id)

abbrev SaysNothing (id : String) : Journal → Journal → Prop := Unseen (StatusChange.about id)

namespace TaskStoreOptions

def silent (options : TaskStoreOptions) : Bool := !options.logger && !options.hooks

def once (options : TaskStoreOptions) : Bool := options.logger != options.hooks

variable {options : TaskStoreOptions}

theorem copies_of_silent (hsilent : options.silent = true) : options.copies = 0 := by
  obtain ⟨logger, hooks⟩ := options
  cases logger <;> cases hooks <;> first | rfl | cases hsilent

theorem copies_of_once (honce : options.once = true) : options.copies = 1 := by
  obtain ⟨logger, hooks⟩ := options
  cases logger <;> cases hooks <;> first | rfl | cases honce

end TaskStoreOptions

section

variable {options : TaskStoreOptions} {id taskId : String} {α β : Type} {j : Journal}

theorem about_statusChanges {before after : Store}
    (hsame : ∀ old new, before.tasks.get? id = some old → after.tasks.get? id = some new →
      old.status = new.status) :
    ∀ change ∈ statusChanges before after, StatusChange.about id change = false := by
  have hnone : changesOf id (statusChanges before after) = [] := by
    rw [changesOf_statusChanges]
    cases hafter : after.tasks.get? id with
    | none => rfl
    | some new =>
        obtain rfl : new.id = id := after.keyed id new hafter
        rw [Option.bind_some, statusChange]
        cases hbefore : before.tasks.get? new.id with
        | none => rfl
        | some old => rw [Option.bind_some, if_pos (hsame old new hbefore hafter), Option.toList_none]
  intro change hchange
  have hnot := List.filter_eq_nil_iff.mp hnone change hchange
  exact Bool.eq_false_iff.mpr hnot

variable {command : Command Store α} {t : Journal}

theorem saysNothing_recording {copies : Nat} {command : Command Store α}
    (hsame : ∀ old new, j.state.tasks.get? id = some old →
      (command.after j.state).tasks.get? id = some new → old.status = new.status) :
    Relates (SaysNothing id) (command.recording statusChanges copies) j :=
  unseen_recording (about_statusChanges hsame)

theorem saysNothing_other (hne : taskId ≠ id)
    (honly : ∀ store, Relates (Only taskId) command store) :
    Relates (SaysNothing id) (options.onStore command) j := by
  apply saysNothing_recording
  intro old new hold hnew
  have hsame := (honly j.state).others id (Ne.symm hne)
  rw [Command.after_eq, hsame, hold] at hnew
  exact congrArg Task.status (Option.some.inj hnew)

theorem saysNothing_note (hne : taskId ≠ id) (fromStatus toStatus : TaskStatus) :
    Relates (SaysNothing id) (logTransition taskId fromStatus toStatus) j :=
  unseen_note (decide_eq_false hne)

theorem keepsFaith_once (honce : options.once = true) :
    Relates (KeepsFaith id) (options.onStore command) j :=
  keeps_recording_once (TaskStoreOptions.copies_of_once honce)

theorem keepsFaith_of_saysNothing {command : Command Journal α}
    (hnothing : Relates (SaysNothing id) command j) : Relates (KeepsFaith id) command j :=
  Unseen.keeps hnothing

theorem saysNothing_get (taskId : String) :
    Relates (SaysNothing id) (options.onStore (Store.get taskId)) j := by
  apply saysNothing_recording
  intro old new hold hnew
  exact congrArg Task.status (Option.some.inj (hold.symm.trans hnew))

theorem of_run_onStore {a : α} (hrun : (options.onStore command).run j = (some a, t)) :
    command.run j.state = (some a, t.state) := by
  have hresult : (command.run j.state).1 = some a := congrArg Prod.fst hrun
  have hstate : (command.run j.state).2 = t.state := congrArg (fun r => r.2.state) hrun
  exact Prod.ext hresult hstate

theorem of_run_get {stored : Option Task}
    (hrun : (options.onStore (Store.get taskId)).run j = (some stored, t)) :
    stored = j.state.tasks.get? taskId ∧ t.state = j.state := by
  have hresult := congrArg Prod.fst hrun
  have hstate := congrArg (fun r => r.2.state) hrun
  exact ⟨(Option.some.inj hresult).symm, hstate.symm⟩

theorem saysNothing_get_then {next : Option Task → Command Journal α}
    (hnone : ∀ t : Journal, Relates (SaysNothing id) (next none) t)
    (hsome : ∀ (task : Task) (t : Journal), task.id = taskId →
      Relates (SaysNothing id) (next (some task)) t) :
    Relates (SaysNothing id) (options.onStore (Store.get taskId) >>= next) j := by
  apply (saysNothing_get taskId).bind
  intro stored t hrun
  obtain ⟨hstored, -⟩ := of_run_get hrun
  cases stored with
  | none => exact hnone t
  | some task => exact hsome task t (j.state.keyed taskId task hstored.symm)

section Other

variable (hne : taskId ≠ id)
include hne

theorem saysNothing_transition (newStatus : TaskStatus) :
    Relates (SaysNothing id) (options.transition taskId newStatus) j :=
  saysNothing_other hne fun _ => only_transition newStatus

theorem saysNothing_transition_then (newStatus : TaskStatus) :
    Relates (SaysNothing id) (do let _ ← options.transition taskId newStatus) j :=
  (saysNothing_transition hne newStatus).bind fun _ t _ => .pure () t

theorem saysNothing_move (newStatus fromStatus toStatus : TaskStatus) :
    Relates (SaysNothing id)
      (do
        let _ ← options.transition taskId newStatus
        logTransition taskId fromStatus toStatus) j :=
  (saysNothing_transition hne newStatus).bind fun _ _ _ => saysNothing_note hne _ _

variable {task current : Task}

theorem saysNothing_save (hid : task.id = taskId) :
    Relates (SaysNothing id) (options.onStore (Store.save task)) j :=
  saysNothing_other hne fun _ => only_save hid

theorem saysNothing_patch {change : Task → Task} (hchange : ∀ task, (change task).id = task.id) :
    Relates (SaysNothing id) (options.onStore (Store.patch taskId change)) j :=
  saysNothing_other hne fun _ => only_patch hchange

theorem saysNothing_deadletter :
    Relates (SaysNothing id) (options.onStore (transitionToDeadletter taskId)) j :=
  saysNothing_other hne fun _ => only_transitionToDeadletter

theorem saysNothing_handleExpireLease (allTasks : List Task) (maxRetries : Nat)
    (backoffElapsed : Bool) : Relates (SaysNothing id)
      (options.handleExpireLease taskId allTasks maxRetries backoffElapsed) j := by
  apply saysNothing_get_then
  · exact fun t => .pure () t
  intro task t hid
  dsimp only
  refine Relates.bind (saysNothing_save hne hid) fun _ u _ => ?_
  split
  · split
    · split
      · exact (saysNothing_deadletter hne).bind fun _ _ _ => saysNothing_note hne _ _
      · exact saysNothing_move hne _ _ _
      · exact .pure () u
    · split
      · exact saysNothing_move hne _ _ _
      · exact .pure () u
  · exact saysNothing_move hne _ _ _

theorem saysNothing_handleRequeue : Relates (SaysNothing id) (options.handleRequeue taskId) j := by
  refine Relates.bind (saysNothing_patch hne fun _ => rfl) fun _ _ _ => ?_
  exact saysNothing_move hne _ _ _

theorem saysNothing_assignWith (agent : String) (allTasks : List Task) (spawn : Option SpawnResult)
    (now ttlMs : Nat) :
    Relates (SaysNothing id) (options.assignWith taskId agent allTasks spawn now ttlMs) j := by
  cases spawn with
  | none =>
      apply saysNothing_other hne
      exact fun _ => admitsOwn_only.assignWith rfl fun error hspawn => nomatch hspawn
  | some spawn =>
      apply saysNothing_get_then
      · exact fun t => .pure () t
      intro latest t _
      dsimp only
      split
      · exact .pure () t
      apply (saysNothing_other hne fun _ => only_acquireLease agent now ttlMs).bind
      intro leasedTask u hrun
      have hid : leasedTask.id = taskId := by
        exact id_of_acquireLease (of_run_onStore hrun)
      apply (saysNothing_save hne hid).bind
      intro _ v _
      split
      · exact saysNothing_patch hne fun _ => rfl
      split
      · exact (saysNothing_other hne fun _ => only_releaseLease agent).attempt
      refine Relates.bind (saysNothing_patch hne fun _ => rfl) fun _ w _ => ?_
      split
      · exact saysNothing_deadletter hne
      · exact saysNothing_transition_then hne _

theorem saysNothing_moves (fromStatus : TaskStatus) (statuses : List TaskStatus) :
    Relates (SaysNothing id)
      (statuses.forM fun targetStatus => do
        let _ ← options.transition taskId targetStatus
        logTransition taskId fromStatus targetStatus) j :=
  Relates.forM statuses (fun _ _ _ => saysNothing_move hne _ _ _) j

theorem saysNothing_applyCompletionTransition (hid : current.id = taskId)
    (nextStatus : TaskStatus) :
    Relates (SaysNothing id) (options.applyCompletionTransition current nextStatus) j := by
  subst hid
  unfold TaskStoreOptions.applyCompletionTransition
  split
  · exact .pure current j
  split
  · apply (saysNothing_transition hne nextStatus).bind
    intro moved t _
    split
    · exact .pure moved t
    · exact (saysNothing_note hne _ _).bind fun _ u _ => .pure moved u
  · exact .pure current j

omit hne in
theorem id_of_applyCompletionTransition {moved : Task} {nextStatus : TaskStatus} {t : Journal}
    (hrun : (options.applyCompletionTransition current nextStatus).run j = (some moved, t)) :
    moved.id = current.id := by
  have hrecords : Records (LeadsTask "") (options.applyCompletionTransition current nextStatus)
      (applyCompletionTransition current nextStatus) :=
    records_applyCompletionTransition current nextStatus
  have hresult := hrecords.result j
  rw [hrun] at hresult
  unfold applyCompletionTransition at hresult
  split at hresult
  · exact congrArg Task.id (Option.some.inj hresult)
  split at hresult
  · exact transition_id (Prod.ext hresult.symm rfl)
  · exact congrArg Task.id (Option.some.inj hresult)

theorem saysNothing_applyCompletionTransitions (hid : current.id = taskId)
    (statuses : List TaskStatus) :
    Relates (SaysNothing id) (statuses.foldlM options.applyCompletionTransition current) j := by
  induction statuses generalizing current j with
  | nil => exact .pure current j
  | cons status rest ih =>
      refine (saysNothing_applyCompletionTransition hne hid status).bind fun moved t hrun => ?_
      exact ih ((id_of_applyCompletionTransition hrun).trans hid)

theorem saysNothing_applyCompletionOutcome (hid : task.id = taskId) (outcome : CompletionOutcome) :
    Relates (SaysNothing id) (options.applyCompletionOutcome task outcome) j :=
  (saysNothing_applyCompletionTransitions hne hid _).bind fun _ t _ => .pure () t

theorem saysNothing_startForCompletion (hid : task.id = taskId) :
    Relates (SaysNothing id) (options.startForCompletion task) j := by
  subst hid
  have hmove : ∀ (status : TaskStatus) (t : Journal), Relates (SaysNothing id)
      (do
        let started ← options.transition task.id .inProgress
        logTransition task.id status .inProgress
        pure started) t := by
    intro status t
    refine (saysNothing_transition hne .inProgress).bind fun started _ _ => ?_
    exact (saysNothing_note hne _ _).bind fun _ u _ => .pure started u
  unfold TaskStoreOptions.startForCompletion
  split
  · exact .pure task j
  split
  · apply (saysNothing_transition hne .ready).bind
    intro unblocked t _
    exact (saysNothing_note hne _ _).bind fun _ u _ => hmove unblocked.status u
  · exact hmove task.status j

theorem saysNothing_aofTaskComplete :
    Relates (SaysNothing id) (options.aofTaskComplete taskId) j := by
  apply saysNothing_get_then
  · exact fun t => .throw t
  intro task t hid
  dsimp only
  split
  · exact .throw t
  apply (saysNothing_startForCompletion hne hid).bind
  intro started u _
  split
  · apply (saysNothing_transition hne .review).bind
    intro _ v _
    exact (saysNothing_note hne _ _).bind fun _ _ _ => saysNothing_move hne _ _ _
  · exact saysNothing_move hne _ _ _

theorem saysNothing_rejectHandoff (fromAgent : String) :
    Relates (SaysNothing id) (options.rejectHandoff taskId fromAgent) j := by
  apply saysNothing_get_then
  · exact fun t => .pure () t
  intro childTask t _
  dsimp only
  split
  · split
    · exact saysNothing_note hne _ _
    · exact saysNothing_move hne _ _ _
  · exact .pure () t

theorem saysNothing_evaluateMurmurTrigger {review : MurmurReview}
    (hreview : review.reviewTaskId = taskId) (input : PollInput) (currentInProgress : Nat) :
    Relates (SaysNothing id) (options.evaluateMurmurTrigger input currentInProgress review) j := by
  subst hreview
  unfold TaskStoreOptions.evaluateMurmurTrigger
  split
  · exact .pure () j
  apply Relates.attempt
  apply (saysNothing_other hne fun _ => admitsOwn_only.createTask rfl rfl).bind
  intro _ t _
  apply (saysNothing_transition hne .ready).bind
  intro _ u _
  split
  · exact .pure () u
  apply Relates.attempt
  apply (saysNothing_other hne fun _ => only_acquireLease _ _ _).bind
  intro _ v _
  split
  · exact .pure () v
  · exact saysNothing_transition_then hne _

end Other

end

end Aof
