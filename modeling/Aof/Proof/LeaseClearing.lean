import Aof.Proof.CallEffects

/-!
# Leases of idle tasks

Operations that complete one after the other, on all the tasks of a store.  A lease is to end with
the work: a transition clears it on the way to `done`, `ready` and `backlog`, a cancellation always.
-/

namespace Aof

open TaskFiles (quietly)

/-- The task neither is at work, nor waits for a review or for a block to end. -/
def TaskStatus.idle : TaskStatus → Bool
  | backlog | ready | done | cancelled | deadletter => true
  | inProgress | blocked | review => false

/-- An operation on the task with the id. -/
inductive TaskOperation where
  | create (id : String) (opts : CreateOpts) (now : Nat)
  | call (id : String) (call : StoreCall)

/-- A task is created under a new id; a call runs alone, on a file system where nothing fails. -/
def completed (tasks : String → Option TaskFiles) :
    TaskOperation → Option (String → Option TaskFiles)
  | .create id opts now =>
      if (tasks id).isSome then none
      else some (Function.update tasks id (some (opts.files now)))
  | .call id call => do
      let files ← tasks id
      let result ← call.program.alone quietly files
      some (Function.update tasks id (some result.2))

def IdleUnleased (tasks : String → Option TaskFiles) : Prop :=
  ∀ id files dir file, tasks id = some files → files.copies dir = some file →
    file.document.status.idle = true → file.document.lease = none

/-- A transition to `cancelled` or `deadletter` finds no lease. -/
def EndsUnleased (tasks : String → Option TaskFiles) : TaskOperation → Prop
  | .call id (.transition newStatus _ _) =>
      newStatus = .cancelled ∨ newStatus = .deadletter →
        ∀ files dir file, tasks id = some files → files.copies dir = some file →
          isValidTransition file.document.status newStatus = true → file.document.lease = none
  | _ => True

def Document.Released (document : Document) : Prop :=
  document.status.idle = true → document.lease = none

section Effects

variable {document last : Document}

theorem released_of_active (hactive : document.status.idle = false) : document.Released := by
  intro hidle
  rw [hactive] at hidle
  cases hidle

variable {newStatus : TaskStatus} {metadataPatch : Dict String JsValue} {now : Nat}

theorem released_afterTransition (hreleased : document.Released)
    (hends : newStatus = .cancelled ∨ newStatus = .deadletter →
      isValidTransition document.status newStatus = true → document.lease = none)
    (heffect : document.afterTransition newStatus metadataPatch now = some last) :
    last.Released := by
  unfold Document.afterTransition at heffect
  split at heffect
  · exact Option.some.inj heffect ▸ hreleased
  split at heffect
  · rename_i hvalid
    obtain rfl := Option.some.inj heffect
    intro hidle
    by_cases hcleared : newStatus = .done ∨ newStatus = .ready ∨ newStatus = .backlog
    · exact if_pos hcleared
    · refine (if_neg hcleared).trans (hends ?_ hvalid)
      revert hidle hcleared
      cases newStatus <;> simp [Document.transitioned, TaskStatus.idle]
  · cases heffect

theorem released_afterTransition_of_ne (hreleased : document.Released)
    (hcancelled : newStatus ≠ .cancelled) (hdeadletter : newStatus ≠ .deadletter)
    (heffect : document.afterTransition newStatus metadataPatch now = some last) : last.Released :=
  released_afterTransition hreleased (fun hends => absurd hends (not_or.mpr
    ⟨hcancelled, hdeadletter⟩)) heffect

theorem status_afterTransition
    (heffect : document.afterTransition newStatus metadataPatch now = some last) :
    last.status = newStatus := by
  unfold Document.afterTransition at heffect
  split at heffect
  · rename_i hsame
    exact Option.some.inj heffect ▸ hsame
  · split at heffect
    · exact Option.some.inj heffect ▸ rfl
    · cases heffect

theorem released_effect {call : StoreCall} (hreleased : document.Released)
    (hends : ∀ newStatus metadataPatch now, call = .transition newStatus metadataPatch now →
      newStatus = .cancelled ∨ newStatus = .deadletter →
      isValidTransition document.status newStatus = true → document.lease = none)
    (heffect : call.effect document = some last) : last.Released := by
  cases call with
  | transition newStatus metadataPatch now =>
      exact released_afterTransition hreleased (hends newStatus metadataPatch now rfl) heffect
  | cancel reason now =>
      simp only [StoreCall.effect, Option.ite_none_left_eq_some] at heffect
      exact Option.some.inj heffect.2 ▸ fun _ => rfl
  | update patch now =>
      simp only [StoreCall.effect, Option.ite_none_left_eq_some] at heffect
      exact Option.some.inj heffect.2 ▸ hreleased
  | updateBody body now => exact Option.some.inj heffect ▸ hreleased
  | addDep blocker now =>
      simp only [StoreCall.effect, Option.ite_none_left_eq_some] at heffect
      replace heffect := heffect.2
      split at heffect
      · exact Option.some.inj heffect ▸ hreleased
      · split at heffect
        · cases heffect
        · exact Option.some.inj heffect ▸ hreleased
  | removeDep blockerId now =>
      simp only [StoreCall.effect, Option.ite_none_left_eq_some] at heffect
      replace heffect := heffect.2
      split at heffect
      · exact Option.some.inj heffect ▸ hreleased
      · exact Option.some.inj heffect ▸ hreleased
  | block reason now =>
      simp only [StoreCall.effect, Option.ite_none_left_eq_some] at heffect
      apply released_of_active
      rw [status_afterTransition heffect.2]
      rfl
  | unblock now =>
      simp only [StoreCall.effect, Option.ite_none_left_eq_some] at heffect
      have hprepared : document.withoutBlockReason.Released := hreleased
      exact released_afterTransition_of_ne hprepared (by decide) (by decide) heffect.2
  | acquireLease agentId opts times =>
      simp only [StoreCall.effect, Option.ite_none_left_eq_some] at heffect
      apply released_of_active
      rw [status_afterTransition heffect.2.2]
      rfl
  | renewLease agentId opts now =>
      simp only [StoreCall.effect] at heffect
      split at heffect
      · cases heffect
      rename_i lease hlease
      rw [Option.ite_none_left_eq_some, Option.ite_none_left_eq_some] at heffect
      obtain rfl := Option.some.inj heffect.2.2
      intro hidle
      rw [hreleased hidle] at hlease
      cases hlease
  | releaseLease agentId now =>
      simp only [StoreCall.effect, Option.ite_none_right_eq_some] at heffect
      exact released_afterTransition_of_ne hreleased (by decide) (by decide) heffect.2

end Effects

/-- Every task has one copy and its lock is free, and no idle task has a lease. -/
def Kept (tasks : String → Option TaskFiles) : Prop :=
  ∀ id files, tasks id = some files →
    ∃ document, Stored document files ∧ files.holder = none ∧ document.Released

variable {tasks : String → Option TaskFiles} {operation : TaskOperation}

theorem Kept.idleUnleased (hkept : Kept tasks) : IdleUnleased tasks := by
  intro id files dir file hfiles hcopy hidle
  obtain ⟨document, hstored, -, hreleased⟩ := hkept id files hfiles
  obtain ⟨-, rfl⟩ := hstored.copy_eq hcopy
  exact hreleased hidle

theorem Kept.update {id : String} {after : TaskFiles} {document : Document} (hkept : Kept tasks)
    (hstored : Stored document after) (hfree : after.holder = none)
    (hreleased : document.Released) : Kept (Function.update tasks id (some after)) := by
  intro other files hfiles
  by_cases hother : other = id
  · subst hother
    rw [Function.update_self] at hfiles
    obtain rfl := Option.some.inj hfiles
    exact ⟨document, hstored, hfree, hreleased⟩
  · rw [Function.update_of_ne hother] at hfiles
    exact hkept other files hfiles

theorem stored_created (opts : CreateOpts) (now : Nat) :
    Stored (opts.document now) (opts.files now) :=
  ⟨1, Nat.one_pos, Nat.le_refl 1, fun _ => rfl⟩

theorem kept_step {next : String → Option TaskFiles} (hkept : Kept tasks)
    (hends : EndsUnleased tasks operation) (hstep : completed tasks operation = some next) :
    Kept next := by
  cases operation with
  | create id opts now =>
      rw [completed, Option.ite_none_left_eq_some, Option.some.injEq] at hstep
      exact hstep.2 ▸ hkept.update (stored_created opts now) rfl fun _ => rfl
  | call id call =>
      simp only [completed, Option.bind_eq_bind, Option.bind_eq_some_iff] at hstep
      obtain ⟨files, hfiles, ⟨value, after⟩, halone, hnext⟩ := hstep
      obtain ⟨document, hstored, hfree, hreleased⟩ := hkept id files hfiles
      obtain ⟨last, heffect, hlast, hafter⟩ := effect_of_alone hstored hfree halone
      rw [← Option.some.inj hnext]
      apply hkept.update hlast hafter
      apply released_effect hreleased _ heffect
      rintro newStatus metadataPatch now rfl hstatus hvalid
      obtain ⟨mtimeMs, -, -, honly⟩ := hstored.only
      have hcopy : files.copies document.status = some ⟨document, mtimeMs⟩ := by
        rw [honly, if_pos rfl]
      exact hends hstatus files document.status _ hfiles hcopy hvalid

/-- From an empty store, no idle task ever has a lease, as long as no transition to `cancelled` or
`deadletter` finds one. -/
theorem idle_unleased {operations : List TaskOperation} {tasks : String → Option TaskFiles}
    (hrun : StepSystem.Run completed EndsUnleased (fun _ => none) operations tasks) :
    IdleUnleased tasks := by
  have hinit : Kept fun _ => none := fun _ _ hfiles => absurd hfiles nofun
  exact (hrun.invariant Kept (fun _ _ _ hkept hends hstep => kept_step hkept hends hstep)
    hinit).idleUnleased

theorem leased_titled : "report" ≠ "" := by decide

def leasedUntil (last : StoreCall) : List TaskOperation :=
  [.create "A" { title := ⟨"report", leased_titled⟩, initialStatus := some .ready } 1,
    .call "A" (.acquireLease "swe" {} ⟨2, 2, 2⟩), .call "A" last]

def leasedIn (tasks : String → Option TaskFiles) (dir : TaskStatus) : Bool :=
  ((tasks "A").bind fun files => files.copies dir).any fun file =>
    file.document.status = dir ∧ file.document.lease.isSome

/-- A transition to `cancelled` keeps the lease. -/
theorem cancelled_leased : ∃ operations tasks,
    StepSystem.FreeRun completed (fun _ => none) operations tasks ∧ ¬IdleUnleased tasks := by
  have hexec : (StepSystem.exec completed (fun _ => none)
      (leasedUntil (.transition .cancelled .empty 3))).any (fun tasks =>
        leasedIn tasks .cancelled) = true := by rfl
  obtain ⟨tasks, htasks, htest⟩ := (Option.any_eq_true _ _).mp hexec
  obtain ⟨file, hfile, hleased⟩ := (Option.any_eq_true _ _).mp htest
  obtain ⟨files, hfiles, hcopy⟩ := Option.bind_eq_some_iff.mp hfile
  obtain ⟨hstatus, hsome⟩ := of_decide_eq_true hleased
  refine ⟨_, tasks, StepSystem.freeRun_iff_exec.mpr htasks, fun hunleased => ?_⟩
  rw [hunleased "A" files .cancelled file hfiles hcopy (by rw [hstatus]; rfl)] at hsome
  cases hsome

def keepsTransitions (_ : String → Option TaskFiles) : TaskOperation → Bool
  | .call _ (.transition ..) => false
  | _ => true

theorem endsUnleased_of_test (htest : keepsTransitions tasks operation = true) :
    EndsUnleased tasks operation := by
  cases operation with
  | create id opts now => trivial
  | call id call =>
      cases call with
      | transition => cases htest
      | _ => trivial

/-- A cancellation clears the lease. -/
theorem cancelled_unleased : ∃ tasks,
    StepSystem.Run completed EndsUnleased (fun _ => none) (leasedUntil (.cancel none 3)) tasks ∧
      IdleUnleased tasks := by
  have hexec : (StepSystem.exec (StepSystem.checked completed keepsTransitions) (fun _ => none)
      (leasedUntil (.cancel none 3))).isSome = true := by rfl
  obtain ⟨tasks, htasks⟩ := Option.isSome_iff_exists.mp hexec
  have hrun := StepSystem.Run.of_exec (fun _ _ h => endsUnleased_of_test h) htasks
  exact ⟨tasks, hrun, idle_unleased hrun⟩

end Aof
