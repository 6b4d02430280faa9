import Aof.Proof.TransitionAtomic

/-!
# What the calls of the store do when they run alone

A call that runs alone on a store with one copy of the task leaves one copy, with the document that
the effect of the call describes.
-/

namespace Aof

open TaskFiles (quietly)

def Document.afterTransition (document : Document) (newStatus : TaskStatus)
    (metadataPatch : Dict String JsValue) (now : Nat) : Option Document :=
  if document.status = newStatus then some document
  else if isValidTransition document.status newStatus then
    some (document.transitioned newStatus metadataPatch now)
  else none

variable {newStatus : TaskStatus} {α β : Type} {program : TaskProgram α} {next : α → TaskProgram β}
  {value : α} {metadataPatch : Dict String JsValue} {now : Nat} {blocker : Blocker}
  {blockerId reason agentId : String} {opts : LeaseOptions} {times : LeaseTimes}

theorem afterTransition_of_valid {document : Document}
    (hvalid : isValidTransition document.status newStatus = true)
    (metadataPatch : Dict String JsValue) (now : Nat) :
    document.afterTransition newStatus metadataPatch now =
      some (document.transitioned newStatus metadataPatch now) := by
  rw [Document.afterTransition, if_neg (isValidTransition_ne hvalid).symm, if_pos hvalid]

def StoreCall.prepared (document : Document) : StoreCall → Document
  | .block reason _ => document.withBlockReason reason
  | .unblock _ => document.withoutBlockReason
  | .acquireLease agentId opts times => document.leasedTo agentId opts.ttlMs times.granted
  | _ => document

def StoreCall.effect (document : Document) : StoreCall → Option Document
  | .transition newStatus metadataPatch now => document.afterTransition newStatus metadataPatch now
  | .cancel reason now =>
      if document.status = .done ∨ document.status = .cancelled then none
      else some (document.cancelled reason now)
  | .update patch now =>
      if document.status = .done then none else some (document.updated patch now)
  | .updateBody body now => some (document.withBody body now)
  | .addDep blocker now =>
      if blocker.isTask ∨ !blocker.found ∨ document.status = .done ∨
          document.status = .cancelled then none
      else if document.dependsOn.contains blocker.id then some document
      else if blocker.closesCycle then none
      else some (document.dependingOn blocker.id now)
  | .removeDep blockerId now =>
      if document.status = .done ∨ document.status = .cancelled then none
      else if document.dependsOn.contains blockerId then
        some (document.independentOf blockerId now)
      else some document
  | .block reason now =>
      if document.status = .blocked ∨ document.status = .done ∨ document.status = .cancelled ∨
          document.status = .deadletter then none
      else (document.withBlockReason reason).afterTransition .blocked .empty now
  | .unblock now =>
      if document.status ≠ .blocked then none
      else document.withoutBlockReason.afterTransition .ready .empty now
  | .acquireLease agentId opts times =>
      if document.status ≠ .ready ∧ document.status ≠ .inProgress then none
      else if document.leasedToOther agentId times.checked then none
      else (document.leasedTo agentId opts.ttlMs times.granted).afterTransition .inProgress .empty
        times.moved
  | .renewLease agentId opts now =>
      match document.lease with
      | none => none
      | some lease =>
          if lease.agent ≠ agentId then none
          else if opts.maxRenewals ≤ lease.renewCount then none
          else some (document.renewed lease opts.ttlMs now)
  | .releaseLease agentId now =>
      if document.lease.any fun lease => lease.agent = agentId then
        document.afterTransition .ready .empty now
      else none

/-- A program that starts with the document in its directory, with the lock held as given, returns
the value and leaves the new document in its directory, with the lock held as before. -/
def Yields {α : Type} (holder : Option Nat) (document : Document) (program : TaskProgram α)
    (value : α) (newDocument : Document) : Prop :=
  ∀ files, Stored document files → files.holder = holder →
    ∃ after, program.alone quietly files = some (value, after) ∧ Stored newDocument after ∧
      after.holder = holder

variable {files : TaskFiles} {document newDocument last : Document} {holder : Option Nat}

theorem Yields.ret (value : α) :
    Yields holder document (.ret value : TaskProgram α) value document :=
  fun files hstored hholder => ⟨files, rfl, hstored, hholder⟩

theorem Yields.bind {result : β} (hprogram : Yields holder document program value newDocument)
    (hnext : Yields holder newDocument (next value) result last) :
    Yields holder document (program >>= next) result last := by
  intro files hstored hholder
  obtain ⟨middle, halone, hmiddle, hheld⟩ := hprogram files hstored hholder
  obtain ⟨after, hrest, hafter⟩ := hnext middle hmiddle hheld
  exact ⟨after, by rw [Async.alone_bind, halone, Option.bind_some, hrest], hafter⟩

theorem Stored.matchesIn (hstored : Stored document files) :
    ∃ mtimeMs, files.matchesIn STATUS_DIRS = [⟨⟨document, document.status⟩, mtimeMs⟩] := by
  obtain ⟨mtimeMs, -, -, hcopies⟩ := hstored.only
  refine ⟨mtimeMs, ?_⟩
  cases hstatus : document.status <;>
    simp [TaskFiles.matchesIn, STATUS_DIRS, hcopies, hstatus]

theorem yields_get :
    Yields holder document Aof.get (some ⟨document, document.status⟩) document := by
  intro files hstored hholder
  obtain ⟨mtimeMs, hfound⟩ := hstored.matchesIn
  obtain ⟨after, halone, hsame⟩ := alone_findMatches STATUS_DIRS files
  refine ⟨after, ?_, hstored.congr hsame.copies hsame.clock, hsame.holder.trans hholder⟩
  rw [Aof.get, Async.alone_bind, halone, hfound]
  rfl

theorem yields_getOrThrow :
    Yields holder document getOrThrow ⟨document, document.status⟩ document :=
  yields_get.bind (Yields.ret _)

theorem yields_write (hstatus : newDocument.status = document.status) (ahead : Bool) :
    Yields holder document (TaskProgram.writeFileAtomic document.status newDocument ahead) ()
      newDocument := by
  intro files hstored hholder
  refine ⟨(files.write document.status newDocument 1).noteWrite 0 ahead, rfl, ?_, hholder⟩
  obtain ⟨mtimeMs, hpos, hclock, hcopies⟩ := hstored.only
  refine ⟨files.clock + 1, by omega, le_refl _, fun dir => ?_⟩
  simp only [TaskFiles.noteWrite, TaskFiles.write, Function.update_apply, hcopies, hstatus]
  split <;> rfl

theorem yields_relocate {newPath : TaskStatus} (hpath : newDocument.status = newPath)
    (hne : newPath ≠ document.status) :
    Yields holder document (relocate document.status newPath newDocument) () newDocument := by
  subst hpath
  intro files hstored hholder
  obtain ⟨mtimeMs, hpos, hclock, hcopies⟩ := hstored.only
  have hold : files.copies document.status = some ⟨document, mtimeMs⟩ := by
    rw [hcopies, if_pos rfl]
  refine ⟨((((files.write newDocument.status newDocument 1).noteWrite 0 false).noteTime 0
    newDocument.status).remove document.status), ?_, ?_, hholder⟩
  · simp [relocate, TaskProgram.mkdir, TaskProgram.writeFileAtomic, TaskProgram.orThrow,
      TaskProgram.moveCompanion, TaskProgram.stat, TaskProgram.unlink, TaskProgram.perform,
      Async.alone_bind, quietly, TaskFiles.perform, TaskFiles.write, TaskFiles.noteWrite,
      TaskFiles.noteTime, hold, hne.symm]
  · refine ⟨files.clock + 1, by omega, le_refl _, fun dir => ?_⟩
    simp only [TaskFiles.remove, TaskFiles.noteTime, TaskFiles.noteWrite, TaskFiles.write,
      Function.update_apply, hcopies]
    by_cases hdir : dir = document.status
    · rw [if_pos hdir, if_neg (hdir ▸ hne.symm)]
    · simp only [if_neg hdir]

theorem yields_locked (hprogram : Yields (some 0) document program value newDocument) :
    Yields none document (TaskProgram.locked program) value newDocument := by
  intro files hstored hfree
  obtain ⟨after, halone, hafter, -⟩ := hprogram { files with holder := some 0 }
    (hstored.congr rfl rfl) rfl
  have hlock : quietly .lock files = some ((), { files with holder := some 0 }) := by
    simp [quietly, TaskFiles.perform, hfree]
  refine ⟨{ after with holder := none }, ?_, hafter.congr rfl rfl, rfl⟩
  simp only [TaskProgram.locked, TaskProgram.perform, Async.alone_bind, Async.alone_perform, hlock,
    Option.bind_some, Async.alone_attempt halone]
  rfl

theorem yields_finish : Yields holder document TaskProgram.finish () document :=
  fun _ hstored hholder => ⟨_, rfl, hstored.congr rfl rfl, hholder⟩

theorem yields_transition
    (heffect : document.afterTransition newStatus metadataPatch now = some newDocument) :
    Yields none document (transition newStatus metadataPatch now) ⟨newDocument, newStatus⟩
      newDocument := by
  apply yields_locked
  apply yields_getOrThrow.bind
  unfold Document.afterTransition at heffect
  split at heffect
  · rename_i hsame
    obtain rfl := Option.some.inj heffect
    rw [if_pos hsame, ← hsame]
    exact Yields.ret _
  · rename_i hother
    split at heffect
    · rename_i hvalid
      obtain rfl := Option.some.inj heffect
      rw [if_neg hother, if_pos hvalid]
      have hplace : Yields (some 0) document
          (place document.status newStatus (document.transitioned newStatus metadataPatch now)) ()
          (document.transitioned newStatus metadataPatch now) := by
        rw [place, if_pos hother]
        exact yields_relocate rfl (Ne.symm hother)
      exact hplace.bind (Yields.ret _)
    · cases heffect

theorem yields_cancelTask {reason : Option String}
    (hopen : ¬(document.status = .done ∨ document.status = .cancelled)) :
    Yields holder document (cancelTask reason now) () (document.cancelled reason now) := by
  apply yields_getOrThrow.bind
  rw [if_neg hopen]
  rw [not_or] at hopen
  rw [if_pos hopen.2]
  intro files hstored hholder
  obtain ⟨mtimeMs, hpos, hclock, hcopies⟩ := hstored.only
  refine ⟨((((files.write document.status (document.cancelled reason now) 1).noteWrite 0
    false).move document.status .cancelled).noteWrite 0 false), ?_, ?_, hholder⟩
  · simp [TaskProgram.writeFileAtomic, TaskProgram.rename, TaskProgram.orThrow,
      TaskProgram.moveCompanion, TaskProgram.perform, Async.alone_bind, quietly,
      TaskFiles.perform, TaskFiles.write, TaskFiles.noteWrite, TaskFiles.move]
  · refine ⟨files.clock + 1, by omega, le_refl _, fun dir => ?_⟩
    have hstatus : (document.cancelled reason now).status = .cancelled := rfl
    simp only [TaskFiles.move, TaskFiles.noteWrite, TaskFiles.write, Function.update_apply,
      hcopies, hstatus, ↓reduceIte]
    by_cases hdir : dir = document.status
    · rw [hdir, if_neg hopen.2, if_pos rfl, if_neg hopen.2]
    · simp only [if_neg hdir]

theorem yields_updateTask {patch : UpdatePatch} (hopen : document.status ≠ .done) :
    Yields holder document (updateTask patch now) () (document.updated patch now) := by
  apply yields_getOrThrow.bind
  rw [if_neg hopen]
  apply yields_write
  rfl

theorem yields_updateBody (body : String) (now : Nat) :
    Yields holder document (updateBody body now) () (document.withBody body now) := by
  apply yields_getOrThrow.bind
  apply yields_write
  rfl

theorem yields_addDependency
    (heffect : (StoreCall.addDep blocker now).effect document = some newDocument) :
    Yields holder document (addDependency blocker now) () newDocument := by
  apply yields_getOrThrow.bind
  simp only [StoreCall.effect] at heffect
  split at heffect
  · cases heffect
  rename_i hrefused
  simp only [not_or, Bool.not_eq_true, Bool.not_eq_true', Bool.not_eq_false] at hrefused
  obtain ⟨hother, hfound, hdone, hcancelled⟩ := hrefused
  have hblocker : blockerFound blocker = .ret true := by
    simp only [blockerFound, hother, hfound, Bool.false_eq_true, if_false, Async.pure_eq]
  have hopen : ¬(document.status = .done ∨ document.status = .cancelled) := by
    rw [not_or]
    exact ⟨hdone, hcancelled⟩
  simp only [hblocker, Async.ret_bind, Bool.not_true, Bool.false_eq_true, if_false, if_neg hopen,
    hother]
  split at heffect
  · rename_i hlisted
    rw [if_pos hlisted, ← Option.some.inj heffect]
    exact Yields.ret ()
  · rename_i hlisted
    split at heffect
    · cases heffect
    · rename_i hcycle
      rw [if_neg hlisted, if_neg hcycle, ← Option.some.inj heffect]
      apply yields_write
      rfl

theorem yields_removeDependency
    (heffect : (StoreCall.removeDep blockerId now).effect document = some newDocument) :
    Yields holder document (removeDependency blockerId now) () newDocument := by
  apply yields_getOrThrow.bind
  simp only [StoreCall.effect] at heffect
  split at heffect
  · cases heffect
  rename_i hopen
  rw [if_neg hopen]
  split at heffect
  · rename_i hlisted
    rw [if_pos hlisted, ← Option.some.inj heffect]
    apply yields_write
    rfl
  · rename_i hlisted
    rw [if_neg hlisted, ← Option.some.inj heffect]
    exact Yields.ret ()

theorem yields_prepared {prepared : Document} {rest : TaskProgram Unit}
    (hstatus : prepared.status = document.status)
    (heffect : prepared.afterTransition newStatus .empty now = some newDocument)
    (hrest : Yields none newDocument rest () newDocument) :
    Yields none document (do
      TaskProgram.writeFileAtomic document.status prepared true
      let _ ← transition newStatus .empty now
      rest) () newDocument := by
  apply (yields_write hstatus true).bind
  apply (yields_transition heffect).bind
  exact hrest

theorem yields_blockTask
    (heffect : (StoreCall.block reason now).effect document = some newDocument) :
    Yields none document (blockTask reason now) () newDocument := by
  apply yields_getOrThrow.bind
  simp only [StoreCall.effect] at heffect
  split at heffect
  · cases heffect
  · rename_i hopen
    rw [if_neg hopen]
    exact yields_prepared rfl heffect yields_finish

theorem yields_unblockTask (heffect : (StoreCall.unblock now).effect document = some newDocument) :
    Yields none document (unblockTask now) () newDocument := by
  apply yields_getOrThrow.bind
  simp only [StoreCall.effect] at heffect
  split at heffect
  · cases heffect
  · rename_i hblocked
    rw [if_neg hblocked]
    exact yields_prepared rfl heffect yields_finish

theorem yields_writeArtifacts (opts : LeaseOptions) :
    Yields holder document (writeArtifacts opts) () document := by
  unfold writeArtifacts
  split
  · apply yields_getOrThrow.bind
    apply yields_getOrThrow.bind
    exact Yields.ret ()
  · exact Yields.ret ()

theorem yields_acquireLease
    (heffect : (StoreCall.acquireLease agentId opts times).effect document = some newDocument) :
    Yields none document (Aof.acquireLease agentId opts times) () newDocument := by
  have hfiled : Yields none newDocument (do
      writeArtifacts opts
      TaskProgram.finish) () newDocument :=
    (yields_writeArtifacts opts).bind yields_finish
  apply yields_getOrThrow.bind
  simp only [StoreCall.effect] at heffect
  split at heffect
  · cases heffect
  rename_i hworked
  rw [if_neg hworked]
  split at heffect
  · cases heffect
  rename_i hfree
  rw [if_neg hfree]
  have hgrant : Yields none document (TaskProgram.writeFileAtomic document.status
      (document.leasedTo agentId opts.ttlMs times.granted) true) ()
      (document.leasedTo agentId opts.ttlMs times.granted) := by
    apply yields_write
    rfl
  apply hgrant.bind
  by_cases hready : document.status = .ready
  · rw [beginWork, if_pos hready]
    apply ((yields_transition heffect).bind (Yields.ret ())).bind
    exact hfiled
  · have hworking : (document.leasedTo agentId opts.ttlMs times.granted).status = .inProgress := by
      by_contra hother
      exact hworked ⟨hready, hother⟩
    rw [beginWork, if_neg hready]
    simp only [Document.afterTransition, hworking, ↓reduceIte, Option.some.injEq] at heffect
    subst heffect
    exact hfiled

theorem yields_renewLease
    (heffect : (StoreCall.renewLease agentId opts now).effect document = some newDocument) :
    Yields holder document (Aof.renewLease agentId opts now) () newDocument := by
  apply yields_getOrThrow.bind
  simp only [StoreCall.effect] at heffect
  cases hlease : document.lease with
  | none =>
      rw [hlease] at heffect
      cases heffect
  | some lease =>
      simp only [hlease] at heffect ⊢
      split at heffect
      · cases heffect
      rename_i hagent
      rw [if_neg hagent]
      split at heffect
      · cases heffect
      rename_i hrenewals
      rw [if_neg hrenewals, ← Option.some.inj heffect]
      apply yields_write
      rfl

theorem yields_releaseLease
    (heffect : (StoreCall.releaseLease agentId now).effect document = some newDocument) :
    Yields none document (Aof.releaseLease agentId now) () newDocument := by
  apply yields_getOrThrow.bind
  simp only [StoreCall.effect] at heffect
  split at heffect
  · rename_i hagent
    rw [if_pos hagent]
    exact (yields_transition heffect).bind (Yields.ret ())
  · cases heffect

variable {call : StoreCall}

theorem yields_program (heffect : call.effect document = some newDocument) :
    Yields none document call.program () newDocument := by
  cases call with
  | transition newStatus metadataPatch now =>
      exact (yields_transition heffect).bind (Yields.ret ())
  | cancel reason now =>
      simp only [StoreCall.effect, Option.ite_none_left_eq_some] at heffect
      exact yields_locked (Option.some.inj heffect.2 ▸ yields_cancelTask heffect.1)
  | update patch now =>
      simp only [StoreCall.effect, Option.ite_none_left_eq_some] at heffect
      exact yields_locked (Option.some.inj heffect.2 ▸ yields_updateTask heffect.1)
  | updateBody body now =>
      obtain rfl := Option.some.inj heffect
      exact yields_locked (yields_updateBody body now)
  | addDep blocker now => exact yields_locked (yields_addDependency heffect)
  | removeDep blockerId now => exact yields_locked (yields_removeDependency heffect)
  | block reason now => exact yields_blockTask heffect
  | unblock now => exact yields_unblockTask heffect
  | acquireLease agentId opts times => exact yields_acquireLease heffect
  | renewLease agentId opts now => exact yields_renewLease heffect
  | releaseLease agentId now => exact yields_releaseLease heffect

def Rejects {α : Type} (holder : Option Nat) (document : Document) (program : TaskProgram α) :
    Prop :=
  ∀ files, Stored document files → files.holder = holder → program.alone quietly files = none

theorem rejects_throw : Rejects holder document (.throw : TaskProgram α) :=
  fun _ _ _ => rfl

theorem Rejects.bind (hprogram : Rejects holder document program) :
    Rejects holder document (program >>= next) := by
  intro files hstored hholder
  rw [Async.alone_bind, hprogram files hstored hholder, Option.bind_none]

theorem Yields.rejects (hprogram : Yields holder document program value newDocument)
    (hnext : Rejects holder newDocument (next value)) :
    Rejects holder document (program >>= next) := by
  intro files hstored hholder
  obtain ⟨middle, halone, hmiddle, hheld⟩ := hprogram files hstored hholder
  rw [Async.alone_bind, halone, Option.bind_some, hnext middle hmiddle hheld]

theorem rejects_locked (hprogram : Rejects (some 0) document program) :
    Rejects none document (TaskProgram.locked program) := by
  intro files hstored hfree
  have hlock : quietly .lock files = some ((), { files with holder := some 0 }) := by
    simp [quietly, TaskFiles.perform, hfree]
  have hnone : program.alone quietly { files with holder := some 0 } = none :=
    hprogram _ (hstored.congr rfl rfl) rfl
  simp only [TaskProgram.locked, TaskProgram.perform, Async.alone_bind, Async.alone_perform, hlock,
    Option.bind_some]
  cases hattempt : program.attempt.alone quietly { files with holder := some 0 } with
  | none => rfl
  | some result =>
      obtain ⟨value, after⟩ := result
      cases value with
      | none => rfl
      | some value => exact absurd hattempt (Async.alone_attempt_ne hnone)

theorem rejects_transition (heffect : document.afterTransition newStatus metadataPatch now = none) :
    Rejects none document (transition newStatus metadataPatch now) := by
  apply rejects_locked
  apply yields_getOrThrow.rejects
  unfold Document.afterTransition at heffect
  split at heffect
  · cases heffect
  rename_i hother
  split at heffect
  · cases heffect
  rename_i hinvalid
  rw [if_neg hother, if_neg hinvalid]
  exact rejects_throw

theorem rejects_addDependency (heffect : (StoreCall.addDep blocker now).effect document = none) :
    Rejects (some 0) document (addDependency blocker now) := by
  apply yields_getOrThrow.rejects
  have hfound : Yields (some 0) document (blockerFound blocker) (blocker.isTask || blocker.found)
      document := by
    unfold blockerFound
    cases blocker.isTask with
    | true => exact yields_get.bind (Yields.ret true)
    | false => exact Yields.ret _
  apply hfound.rejects
  simp only [StoreCall.effect] at heffect
  by_cases hmissing : (!(blocker.isTask || blocker.found)) = true
  · rw [if_pos hmissing]
    exact rejects_throw
  rw [if_neg hmissing]
  by_cases hclosed : document.status = .done ∨ document.status = .cancelled
  · rw [if_pos hclosed]
    exact rejects_throw
  rw [if_neg hclosed]
  by_cases hself : blocker.isTask = true
  · rw [if_pos hself]
    exact rejects_throw
  rw [if_neg hself]
  have hopen : ¬(blocker.isTask = true ∨ (!blocker.found) = true ∨ document.status = .done ∨
      document.status = .cancelled) := by
    simp_all
  rw [if_neg hopen] at heffect
  split at heffect
  · cases heffect
  rename_i hlisted
  rw [if_neg hlisted]
  split at heffect
  · rename_i hcycle
    rw [if_pos hcycle]
    exact rejects_throw
  · cases heffect

theorem rejects_removeDependency
    (heffect : (StoreCall.removeDep blockerId now).effect document = none) :
    Rejects (some 0) document (removeDependency blockerId now) := by
  apply yields_getOrThrow.rejects
  simp only [StoreCall.effect] at heffect
  split at heffect
  · rename_i hclosed
    rw [if_pos hclosed]
    exact rejects_throw
  · split at heffect <;> cases heffect

theorem rejects_blockTask (heffect : (StoreCall.block reason now).effect document = none) :
    Rejects none document (blockTask reason now) := by
  apply yields_getOrThrow.rejects
  simp only [StoreCall.effect] at heffect
  split at heffect
  · rename_i hclosed
    rw [if_pos hclosed]
    exact rejects_throw
  · rename_i hopen
    have hvalid : isValidTransition (document.withBlockReason reason).status .blocked = true := by
      show isValidTransition document.status .blocked = true
      cases hstatus : document.status <;> simp_all [isValidTransition, VALID_TRANSITIONS]
    rw [afterTransition_of_valid hvalid] at heffect
    cases heffect

theorem rejects_unblockTask (heffect : (StoreCall.unblock now).effect document = none) :
    Rejects none document (unblockTask now) := by
  apply yields_getOrThrow.rejects
  simp only [StoreCall.effect] at heffect
  split at heffect
  · rename_i hother
    rw [if_pos hother]
    exact rejects_throw
  · rename_i hblocked
    have hvalid : isValidTransition document.withoutBlockReason.status .ready = true := by
      show isValidTransition document.status .ready = true
      rw [not_not.mp hblocked]
      rfl
    rw [afterTransition_of_valid hvalid] at heffect
    cases heffect

theorem rejects_acquireLease
    (heffect : (StoreCall.acquireLease agentId opts times).effect document = none) :
    Rejects none document (Aof.acquireLease agentId opts times) := by
  apply yields_getOrThrow.rejects
  simp only [StoreCall.effect] at heffect
  split at heffect
  · rename_i hidle
    rw [if_pos hidle]
    exact rejects_throw
  rename_i hworked
  rw [if_neg hworked]
  split at heffect
  · rename_i hother
    rw [if_pos hother]
    exact rejects_throw
  exfalso
  have hstatus : (document.leasedTo agentId opts.ttlMs times.granted).status = document.status := rfl
  simp only [Document.afterTransition, hstatus] at heffect
  apply hworked
  constructor
  · intro hready
    rw [hready] at heffect
    simp [isValidTransition, VALID_TRANSITIONS] at heffect
  · intro hworking
    simp [hworking] at heffect

theorem rejects_renewLease
    (heffect : (StoreCall.renewLease agentId opts now).effect document = none) :
    Rejects holder document (Aof.renewLease agentId opts now) := by
  apply yields_getOrThrow.rejects
  simp only [StoreCall.effect] at heffect
  cases hlease : document.lease with
  | none =>
      dsimp only
      exact rejects_throw
  | some lease =>
      simp only [hlease] at heffect ⊢
      split at heffect
      · rename_i hagent
        rw [if_pos hagent]
        exact rejects_throw
      rename_i hagent
      rw [if_neg hagent]
      split at heffect
      · rename_i hrenewals
        rw [if_pos hrenewals]
        exact rejects_throw
      · cases heffect

theorem rejects_releaseLease
    (heffect : (StoreCall.releaseLease agentId now).effect document = none) :
    Rejects none document (Aof.releaseLease agentId now) := by
  apply yields_getOrThrow.rejects
  simp only [StoreCall.effect] at heffect
  split at heffect
  · rename_i hagent
    rw [if_pos hagent]
    exact (rejects_transition heffect).bind
  · rename_i hagent
    rw [if_neg hagent]
    exact rejects_throw

theorem rejects_program (heffect : call.effect document = none) :
    Rejects none document call.program := by
  cases call with
  | transition newStatus metadataPatch now => exact (rejects_transition heffect).bind
  | cancel reason now =>
      simp only [StoreCall.effect, ite_eq_left_iff, reduceCtorEq, imp_false, not_not] at heffect
      apply rejects_locked
      apply yields_getOrThrow.rejects
      rw [if_pos heffect]
      exact rejects_throw
  | update patch now =>
      simp only [StoreCall.effect, ite_eq_left_iff, reduceCtorEq, imp_false, not_not] at heffect
      apply rejects_locked
      apply yields_getOrThrow.rejects
      rw [if_pos heffect]
      exact rejects_throw
  | updateBody body now => cases heffect
  | addDep blocker now => exact rejects_locked (rejects_addDependency heffect)
  | removeDep blockerId now => exact rejects_locked (rejects_removeDependency heffect)
  | block reason now => exact rejects_blockTask heffect
  | unblock now => exact rejects_unblockTask heffect
  | acquireLease agentId opts times => exact rejects_acquireLease heffect
  | renewLease agentId opts now => exact rejects_renewLease heffect
  | releaseLease agentId now => exact rejects_releaseLease heffect

theorem effect_of_alone {after : TaskFiles} {value : Unit} (hstored : Stored document files)
    (hfree : files.holder = none)
    (halone : call.program.alone quietly files = some (value, after)) :
    ∃ last, call.effect document = some last ∧ Stored last after ∧ after.holder = none := by
  cases heffect : call.effect document with
  | none => rw [rejects_program heffect files hstored hfree] at halone; cases halone
  | some last =>
      obtain ⟨left, hleft, hstored', hfree'⟩ := yields_program heffect files hstored hfree
      rw [hleft] at halone
      obtain ⟨-, rfl⟩ := Prod.mk.inj (Option.some.inj halone)
      exact ⟨last, rfl, hstored', hfree'⟩

end Aof
