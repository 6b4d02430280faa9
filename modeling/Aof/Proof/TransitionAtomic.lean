import Aof.Proof.StoreRules
import Aof.Proof.DuplicateRepair

/-!
# A transition is atomic

However the calls of the file system answer and wherever the process stops, a later get returns the
task from before the transition or the transitioned one.
-/

namespace Aof

open Interference
open TaskFiles (quietly)

structure Stored (document : Document) (files : TaskFiles) : Prop where
  only : ∃ mtimeMs, 0 < mtimeMs ∧ mtimeMs ≤ files.clock ∧ ∀ dir,
    files.copies dir = if dir = document.status then some ⟨document, mtimeMs⟩ else none

def Ticking (_ : Nat) (answer : OsAnswer) (_ : TaskOp) (_ : TaskFiles) : Prop := 0 < answer.elapsed

section Moving

variable (document : Document) (newStatus : TaskStatus) (metadataPatch : Dict String JsValue)
  (now : Nat)

def BothCopies (files : TaskFiles) : Prop :=
  ∃ old new, 0 < old ∧ old ≤ files.clock ∧ old < new ∧ ∀ dir, files.copies dir =
    if dir = newStatus then some ⟨document.transitioned newStatus metadataPatch now, new⟩
    else if dir = document.status then some ⟨document, old⟩ else none

def NewCopy (files : TaskFiles) : Prop :=
  ∃ new, ∀ dir, files.copies dir =
    if dir = newStatus then some ⟨document.transitioned newStatus metadataPatch now, new⟩ else none

def moving : TaskEnv where
  perform := TaskFiles.perform
  allowed := Ticking
  inv files := Stored document files ∨ BothCopies document newStatus metadataPatch now files ∨
    NewCopy document newStatus metadataPatch now files
  rely index s t := index = 0 → s = t
  rely_refl _ _ _ := rfl
  rely_trans _ _ _ _ hst htu hindex := (hst hindex).trans (htu hindex)

variable {document newStatus metadataPatch now}

theorem moving_stable (property : TaskFiles → Prop) :
    (moving document newStatus metadataPatch now).Stable 0 property :=
  fun _ _ hrely _ h => hrely rfl ▸ h

theorem moving_perform {op : TaskOp} {pre thrown : TaskFiles → Prop}
    {post : TaskReply op → TaskFiles → Prop}
    (hstep : ∀ s answer reply t, pre s → 0 < answer.elapsed →
      TaskFiles.perform 0 answer op s = some (reply, t) →
      (moving document newStatus metadataPatch now).inv t ∧ post reply t) :
    (moving document newStatus metadataPatch now).Triple 0 pre (TaskProgram.perform op) post
      thrown := by
  apply Triple.perform (moving_stable pre) fun reply => moving_stable (post reply)
  intro s answer reply t _ hs hticking hperform
  obtain ⟨hinv, hpost⟩ := hstep s answer reply t hs hticking hperform
  exact ⟨⟨hinv, fun other hother hindex => absurd hindex hother⟩, hpost⟩

variable {files after : TaskFiles} {dir : TaskStatus}

theorem Stored.congr (hstored : Stored document files) (hcopies : after.copies = files.copies)
    (hclock : after.clock = files.clock) : Stored document after :=
  ⟨by rw [hcopies, hclock]; exact hstored.only⟩

theorem Stored.copy_eq (hstored : Stored document files) {file : TaskFile}
    (hcopy : files.copies dir = some file) : dir = document.status ∧ file.document = document := by
  obtain ⟨mtimeMs, -, -, honly⟩ := hstored.only
  rw [honly] at hcopy
  split at hcopy
  · rename_i hdir
    exact ⟨hdir, (Option.some.inj hcopy) ▸ rfl⟩
  · cases hcopy

theorem moving_get : (moving document newStatus metadataPatch now).Triple 0 (Stored document)
    Aof.get (fun winner s => Stored document s ∧
      (winner = none ∨ winner = some ⟨document, document.status⟩)) fun _ => True := by
  apply triple_get_sole rfl (moving_stable _)
  · refine ⟨?_, ?_, ?_⟩
    · exact fun s hinv _ => ⟨hinv, fun other hother hindex => absurd hindex hother⟩
    · intro s dir _ hs
      have hsame := sameFiles_beginRead s 0 dir
      have hafter := hs.congr hsame.copies hsame.clock
      exact ⟨⟨.inl hafter, fun other hother hindex => absurd hindex hother⟩, hafter⟩
    · intro s dir file _ hs _
      have hafter : Stored document (s.noteTime 0 dir) := hs.congr rfl rfl
      exact ⟨⟨.inl hafter, fun other hother hindex => absurd hindex hother⟩, hafter⟩
  · exact fun s dir file _ hs hcopy => hs.copy_eq hcopy

theorem BothCopies.congr (hboth : BothCopies document newStatus metadataPatch now files)
    (hcopies : after.copies = files.copies) (hclock : after.clock = files.clock) :
    BothCopies document newStatus metadataPatch now after := by
  obtain ⟨old, new, hpos, hold, hlt, hboth⟩ := hboth
  exact ⟨old, new, hpos, hclock ▸ hold, hlt, hcopies ▸ hboth⟩

theorem moving_inv_congr (hinv : (moving document newStatus metadataPatch now).inv files)
    (hcopies : after.copies = files.copies) (hclock : after.clock = files.clock) :
    (moving document newStatus metadataPatch now).inv after := by
  rcases hinv with hstored | hboth | ⟨new, hnew⟩
  · exact .inl (hstored.congr hcopies hclock)
  · exact .inr (.inl (hboth.congr hcopies hclock))
  · exact .inr (.inr ⟨new, hcopies ▸ hnew⟩)

theorem moving_alone_get (hinv : (moving document newStatus metadataPatch now).inv files) :
    ∃ task after, Aof.get.alone quietly files = some (some task, after) ∧
      task.document.status = task.path ∧ (task.document = document ∨
        task.document = document.transitioned newStatus metadataPatch now) := by
  rcases hinv with ⟨mtimeMs, -, -, hcopies⟩ | ⟨old, new, -, -, hlt, hcopies⟩ | ⟨new, hcopies⟩
  · have hnewest : Newest files document.status ⟨document, mtimeMs⟩ := by
      refine ⟨by rw [hcopies, if_pos rfl], fun other copy hother hcopy => ?_⟩
      rw [hcopies, if_neg hother] at hcopy
      cases hcopy
    obtain ⟨after, halone⟩ := hnewest.alone_get
    exact ⟨_, after, halone, rfl, .inl rfl⟩
  · have hnewest : Newest files newStatus
        ⟨document.transitioned newStatus metadataPatch now, new⟩ := by
      refine ⟨by rw [hcopies, if_pos rfl], fun other copy hother hcopy => ?_⟩
      rw [hcopies, if_neg hother] at hcopy
      split at hcopy
      · exact (Option.some.inj hcopy) ▸ hlt
      · cases hcopy
    obtain ⟨after, halone⟩ := hnewest.alone_get
    exact ⟨_, after, halone, rfl, .inr rfl⟩
  · have hnewest : Newest files newStatus
        ⟨document.transitioned newStatus metadataPatch now, new⟩ := by
      refine ⟨by rw [hcopies, if_pos rfl], fun other copy hother hcopy => ?_⟩
      rw [hcopies, if_neg hother] at hcopy
      cases hcopy
    obtain ⟨after, halone⟩ := hnewest.alone_get
    exact ⟨_, after, halone, rfl, .inr rfl⟩

theorem BothCopies.of_write (hstored : Stored document files) {elapsed : Nat}
    (hticking : 0 < elapsed) (call : Nat) (ahead : Bool) :
    BothCopies document newStatus metadataPatch now
      ((files.write newStatus (document.transitioned newStatus metadataPatch now) elapsed).noteWrite
        call ahead) := by
  obtain ⟨mtimeMs, hpos, hclock, hcopies⟩ := hstored.only
  refine ⟨mtimeMs, files.clock + elapsed, hpos, ?_, by omega, ?_⟩
  · exact hclock.trans (Nat.le_add_right _ _)
  · intro dir
    simp only [TaskFiles.noteWrite, TaskFiles.write, Function.update_apply, hcopies]

section

variable (hne : newStatus ≠ document.status)
  (hboth : BothCopies document newStatus metadataPatch now files)
include hne hboth

theorem BothCopies.remove_new : Stored document (files.remove newStatus) := by
  obtain ⟨old, new, hpos, hold, -, hcopies⟩ := hboth
  refine ⟨old, hpos, hold, fun dir => ?_⟩
  simp only [TaskFiles.remove, Function.update_apply, hcopies]
  split
  · rename_i hdir
    rw [if_neg (hdir ▸ hne)]
  · rfl

theorem BothCopies.remove_old :
    NewCopy document newStatus metadataPatch now (files.remove document.status) := by
  obtain ⟨old, new, -, -, -, hcopies⟩ := hboth
  refine ⟨new, fun dir => ?_⟩
  simp only [TaskFiles.remove, Function.update_apply, hcopies]
  split
  · rename_i hdir
    rw [if_neg (hdir ▸ hne.symm)]
  · rfl

end

theorem perform_unlink {call : Nat} {answer : OsAnswer} {s t : TaskFiles} {reply : Errno}
    (hperform : TaskFiles.perform call answer (.unlink dir) s = some (reply, t)) :
    t = s ∨ t = s.remove dir := by
  simp only [TaskFiles.perform] at hperform
  split at hperform
  · exact .inl (Prod.mk.inj (Option.some.inj hperform)).2.symm
  · split at hperform
    · exact .inr (Prod.mk.inj (Option.some.inj hperform)).2.symm
    · exact .inl (Prod.mk.inj (Option.some.inj hperform)).2.symm

theorem moving_mkdir : (moving document newStatus metadataPatch now).Triple 0 (Stored document)
    TaskProgram.mkdir (fun _ => Stored document) fun _ => True := by
  apply triple_orThrow (moving_stable _) (moving_stable _)
  apply moving_perform
  rintro s answer reply t hstored - hperform
  obtain ⟨rfl, rfl⟩ := Prod.mk.inj (Option.some.inj hperform)
  refine ⟨.inl hstored, ?_⟩
  split
  · exact hstored
  · trivial

theorem moving_write : (moving document newStatus metadataPatch now).Triple 0 (Stored document)
    (TaskProgram.writeFileAtomic newStatus (document.transitioned newStatus metadataPatch now))
    (fun _ => BothCopies document newStatus metadataPatch now) fun _ => True := by
  apply triple_orThrow (moving_stable _) (moving_stable _)
  apply moving_perform
  rintro s answer reply t hstored hticking hperform
  simp only [TaskFiles.perform] at hperform
  split at hperform <;> obtain ⟨rfl, rfl⟩ := Prod.mk.inj (Option.some.inj hperform)
  · exact ⟨.inl hstored, trivial⟩
  · have hboth : BothCopies document newStatus metadataPatch now _ :=
      BothCopies.of_write hstored hticking 0 false
    exact ⟨.inr (.inl hboth), hboth⟩

theorem moving_relocate (hne : newStatus ≠ document.status) :
    (moving document newStatus metadataPatch now).Triple 0 (Stored document)
      (relocate document.status newStatus (document.transitioned newStatus metadataPatch now))
      (fun _ _ => True) fun _ => True := by
  apply moving_mkdir.bind
  intro _
  apply moving_write.bind
  intro _
  have hcompanion : (moving document newStatus metadataPatch now).Triple 0
      (BothCopies document newStatus metadataPatch now) TaskProgram.moveCompanion
      (fun _ => BothCopies document newStatus metadataPatch now) fun _ => True := by
    apply moving_perform
    rintro s answer reply t hboth - hperform
    obtain ⟨-, rfl⟩ := Prod.mk.inj (Option.some.inj hperform)
    exact ⟨.inr (.inl hboth), hboth⟩
  have hstat : (moving document newStatus metadataPatch now).Triple 0
      (BothCopies document newStatus metadataPatch now) (TaskProgram.stat newStatus)
      (fun _ => BothCopies document newStatus metadataPatch now) fun _ => True := by
    apply moving_perform
    rintro s answer reply t hboth - hperform
    have hafter := hboth.congr (sameFiles_stat hperform).copies (sameFiles_stat hperform).clock
    exact ⟨.inr (.inl hafter), hafter⟩
  have hunlink : ∀ dir, dir = newStatus ∨ dir = document.status →
      (moving document newStatus metadataPatch now).Triple 0
        (BothCopies document newStatus metadataPatch now) (TaskProgram.unlink dir)
        (fun _ _ => True) fun _ => True := by
    intro dir hdir
    apply moving_perform
    rintro s answer reply t hboth - hperform
    refine ⟨?_, trivial⟩
    rcases perform_unlink hperform with rfl | rfl
    · exact .inr (.inl hboth)
    · rcases hdir with rfl | rfl
      · exact .inl (hboth.remove_new hne)
      · exact .inr (.inr (hboth.remove_old hne))
  apply hcompanion.bind
  intro moved
  cases moved with
  | ok | ENOENT =>
      apply hstat.bind
      intro mtimeMs
      cases mtimeMs with
      | none => exact Triple.ret (moving_stable _) fun _ _ _ => trivial
      | some _ =>
          apply (hunlink _ (.inr rfl)).bind
          intro _
          exact Triple.ret (moving_stable _) fun _ _ _ => trivial
  | other =>
      apply (hunlink _ (.inl rfl)).bind
      intro _
      exact Triple.throw (moving_stable _) fun _ _ h => h

theorem isValidTransition_ne {source target : TaskStatus}
    (hvalid : isValidTransition source target = true) : target ≠ source := by
  rintro rfl
  cases target <;> exact absurd hvalid (by decide)

theorem moving_transitionTask (hvalid : isValidTransition document.status newStatus = true) :
    (moving document newStatus metadataPatch now).Triple 0 (Stored document)
      (transitionTask newStatus metadataPatch now) (fun _ _ => True) fun _ => True := by
  apply triple_transitionTask (moving_stable _) moving_get
  intro hmoves _
  rw [place, if_pos hmoves]
  exact moving_relocate (isValidTransition_ne hvalid)

theorem moving_program (hvalid : isValidTransition document.status newStatus = true) :
    (moving document newStatus metadataPatch now).Triple 0 (Stored document)
      (StoreCall.transition newStatus metadataPatch now).program (fun _ _ => True)
      fun _ => True := by
  have hlock : (moving document newStatus metadataPatch now).Triple 0 (Stored document)
      (TaskProgram.perform .lock) (fun _ => Stored document) fun _ => True := by
    apply moving_perform
    rintro s answer reply t hstored - hperform
    simp only [TaskFiles.perform] at hperform
    split at hperform
    · cases hperform
    · obtain ⟨-, rfl⟩ := Prod.mk.inj (Option.some.inj hperform)
      have hafter : Stored document { s with holder := some 0 } := hstored.congr rfl rfl
      exact ⟨.inl hafter, hafter⟩
  have hunlock : (moving document newStatus metadataPatch now).Triple 0
      (moving document newStatus metadataPatch now).inv (TaskProgram.perform .unlock)
      (fun _ _ => True) fun _ => True := by
    apply moving_perform
    rintro s answer reply t hinv - hperform
    obtain ⟨-, rfl⟩ := Prod.mk.inj (Option.some.inj hperform)
    exact ⟨moving_inv_congr hinv rfl rfl, trivial⟩
  have hlocked : (moving document newStatus metadataPatch now).Triple 0 (Stored document)
      (transition newStatus metadataPatch now) (fun _ _ => True) fun _ => True := by
    have htask : (moving document newStatus metadataPatch now).Triple 0
        (Stored document) (transitionTask newStatus metadataPatch now)
        (fun _ => (moving document newStatus metadataPatch now).inv)
        (moving document newStatus metadataPatch now).inv :=
      (moving_transitionTask hvalid).conseq (fun _ _ h => h) (fun _ _ hinv _ => hinv)
        fun _ hinv _ => hinv
    exact triple_locked (fun _ => moving_stable _) (moving_stable _) hlock htask
      (fun _ => hunlock) hunlock
  apply hlocked.bind
  intro _
  exact Triple.ret (moving_stable _) fun _ _ _ => trivial

end Moving

/-- A transition may be stopped after any of its operations, and any of them may fail: the task of
a later get is the one before the transition, or the transitioned one. -/
theorem transition_atomic {document : Document} {files : TaskFiles}
    (hstored : Stored document files) {newStatus : TaskStatus}
    (hvalid : isValidTransition document.status newStatus = true)
    (metadataPatch : Dict String JsValue) (now : Nat) {turns : List (Async.Turn OsAnswer)}
    {stopped : Async.Pool TaskOp TaskReply TaskFiles} (hrun : Async.Runs TaskFiles.perform Ticking
      ⟨files, [(StoreCall.transition newStatus metadataPatch now).program]⟩ turns stopped) :
    ∃ task after, Aof.get.alone quietly stopped.shared = some (some task, after) ∧
      task.document.status = task.path ∧ (task.document = document ∨
        task.document = document.transitioned newStatus metadataPatch now) := by
  have hpool : (moving document newStatus metadataPatch now).SafePool (fun _ _ _ => True)
      ⟨files, [(StoreCall.transition newStatus metadataPatch now).program]⟩ := by
    refine ⟨.inl hstored, fun index program hprogram => ?_⟩
    rw [List.getElem?_singleton, Option.ite_none_right_eq_some] at hprogram
    obtain ⟨rfl, hprogram⟩ := hprogram
    obtain rfl := Option.some.inj hprogram
    exact (moving_program hvalid files (.inl hstored) hstored).mono fun _ _ _ _ => trivial
  exact moving_alone_get (hpool.run hrun).inv

def plainDocument (status : TaskStatus) : Document :=
  { title := ⟨"report", by decide⟩, status, updatedAt := 0, lastTransitionAt := 0 }

def filed (document : Document) : TaskFiles :=
  { copies := fun dir => if dir = document.status then some ⟨document, 1⟩ else none
    clock := 1 }

/-- The process stops when the new copy is written: both copies are there. -/
theorem interrupted_atomic : ∃ turns stopped, Async.Runs TaskFiles.perform Ticking
      ⟨filed (plainDocument .ready), [(StoreCall.transition .inProgress .empty 1).program]⟩ turns
      stopped ∧ (stopped.shared.copies .ready).isSome ∧ (stopped.shared.copies .inProgress).isSome ∧
    ∃ task after, Aof.get.alone quietly stopped.shared = some (some task, after) ∧
      task.document.status = task.path ∧ (task.document = plainDocument .ready ∨
        task.document = (plainDocument .ready).transitioned .inProgress .empty 1) := by
  have hexec : (StepSystem.exec (StepSystem.checked (Async.step TaskFiles.perform)
      fun _ turn => 0 < turn.answer.elapsed)
      ⟨filed (plainDocument .ready), [(StoreCall.transition .inProgress .empty 1).program]⟩
      (List.replicate 12 ⟨0, {}⟩)).any (fun stopped =>
        (stopped.shared.copies .ready).isSome && (stopped.shared.copies .inProgress).isSome) =
      true := by rfl
  obtain ⟨stopped, hstopped, hcopies⟩ := (Option.any_eq_true _ _).mp hexec
  rw [Bool.and_eq_true] at hcopies
  have hrun : Async.Runs TaskFiles.perform Ticking
      ⟨filed (plainDocument .ready), [(StoreCall.transition .inProgress .empty 1).program]⟩
      (List.replicate 12 ⟨0, {}⟩) stopped :=
    StepSystem.Run.of_exec (fun _ _ htest _ _ _ => of_decide_eq_true htest) hstopped
  refine ⟨_, stopped, hrun, hcopies.1, hcopies.2, ?_⟩
  exact transition_atomic ⟨1, Nat.one_pos, le_refl 1, fun _ => rfl⟩ rfl .empty 1 hrun

end Aof
