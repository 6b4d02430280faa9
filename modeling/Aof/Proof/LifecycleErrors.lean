import Aof.Lib.Outcome
import Aof.Proof.TransitionAtomic
import Aof.Store.TaskLifecycle

/-!
# What block, unblock and cancel leave when they throw

Each of the calls writes the task once before it moves it.  A failure before that write leaves the
task as it was; one after it is thrown without a way back.
-/

namespace Aof.TaskLifecycle

open TaskProgram

/-- The only copy of the task, how often the call has written, and who holds the lock. -/
structure Single (document : Document) (dir : TaskStatus) (writes : Nat) (holder : Option Nat)
    (files : TaskFiles) : Prop where
  copies : ∃ mtimeMs, ∀ other,
    files.copies other = if other = dir then some ⟨document, mtimeMs⟩ else none
  writes : files.record.writes = writes
  holder : files.holder = holder

def Fails (answers : Answers) (writes : Nat) (call : Syscall) : Prop :=
  (answers writes call).fails = true

instance (answers : Answers) (writes : Nat) (call : Syscall) :
    Decidable (Fails answers writes call) :=
  inferInstanceAs (Decidable ((answers writes call).fails = true))

/-- At most one call of the operating system fails. -/
def OneFailure (answers : Answers) : Prop :=
  ∀ writes call writes' call', Fails answers writes call → Fails answers writes' call' →
    writes = writes' ∧ call = call'

section Programs

variable {α β : Type}

theorem onFiles_bind (program : TaskProgram α) (next : α → TaskProgram β) :
    onFiles (program >>= next) = onFiles program >>= fun value => onFiles (next value) := by
  induction program with
  | ret value => rfl
  | throw => rfl
  | await op rest ih =>
      rw [onFiles, Async.await_bind, Async.await_bind, onFiles]
      congr 1
      funext reply
      exact ih reply

end Programs

section Operations

variable {answers : Answers} {document newDocument : Document} {dir : TaskStatus} {writes : Nat}
  {holder : Option Nat} {thrown : TaskFiles → Prop}

variable {files : TaskFiles} {pre : TaskFiles → Prop}

theorem Single.congr {after : TaskFiles} (hsingle : Single document dir writes holder files)
    (hsame : SameFiles files after) (hwrites : after.record.writes = files.record.writes) :
    Single document dir writes holder after :=
  ⟨by rw [hsame.copies]; exact hsingle.copies, hwrites.trans hsingle.writes,
    hsame.holder.trans hsingle.holder⟩

theorem outcome_readFile (other : TaskStatus) :
    Async.Outcome (perform answers) (Single document dir writes holder) (onFiles (readFile other))
      (fun reply files => Single document dir writes holder files ∧
        reply = if other = dir ∧ ¬Fails answers writes (.readFile dir) then some document else none)
      thrown := by
  apply Async.Outcome.performs
  intro files hsingle
  refine ⟨_, _, rfl, hsingle.congr (sameFiles_beginRead files 0 other)
    (writes_beginRead files 0 other), ?_⟩
  obtain ⟨mtimeMs, hcopies⟩ := hsingle.copies
  rw [hsingle.writes, hcopies]
  show (if Fails answers writes (.readFile other) then none else Option.map TaskFile.document
    (if other = dir then some ⟨document, mtimeMs⟩ else none)) = _
  by_cases hother : other = dir
  · subst hother
    by_cases hfails : Fails answers writes (.readFile other)
    · rw [if_pos hfails, if_neg fun h => h.2 hfails]
    · rw [if_neg hfails, if_pos rfl, if_pos ⟨rfl, hfails⟩]
      rfl
  · simp [hother]

theorem outcome_stat (other : TaskStatus) :
    Async.Outcome (perform answers) (Single document dir writes holder) (onFiles (stat other))
      (fun reply files => Single document dir writes holder files ∧
        (other = dir → reply = none → Fails answers writes (.stat dir))) thrown := by
  apply Async.Outcome.performs
  intro files hsingle
  obtain ⟨mtimeMs, hcopies⟩ := hsingle.copies
  by_cases hother : other = dir
  · subst hother
    by_cases hfails : Fails answers writes (.stat other)
    · refine ⟨none, files, ?_, hsingle, fun _ _ => hfails⟩
      simp only [perform, TaskFiles.perform, hcopies, if_true, hsingle.writes]
      exact if_pos hfails
    · refine ⟨some mtimeMs, files.noteTime 0 other, ?_,
        hsingle.congr (sameFiles_noteTime files 0 other) rfl, fun _ h => by cases h⟩
      simp only [perform, TaskFiles.perform, hcopies, if_true, hsingle.writes]
      exact if_neg hfails
  · refine ⟨none, files, ?_, hsingle, fun h => absurd h hother⟩
    simp only [perform, TaskFiles.perform, hcopies, if_neg hother]

theorem outcome_findMatches {dirs : List TaskStatus} (hnodup : dirs.Nodup) :
    Async.Outcome (perform answers) (Single document dir writes holder) (onFiles (findMatches dirs))
      (fun found files => Single document dir writes holder files ∧
        found.map Match.task =
          if dir ∈ dirs ∧ ¬Fails answers writes (.readFile dir) then [⟨document, dir⟩] else [])
      thrown := by
  induction dirs with
  | nil => exact Async.Outcome.ret fun files hsingle => ⟨hsingle, by simp⟩
  | cons other dirs ih =>
      rw [List.nodup_cons] at hnodup
      rw [findMatches, onFiles_bind]
      apply (outcome_readFile other).bind
      intro reply
      apply Async.Outcome.assume
      rintro rfl
      by_cases hfound : other = dir ∧ ¬Fails answers writes (.readFile dir)
      · have hdir : dir ∉ dirs := hfound.1 ▸ hnodup.1
        rw [if_pos hfound]
        dsimp only
        rw [onFiles_bind]
        apply ((outcome_stat other).conseq (fun _ h => h) (fun _ _ h => h.1) fun _ h => h).bind
        intro mtimeMs
        rw [onFiles_bind]
        apply (ih hnodup.2).bind
        intro others
        apply Async.Outcome.ret
        rintro files ⟨hsingle, hothers⟩
        refine ⟨hsingle, ?_⟩
        rw [List.map_cons, hothers, if_neg fun h => hdir h.1,
          if_pos ⟨hfound.1 ▸ List.mem_cons_self, hfound.2⟩, hfound.1]
      · rw [if_neg hfound]
        apply (ih hnodup.2).conseq (fun _ h => h) _ fun _ h => h
        rintro found files ⟨hsingle, hothers⟩
        refine ⟨hsingle, hothers.trans ?_⟩
        apply if_congr _ rfl rfl
        apply and_congr_left
        intro hreads
        rw [List.mem_cons]
        exact (or_iff_right fun h => hfound ⟨h.symm, hreads⟩).symm

theorem outcome_get :
    Async.Outcome (perform answers) (Single document dir writes holder) (onFiles Aof.get)
      (fun result files => Single document dir writes holder files ∧
        result = if Fails answers writes (.readFile dir) then none else some ⟨document, dir⟩)
      thrown := by
  have hall : dir ∈ STATUS_DIRS := by cases dir <;> decide
  rw [Aof.get, onFiles_bind]
  apply (outcome_findMatches (by decide)).bind
  intro found
  apply Async.Outcome.assume
  intro hfound
  have hlength : found.length ≤ 1 := by
    rw [← List.length_map Match.task, hfound]
    split
    · exact Nat.le_refl 1
    · exact Nat.zero_le 1
  rw [if_pos hlength]
  apply Async.Outcome.ret
  intro files hsingle
  refine ⟨hsingle, ?_⟩
  rw [← List.head?_map, hfound]
  by_cases hfails : Fails answers writes (.readFile dir)
  · rw [if_pos hfails, if_neg fun h => h.2 hfails]
    rfl
  · rw [if_neg hfails, if_pos ⟨hall, hfails⟩]
    rfl

theorem outcome_getOrThrow :
    Async.Outcome (perform answers) (Single document dir writes holder) (onFiles getOrThrow)
      (fun task files => (Single document dir writes holder files ∧
        ¬Fails answers writes (.readFile dir)) ∧ task = ⟨document, dir⟩)
      fun files => Single document dir writes holder files ∧
        Fails answers writes (.readFile dir) := by
  rw [getOrThrow, onFiles_bind]
  apply outcome_get.bind
  intro result
  apply Async.Outcome.assume
  rintro rfl
  by_cases hfails : Fails answers writes (.readFile dir)
  · rw [if_pos hfails]
    exact Async.Outcome.throw fun files hsingle => ⟨hsingle, hfails⟩
  · rw [if_neg hfails]
    exact Async.Outcome.ret fun files hsingle => ⟨⟨hsingle, hfails⟩, rfl⟩

theorem outcome_orThrow {program : TaskProgram Bool} {pre post : TaskFiles → Prop}
    (hprogram : Async.Outcome (perform answers) pre (onFiles program)
      (fun ok files => if ok then post files else thrown files) thrown) :
    Async.Outcome (perform answers) pre (onFiles (orThrow program)) (fun _ files => post files)
      thrown := by
  rw [orThrow, onFiles_bind]
  apply hprogram.bind
  intro ok
  cases ok with
  | true => exact Async.Outcome.ret fun _ hpost => hpost
  | false => exact Async.Outcome.throw fun _ hthrown => hthrown

theorem outcome_mkdir :
    Async.Outcome (perform answers) (Single document dir writes holder) (onFiles mkdir)
      (fun _ files => Single document dir writes holder files ∧ ¬Fails answers writes .mkdir)
      fun files => Single document dir writes holder files ∧ Fails answers writes .mkdir := by
  apply outcome_orThrow
  apply Async.Outcome.performs
  intro files hsingle
  refine ⟨_, files, rfl, ?_⟩
  have hfails : (answers files.record.writes .mkdir).fails = true ↔
      Fails answers writes .mkdir := by
    rw [hsingle.writes]
    rfl
  show if (!(answers files.record.writes .mkdir).fails) = true then _ else _
  by_cases hmkdir : Fails answers writes .mkdir
  · rw [if_neg (by simpa using hfails.mpr hmkdir)]
    exact ⟨hsingle, hmkdir⟩
  · rw [if_pos (by simpa using fun h => hmkdir (hfails.mp h))]
    exact ⟨hsingle, hmkdir⟩

theorem outcome_overwrite (ahead : Bool) :
    Async.Outcome (perform answers) (Single document dir writes holder)
      (onFiles (writeFileAtomic dir newDocument ahead))
      (fun _ files => Single newDocument dir (writes + 1) holder files ∧
        ¬Fails answers writes (.writeFile dir))
      fun files => Single document dir writes holder files ∧
        Fails answers writes (.writeFile dir) := by
  apply outcome_orThrow
  apply Async.Outcome.performs
  intro files hsingle
  by_cases hfails : Fails answers writes (.writeFile dir)
  · refine ⟨false, files, ?_, hsingle, hfails⟩
    simp only [perform, TaskFiles.perform, hsingle.writes]
    exact if_pos hfails
  · refine ⟨true, (files.write dir newDocument (answers writes (.writeFile dir)).elapsed).noteWrite
      0 ahead, ?_, ⟨?_, ?_, hsingle.holder⟩, hfails⟩
    · simp only [perform, TaskFiles.perform, hsingle.writes]
      exact if_neg hfails
    · obtain ⟨mtimeMs, hcopies⟩ := hsingle.copies
      refine ⟨files.clock + (answers writes (.writeFile dir)).elapsed, fun other => ?_⟩
      simp only [TaskFiles.noteWrite, TaskFiles.write, Function.update_apply, hcopies]
      split <;> rfl
    · simp only [TaskFiles.noteWrite, TaskFiles.write, hsingle.writes]

/-- The new copy lies next to the old one. -/
structure Both (document : Document) (dir : TaskStatus) (newDocument : Document)
    (newPath : TaskStatus) (writes : Nat) (holder : Option Nat) (files : TaskFiles) : Prop where
  copies : ∃ old new, ∀ other, files.copies other =
    if other = newPath then some ⟨newDocument, new⟩
    else if other = dir then some ⟨document, old⟩ else none
  writes : files.record.writes = writes
  holder : files.holder = holder

variable {newPath : TaskStatus}

theorem outcome_writeNew :
    Async.Outcome (perform answers) (Single document dir writes holder)
      (onFiles (writeFileAtomic newPath newDocument))
      (fun _ files => Both document dir newDocument newPath (writes + 1) holder files ∧
        ¬Fails answers writes (.writeFile newPath))
      fun files => Single document dir writes holder files ∧
        Fails answers writes (.writeFile newPath) := by
  apply outcome_orThrow
  apply Async.Outcome.performs
  intro files hsingle
  by_cases hfails : Fails answers writes (.writeFile newPath)
  · refine ⟨false, files, ?_, hsingle, hfails⟩
    simp only [perform, TaskFiles.perform, hsingle.writes]
    exact if_pos hfails
  · refine ⟨true, (files.write newPath newDocument
      (answers writes (.writeFile newPath)).elapsed).noteWrite 0 false, ?_,
      ⟨?_, ?_, hsingle.holder⟩, hfails⟩
    · simp only [perform, TaskFiles.perform, hsingle.writes]
      exact if_neg hfails
    · obtain ⟨mtimeMs, hcopies⟩ := hsingle.copies
      refine ⟨mtimeMs, files.clock + (answers writes (.writeFile newPath)).elapsed,
        fun other => ?_⟩
      simp only [TaskFiles.noteWrite, TaskFiles.write, Function.update_apply, hcopies]
    · simp only [TaskFiles.noteWrite, TaskFiles.write, hsingle.writes]

theorem outcome_moveCompanion (hwrites : ∀ files, pre files → files.record.writes = writes) :
    Async.Outcome (perform answers) pre (onFiles moveCompanion)
      (fun reply files => pre files ∧ (reply = .other ↔ Fails answers writes .moveCompanion))
      thrown := by
  apply Async.Outcome.performs
  intro files hpre
  refine ⟨_, files, rfl, hpre, ?_⟩
  rw [← hwrites files hpre]
  show (if Fails answers files.record.writes .moveCompanion then Errno.other else
    if (answers files.record.writes .moveCompanion).companion then .ok else .ENOENT) = .other ↔ _
  split
  · rename_i hfails
    exact iff_of_true rfl hfails
  · rename_i hfails
    apply iff_of_false _ hfails
    split <;> exact fun h => by cases h

theorem outcome_rollback (hne : newPath ≠ dir) (hunlink : ¬Fails answers writes (.unlink newPath)) :
    Async.Outcome (perform answers) (Both document dir newDocument newPath writes holder)
      (onFiles (unlink newPath)) (fun _ => Single document dir writes holder) thrown := by
  apply Async.Outcome.performs
  intro files hboth
  obtain ⟨old, new, hcopies⟩ := hboth.copies
  refine ⟨.ok, files.remove newPath, ?_, ⟨old, fun other => ?_⟩, hboth.writes, hboth.holder⟩
  · simp only [perform, TaskFiles.perform, hboth.writes, hcopies, if_true]
    exact if_neg hunlink
  · simp only [TaskFiles.remove, Function.update_apply, hcopies]
    by_cases hother : other = newPath
    · rw [if_pos hother, if_neg (hother ▸ hne)]
    · rw [if_neg hother, if_neg hother]

structure Moved (newPath : TaskStatus) (writes : Nat) (holder : Option Nat) (files : TaskFiles) :
    Prop where
  copy : (files.copies newPath).isSome = true
  writes : files.record.writes = writes
  holder : files.holder = holder

theorem Both.moved (hboth : Both document dir newDocument newPath writes holder files) :
    Moved newPath writes holder files := by
  obtain ⟨old, new, hcopies⟩ := hboth.copies
  refine ⟨?_, hboth.writes, hboth.holder⟩
  rw [hcopies, if_pos rfl]
  rfl

theorem outcome_statMoved (other : TaskStatus) :
    Async.Outcome (perform answers) (Moved newPath writes holder) (onFiles (stat other))
      (fun _ => Moved newPath writes holder) thrown := by
  apply Async.Outcome.performs
  intro files hmoved
  rcases hcopy : files.copies other with _ | file
  · refine ⟨none, files, ?_, hmoved⟩
    simp only [perform, TaskFiles.perform, hcopy]
  · by_cases hfails : Fails answers writes (.stat other)
    · refine ⟨none, files, ?_, hmoved⟩
      simp only [perform, TaskFiles.perform, hcopy, hmoved.writes]
      exact if_pos hfails
    · refine ⟨some file.mtimeMs, files.noteTime 0 other, ?_, hmoved.copy, hmoved.writes,
        hmoved.holder⟩
      simp only [perform, TaskFiles.perform, hcopy, hmoved.writes]
      exact if_neg hfails

theorem outcome_unlinkOld (hne : newPath ≠ dir) :
    Async.Outcome (perform answers) (Moved newPath writes holder) (onFiles (unlink dir))
      (fun _ => Moved newPath writes holder) thrown := by
  apply Async.Outcome.performs
  intro files hmoved
  have hremoved : Moved newPath writes holder (files.remove dir) := by
    refine ⟨?_, hmoved.writes, hmoved.holder⟩
    show (Function.update files.copies dir none newPath).isSome = true
    rw [Function.update_of_ne hne]
    exact hmoved.copy
  simp only [perform, TaskFiles.perform]
  split
  · exact ⟨_, files, rfl, hmoved⟩
  · split
    · exact ⟨_, _, rfl, hremoved⟩
    · exact ⟨_, files, rfl, hmoved⟩

def MoveFails (answers : Answers) (writes : Nat) (newPath : TaskStatus) : Prop :=
  Fails answers writes .mkdir ∨ Fails answers writes (.writeFile newPath) ∨
    Fails answers (writes + 1) .moveCompanion

theorem outcome_relocate (hone : OneFailure answers) (hne : newPath ≠ dir) :
    Async.Outcome (perform answers) (Single document dir writes holder)
      (onFiles (relocate dir newPath newDocument))
      (fun _ files => Moved newPath (writes + 1) holder files ∧ ¬MoveFails answers writes newPath)
      fun files => (∃ m, Single document dir m holder files) ∧
        MoveFails answers writes newPath := by
  rw [relocate, onFiles_bind]
  apply (outcome_mkdir.conseq (fun _ h => h) (fun _ _ h => h)
    fun files h => ⟨⟨_, h.1⟩, .inl h.2⟩).bind
  intro _
  apply Async.Outcome.assume
  intro hmkdir
  rw [onFiles_bind]
  apply (outcome_writeNew.conseq (fun _ h => h) (fun _ _ h => h)
    fun files h => ⟨⟨_, h.1⟩, .inr (.inl h.2)⟩).bind
  intro _
  apply Async.Outcome.assume
  intro hwrite
  rw [onFiles_bind]
  apply (outcome_moveCompanion fun _ hboth => hboth.writes).bind
  intro moved
  apply Async.Outcome.assume
  intro hmoved
  have hkept : moved ≠ .other → ¬MoveFails answers writes newPath := by
    rintro hother (h | h | h)
    · exact hmkdir h
    · exact hwrite h
    · exact hother (hmoved.mpr h)
  cases moved with
  | ok | ENOENT =>
      dsimp only
      rw [onFiles_bind]
      apply ((outcome_statMoved newPath).weaken fun _ hboth => hboth.moved).bind
      intro mtimeMs
      cases mtimeMs with
      | none => exact Async.Outcome.ret fun _ h => ⟨h, hkept fun h => by cases h⟩
      | some mtimeMs =>
          dsimp only
          rw [onFiles_bind]
          apply (outcome_unlinkOld hne).bind
          intro _
          exact Async.Outcome.ret fun _ h => ⟨h, hkept fun h => by cases h⟩
  | other =>
      have hcompanion := hmoved.mp rfl
      have hunlink : ¬Fails answers (writes + 1) (.unlink newPath) := by
        intro h
        cases (hone _ _ _ _ hcompanion h).2
      dsimp only
      rw [onFiles_bind]
      apply (outcome_rollback hne hunlink).bind
      intro _
      exact Async.Outcome.throw fun files hsingle => ⟨⟨_, hsingle⟩, .inr (.inr hcompanion)⟩

theorem outcome_log (event : String) (hwrites : ∀ files, pre files → files.record.writes = writes) :
    Async.Outcome (perform answers) pre (log event)
      (fun _ files => pre files ∧ ¬Fails answers writes (.log event))
      fun files => pre files ∧ Fails answers writes (.log event) := by
  have hlog : Async.Outcome (perform answers) pre (Async.perform (.log event))
      (fun logged files => pre files ∧ (logged = false ↔ Fails answers writes (.log event)))
      fun files => pre files ∧ Fails answers writes (.log event) := by
    apply Async.Outcome.performs
    intro files hpre
    refine ⟨_, files, rfl, hpre, ?_⟩
    rw [← hwrites files hpre, Bool.not_eq_false']
    rfl
  apply hlog.bind
  intro logged
  apply Async.Outcome.assume
  intro hlogged
  cases logged with
  | true => exact Async.Outcome.ret fun _ hpre => ⟨hpre, fun h => by cases hlogged.mpr h⟩
  | false => exact Async.Outcome.throw fun _ hpre => ⟨hpre, hlogged.mp rfl⟩

theorem outcome_locked {α : Type} {program : LifecycleProgram α} {pre' thrown' : TaskFiles → Prop}
    {post post' : α → TaskFiles → Prop}
    (hlock : ∀ files, pre files → files.holder = none ∧ pre' { files with holder := some 0 })
    (hprogram : Async.Outcome (perform answers) pre' program post' thrown')
    (hpost : ∀ value files, post' value files → post value { files with holder := none })
    (hthrown : ∀ files, thrown' files → thrown { files with holder := none }) :
    Async.Outcome (perform answers) pre (locked program) post thrown := by
  have hbegin : Async.Outcome (perform answers) pre (onFiles (TaskProgram.perform .lock))
      (fun _ => pre') thrown := by
    apply Async.Outcome.performs
    intro files hpre
    refine ⟨(), _, ?_, (hlock files hpre).2⟩
    show (if files.holder.isSome then none else some _) = _
    rw [(hlock files hpre).1]
    rfl
  have hattempt : Async.Outcome (perform answers) pre' program.attempt
      (fun result files => result.elim (thrown' files) fun value => post' value files) thrown :=
    Async.Outcome.attempt hprogram
  apply hbegin.bind
  intro _
  apply hattempt.bind
  intro result
  have hend : Async.Outcome (perform answers)
      (fun files => result.elim (thrown' files) fun value => post' value files)
      (onFiles (TaskProgram.perform .unlock))
      (fun _ files => result.elim (thrown files) fun value => post value files) thrown := by
    apply Async.Outcome.performs
    intro files hresult
    refine ⟨(), { files with holder := none }, rfl, ?_⟩
    cases result with
    | none => exact hthrown files hresult
    | some value => exact hpost value files hresult
  apply hend.bind
  intro _
  cases result with
  | none => exact Async.Outcome.throw fun _ h => h
  | some value => exact Async.Outcome.ret fun _ h => h

theorem Single.withHolder (hsingle : Single document dir writes holder files)
    (newHolder : Option Nat) :
    Single document dir writes newHolder { files with holder := newHolder } :=
  ⟨hsingle.copies, hsingle.writes, rfl⟩

theorem Moved.withHolder (hmoved : Moved newPath writes holder files) (newHolder : Option Nat) :
    Moved newPath writes newHolder { files with holder := newHolder } :=
  ⟨hmoved.copy, hmoved.writes, rfl⟩

/-- What makes the transition throw before the task is moved. -/
def Interrupted (answers : Answers) (dir newPath : TaskStatus) : Prop :=
  Fails answers 1 (.readFile dir) ∨ MoveFails answers 1 newPath

theorem outcome_transition (hone : OneFailure answers) (now : Nat)
    (hdir : document.status = dir) (hne : newPath ≠ dir)
    (hvalid : isValidTransition dir newPath = true) :
    Async.Outcome (perform answers) (Single document dir 1 none) (transition newPath now)
      (fun _ files => Moved newPath 2 none files ∧ ¬Interrupted answers dir newPath ∧
        ¬Fails answers 2 (.log "task.transitioned"))
      fun files =>
        (∃ m, Single document dir m none files) ∧ Interrupted answers dir newPath ∨
        Moved newPath 2 none files ∧ Fails answers 2 (.log "task.transitioned") := by
  have hcall : Async.Outcome (perform answers) (Single document dir 1 (some 0))
      (transitionTask newPath now)
      (fun _ files => Moved newPath 2 (some 0) files ∧ ¬Interrupted answers dir newPath ∧
        ¬Fails answers 2 (.log "task.transitioned"))
      fun files =>
        (∃ m, Single document dir m (some 0) files) ∧ Interrupted answers dir newPath ∨
        Moved newPath 2 (some 0) files ∧ Fails answers 2 (.log "task.transitioned") := by
    apply (outcome_getOrThrow.conseq (fun _ h => h) (fun _ _ h => h)
      fun files h => .inl ⟨⟨_, h.1⟩, .inl h.2⟩).bind
    intro task
    apply Async.Outcome.assume
    rintro rfl
    apply Async.Outcome.assume
    intro hread
    rw [if_neg (hdir ▸ hne.symm), if_pos (hdir ▸ hvalid), place, if_pos hne.symm]
    apply ((outcome_relocate hone hne).conseq (fun _ h => h) (fun _ _ h => h)
      fun files h => .inl ⟨h.1, .inr h.2⟩).bind
    intro _
    apply Async.Outcome.assume
    intro hmove
    apply ((outcome_log _ fun _ hmoved => Moved.writes hmoved).conseq (fun _ h => h)
      (fun _ _ h => h) fun files h => .inr h).bind
    intro _
    apply Async.Outcome.ret
    rintro files ⟨hmoved, hlog⟩
    exact ⟨hmoved, fun h => h.elim hread hmove, hlog⟩
  apply outcome_locked (fun files hsingle => ⟨hsingle.holder, hsingle.withHolder (some 0)⟩) hcall
  · exact fun _ files h => ⟨h.1.withHolder none, h.2⟩
  · rintro files (⟨⟨m, hsingle⟩, hfails⟩ | ⟨hmoved, hfails⟩)
    · exact .inl ⟨⟨m, hsingle.withHolder none⟩, hfails⟩
    · exact .inr ⟨hmoved.withHolder none, hfails⟩

def LogFails (answers : Answers) (event : String) : Prop :=
  Fails answers 2 (.log "task.transitioned") ∨ Fails answers 2 (.log event)

/-- What makes a call throw before it has changed anything. -/
def BeginFails (answers : Answers) (dir : TaskStatus) : Prop :=
  Fails answers 0 (.readFile dir) ∨ Fails answers 0 (.writeFile dir)

section WriteAndMove

variable {refused : TaskStatus → Bool} {written : Document → Document} {event : String}

theorem outcome_refused (hdir : document.status = dir) (hrefused : refused dir = true) (now : Nat) :
    Async.Outcome (perform answers) (Single document dir 0 none)
      (writeAndMove refused written newPath event now) (fun _ _ => False)
      (Single document dir 0 none) := by
  apply (outcome_getOrThrow.conseq (fun _ h => h) (fun _ _ h => h) fun _ h => h.1).bind
  intro task
  apply Async.Outcome.assume
  rintro rfl
  rw [if_pos (hdir ▸ hrefused)]
  exact Async.Outcome.throw fun _ h => h.1

theorem outcome_writeAndMove (hone : OneFailure answers) (hdir : document.status = dir)
    (hallowed : refused dir = false) (hwritten : (written document).status = dir)
    (hne : newPath ≠ dir) (hvalid : isValidTransition dir newPath = true) (now : Nat) :
    Async.Outcome (perform answers) (Single document dir 0 none)
      (writeAndMove refused written newPath event now)
      (fun _ _ => ¬Interrupted answers dir newPath ∧ ¬LogFails answers event)
      fun files =>
        (Single document dir 0 none files ∧ BeginFails answers dir) ∨
        ((∃ m, Single (written document) dir m none files) ∧ Interrupted answers dir newPath) ∨
        (Moved newPath 2 none files ∧ LogFails answers event) := by
  apply (outcome_getOrThrow.conseq (fun _ h => h) (fun _ _ h => h)
    fun files h => .inl ⟨h.1, .inl h.2⟩).bind
  intro task
  apply Async.Outcome.assume
  rintro rfl
  rw [if_neg (by rw [hdir, hallowed]; exact Bool.false_ne_true)]
  apply ((outcome_overwrite true).conseq (fun _ h => h.1) (fun _ _ h => h.1)
    fun files h => .inl ⟨h.1, .inr h.2⟩).bind
  intro _
  apply ((outcome_transition hone now hwritten hne hvalid).conseq (fun _ h => h) (fun _ _ h => h)
    fun files h => .inr (h.imp id (And.imp id .inl))).bind
  intro _
  apply Async.Outcome.assume
  rintro ⟨hmove, htransitioned⟩
  apply (outcome_log event fun _ hmoved => Moved.writes hmoved).conseq (fun _ h => h)
  · exact fun _ files h => ⟨hmove, fun hlog => hlog.elim htransitioned h.2⟩
  · exact fun files h => .inr (.inr ⟨h.1, .inr h.2⟩)

end WriteAndMove

theorem outcome_rename :
    Async.Outcome (perform answers) (Single document dir writes holder)
      (onFiles (rename dir newPath))
      (fun _ files => Moved newPath (writes + 1) holder files ∧ ¬Fails answers writes .rename)
      fun files => Single document dir writes holder files ∧ Fails answers writes .rename := by
  apply outcome_orThrow
  apply Async.Outcome.performs
  intro files hsingle
  obtain ⟨mtimeMs, hcopies⟩ := hsingle.copies
  have hcopy : files.copies dir = some ⟨document, mtimeMs⟩ := by rw [hcopies, if_pos rfl]
  by_cases hfails : Fails answers writes .rename
  · refine ⟨false, files, ?_, hsingle, hfails⟩
    simp only [perform, TaskFiles.perform, hsingle.writes]
    exact if_pos (.inl hfails)
  · refine ⟨true, (files.move dir newPath).noteWrite 0 false, ?_, ⟨?_, ?_, hsingle.holder⟩, hfails⟩
    · simp only [perform, TaskFiles.perform, hsingle.writes]
      apply if_neg
      rintro (h | h)
      · exact hfails h
      · rw [hcopy] at h
        cases h
    · simp only [TaskFiles.noteWrite, TaskFiles.move, Function.update_self, hcopy]
      rfl
    · simp only [TaskFiles.noteWrite, TaskFiles.move, hsingle.writes]

theorem outcome_cancelRefused (hdir : document.status = dir)
    (hrefused : dir = .done ∨ dir = .cancelled) (reason : Option String) (now : Nat) :
    Async.Outcome (perform answers) (Single document dir 0 none) (cancelTask reason now)
      (fun _ _ => False) (Single document dir 0 none) := by
  have hfiles : Async.Outcome (perform answers) (Single document dir 0 (some 0))
      (onFiles (Aof.cancelTask reason now)) (fun _ _ => False)
      (Single document dir 0 (some 0)) := by
    rw [Aof.cancelTask, onFiles_bind]
    apply (outcome_getOrThrow.conseq (fun _ h => h) (fun _ _ h => h) fun _ h => h.1).bind
    intro task
    apply Async.Outcome.assume
    rintro rfl
    rw [if_pos (hdir ▸ hrefused)]
    exact Async.Outcome.throw fun _ h => h.1
  have hcall : Async.Outcome (perform answers) (Single document dir 0 (some 0))
      (onFiles (Aof.cancelTask reason now) >>= fun _ => log "task.cancelled") (fun _ _ => False)
      (Single document dir 0 (some 0)) := by
    apply hfiles.bind
    exact fun _ files h => h.elim
  apply outcome_locked (fun files hsingle => ⟨hsingle.holder, hsingle.withHolder (some 0)⟩) hcall
  · exact fun _ _ h => h
  · exact fun files hsingle => hsingle.withHolder none

theorem outcome_cancelTask (hdir : document.status = dir)
    (hallowed : ¬(dir = .done ∨ dir = .cancelled)) (reason : Option String) (now : Nat) :
    Async.Outcome (perform answers) (Single document dir 0 none) (cancelTask reason now)
      (fun _ _ => ¬Fails answers 1 .rename ∧ ¬Fails answers 2 (.log "task.cancelled"))
      fun files =>
        (Single document dir 0 none files ∧ BeginFails answers dir) ∨
        (Single (document.cancelled reason now) dir 1 none files ∧ Fails answers 1 .rename) ∨
        (Moved .cancelled 2 none files ∧ Fails answers 2 (.log "task.cancelled")) := by
  have hfiles : Async.Outcome (perform answers) (Single document dir 0 (some 0))
      (onFiles (Aof.cancelTask reason now))
      (fun _ files => Moved .cancelled 2 (some 0) files ∧ ¬Fails answers 1 .rename)
      fun files =>
        (Single document dir 0 (some 0) files ∧ BeginFails answers dir) ∨
        (Single (document.cancelled reason now) dir 1 (some 0) files ∧
          Fails answers 1 .rename) := by
    rw [Aof.cancelTask, onFiles_bind]
    apply (outcome_getOrThrow.conseq (fun _ h => h) (fun _ _ h => h)
      fun files h => .inl ⟨h.1, .inl h.2⟩).bind
    intro task
    apply Async.Outcome.assume
    rintro rfl
    rw [if_neg (hdir ▸ hallowed), if_pos fun h => hallowed (.inr h), onFiles_bind]
    apply ((outcome_overwrite false).conseq (fun _ h => h.1) (fun _ _ h => h.1)
      fun files h => .inl ⟨h.1, .inr h.2⟩).bind
    intro _
    rw [onFiles_bind]
    apply (outcome_rename.conseq (fun _ h => h) (fun _ _ h => h) fun files h => .inr h).bind
    intro _
    rw [onFiles_bind]
    apply Async.Outcome.assume
    intro hrename
    apply (outcome_moveCompanion fun _ hmoved => Moved.writes hmoved).bind
    intro _
    exact Async.Outcome.ret fun files h => ⟨h.1, hrename⟩
  have hcall : Async.Outcome (perform answers) (Single document dir 0 (some 0))
      (onFiles (Aof.cancelTask reason now) >>= fun _ => log "task.cancelled")
      (fun _ files => ¬Fails answers 1 .rename ∧ ¬Fails answers 2 (.log "task.cancelled"))
      fun files =>
        (Single document dir 0 (some 0) files ∧ BeginFails answers dir) ∨
        (Single (document.cancelled reason now) dir 1 (some 0) files ∧ Fails answers 1 .rename) ∨
        (Moved .cancelled 2 (some 0) files ∧ Fails answers 2 (.log "task.cancelled")) := by
    apply (hfiles.conseq (fun _ h => h) (fun _ _ h => h) fun files h => h.imp id .inl).bind
    intro _
    apply Async.Outcome.assume
    intro hrename
    apply (outcome_log _ fun _ hmoved => Moved.writes hmoved).conseq (fun _ h => h)
    · exact fun _ files h => ⟨hrename, h.2⟩
    · exact fun files h => .inr (.inr h)
  apply outcome_locked (fun files hsingle => ⟨hsingle.holder, hsingle.withHolder (some 0)⟩) hcall
  · exact fun _ files h => h
  · rintro files (⟨hsingle, hfails⟩ | ⟨hsingle, hfails⟩ | ⟨hmoved, hfails⟩)
    · exact .inl ⟨hsingle.withHolder none, hfails⟩
    · exact .inr (.inl ⟨hsingle.withHolder none, hfails⟩)
    · exact .inr (.inr ⟨hmoved.withHolder none, hfails⟩)

end Operations

/-- The task is stored, nobody holds its lock, and the call has not written yet. -/
structure Idle (document : Document) (files : TaskFiles) : Prop where
  stored : Stored document files
  holder : files.holder = none
  writes : files.record.writes = 0

def Unchanged (files after : TaskFiles) : Prop :=
  ∀ dir, (after.copies dir).map TaskFile.document = (files.copies dir).map TaskFile.document

/-- The files are as before the call if the call throws. -/
def KeepsOnThrow (answers : Answers) (program : LifecycleProgram Unit) (files : TaskFiles) : Prop :=
  ∀ after, program.attempt.alone (perform answers) files = some (none, after) →
    Unchanged files after

section Throws

variable {answers : Answers} {document : Document} {files : TaskFiles}

theorem Idle.single (hidle : Idle document files) :
    Single document document.status 0 none files := by
  obtain ⟨mtimeMs, -, -, hcopies⟩ := hidle.stored.only
  exact ⟨⟨mtimeMs, hcopies⟩, hidle.writes, hidle.holder⟩

variable {dir newPath : TaskStatus} {writes : Nat} {holder : Option Nat} {after : TaskFiles}
  {pre : TaskFiles → Prop} {event : String}

theorem Single.document_at {other : TaskStatus}
    (hsingle : Single document dir writes holder files) :
    (files.copies other).map TaskFile.document = if other = dir then some document else none := by
  obtain ⟨mtimeMs, hcopies⟩ := hsingle.copies
  rw [hcopies]
  split <;> rfl

theorem Single.unchanged_iff (hidle : Idle document files) {other : Document}
    (hsingle : Single other document.status writes holder after) :
    Unchanged files after ↔ other = document := by
  constructor
  · intro hsame
    have hdocument := hsame document.status
    rw [hsingle.document_at, hidle.single.document_at, if_pos rfl, if_pos rfl] at hdocument
    exact Option.some.inj hdocument
  · intro hother dir
    rw [hsingle.document_at, hidle.single.document_at, hother]

theorem Moved.not_unchanged (hidle : Idle document files) (hne : newPath ≠ document.status)
    (hmoved : Moved newPath writes holder after) : ¬Unchanged files after := by
  intro hsame
  have hcopy := hsame newPath
  rw [hidle.single.document_at, if_neg hne, Option.map_eq_none_iff] at hcopy
  have hsome := hmoved.copy
  rw [hcopy] at hsome
  cases hsome

variable {program : LifecycleProgram Unit} {post : Prop} {thrown : TaskFiles → Prop}

theorem KeepsOnThrow.of_outcome (hpre : pre files)
    (houtcome : Async.Outcome (perform answers) pre program (fun _ _ => post) thrown)
    (hthrown : ∀ after, thrown after → Unchanged files after) :
    KeepsOnThrow answers program files := by
  intro after hthrows
  obtain ⟨result, last, halone, hresult⟩ := houtcome files hpre
  obtain ⟨rfl, rfl⟩ := Prod.mk.inj (Option.some.inj (hthrows.symm.trans halone))
  exact hthrown _ hresult

theorem KeepsOnThrow.exists_thrown (hkeeps : KeepsOnThrow answers program files) (hpre : pre files)
    (houtcome : Async.Outcome (perform answers) pre program (fun _ _ => post) thrown)
    (hpost : ¬post) : ∃ after, thrown after ∧ Unchanged files after := by
  obtain ⟨result, last, halone, hresult⟩ := houtcome files hpre
  cases result with
  | none => exact ⟨last, hresult, hkeeps last halone⟩
  | some value => exact absurd hresult hpost

section

variable (hone : OneFailure answers)
include hone

theorem OneFailure.begin_move (hbegin : BeginFails answers dir) :
    ¬Interrupted answers dir newPath := by
  rintro (hmove | hmove | hmove | hmove) <;> rcases hbegin with hbegin | hbegin <;>
    cases (hone _ _ _ _ hbegin hmove).1

theorem OneFailure.begin_log (hbegin : BeginFails answers dir) : ¬LogFails answers event := by
  rintro (hlog | hlog) <;> rcases hbegin with hbegin | hbegin <;>
    cases (hone _ _ _ _ hbegin hlog).1

theorem OneFailure.move_log (hmove : Interrupted answers dir newPath) :
    ¬LogFails answers event := by
  rintro (hlog | hlog) <;> rcases hmove with hmove | hmove | hmove | hmove <;>
    cases (hone _ _ _ _ hmove hlog).2

theorem writeAndMove_keeps_iff (hidle : Idle document files) {refused : TaskStatus → Bool}
    {written : Document → Document} (hwritten : (written document).status = document.status)
    (hvalid : refused document.status = false → newPath ≠ document.status ∧ isValidTransition
      document.status newPath = true) (now : Nat) :
    KeepsOnThrow answers (writeAndMove refused written newPath event now) files ↔
      refused document.status = true ∨ (¬LogFails answers event ∧
        (¬Interrupted answers document.status newPath ∨ written document = document)) := by
  by_cases hrefused : refused document.status = true
  · apply iff_of_true _ (.inl hrefused)
    apply KeepsOnThrow.of_outcome hidle.single (outcome_refused rfl hrefused now)
    exact fun after hsingle => (hsingle.unchanged_iff hidle).mpr rfl
  have hallowed : refused document.status = false := Bool.eq_false_of_not_eq_true hrefused
  obtain ⟨hne, hmay⟩ := hvalid hallowed
  have houtcome := @outcome_writeAndMove answers document document.status newPath refused written
    event hone rfl hallowed hwritten hne hmay now
  rw [or_iff_right hrefused]
  constructor
  · intro hkeeps
    refine ⟨fun hlog => ?_, ?_⟩
    · obtain ⟨after, hthrown, hsame⟩ := hkeeps.exists_thrown hidle.single houtcome fun h => h.2 hlog
      rcases hthrown with ⟨-, hbegin⟩ | ⟨-, hmove⟩ | ⟨hmoved, -⟩
      · exact hone.begin_log hbegin hlog
      · exact hone.move_log hmove hlog
      · exact hmoved.not_unchanged hidle hne hsame
    · by_contra hboth
      rw [not_or, not_not] at hboth
      obtain ⟨hmove, hchanged⟩ := hboth
      obtain ⟨after, hthrown, hsame⟩ :=
        hkeeps.exists_thrown hidle.single houtcome fun h => h.1 hmove
      rcases hthrown with ⟨-, hbegin⟩ | ⟨⟨m, hsingle⟩, -⟩ | ⟨hmoved, -⟩
      · exact hone.begin_move hbegin hmove
      · exact hchanged ((hsingle.unchanged_iff hidle).mp hsame)
      · exact hmoved.not_unchanged hidle hne hsame
  · rintro ⟨hlog, hmove⟩
    apply KeepsOnThrow.of_outcome hidle.single houtcome
    rintro after (⟨hsingle, -⟩ | ⟨⟨m, hsingle⟩, hmoves⟩ | ⟨-, hlogs⟩)
    · exact (hsingle.unchanged_iff hidle).mpr rfl
    · exact (hsingle.unchanged_iff hidle).mpr (hmove.resolve_left (not_not.mpr hmoves))
    · exact absurd hlogs hlog

theorem cancelTask_keeps_iff (hidle : Idle document files) (reason : Option String) (now : Nat) :
    KeepsOnThrow answers (cancelTask reason now) files ↔
      (document.status = .done ∨ document.status = .cancelled) ∨
        (¬Fails answers 1 .rename ∧ ¬Fails answers 2 (.log "task.cancelled")) := by
  by_cases hrefused : document.status = .done ∨ document.status = .cancelled
  · apply iff_of_true _ (.inl hrefused)
    apply KeepsOnThrow.of_outcome hidle.single (outcome_cancelRefused rfl hrefused reason now)
    exact fun after hsingle => (hsingle.unchanged_iff hidle).mpr rfl
  have hne : TaskStatus.cancelled ≠ document.status := fun h => hrefused (.inr h.symm)
  have hchanged : document.cancelled reason now ≠ document :=
    fun h => hne (congrArg Document.status h)
  have houtcome := @outcome_cancelTask answers _ _ rfl hrefused reason now
  rw [or_iff_right hrefused]
  constructor
  · intro hkeeps
    by_contra hfails
    obtain ⟨after, hthrown, hsame⟩ := hkeeps.exists_thrown hidle.single houtcome hfails
    rcases hthrown with ⟨-, hbegin⟩ | ⟨hsingle, -⟩ | ⟨hmoved, -⟩
    · apply hfails
      constructor
      · intro hrename
        rcases hbegin with hbegin | hbegin <;> cases (hone _ _ _ _ hbegin hrename).1
      · exact fun hlog => hone.begin_log hbegin (.inr hlog)
    · exact hchanged ((hsingle.unchanged_iff hidle).mp hsame)
    · exact hmoved.not_unchanged hidle hne hsame
  · rintro ⟨hrename, hlog⟩
    apply KeepsOnThrow.of_outcome hidle.single houtcome
    rintro after (⟨hsingle, -⟩ | ⟨-, hrenames⟩ | ⟨-, hlogs⟩)
    · exact (hsingle.unchanged_iff hidle).mpr rfl
    · exact absurd hrenames hrename
    · exact absurd hlogs hlog

end

theorem withBlockReason_eq_self_iff {reason : String} : document.withBlockReason reason = document ↔
      document.metadata.get? "blockReason" = some (.str reason) := by
  rw [← Dict.set_eq_self_iff]
  constructor
  · exact fun h => congrArg Document.metadata h
  · intro h
    rw [Document.withBlockReason, h]

theorem withoutBlockReason_eq_self_iff : document.withoutBlockReason = document ↔
      "blockReason" ∉ document.metadata.keys ∧ "retryCount" ∉ document.metadata.keys := by
  constructor
  · intro h
    have hmetadata : (document.metadata.erase "blockReason").erase "retryCount" =
        document.metadata := congrArg Document.metadata h
    rw [← hmetadata, Dict.keys_erase, Dict.keys_erase, List.mem_filter, List.mem_filter,
      List.mem_filter]
    simp
  · rintro ⟨hreason, hretry⟩
    rw [Document.withoutBlockReason, Dict.erase_eq_self_iff.mpr hreason,
      Dict.erase_eq_self_iff.mpr hretry]

end Throws

/-- With at most one failure, the three calls leave the task as it was when they throw, exactly if
nothing fails between the first write and the return. -/
theorem errors_keep_task_iff (answers : Answers) (hone : OneFailure answers) {document : Document}
    {files : TaskFiles} (hidle : Idle document files) (reason : String)
    (cancelReason : Option String) (now : Nat) :
    (KeepsOnThrow answers (blockTask reason now) files ↔
      cannotBlock document.status = true ∨ (¬LogFails answers "task.blocked" ∧
        (¬Interrupted answers document.status .blocked ∨
          document.metadata.get? "blockReason" = some (.str reason)))) ∧
    (KeepsOnThrow answers (unblockTask now) files ↔
      document.status ≠ .blocked ∨ (¬LogFails answers "task.unblocked" ∧
        (¬Interrupted answers document.status .ready ∨
          ("blockReason" ∉ document.metadata.keys ∧ "retryCount" ∉ document.metadata.keys)))) ∧
    (KeepsOnThrow answers (cancelTask cancelReason now) files ↔
      (document.status = .done ∨ document.status = .cancelled) ∨
        (¬Fails answers 1 .rename ∧ ¬Fails answers 2 (.log "task.cancelled"))) := by
  refine ⟨?_, ?_, cancelTask_keeps_iff hone hidle cancelReason now⟩
  · rw [← withBlockReason_eq_self_iff]
    apply writeAndMove_keeps_iff hone hidle rfl
    cases document.status <;> decide
  · rw [← withoutBlockReason_eq_self_iff, ← decide_eq_true_iff (p := document.status ≠ .blocked)]
    apply writeAndMove_keeps_iff hone hidle rfl
    cases document.status <;> decide

def failingAt (writes : Nat) (call : Syscall) : Answers :=
  fun before other => { fails := before = writes ∧ other = call }

theorem oneFailure_failingAt (writes : Nat) (call : Syscall) :
    OneFailure (failingAt writes call) := by
  intro before other before' other' hfails hfails'
  obtain ⟨rfl, rfl⟩ := of_decide_eq_true hfails
  obtain ⟨rfl, rfl⟩ := of_decide_eq_true hfails'
  exact ⟨rfl, rfl⟩

theorem idle_filed (document : Document) : Idle document (filed document) :=
  ⟨⟨1, Nat.one_pos, le_refl 1, fun _ => rfl⟩, rfl, rfl⟩

/-- The folder of the new status is not needed to cancel a task, and an unblocked one is refused. -/
theorem ready_kept :
    KeepsOnThrow (failingAt 1 .mkdir) (unblockTask 1) (filed (plainDocument .ready)) ∧
      KeepsOnThrow (failingAt 1 .mkdir) (cancelTask none 1) (filed (plainDocument .ready)) := by
  obtain ⟨-, hunblock, hcancel⟩ := errors_keep_task_iff (failingAt 1 .mkdir)
    (oneFailure_failingAt 1 .mkdir) (idle_filed (plainDocument .ready)) "stuck" none 1
  refine ⟨hunblock.mpr (.inl ?_), hcancel.mpr (.inr ?_)⟩ <;> decide

/-- A task that cannot be moved to `blocked` keeps the reason that has been written into it. -/
theorem reason_without_block :
    OneFailure (failingAt 1 .mkdir) ∧ Idle (plainDocument .ready) (filed (plainDocument .ready)) ∧
      ¬KeepsOnThrow (failingAt 1 .mkdir) (blockTask "stuck" 1) (filed (plainDocument .ready)) := by
  refine ⟨oneFailure_failingAt 1 .mkdir, idle_filed _, fun hkeeps => ?_⟩
  have hthrows : ∃ after, (blockTask "stuck" 1).attempt.alone (perform (failingAt 1 .mkdir))
      (filed (plainDocument .ready)) = some (none, after) ∧
      (after.copies .ready).map TaskFile.document =
        some ((plainDocument .ready).withBlockReason "stuck") := ⟨_, rfl, rfl⟩
  obtain ⟨after, hthrows, hwritten⟩ := hthrows
  have hsame := hwritten.symm.trans (hkeeps after hthrows .ready)
  have hreason := congrArg (Option.map fun document => document.metadata.keys) hsame
  exact absurd hreason (by decide)

end Aof.TaskLifecycle
