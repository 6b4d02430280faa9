import Aof.Lib.Async
import Aof.Schemas.Task

/-!
# The files of a task

One task on disk: its copies in the status directories, and what the calls of the file system do to
them.  A task object and the file it is written to hold the same data, because the parser reads back
what the serializer wrote except for the blanks around the body, which are dropped here already when
a body is set.
-/

namespace Aof

def STATUS_DIRS : List TaskStatus :=
  [.backlog, .ready, .inProgress, .blocked, .review, .done, .cancelled, .deadletter]

/-- `TaskLease` -/
structure Lease where
  agent : String
  acquiredAt : Nat
  expiresAt : Nat
  renewCount : Nat := 0
  deriving DecidableEq, Repr

/-- The schema rejects an empty title. -/
abbrev Title := { text : String // text ≠ "" }

/-- The frontmatter and the body of a task; `rest` holds the fields that no operation of the store
changes after the creation of the task. -/
structure Document where
  title : Title
  status : TaskStatus
  priority : TaskPriority := .normal
  routing : TaskRouting := {}
  lease : Option Lease := none
  updatedAt : Nat
  lastTransitionAt : Nat
  dependsOn : List String := []
  metadata : Dict String JsValue := .empty
  rest : JsObject := []
  body : String := ""

/-- A task object in memory: its path is the directory where it was read. -/
structure TaskObject where
  document : Document
  path : TaskStatus

structure TaskFile where
  document : Document
  mtimeMs : Nat

/-- The record of a run, which the program does not read: how often a copy was written or renamed,
how often it had been when each call last began to read or wrote itself, the copies whose
modification time a call has read since, and which calls are between their first write and their
return. -/
structure FileRecord where
  writes : Nat := 0
  viewed : Nat → Option Nat := fun _ => none
  timed : Nat → TaskStatus → Bool := fun _ _ => false
  ahead : Nat → Bool := fun _ => false

/-- The copies of a task, the clock of the file system, and the call that holds the task's lock. -/
structure TaskFiles where
  copies : TaskStatus → Option TaskFile
  clock : Nat := 0
  holder : Option Nat := none
  record : FileRecord := {}

/-- What a program asks of the operating system and of the task's lock.  A write that is not the
last change of its call is `ahead`, and such a call finishes when it returns. -/
inductive TaskOp where
  | readFile (dir : TaskStatus)
  | stat (dir : TaskStatus)
  | rm (dir : TaskStatus)
  | mkdir
  | writeFile (dir : TaskStatus) (document : Document) (ahead : Bool)
  | moveCompanion
  | unlink (dir : TaskStatus)
  | rename (source target : TaskStatus)
  | lock
  | unlock
  | finish

/-- How a file-system call ends that may find nothing. -/
inductive Errno where
  | ok
  | ENOENT
  | other
  deriving DecidableEq, Repr

abbrev TaskReply : TaskOp → Type
  | .readFile _ => Option Document
  | .stat _ => Option Nat
  | .mkdir | .writeFile .. | .rename .. => Bool
  | .moveCompanion | .unlink _ => Errno
  | .rm _ | .lock | .unlock | .finish => Unit

/-- What the operating system answers: whether the call fails, how much time has passed at a write,
and whether the task has a companion directory. -/
structure OsAnswer where
  fails : Bool := false
  elapsed : Nat := 1
  companion : Bool := false
  deriving DecidableEq, Repr

namespace TaskFiles

def beginRead (files : TaskFiles) (call : Nat) (dir : TaskStatus) : TaskFiles :=
  if dir = .backlog then
    { files with
      record.viewed := Function.update files.record.viewed call (some files.record.writes)
      record.timed := Function.update files.record.timed call fun _ => false }
  else files

def noteTime (files : TaskFiles) (call : Nat) (dir : TaskStatus) : TaskFiles :=
  { files with
    record.timed := Function.update files.record.timed call
      (Function.update (files.record.timed call) dir true) }

def remove (files : TaskFiles) (dir : TaskStatus) : TaskFiles :=
  { files with copies := Function.update files.copies dir none }

/-- The copies have changed, and the call that changed them knows the change. -/
def noteWrite (files : TaskFiles) (call : Nat) (ahead : Bool) : TaskFiles :=
  { files with
    record.writes := files.record.writes + 1
    record.viewed := Function.update files.record.viewed call (some (files.record.writes + 1))
    record.ahead := Function.update files.record.ahead call (files.record.ahead call || ahead) }

def write (files : TaskFiles) (dir : TaskStatus) (document : Document) (elapsed : Nat) :
    TaskFiles :=
  { files with
    copies := Function.update files.copies dir (some ⟨document, files.clock + elapsed⟩)
    clock := files.clock + elapsed }

def move (files : TaskFiles) (source target : TaskStatus) : TaskFiles :=
  { files with
    copies := Function.update (Function.update files.copies source none) target
      (files.copies source) }

/-- The reply to a call's operation and the files after it; the lock is only given to one call. -/
def perform (call : Nat) (answer : OsAnswer) : (op : TaskOp) → TaskFiles →
    Option (TaskReply op × TaskFiles)
  | .readFile dir, files =>
      some (if answer.fails then none else (files.copies dir).map TaskFile.document,
        files.beginRead call dir)
  | .stat dir, files =>
      match files.copies dir with
      | some file =>
          if answer.fails then some (none, files)
          else some (some file.mtimeMs, files.noteTime call dir)
      | none => some (none, files)
  | .rm dir, files => some ((), if answer.fails then files else files.remove dir)
  | .mkdir, files => some (!answer.fails, files)
  | .writeFile dir document ahead, files =>
      if answer.fails then some (false, files)
      else some (true, (files.write dir document answer.elapsed).noteWrite call ahead)
  | .moveCompanion, files =>
      some (if answer.fails then .other else if answer.companion then .ok else .ENOENT, files)
  | .unlink dir, files =>
      if answer.fails then some (.other, files)
      else if (files.copies dir).isSome then some (.ok, files.remove dir)
      else some (.ENOENT, files)
  | .rename source target, files =>
      if answer.fails ∨ files.copies source = none then some (false, files)
      else some (true, (files.move source target).noteWrite call false)
  | .lock, files => if files.holder.isSome then none else some ((), { files with holder := call })
  | .unlock, files => some ((), { files with holder := none })
  | .finish, files =>
      some ((), { files with record.ahead := Function.update files.record.ahead call false })

/-- The operations of a call that runs alone, on a file system where nothing fails. -/
def quietly (op : TaskOp) (files : TaskFiles) : Option (TaskReply op × TaskFiles) :=
  perform 0 {} op files

end TaskFiles

/-- Two states of the files that differ in the record only. -/
structure SameFiles (files after : TaskFiles) : Prop where
  copies : after.copies = files.copies
  clock : after.clock = files.clock
  holder : after.holder = files.holder

theorem SameFiles.refl (files : TaskFiles) : SameFiles files files := ⟨rfl, rfl, rfl⟩

variable {files after : TaskFiles} {call other : Nat} {dir read : TaskStatus} {answer : OsAnswer}
  {reply : Option Nat}

theorem SameFiles.trans {middle : TaskFiles} (h : SameFiles files middle)
    (h' : SameFiles middle after) : SameFiles files after :=
  ⟨h'.copies.trans h.copies, h'.clock.trans h.clock, h'.holder.trans h.holder⟩

section

variable (files : TaskFiles) (call : Nat) (dir : TaskStatus)

theorem sameFiles_beginRead : SameFiles files (files.beginRead call dir) := by
  unfold TaskFiles.beginRead
  split
  · exact ⟨rfl, rfl, rfl⟩
  · exact SameFiles.refl files

theorem sameFiles_noteTime :
    SameFiles files (files.noteTime call dir) := ⟨rfl, rfl, rfl⟩

theorem writes_beginRead : (files.beginRead call dir).record.writes = files.record.writes := by
  unfold TaskFiles.beginRead
  split <;> rfl

end

theorem timed_beginRead_of_ne (files : TaskFiles) (hother : other ≠ call) (dir : TaskStatus) :
    (files.beginRead call dir).record.timed other = files.record.timed other := by
  unfold TaskFiles.beginRead
  split
  · exact Function.update_of_ne hother _ _
  · rfl

theorem timed_beginRead_self (files : TaskFiles)
    (htimed : (files.beginRead call read).record.timed call dir = true) :
    read ≠ .backlog ∧ files.record.timed call dir = true := by
  unfold TaskFiles.beginRead at htimed
  split at htimed
  · simp at htimed
  · rename_i hread
    exact ⟨hread, htimed⟩

theorem timed_beginRead (hread : read ≠ .backlog) :
    (files.beginRead call read).record.timed = files.record.timed := by
  unfold TaskFiles.beginRead
  rw [if_neg hread]

theorem timed_noteTime_of_ne (files : TaskFiles) (hother : other ≠ call) (dir : TaskStatus) :
    (files.noteTime call dir).record.timed other = files.record.timed other :=
  Function.update_of_ne hother _ _

theorem timed_noteTime (files : TaskFiles) (call : Nat) (read dir : TaskStatus) :
    (files.noteTime call read).record.timed call dir =
      (decide (dir = read) || files.record.timed call dir) := by
  simp only [TaskFiles.noteTime, Function.update_self, Function.update_apply]
  by_cases hdir : dir = read <;> simp [hdir]

variable (hperform : TaskFiles.perform call answer (.stat dir) files = some (reply, after))
include hperform

theorem perform_stat : (after = files ∧ reply = none) ∨ ∃ file, files.copies dir = some file ∧
      reply = some file.mtimeMs ∧ after = files.noteTime call dir := by
  simp only [TaskFiles.perform] at hperform
  split at hperform
  · rename_i file hcopy
    split at hperform <;> obtain ⟨rfl, rfl⟩ := Prod.mk.inj (Option.some.inj hperform)
    · exact .inl ⟨rfl, rfl⟩
    · exact .inr ⟨file, hcopy, rfl, rfl⟩
  · obtain ⟨rfl, rfl⟩ := Prod.mk.inj (Option.some.inj hperform)
    exact .inl ⟨rfl, rfl⟩

theorem sameFiles_stat : SameFiles files after := by
  rcases perform_stat hperform with ⟨rfl, -⟩ | ⟨file, -, -, rfl⟩
  · exact SameFiles.refl _
  · exact sameFiles_noteTime files call dir

end Aof
