import Aof.Lib.Crash
import Aof.Lib.Disk

/-!
# Programs over a disk

The file operations of a program, one at a time, so that it can be stopped between any two of them.
An operation that fails leaves the disk as it is.
-/

inductive DiskOp where
  | stat (p : DiskPath)
  | readdir (p : DiskPath)
  | readFile (p : DiskPath)
  | mkdirs (p : DiskPath)
  | writeFile (p : DiskPath) (content : String)
  | copyFile (p q : DiskPath)
  | rename (p q : DiskPath)
  | rm (p : DiskPath)
  | depth (p : DiskPath)

namespace DiskOp

@[reducible]
def Reply : DiskOp → Type
  | .stat _ => Option Entry
  | .readdir _ => Option (List (String × Entry))
  | .readFile _ => Option String
  | .depth _ => Nat
  | _ => Bool

end DiskOp

namespace Disk

open DiskPath

def stat (disk : Disk) (p : DiskPath) : Option Entry := if p = [] then some .dir else disk.get? p

def listing (disk : Disk) (p : DiskPath) : List (String × Entry) :=
  (disk.subtree p).filterMap fun entry =>
    match entry.1 with
    | [name] => some (name, entry.2)
    | _ => none

def readdir (disk : Disk) (p : DiskPath) : Option (List (String × Entry)) :=
  if disk.isDir p then some (disk.listing p) else none

def readFile (disk : Disk) (p : DiskPath) : Option String :=
  match disk.stat p with
  | some (.file content) => some content
  | _ => none

/-- A file is only written over a file, in a directory that exists. -/
def writeFile (disk : Disk) (p : DiskPath) (content : String) : Option Disk :=
  match disk.stat p with
  | none | some (.file _) =>
      if disk.isDir p.dropLast then some (disk.set p (.file content)) else none
  | _ => none

def copyFile (disk : Disk) (p q : DiskPath) : Option Disk :=
  (disk.readFile p).bind (disk.writeFile q)

/-- A directory takes the place of nothing or of an empty directory, anything else that of nothing
or of anything but a directory. -/
def moves (disk : Disk) (p q : DiskPath) : Bool :=
  disk.isDir q.dropLast && !(below p q).isSome &&
    match disk.stat p, disk.stat q with
    | none, _ => false
    | some .dir, none => true
    | some .dir, some .dir => disk.listing q = []
    | some .dir, some _ => false
    | some _, some .dir => false
    | some _, _ => true

def depth (disk : Disk) (p : DiskPath) : Nat :=
  (disk.subtree p).foldr (fun entry bound => max (entry.1.length + 1) bound) 1

end Disk

def DiskOp.attempt (disk : Disk) (changed : Option Disk) : Bool × Disk :=
  (changed.isSome, changed.getD disk)

def DiskOp.perform : (op : DiskOp) → Disk → op.Reply × Disk
  | .stat p, disk => (disk.stat p, disk)
  | .readdir p, disk => (disk.readdir p, disk)
  | .readFile p, disk => (disk.readFile p, disk)
  | .mkdirs p, disk => attempt disk (disk.mkdirs p)
  | .writeFile p content, disk => attempt disk (disk.writeFile p content)
  | .copyFile p q, disk => attempt disk (disk.copyFile p q)
  | .rename p q, disk => attempt disk (if disk.moves p q then some (disk.rename p q) else none)
  | .rm p, disk => (true, disk.removeAll p)
  | .depth p, disk => (disk.depth p, disk)

abbrev DiskProgram := Async DiskOp DiskOp.Reply

namespace DiskProgram

variable {α β : Type}

def finish (program : DiskProgram α) (disk : Disk) : Option α × Disk :=
  (program.execute DiskOp.perform).run disk

def StopsAt (program : DiskProgram α) (before after : Disk) : Prop :=
  program.Stops DiskOp.perform before after

def stoppedAfter (count : Nat) (program : DiskProgram α) (disk : Disk) : Disk :=
  Async.runFor DiskOp.perform program count disk

def check (program : DiskProgram Bool) : DiskProgram Unit := do
  match ← program with
  | true => pure ()
  | false => .throw

def found (program : DiskProgram (Option α)) : DiskProgram α := do
  match ← program with
  | some value => pure value
  | none => .throw

def stat (p : DiskPath) : DiskProgram (Option Entry) := Async.perform (DiskOp.stat p)

def isDirectory (p : DiskPath) : DiskProgram Bool := do
  let entry ← stat p
  pure (entry = some .dir)

def pathExists (p : DiskPath) : DiskProgram Bool := do
  let entry ← stat p
  pure entry.isSome

def readdir (p : DiskPath) : DiskProgram (List (String × Entry)) :=
  found (Async.perform (DiskOp.readdir p))

def readFile (p : DiskPath) : DiskProgram String := found (Async.perform (DiskOp.readFile p))

def mkdir (p : DiskPath) : DiskProgram Unit := check (Async.perform (DiskOp.mkdirs p))

def writeFile (p : DiskPath) (content : String) : DiskProgram Unit :=
  check (Async.perform (DiskOp.writeFile p content))

def copyFile (p q : DiskPath) : DiskProgram Unit := check (Async.perform (DiskOp.copyFile p q))

def rename (p q : DiskPath) : DiskProgram Unit := check (Async.perform (DiskOp.rename p q))

def rm (p : DiskPath) : DiskProgram Unit := check (Async.perform (DiskOp.rm p))

def depth (p : DiskPath) : DiskProgram Nat := Async.perform (DiskOp.depth p)

/-- `for (const item of items) { … }` with a variable that the turns of the loop change. -/
def foldEach (body : β → α → DiskProgram β) : β → List α → DiskProgram β
  | value, [] => pure value
  | value, item :: rest => do
      let next ← body value item
      foldEach body next rest

def forEach (body : α → DiskProgram Unit) (items : List α) : DiskProgram Unit :=
  foldEach (fun _ item => body item) () items

def onlyIf (condition : Bool) (action : DiskProgram Unit) : DiskProgram Unit :=
  if condition then action else pure ()

def filter (test : α → DiskProgram Bool) : List α → DiskProgram (List α)
  | [] => pure []
  | item :: rest => do
      let passes ← test item
      let passing ← filter test rest
      pure (if passes then item :: passing else passing)

/-- The tree below a directory is copied entry by entry, to a given depth. -/
def copyTree : Nat → DiskPath → DiskPath → DiskProgram Unit
  | 0, _, _ => .throw
  | bound + 1, source, dest => do
      mkdir dest
      let entries ← readdir source
      forEach (fun entry =>
        if entry.2 = .dir then copyTree bound (source ++ [entry.1]) (dest ++ [entry.1])
        else copyFile (source ++ [entry.1]) (dest ++ [entry.1])) entries

variable {program : DiskProgram α} {next : α → DiskProgram β} {before after : Disk}
variable {p q : DiskPath}

@[simp]
theorem finish_ret (value : α) :
    finish (.ret value : DiskProgram α) before = (some value, before) := rfl

@[simp]
theorem finish_throw : finish (.throw : DiskProgram α) before = (none, before) := rfl

theorem finish_bind_eq_some {value : β} : finish (program >>= next) before = (some value, after) ↔
      ∃ first middle, finish program before = (some first, middle) ∧
        finish (next first) middle = (some value, after) := by
  unfold finish
  rw [Async.execute_bind, Command.run_bind]
  match hrun : (program.execute DiskOp.perform).run before with
  | (some first, middle) =>
      constructor
      · intro hnext
        exact ⟨first, middle, rfl, hnext⟩
      · rintro ⟨first', middle', hfirst, hnext⟩
        obtain ⟨hvalue, rfl⟩ := Prod.mk.inj hfirst
        obtain rfl := Option.some.inj hvalue
        exact hnext
  | (none, middle) => simp

variable {value : α} {changed : Option Disk} {content : String} {op : DiskOp}

theorem finish_bind_of_some {middle : Disk}
    (hfinish : finish program before = (some value, middle)) :
    finish (program >>= next) before = finish (next value) middle := by
  unfold finish at hfinish ⊢
  rw [Async.execute_bind, Command.run_bind, hfinish]

theorem finish_stat : finish (stat p) before = (some (before.stat p), before) := rfl

theorem stat_eq_dir : before.stat p = some .dir ↔ before.isDir p = true := by
  rw [Disk.stat, Disk.isDir_iff]
  split
  · rename_i hroot
    simp [hroot]
  · rename_i hroot
    simp [hroot]

theorem finish_isDirectory : finish (isDirectory p) before = (some (before.isDir p), before) := by
  show (some (decide (before.stat p = some .dir)), before) = _
  simp [stat_eq_dir]

theorem finish_pathExists :
    finish (pathExists p) before = (some (before.stat p).isSome, before) := rfl

theorem finish_depth : finish (depth p) before = (some (before.depth p), before) := rfl

theorem finish_check_eq_some {program : DiskProgram Bool}
    (hfinish : finish program before = (some changed.isSome, changed.getD before)) :
    finish (check program) before = (some (), after) ↔ changed = some after := by
  unfold check
  rw [finish_bind_of_some hfinish]
  cases changed with
  | none => simp
  | some made => simp

theorem finish_mkdir_eq_some :
    finish (mkdir p) before = (some (), after) ↔ before.mkdirs p = some after :=
  finish_check_eq_some rfl

theorem finish_writeFile_eq_some :
    finish (writeFile p content) before = (some (), after) ↔
      before.writeFile p content = some after :=
  finish_check_eq_some rfl

theorem finish_copyFile_eq_some :
    finish (copyFile p q) before = (some (), after) ↔ before.copyFile p q = some after :=
  finish_check_eq_some rfl

theorem finish_rename_eq_some : finish (rename p q) before = (some (), after) ↔
      before.moves p q = true ∧ after = before.rename p q := by
  rw [rename, finish_check_eq_some rfl, Option.ite_none_right_eq_some, Option.some.injEq,
    @eq_comm _ after]

theorem finish_found_eq_some {program : DiskProgram (Option α)} {read : Option α}
    (hfinish : finish program before = (some read, before)) :
    finish (found program) before = (some value, after) ↔ read = some value ∧ after = before := by
  unfold found
  rw [finish_bind_of_some hfinish]
  cases read with
  | none => simp
  | some other => simp [eq_comm]

theorem finish_readdir_eq_some {entries : List (String × Entry)} :
    finish (readdir p) before = (some entries, after) ↔
      (before.isDir p = true ∧ entries = before.listing p) ∧ after = before := by
  rw [readdir, finish_found_eq_some rfl]
  change before.readdir p = some entries ∧ after = before ↔ _
  rw [Disk.readdir, Option.ite_none_right_eq_some, Option.some.injEq, @eq_comm _ entries]

theorem finish_readFile_eq_some :
    finish (readFile p) before = (some content, after) ↔
      before.readFile p = some content ∧ after = before :=
  finish_found_eq_some rfl

theorem finish_filter {test : α → DiskProgram Bool} {passes : α → Bool} (items : List α)
    (htest : ∀ item, finish (test item) before = (some (passes item), before)) :
    finish (filter test items) before = (some (items.filter passes), before) := by
  induction items with
  | nil => rfl
  | cons item rest ih =>
      rw [filter, finish_bind_of_some (htest item), finish_bind_of_some ih]
      cases hpasses : passes item <;> simp [hpasses]

@[simp]
theorem stopsAt_ret :
    StopsAt (.ret value : DiskProgram α) before after ↔ after = before := Iff.rfl

@[simp]
theorem stopsAt_throw : StopsAt (.throw : DiskProgram α) before after ↔ after = before := Iff.rfl

theorem stopsAt_bind : StopsAt (program >>= next) before after ↔
    StopsAt program before after ∨ ∃ value middle, finish program before = (some value, middle) ∧
      StopsAt (next value) middle after := by
  constructor
  · exact Async.Stops.of_bind
  · rintro (hstops | ⟨value, middle, hfinish, hstops⟩)
    · exact hstops.bind_left next
    · exact Async.Stops.bind_right hfinish hstops

theorem stopsAt_stoppedAfter (count : Nat) (program : DiskProgram α) (disk : Disk) :
    StopsAt program disk (program.stoppedAfter count disk) :=
  Async.stops_iff.mpr ⟨count, rfl⟩

theorem stopsAt_of_finish {value : Option α} (hfinish : finish program before = (value, after)) :
    StopsAt program before after := by
  have hstops := @Async.Stops.finish _ _ _ _ DiskOp.perform program before
  rwa [show (program.execute DiskOp.perform).run before = (value, after) from hfinish] at hstops

theorem stopsAt_perform :
    StopsAt (Async.perform op) before after ↔ after = before ∨ after = (op.perform before).2 :=
  Iff.rfl

theorem stopsAt_check {program : DiskProgram Bool} :
    StopsAt (check program) before after ↔ StopsAt program before after := by
  rw [check, stopsAt_bind]
  constructor
  · rintro (hstops | ⟨value, middle, hfinish, hstops⟩)
    · exact hstops
    · have hmiddle : after = middle := by cases value <;> exact hstops
      rw [hmiddle]
      exact stopsAt_of_finish hfinish
  · exact Or.inl

theorem stopsAt_changing (hperform : (op.perform before).2 = changed.getD before) :
    StopsAt (Async.perform op) before after ↔ after = before ∨ changed = some after := by
  rw [stopsAt_perform, hperform]
  cases changed with
  | none => simp
  | some made => simp [eq_comm]

theorem stopsAt_mkdir :
    StopsAt (mkdir p) before after ↔ after = before ∨ before.mkdirs p = some after := by
  rw [mkdir, stopsAt_check, stopsAt_changing rfl]

theorem stopsAt_rename : StopsAt (rename p q) before after ↔
    after = before ∨ (before.moves p q = true ∧ after = before.rename p q) := by
  rw [rename, stopsAt_check, stopsAt_changing rfl, Option.ite_none_right_eq_some,
    Option.some.injEq, @eq_comm _ (before.rename p q)]

end DiskProgram

namespace DiskOp

open DiskPath

def Writes : DiskOp → DiskPath → Prop
  | .mkdirs p, r => r ≠ [] ∧ (below r p).isSome
  | .writeFile p _, r => r = p
  | .copyFile _ q, r => r = q
  | .rename p q, r => (below p r).isSome ∨ (below q r).isSome
  | .rm p, r => (below p r).isSome
  | _, _ => False

theorem get?_attempt {disk : Disk} {changed : Option Disk} {r : DiskPath}
    (hchanged : ∀ after, changed = some after → after.get? r = disk.get? r) :
    (attempt disk changed).2.get? r = disk.get? r := by
  cases changed with
  | none => rfl
  | some after => exact hchanged after rfl

theorem get?_writeFile {disk after : Disk} {p r : DiskPath} {content : String}
    (hwrite : disk.writeFile p content = some after) :
    after.get? r = if p = r then some (.file content) else disk.get? r := by
  unfold Disk.writeFile at hwrite
  split at hwrite
  · obtain ⟨-, hwrite⟩ := Option.ite_none_right_eq_some.mp hwrite
    rw [← Option.some.inj hwrite, Dict.get?_set]
  · obtain ⟨-, hwrite⟩ := Option.ite_none_right_eq_some.mp hwrite
    rw [← Option.some.inj hwrite, Dict.get?_set]
  · cases hwrite

theorem copyFile_eq_some {disk after : Disk} {p q : DiskPath} : disk.copyFile p q = some after ↔
      ∃ content, disk.readFile p = some content ∧ disk.writeFile q content = some after :=
  Option.bind_eq_some_iff

theorem get?_perform (op : DiskOp) (disk : Disk) {r : DiskPath} (hout : ¬ op.Writes r) :
    (op.perform disk).2.get? r = disk.get? r := by
  cases op with
  | mkdirs p =>
      apply get?_attempt
      intro after hafter
      rw [Disk.get?_mkdirs hafter]
      exact if_neg hout
  | writeFile p content =>
      apply get?_attempt
      intro after hafter
      rw [get?_writeFile hafter, if_neg (Ne.symm hout)]
  | copyFile p q =>
      apply get?_attempt
      intro after hafter
      obtain ⟨content, -, hwrite⟩ := copyFile_eq_some.mp hafter
      rw [get?_writeFile hwrite, if_neg (Ne.symm hout)]
  | rename p q =>
      apply get?_attempt
      intro after hafter
      rw [Option.ite_none_right_eq_some, Option.some.injEq] at hafter
      obtain ⟨hp, hq⟩ := not_or.mp hout
      rw [← hafter.2, Disk.get?_rename, Option.not_isSome_iff_eq_none.mp hq, if_neg hp]
  | rm p => exact (Disk.get?_removeAll r).trans (if_neg hout)
  | stat p => rfl
  | readdir p => rfl
  | readFile p => rfl
  | depth p => rfl

end DiskOp

/-- The operation only reads, or it makes a directory or writes a file at a given place. -/
def DiskOp.Fills (dirs files : DiskPath → Prop) : DiskOp → Prop
  | .mkdirs p => dirs p
  | .writeFile p _ => files p
  | .copyFile _ q => files q
  | .rename _ _ => False
  | .rm _ => False
  | _ => True

namespace DiskProgram

open DiskPath Disk

variable {α β : Type} {program : DiskProgram α} {next : α → DiskProgram β} {before after : Disk}
variable {p q r : DiskPath} {dirs files : DiskPath → Prop}

def Fills (dirs files : DiskPath → Prop) (program : DiskProgram α) : Prop :=
  program.Uses (DiskOp.Fills dirs files)

section

variable (hstops : StopsAt program before after)
include hstops

theorem StopsAt.get?_of_uses (huses : program.Uses fun op => ¬ op.Writes r) :
    after.get? r = before.get? r :=
  Async.Stops.related (R := fun s t : Disk => t.get? r = s.get? r) (fun _ => rfl)
    (fun _ _ _ hst htu => htu.trans hst) (fun op disk hop => op.get?_perform disk hop) huses hstops

theorem StopsAt.get?_eq (hfills : program.Fills dirs files) (hfile : ¬ files r)
    (hdir : ∀ p, dirs p → r ≠ [] → below r p = none) : after.get? r = before.get? r := by
  apply hstops.get?_of_uses
  apply hfills.mono
  intro op hop
  cases op with
  | mkdirs p =>
      rintro ⟨hne, habove⟩
      rw [hdir p hop hne] at habove
      cases habove
  | writeFile p content =>
      rintro rfl
      exact hfile hop
  | copyFile p q =>
      rintro rfl
      exact hfile hop
  | rename p q => exact hop.elim
  | rm p => exact hop.elim
  | stat p => exact id
  | readdir p => exact id
  | readFile p => exact id
  | depth p => exact id

theorem StopsAt.get?_of_reads (hreads : program.Fills (fun _ => False) (fun _ => False))
    (r : DiskPath) : after.get? r = before.get? r :=
  hstops.get?_eq hreads id fun _ hdir => hdir.elim

theorem StopsAt.get?_dir (hfills : program.Fills dirs files) (hfile : ¬ files r)
    (hdir : before.get? r = some .dir) : after.get? r = some .dir := by
  have hop : ∀ (op : DiskOp) (disk : Disk), op.Fills dirs files → disk.get? r = some .dir →
      (op.perform disk).2.get? r = some .dir := by
    intro op disk hop hdisk
    by_cases hwrites : op.Writes r
    · cases op with
      | mkdirs p =>
          show (DiskOp.attempt disk (disk.mkdirs p)).2.get? r = _
          cases hmade : disk.mkdirs p with
          | none => exact hdisk
          | some made => exact (Disk.get?_mkdirs hmade r).trans (if_pos hwrites)
      | writeFile p content => exact absurd (hwrites ▸ hop) hfile
      | copyFile p q => exact absurd (hwrites ▸ hop) hfile
      | rename p q => exact hop.elim
      | rm p => exact hop.elim
      | stat p => exact hwrites.elim
      | readdir p => exact hwrites.elim
      | readFile p => exact hwrites.elim
      | depth p => exact hwrites.elim
    · rw [op.get?_perform disk hwrites, hdisk]
  exact Async.Stops.related
    (R := fun s t : Disk => s.get? r = some .dir → t.get? r = some .dir) (fun _ => id)
    (fun _ _ _ hst htu hs => htu (hst hs)) hop hfills hstops hdir

end

theorem Fills.bind (hprogram : program.Fills dirs files)
    (hnext : ∀ value, (next value).Fills dirs files) : (program >>= next).Fills dirs files :=
  Async.Uses.bind hprogram hnext

variable {property : DiskOp → Prop} {body : β → α → DiskProgram β} {goal : DiskPath → Option Entry}
  {items : List α} {last : β} {disk : Disk} {name : String}

theorem uses_check {program : DiskProgram Bool} (hprogram : program.Uses property) :
    (check program).Uses property := by
  apply Async.Uses.bind hprogram
  intro value
  cases value <;> trivial

theorem uses_foldEach (value : β) (items : List α)
    (hbody : ∀ value, ∀ item ∈ items, (body value item).Uses property) :
    (foldEach body value items).Uses property := by
  induction items generalizing value with
  | nil => trivial
  | cons item rest ih =>
      apply Async.Uses.bind (hbody value item List.mem_cons_self)
      exact fun next => ih next fun value other hother =>
        hbody value other (List.mem_cons_of_mem _ hother)

theorem Fills.found {program : DiskProgram (Option α)} (hprogram : program.Fills dirs files) :
    (found program).Fills dirs files := by
  apply hprogram.bind
  intro value
  cases value <;> trivial

theorem fills_ret (value : α) : Fills dirs files (.ret value) := trivial

theorem fills_stat : (stat p).Fills dirs files := ⟨trivial, fun _ => trivial⟩

theorem fills_isDirectory : (isDirectory p).Fills dirs files := fills_stat.bind fun _ => trivial

theorem fills_readdir : (readdir p).Fills dirs files := Fills.found ⟨trivial, fun _ => trivial⟩

theorem fills_readFile : (readFile p).Fills dirs files := Fills.found ⟨trivial, fun _ => trivial⟩

theorem fills_depth : (depth p).Fills dirs files := ⟨trivial, fun _ => trivial⟩

theorem fills_mkdir (hdir : dirs p) : (mkdir p).Fills dirs files :=
  uses_check ⟨hdir, fun _ => trivial⟩

theorem fills_writeFile {content : String} (hfile : files p) :
    (writeFile p content).Fills dirs files :=
  uses_check ⟨hfile, fun _ => trivial⟩

theorem fills_copyFile (hfile : files q) : (copyFile p q).Fills dirs files :=
  uses_check ⟨hfile, fun _ => trivial⟩

theorem Fills.onlyIf {condition : Bool} {action : DiskProgram Unit}
    (haction : condition = true → action.Fills dirs files) :
    (onlyIf condition action).Fills dirs files := by
  cases condition with
  | true => exact haction rfl
  | false => trivial

theorem fills_foldEach (value : β) (items : List α)
    (hbody : ∀ value item, (body value item).Fills dirs files) :
    (foldEach body value items).Fills dirs files :=
  uses_foldEach value items fun value item _ => hbody value item

theorem fills_forEach {body : α → DiskProgram Unit} (items : List α)
    (hbody : ∀ item, (body item).Fills dirs files) : (forEach body items).Fills dirs files :=
  fills_foldEach () items fun _ item => hbody item

theorem fills_filter {test : α → DiskProgram Bool} (items : List α)
    (htest : ∀ item, (test item).Fills dirs files) : (filter test items).Fills dirs files := by
  induction items with
  | nil => trivial
  | cons item rest ih =>
      apply (htest item).bind
      intro passes
      exact ih.bind fun passing => trivial

theorem fills_copyTree (bound : Nat) {source dest : DiskPath} (hdirs : ∀ rel, dirs (dest ++ rel))
    (hfiles : ∀ name rel, files (dest ++ name :: rel)) :
    (copyTree bound source dest).Fills dirs files := by
  induction bound generalizing source dest with
  | zero => trivial
  | succ bound ih =>
      have hdest : dirs dest := by simpa using hdirs []
      apply (fills_mkdir hdest).bind
      intro _
      apply fills_readdir.bind
      intro entries
      apply fills_forEach
      intro entry
      split
      · apply ih
        · intro rel
          rw [List.append_assoc]
          exact hdirs _
        · intro name rel
          rw [List.append_assoc]
          exact hfiles _ _
      · exact fills_copyFile (hfiles _ _)

theorem foldEach_settles {value : β} (part : α → DiskPath → Prop) (inv : Disk → Prop)
    (hbody : ∀ item ∈ items, ∀ value next disk after, inv disk →
      finish (body value item) disk = (some next, after) →
      inv after ∧ Settles goal (part item) disk after)
    (hinv : inv before) (hfinish : finish (foldEach body value items) before = (some last, after)) :
    inv after ∧ Settles goal (fun r => ∃ item ∈ items, part item r) before after := by
  induction items generalizing before value with
  | nil =>
      obtain ⟨-, rfl⟩ := Prod.mk.inj hfinish
      exact ⟨hinv, fun r => by simp⟩
  | cons item rest ih =>
      obtain ⟨next, middle, hfirst, hrest⟩ := finish_bind_eq_some.mp hfinish
      obtain ⟨hmiddle, hsettled⟩ :=
        hbody item List.mem_cons_self value next before middle hinv hfirst
      obtain ⟨hafter, hsettles⟩ := ih
        (fun other hother => hbody other (List.mem_cons_of_mem _ hother)) hmiddle hrest
      refine ⟨hafter, (hsettled.trans hsettles).congr fun r => ?_⟩
      simp

theorem foldEach_settles_apart {value : β} (part : α → DiskPath → Prop)
    (hapart : items.Pairwise fun x y => ∀ r, part y r → ¬ part x r)
    (hbody : ∀ item ∈ items, ∀ value next disk after,
      (∀ r, part item r → disk.get? r = before.get? r) →
      finish (body value item) disk = (some next, after) → Settles goal (part item) disk after)
    (hstart : ∀ item ∈ items, ∀ r, part item r → disk.get? r = before.get? r)
    (hfinish : finish (foldEach body value items) disk = (some last, after)) :
    Settles goal (fun r => ∃ item ∈ items, part item r) disk after := by
  induction items generalizing disk value with
  | nil =>
      obtain ⟨-, rfl⟩ := Prod.mk.inj hfinish
      exact fun r => by simp
  | cons item rest ih =>
      obtain ⟨next, middle, hfirst, hrest⟩ := finish_bind_eq_some.mp hfinish
      obtain ⟨hitem, hpairs⟩ := List.pairwise_cons.mp hapart
      have hsettled := hbody item List.mem_cons_self value next disk middle
        (hstart item List.mem_cons_self) hfirst
      have hsettles := ih hpairs (fun other hother => hbody other (List.mem_cons_of_mem _ hother))
        (fun other hother r hr => by
          rw [(hsettled r).2 (hitem other hother r hr)]
          exact hstart other (List.mem_cons_of_mem _ hother) r hr) hrest
      apply (hsettled.trans hsettles).congr
      intro r
      simp

theorem forEach_settles {body : α → DiskProgram Unit} (part : α → DiskPath → Prop)
    (inv : Disk → Prop)
    (hbody : ∀ item ∈ items, ∀ disk after, inv disk → finish (body item) disk = (some (), after) →
      inv after ∧ Settles goal (part item) disk after) (hinv : inv before)
    (hfinish : finish (forEach body items) before = (some (), after)) :
    inv after ∧ Settles goal (fun r => ∃ item ∈ items, part item r) before after :=
  foldEach_settles part inv (fun item hitem _ _ => hbody item hitem) hinv hfinish

theorem mem_listing {entry : Entry} :
    (name, entry) ∈ disk.listing p ↔ disk.get? (p ++ [name]) = some entry := by
  rw [← mem_subtree, listing, List.mem_filterMap]
  constructor
  · rintro ⟨⟨rel, kind⟩, hmem, hrel⟩
    split at hrel
    · rename_i other hother
      obtain ⟨rfl, rfl⟩ := Prod.mk.inj (Option.some.inj hrel)
      obtain rfl : rel = [other] := hother
      exact hmem
    · cases hrel
  · intro hmem
    exact ⟨([name], entry), hmem, rfl⟩

theorem moves_of_free (hdir : disk.get? p = some .dir) (hp : p ≠ []) (hfree : disk.get? q = none)
    (hq : q ≠ []) (hparent : disk.isDir q.dropLast = true) (hout : below p q = none) :
    disk.moves p q = true := by
  rw [Disk.moves, hparent, hout, Disk.stat, if_neg hp, hdir, Disk.stat, if_neg hq, hfree]
  rfl

theorem nodup_listing (disk : Disk) (p : DiskPath) : ((disk.listing p).map Prod.fst).Nodup := by
  have hnames : (disk.listing p).map Prod.fst =
      ((disk.subtree p).map Prod.fst).filterMap fun rel =>
        match rel with
        | [name] => some name
        | _ => none := by
    rw [listing, List.map_filterMap, List.filterMap_map]
    congr 1
    funext entry
    rcases entry with ⟨_ | ⟨_, _ | _⟩, _⟩ <;> rfl
  rw [hnames]
  apply (nodup_subtree disk p).filterMap
  intro rel rel' name hrel hrel'
  split at hrel
  · split at hrel'
    · rw [Option.some.inj hrel, Option.some.inj hrel']
    · cases hrel'
  · cases hrel

def TreeBelow (disk : Disk) (p : DiskPath) : Prop :=
  ∀ rel name, (disk.get? (p ++ (rel ++ [name]))).isSome → disk.get? (p ++ rel) = some .dir

theorem TreeBelow.isSome_of_append (htree : TreeBelow disk p) (rel tail : DiskPath)
    (hsome : (disk.get? (p ++ (rel ++ tail))).isSome) (hne : tail ≠ []) :
    disk.get? (p ++ rel) = some .dir := by
  induction tail using List.reverseRecOn with
  | nil => exact absurd rfl hne
  | append_singleton tail name ih =>
      rw [← List.append_assoc rel] at hsome
      have hdir := htree (rel ++ tail) name hsome
      by_cases htail : tail = []
      · simpa [htail] using hdir
      · exact ih (by simp [hdir]) htail

theorem TreeBelow.congr {other : Disk} (htree : TreeBelow disk p)
    (hsame : ∀ rel, other.get? (p ++ rel) = disk.get? (p ++ rel)) : TreeBelow other p := by
  intro rel name hsome
  rw [hsame] at hsome ⊢
  exact htree rel name hsome

theorem TreeBelow.append (htree : TreeBelow disk p) (mid : DiskPath) :
    TreeBelow disk (p ++ mid) := by
  intro rel name hsome
  rw [List.append_assoc, ← List.append_assoc mid] at hsome
  rw [List.append_assoc]
  exact htree (mid ++ rel) name hsome

/-- What the copy of a tree leaves at a path: the tree over what was there, in a directory. -/
def copied (before : Disk) (source dest r : DiskPath) : Option Entry :=
  match below dest r with
  | some rel => (before.get? (source ++ rel)).or (before.get? r)
  | none => if r ≠ [] ∧ (below r dest).isSome then some .dir else before.get? r

theorem settles_below (hbelow : ∀ rel, after.get? (p ++ rel) = goal (p ++ rel))
    (hout : ∀ r, below p r = none → after.get? r = disk.get? r) :
    Settles goal (fun r => (below p r).isSome) disk after := by
  intro r
  cases h : below p r with
  | none => exact ⟨fun hsome => by simp [h] at hsome, fun _ => hout r h⟩
  | some rel =>
      obtain rfl := below_eq_some.mp h
      exact ⟨fun _ => hbelow rel, fun hnone => by simp at hnone⟩

theorem readFile_eq_some {content : String} :
    disk.readFile p = some content ↔ disk.stat p = some (.file content) := by
  unfold Disk.readFile
  split
  · rename_i text htext
    simp [htext]
  · rename_i hother
    exact ⟨nofun, fun hfile => absurd hfile (hother content)⟩

theorem copyEntry_settles {copy : DiskPath → DiskPath → DiskProgram Unit} {source dest : DiskPath}
    {entry : String × Entry}
    (hcopy : entry.2 = .dir → ∀ r,
      after.get? r = copied disk (source ++ [entry.1]) (dest ++ [entry.1]) r)
    (hfinish : finish (if entry.2 = .dir then copy (source ++ [entry.1]) (dest ++ [entry.1])
      else copyFile (source ++ [entry.1]) (dest ++ [entry.1])) disk = (some (), after))
    (htree : TreeBelow disk source)
    (habove : ∀ r, r ≠ [] → (below r dest).isSome → disk.get? r = some .dir)
    (hgoal : ∀ rel, goal (dest ++ entry.1 :: rel) = (disk.get? (source ++ entry.1 :: rel)).or
      (disk.get? (dest ++ entry.1 :: rel))) :
    Settles goal (fun r => (below (dest ++ [entry.1]) r).isSome) disk after := by
  apply settles_below
  · intro rel
    rw [List.append_assoc, List.singleton_append, hgoal]
    by_cases hdir : entry.2 = .dir
    · rw [hcopy hdir, copied, List.append_cons dest entry.1 rel, below_append]
      simp
    · rw [if_neg hdir, finish_copyFile_eq_some] at hfinish
      obtain ⟨content, hread, hwrite⟩ := DiskOp.copyFile_eq_some.mp hfinish
      have hcontent : disk.get? (source ++ [entry.1]) = some (.file content) := by
        simpa [Disk.stat] using readFile_eq_some.mp hread
      rw [DiskOp.get?_writeFile hwrite]
      cases rel with
      | nil => simp [hcontent]
      | cons name rel =>
          -- nothing lies below a file
          have hnone : disk.get? (source ++ entry.1 :: name :: rel) = none := by
            rw [← Option.not_isSome_iff_eq_none]
            intro hsome
            have hsource := htree.isSome_of_append [entry.1] (name :: rel) hsome
              (List.cons_ne_nil _ _)
            rw [hsource] at hcontent
            cases hcontent
          simp [hnone]
  · intro r hbelow
    by_cases hdir : entry.2 = .dir
    · rw [hcopy hdir, copied, hbelow]
      show (if _ then _ else _) = _
      split
      · rename_i hr
        rcases isSome_below_concat.mp hr.2 with rfl | hr'
        · simp at hbelow
        · exact (habove r hr.1 hr').symm
      · rfl
    · rw [if_neg hdir, finish_copyFile_eq_some] at hfinish
      obtain ⟨content, -, hwrite⟩ := DiskOp.copyFile_eq_some.mp hfinish
      rw [DiskOp.get?_writeFile hwrite]
      apply if_neg
      rintro rfl
      simp at hbelow

theorem TreeBelow.isSome_head (htree : TreeBelow disk p) {rel : DiskPath}
    (hsome : (disk.get? (p ++ name :: rel)).isSome) :
    (disk.get? (p ++ [name])).isSome := by
  cases rel with
  | nil => exact hsome
  | cons next rel =>
      rw [htree.isSome_of_append [name] (next :: rel) hsome (List.cons_ne_nil _ _)]
      rfl

section Copied

variable {source dest : DiskPath} {made : Disk}
variable (hmade : ∀ r, made.get? r =
  if r ≠ [] ∧ (below r dest).isSome then some .dir else before.get? r)

include hmade

theorem copied_of_not_below (hr : below dest r = none) :
    copied before source dest r = made.get? r := by
  rw [copied, hr, hmade]

theorem copied_below (name : String) (rel : DiskPath) :
    copied before source dest (dest ++ name :: rel) =
      (before.get? (source ++ name :: rel)).or (made.get? (dest ++ name :: rel)) := by
  rw [copied, below_append, hmade, if_neg]
  rw [below_longer]
  exact fun hr => by cases hr.2

theorem copied_dest (hne : dest ≠ []) (hsource : before.get? source = some .dir) :
    copied before source dest dest = made.get? dest := by
  rw [copied, below_self, hmade]
  simp [hsource, hne]

theorem get?_source (hapart : Apart source dest) (rel : DiskPath) :
    made.get? (source ++ rel) = before.get? (source ++ rel) := by
  rw [hmade, if_neg]
  rintro ⟨-, hr⟩
  obtain ⟨tail, htail⟩ := Option.isSome_iff_exists.mp hr
  rw [below_eq_some, List.append_assoc] at htail
  exact absurd hapart.1 (by rw [below_eq_some.mpr htail]; exact Option.some_ne_none _)

theorem copied_of_settles (hapart : Apart source dest) (htree : TreeBelow before source)
    (hsource : before.get? source = some .dir)
    (hsettles : Settles (copied before source dest) (fun r => ∃ entry ∈ made.listing source,
      (below (dest ++ [entry.1]) r).isSome) made after) (r : DiskPath) :
    after.get? r = copied before source dest r := by
  cases hbelow : below dest r with
  | none =>
      rw [(hsettles r).2, copied_of_not_below hmade hbelow]
      rintro ⟨entry, -, hr⟩
      obtain ⟨tail, htail⟩ := Option.isSome_iff_exists.mp hr
      rw [below_eq_some, List.append_assoc] at htail
      rw [below_eq_some.mpr htail] at hbelow
      cases hbelow
  | some rel =>
      obtain rfl := below_eq_some.mp hbelow
      cases rel with
      | nil =>
          have hne : dest ≠ [] := by
            rintro rfl
            cases hapart.2
          rw [List.append_nil, copied_dest hmade hne hsource]
          apply (hsettles dest).2
          rintro ⟨entry, -, hr⟩
          rw [below_longer] at hr
          cases hr
      | cons name rel =>
          by_cases hlisted : ∃ entry ∈ made.listing source,
              (below (dest ++ [entry.1]) (dest ++ name :: rel)).isSome
          · exact (hsettles _).1 hlisted
          · -- what is not listed is not there
            have hnone : before.get? (source ++ name :: rel) = none := by
              rw [← Option.not_isSome_iff_eq_none]
              intro hsome
              have hchild := htree.isSome_head hsome
              rw [← get?_source hmade hapart] at hchild
              obtain ⟨kind, hkind⟩ := Option.isSome_iff_exists.mp hchild
              apply hlisted
              refine ⟨(name, kind), mem_listing.mpr hkind, ?_⟩
              rw [List.append_cons dest name rel, below_append]
              rfl
            rw [(hsettles _).2 hlisted, copied_below hmade, hnone, Option.none_or]

end Copied

theorem copyTree_eq {bound : Nat} {source dest : DiskPath} (hapart : Apart source dest)
    (htree : TreeBelow before source)
    (hfinish : finish (copyTree bound source dest) before = (some (), after)) (r : DiskPath) :
    after.get? r = copied before source dest r := by
  induction bound generalizing source dest before after r with
  | zero => cases (Prod.mk.inj hfinish).1
  | succ bound ih =>
      obtain ⟨⟨⟩, made, hmkdir, hfinish⟩ := finish_bind_eq_some.mp hfinish
      obtain ⟨entries, same, hreaddir, hfinish⟩ := finish_bind_eq_some.mp hfinish
      obtain ⟨⟨hdirectory, hentries⟩, hsame⟩ := finish_readdir_eq_some.mp hreaddir
      rw [hentries, hsame] at hfinish
      have hmade := get?_mkdirs (finish_mkdir_eq_some.mp hmkdir)
      have hkeep := get?_source hmade hapart
      have hsource : before.get? source = some .dir := by
        rcases isDir_iff.mp hdirectory with rfl | hdir
        · cases hapart.1
        · simpa [hdir] using (hkeep []).symm
      have hout : ∀ rel, below dest (source ++ rel) = none := by
        intro rel
        exact hapart.below_eq_none (below_append source rel)
      have hne : dest ≠ [] := by
        rintro rfl
        cases hapart.2
      obtain ⟨-, hsettles⟩ : Between made.get? (copied before source dest) after ∧
          Settles (copied before source dest) (fun r => ∃ entry ∈ made.listing source,
            (below (dest ++ [entry.1]) r).isSome) made after := by
        apply forEach_settles (fun (entry : String × Entry) r =>
          (below (dest ++ [entry.1]) r).isSome = true) _ _ (Between.refl _ _) hfinish
        intro entry hentry disk next hdisk hnext
        have hkept : ∀ r, copied before source dest r = made.get? r → disk.get? r = made.get? r :=
          fun r hr => (hdisk r).elim id fun h => h.trans hr
        have hsame : ∀ rel, disk.get? (source ++ rel) = before.get? (source ++ rel) := by
          intro rel
          rw [hkept _ (copied_of_not_below hmade (hout rel)), hkeep]
        have hsettled : Settles (copied before source dest)
            (fun r => (below (dest ++ [entry.1]) r).isSome) disk next := by
          apply copyEntry_settles _ hnext (htree.congr hsame)
          · intro r hr hbelow
            rw [hkept, hmade, if_pos ⟨hr, hbelow⟩]
            by_cases hdest : r = dest
            · rw [hdest, copied_dest hmade hne hsource]
            · apply copied_of_not_below hmade
              rw [← Option.not_isSome_iff_eq_none]
              exact fun hback => hdest (below_antisymm hbelow hback)
          · intro rel
            rw [hsame, copied_below hmade]
            rcases hdisk (dest ++ entry.1 :: rel) with heq | heq
            · rw [heq]
            · rw [heq, copied_below hmade]
              cases before.get? (source ++ entry.1 :: rel) <;> rfl
          · intro hdir r
            rw [if_pos hdir] at hnext
            exact ih (hapart.append _ _) ((htree.congr hsame).append _) hnext r
        exact ⟨hsettled.between hdisk, hsettled⟩
      exact copied_of_settles hmade hapart htree hsource hsettles r

end DiskProgram
