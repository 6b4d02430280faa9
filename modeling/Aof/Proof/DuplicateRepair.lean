import Aof.Lib.Relocation
import Aof.Store.TaskStore

/-!
# Two repairs of duplicates

A get keeps the newest copy of a task.  The reconciliation at start-up moves each copy that is out
of place to the directory of its status, over the copy that lies there, and leaves the others alone.
-/

/-!
## The newest copy

A get that runs alone returns the newest copy of the task and leaves no other.
-/

namespace Aof

def TaskFiles.matchesIn (files : TaskFiles) (dirs : List TaskStatus) : List Match :=
  dirs.filterMap fun dir =>
    (files.copies dir).map fun file => ⟨⟨file.document, dir⟩, file.mtimeMs⟩

/-- The task as a get returns it: the first of the newest copies. -/
def TaskFiles.current (files : TaskFiles) : Option TaskObject :=
  (newestFirst (files.matchesIn STATUS_DIRS)).head?.map Match.task

structure Newest (files : TaskFiles) (dir : TaskStatus) (file : TaskFile) : Prop where
  copy : files.copies dir = some file
  newer : ∀ other copy, other ≠ dir → files.copies other = some copy → copy.mtimeMs < file.mtimeMs

variable {files after : TaskFiles} {found stale : List Match} {copy newest : Match}
  {dir : TaskStatus} {file : TaskFile}

theorem mem_matchesIn {dirs : List TaskStatus} {found : Match} :
    found ∈ files.matchesIn dirs ↔ found.task.path ∈ dirs ∧
      files.copies found.task.path = some ⟨found.task.document, found.mtimeMs⟩ := by
  simp only [TaskFiles.matchesIn, List.mem_filterMap, Option.map_eq_some_iff]
  constructor
  · rintro ⟨dir, hdir, file, hcopy, rfl⟩
    exact ⟨hdir, hcopy⟩
  · rintro ⟨hdir, hcopy⟩
    exact ⟨_, hdir, _, hcopy, rfl⟩

theorem mem_STATUS_DIRS (dir : TaskStatus) : dir ∈ STATUS_DIRS := by
  cases dir <;> decide

theorem nodup_STATUS_DIRS : STATUS_DIRS.Nodup := by decide

theorem mem_newestFirst : copy ∈ newestFirst found ↔ copy ∈ found :=
  List.mem_insertionSort _

theorem newestFirst_of_few (hfew : found.length ≤ 1) : newestFirst found = found := by
  cases found with
  | nil => rfl
  | cons copy others =>
      cases others with
      | nil => rfl
      | cons _ _ => simp at hfew

theorem le_head_newestFirst (hsorted : newestFirst found = newest :: stale) (hcopy : copy ∈ found) :
    copy.mtimeMs ≤ newest.mtimeMs := by
  have htotal : Std.Total fun a b : Match => b.mtimeMs ≤ a.mtimeMs :=
    ⟨fun a b => le_total b.mtimeMs a.mtimeMs⟩
  have htrans : IsTrans Match fun a b => b.mtimeMs ≤ a.mtimeMs :=
    ⟨fun _ _ _ hab hbc => le_trans hbc hab⟩
  have hpairwise : (newestFirst found).Pairwise fun a b => b.mtimeMs ≤ a.mtimeMs :=
    List.pairwise_insertionSort _ found
  rw [hsorted, List.pairwise_cons] at hpairwise
  have hmem := mem_newestFirst.mpr hcopy
  rw [hsorted] at hmem
  cases hmem with
  | head => exact le_refl _
  | tail _ hmem => exact hpairwise.1 copy hmem

theorem Newest.head?_newestFirst (hnewest : Newest files dir file) :
    (newestFirst (files.matchesIn STATUS_DIRS)).head? =
      some ⟨⟨file.document, dir⟩, file.mtimeMs⟩ := by
  have hmem : (⟨⟨file.document, dir⟩, file.mtimeMs⟩ : Match) ∈ files.matchesIn STATUS_DIRS :=
    mem_matchesIn.mpr ⟨mem_STATUS_DIRS dir, hnewest.copy⟩
  cases hsorted : newestFirst (files.matchesIn STATUS_DIRS) with
  | nil =>
      have := mem_newestFirst.mpr hmem
      rw [hsorted] at this
      cases this
  | cons first stale =>
      have hfirst : first ∈ files.matchesIn STATUS_DIRS := by
        rw [← mem_newestFirst, hsorted]
        exact List.mem_cons_self
      obtain ⟨-, hcopy⟩ := mem_matchesIn.mp hfirst
      have hle := le_head_newestFirst hsorted hmem
      by_cases hdir : first.task.path = dir
      · have hfile : file = ⟨first.task.document, first.mtimeMs⟩ := by
          rw [hdir, hnewest.copy] at hcopy
          exact Option.some.inj hcopy
        subst hfile hdir
        rfl
      · have hlt := hnewest.newer _ _ hdir hcopy
        exact absurd hle (not_le.mpr hlt)

open TaskFiles (quietly)

theorem quietly_readFile (dir : TaskStatus) (files : TaskFiles) :
    quietly (.readFile dir) files =
      some ((files.copies dir).map TaskFile.document, files.beginRead 0 dir) := rfl

theorem SameFiles.matchesIn (hsame : SameFiles files after) (dirs : List TaskStatus) :
    after.matchesIn dirs = files.matchesIn dirs := by
  unfold TaskFiles.matchesIn
  rw [hsame.copies]

theorem quietly_stat (hcopy : files.copies dir = some file) :
    quietly (.stat dir) files = some (some file.mtimeMs, files.noteTime 0 dir) := by
  simp only [quietly, TaskFiles.perform, hcopy]
  rfl

theorem alone_findMatches (dirs : List TaskStatus) (files : TaskFiles) :
    ∃ after, (findMatches dirs).alone quietly files = some (files.matchesIn dirs, after) ∧
      SameFiles files after := by
  induction dirs generalizing files with
  | nil => exact ⟨files, rfl, SameFiles.refl files⟩
  | cons dir dirs ih =>
      have hread := sameFiles_beginRead files 0 dir
      simp only [findMatches, TaskProgram.readFile, TaskProgram.perform, Async.alone_bind,
        Async.alone_perform, quietly_readFile, Option.bind_some]
      cases hcopy : files.copies dir with
      | none =>
          obtain ⟨after, halone, hsame⟩ := ih (files.beginRead 0 dir)
          refine ⟨after, ?_, hread.trans hsame⟩
          rw [Option.map_none, halone, hread.matchesIn]
          simp [TaskFiles.matchesIn, hcopy]
      | some file =>
          have hcopy' : (files.beginRead 0 dir).copies dir = some file := by
            rw [hread.copies, hcopy]
          obtain ⟨after, halone, hsame⟩ := ih ((files.beginRead 0 dir).noteTime 0 dir)
          have hnoted : SameFiles files ((files.beginRead 0 dir).noteTime 0 dir) :=
            hread.trans (sameFiles_noteTime _ 0 dir)
          refine ⟨after, ?_, hnoted.trans hsame⟩
          simp only [Option.map_some, TaskProgram.stat, TaskProgram.perform, Async.alone_bind,
            Async.alone_perform, quietly_stat hcopy', Option.bind_some, halone, hnoted.matchesIn]
          simp [TaskFiles.matchesIn, hcopy]

theorem alone_removeStale (stale : List Match) (files : TaskFiles) :
    ∃ after, (removeStale stale).alone quietly files = some ((), after) ∧
      ∀ dir, after.copies dir =
        if dir ∈ stale.map (fun copy => copy.task.path) then none else files.copies dir := by
  induction stale generalizing files with
  | nil => exact ⟨files, rfl, fun dir => (if_neg List.not_mem_nil).symm⟩
  | cons stale others ih =>
      obtain ⟨after, halone, hcopies⟩ := ih (files.remove stale.task.path)
      refine ⟨after, halone, fun dir => ?_⟩
      simp only [hcopies, List.map_cons, List.mem_cons, TaskFiles.remove, Function.update_apply]
      by_cases hdir : dir = stale.task.path
      · simp only [hdir, true_or, if_true, ite_self]
      · simp only [hdir, false_or, if_false]

theorem map_path_matchesIn (files : TaskFiles) (dirs : List TaskStatus) :
    (files.matchesIn dirs).map (fun copy => copy.task.path) =
      dirs.filter fun dir => (files.copies dir).isSome := by
  induction dirs with
  | nil => rfl
  | cons dir dirs ih =>
      unfold TaskFiles.matchesIn at ih ⊢
      cases hcopy : files.copies dir with
      | none => simp [hcopy, ih]
      | some file => simp [hcopy, ih]

theorem newest_of_removed {files after : TaskFiles} {newest : Match} {stale : List Match}
    (hsorted : newestFirst (files.matchesIn STATUS_DIRS) = newest :: stale)
    (hcopies : ∀ dir, after.copies dir =
      if dir ∈ stale.map (fun copy => copy.task.path) then none else files.copies dir) :
    Newest after newest.task.path ⟨newest.task.document, newest.mtimeMs⟩ := by
  have hnodup : ((newest :: stale).map fun copy => copy.task.path).Nodup := by
    rw [← hsorted]
    exact ((List.perm_insertionSort _ _).map _).nodup_iff.mpr
      (map_path_matchesIn files STATUS_DIRS ▸ nodup_STATUS_DIRS.filter _)
  have hmem : ∀ copy, copy ∈ newest :: stale ↔ copy ∈ files.matchesIn STATUS_DIRS := by
    intro copy
    rw [← hsorted]
    exact mem_newestFirst
  have hnewest := (mem_matchesIn.mp ((hmem newest).mp List.mem_cons_self)).2
  constructor
  · rw [hcopies, if_neg (List.nodup_cons.mp hnodup).1, hnewest]
  · intro other copy hother hcopy
    rw [hcopies] at hcopy
    split at hcopy
    · cases hcopy
    · rename_i hkept
      have hfound : (⟨⟨copy.document, other⟩, copy.mtimeMs⟩ : Match) ∈ newest :: stale :=
        (hmem _).mpr (mem_matchesIn.mpr ⟨mem_STATUS_DIRS other, hcopy⟩)
      rcases List.mem_cons.mp hfound with heq | hstale
      · exact absurd (congrArg (fun copy : Match => copy.task.path) heq) hother
      · exact absurd (List.mem_map_of_mem hstale) hkept

theorem alone_get_current (files : TaskFiles) :
    ∃ after, Aof.get.alone quietly files = some (files.current, after) ∧
      after.current = files.current ∧
      ∀ dir, after.copies dir = files.copies dir ∨ after.copies dir = none := by
  obtain ⟨middle, halone, hsame⟩ := alone_findMatches STATUS_DIRS files
  simp only [Aof.get, Async.alone_bind, halone, Option.bind_some]
  split
  · rename_i hfew
    refine ⟨middle, ?_, ?_, fun dir => .inl (by rw [hsame.copies])⟩
    · rw [TaskFiles.current, newestFirst_of_few hfew]
      rfl
    · rw [TaskFiles.current, TaskFiles.current, hsame.matchesIn]
  · rename_i hmany
    obtain ⟨after, hremove, hcopies⟩ :=
      alone_removeStale (newestFirst (files.matchesIn STATUS_DIRS)).tail middle
    rw [Async.alone_bind, hremove]
    refine ⟨after, rfl, ?_, fun dir => ?_⟩
    swap
    · rw [hcopies, hsame.copies]
      exact (ite_eq_or_eq _ _ _).symm
    cases hsorted : newestFirst (files.matchesIn STATUS_DIRS) with
    | nil =>
        have hlength := (List.perm_insertionSort (fun a b : Match => b.mtimeMs ≤ a.mtimeMs)
          (files.matchesIn STATUS_DIRS)).length_eq
        rw [show (files.matchesIn STATUS_DIRS).insertionSort _ = [] from hsorted] at hlength
        rw [List.length_nil] at hlength
        omega
    | cons newest stale =>
        rw [hsorted, List.tail_cons, hsame.copies] at hcopies
        rw [TaskFiles.current, (newest_of_removed hsorted hcopies).head?_newestFirst,
          TaskFiles.current, hsorted]
        rfl

theorem alone_get (files : TaskFiles) : ∃ after, Aof.get.alone quietly files =
      some ((newestFirst (files.matchesIn STATUS_DIRS)).head?.map Match.task, after) := by
  obtain ⟨after, halone, -⟩ := alone_get_current files
  exact ⟨after, halone⟩

theorem Newest.alone_get (hnewest : Newest files dir file) :
    ∃ after, Aof.get.alone quietly files = some (some ⟨file.document, dir⟩, after) := by
  obtain ⟨after, halone⟩ := Aof.alone_get files
  exact ⟨after, by rw [halone, hnewest.head?_newestFirst, Option.map_some]⟩

end Aof

namespace Aof

open Relocation (moveOne moveAll Settles Full Filled full_moveOne moveAll_eq_some_iff
  isSome_moveAll_iff)
open TaskFiles (quietly)

def driftTarget (files : TaskFiles) (dir : TaskStatus) : Option TaskStatus := do
  let file ← files.copies dir
  if file.document.status ≠ dir then some file.document.status else none

variable {files : TaskFiles} {dir : TaskStatus} {file : TaskFile}

theorem driftTarget_eq_some {target : TaskStatus} : driftTarget files dir = some target ↔
      ∃ file, files.copies dir = some file ∧ file.document.status = target ∧ target ≠ dir := by
  simp only [driftTarget, Option.bind_eq_bind, Option.bind_eq_some_iff,
    Option.ite_none_right_eq_some, Option.some.injEq]
  constructor
  · rintro ⟨file, hcopy, hne, rfl⟩
    exact ⟨file, hcopy, rfl, hne⟩
  · rintro ⟨file, hcopy, rfl, hne⟩
    exact ⟨file, hcopy, hne, rfl⟩

theorem copies_renamed {source : TaskStatus} (hfile : (files.copies source).isSome)
    (target : TaskStatus) : (files.renamed source target).copies =
      Function.update (Function.update files.copies source none) target (files.copies source) := by
  have hcopy : files.copies source ≠ none := Option.isSome_iff_ne_none.mp hfile
  simp [TaskFiles.renamed, TaskFiles.quietly, TaskFiles.perform, hcopy, TaskFiles.move,
    TaskFiles.noteWrite]

theorem copies_foldl_renamed {target : TaskStatus → Option TaskStatus} {dirs : List TaskStatus}
    (hnodup : dirs.Nodup) (hfull : Full target dirs files.copies) :
    (dirs.foldl (fun files dir => ((target dir).map (files.renamed dir)).getD files) files).copies =
      moveAll target dirs files.copies := by
  induction dirs generalizing files with
  | nil => rfl
  | cons dir dirs ih =>
      obtain ⟨hnew, hnodup⟩ := List.nodup_cons.mp hnodup
      have hstep : (((target dir).map (files.renamed dir)).getD files).copies =
          moveOne target files.copies dir := by
        cases htarget : target dir with
        | none => rw [moveOne, htarget]; rfl
        | some status =>
            have hfile := hfull dir List.mem_cons_self (by rw [htarget]; rfl)
            rw [moveOne, htarget]
            exact copies_renamed hfile status
      have hrest := full_moveOne hfull hnew
      rw [← hstep] at hrest
      rw [List.foldl_cons, ih hnodup hrest, hstep]
      rfl

theorem full_driftTarget (files : TaskFiles) (dirs : List TaskStatus) :
    Full (driftTarget files) dirs files.copies := by
  intro dir _ hmoved
  obtain ⟨target, htarget⟩ := Option.isSome_iff_exists.mp hmoved
  obtain ⟨file, hcopy, -⟩ := driftTarget_eq_some.mp htarget
  rw [hcopy]
  rfl

theorem foldl_reconcileFile (issues : List StatusMismatch) (files : String → TaskFiles)
    (id : String) : issues.foldl reconcileFile files id =
      (issues.filter fun issue => issue.id = id).foldl
        (fun files issue => files.renamed issue.dir issue.status) (files id) := by
  induction issues generalizing files with
  | nil => rfl
  | cons issue issues ih =>
      rw [List.foldl_cons, ih, List.filter_cons]
      by_cases hid : issue.id = id
      · subst hid
        simp [reconcileFile]
      · simp [reconcileFile, hid, Function.update_of_ne (Ne.symm hid)]

theorem lintFile_eq (files : String → TaskFiles) (dir : TaskStatus) (id : String) :
    lintFile files dir id = (driftTarget (files id) dir).map (StatusMismatch.mk id dir) := by
  unfold lintFile driftTarget
  cases (files id).copies dir with
  | none => rfl
  | some file =>
      simp only [Option.bind_eq_bind, Option.bind_some]
      split <;> rfl

theorem lintFile_id {files : String → TaskFiles} {name : String} {issue : StatusMismatch}
    (hissue : lintFile files dir name = some issue) : issue.id = name := by
  rw [lintFile_eq] at hissue
  obtain ⟨status, -, rfl⟩ := Option.map_eq_some_iff.mp hissue
  rfl

theorem filter_lintFile (files : String → TaskFiles) (dir : TaskStatus) (id : String)
    {names : List String} (hnodup : names.Nodup) :
    (names.filterMap (lintFile files dir)).filter (fun issue => issue.id = id) =
      if id ∈ names then (lintFile files dir id).toList else [] := by
  induction names with
  | nil => rfl
  | cons name names ih =>
      obtain ⟨hnew, hnames⟩ := List.nodup_cons.mp hnodup
      rw [List.filterMap_cons]
      by_cases hname : id = name
      · subst hname
        rw [if_pos List.mem_cons_self]
        cases hissue : lintFile files dir id with
        | none => simp only [ih hnames, hnew, ↓reduceIte, Option.toList_none]
        | some issue =>
            simp only [List.filter_cons, lintFile_id hissue, decide_true, ↓reduceIte, ih hnames,
              hnew, Option.toList_some]
      · have hmem : id ∈ name :: names ↔ id ∈ names := by simp [hname]
        simp only [hmem]
        cases hissue : lintFile files dir name with
        | none => exact ih hnames
        | some issue =>
            have hne : issue.id ≠ id := fun h => hname (h.symm.trans (lintFile_id hissue))
            simp only [List.filter_cons, hne, decide_false, Bool.false_eq_true, ↓reduceIte]
            exact ih hnames

theorem filter_lintTasks (disk : TaskDisk) (id : String) :
    (lintTasks disk).filter (fun issue => issue.id = id) =
      STATUS_DIRS.flatMap fun dir => (lintFile disk.files dir id).toList := by
  rw [lintTasks, List.filter_flatMap]
  congr 1
  funext dir
  rw [filter_lintFile disk.files dir id (disk.nodup dir)]
  split
  · rfl
  · rename_i hname
    rw [disk.listed, Option.not_isSome_iff_eq_none] at hname
    rw [lintFile, hname]
    rfl

theorem copies_reconcileDrift (disk : TaskDisk) (id : String) : (reconcileDrift disk id).copies =
      moveAll (driftTarget (disk.files id)) STATUS_DIRS (disk.files id).copies := by
  rw [← copies_foldl_renamed nodup_STATUS_DIRS (full_driftTarget _ _), reconcileDrift,
    foldl_reconcileFile, filter_lintTasks, List.foldl_flatMap]
  congr 2
  funext files dir
  rw [lintFile_eq]
  cases driftTarget (disk.files id) dir <;> rfl

/-- The copy that a get would have selected. -/
def Selected (files : TaskFiles) (file : TaskFile) : Prop :=
  ∃ path after, Aof.get.alone quietly files = some (some ⟨file.document, path⟩, after) ∧
    files.copies path = some file

/-- Only the selected copy remains, in the directory of its status. -/
def RepairedAs (files after : TaskFiles) : Prop :=
  ∃ file, Selected files file ∧
    ∀ dir, after.copies dir = if dir = file.document.status then some file else none

/-- The newest copy reaches the directory of its status and stays there, and no other directory
ends up with a copy. -/
structure Repairable (files : TaskFiles) (newest : Match) : Prop where
  /-- The moves take it from the place of the newest copy to the directory of its status, and put
  nothing over it. -/
  settles : ∃ dir, files.copies dir = some ⟨newest.task.document, newest.mtimeMs⟩ ∧
    Settles (driftTarget files) STATUS_DIRS dir newest.task.document.status
  /-- A copy in the directory of its own status, which is left alone, lies in that directory. -/
  inPlace : ∀ dir file, files.copies dir = some file → file.document.status = dir →
    dir = newest.task.document.status
  /-- A copy that is moved elsewhere is put there early enough to be moved on, or over one that
  is. -/
  moved : ∀ dir file, files.copies dir = some file → file.document.status ≠ dir →
    file.document.status ≠ newest.task.document.status →
      [dir, file.document.status].Sublist STATUS_DIRS ∧
        (driftTarget files file.document.status).isSome

theorem selected_iff :
    Selected files file ↔ ∃ newest ∈ (newestFirst (files.matchesIn STATUS_DIRS)).head?,
      file = ⟨newest.task.document, newest.mtimeMs⟩ := by
  obtain ⟨after, halone⟩ := alone_get files
  constructor
  · rintro ⟨path, final, hget, hcopy⟩
    rw [halone, Option.some.injEq, Prod.mk.injEq, Option.map_eq_some_iff] at hget
    obtain ⟨⟨newest, hnewest, htask⟩, -⟩ := hget
    have hmem := mem_newestFirst.mp (List.mem_of_head? hnewest)
    have hfound := (mem_matchesIn.mp hmem).2
    rw [htask, hcopy] at hfound
    refine ⟨newest, hnewest, ?_⟩
    rw [htask]
    exact Option.some.inj hfound
  · rintro ⟨newest, hnewest, rfl⟩
    have hmem := mem_newestFirst.mp (List.mem_of_head? hnewest)
    refine ⟨newest.task.path, after, ?_, (mem_matchesIn.mp hmem).2⟩
    rw [halone, Option.mem_def.mp hnewest]
    rfl

theorem driftTarget_eq_none_iff (hcopy : files.copies dir = some file) :
    driftTarget files dir = none ↔ file.document.status = dir := by
  simp [driftTarget, hcopy]

theorem not_filled_iff : ¬ Filled (driftTarget files) STATUS_DIRS files.copies dir ↔
      (∀ file, files.copies dir = some file → file.document.status ≠ dir) ∧
        ∀ source file, files.copies source = some file → file.document.status = dir →
          dir ≠ source → [source, dir].Sublist STATUS_DIRS ∧ (driftTarget files dir).isSome := by
  unfold Filled
  rw [not_or]
  apply and_congr
  · constructor
    · intro hempty file hcopy hstatus
      apply hempty
      exact ⟨by rw [hcopy]; rfl, fun _ => (driftTarget_eq_none_iff hcopy).mpr hstatus⟩
    · rintro hmoved ⟨hsome, hstays⟩
      obtain ⟨file, hcopy⟩ := Option.isSome_iff_exists.mp hsome
      have hnone := hstays (mem_STATUS_DIRS dir)
      exact hmoved file hcopy ((driftTarget_eq_none_iff hcopy).mp hnone)
  · constructor
    · intro hempty source file hcopy hstatus hne
      have htarget : driftTarget files source = some dir :=
        driftTarget_eq_some.mpr ⟨file, hcopy, hstatus, hne⟩
      have hleaves : ¬ ([source, dir].Sublist STATUS_DIRS → driftTarget files dir = none) :=
        fun hstays => hempty ⟨source, mem_STATUS_DIRS source, htarget, hstays⟩
      rw [Classical.not_imp] at hleaves
      exact ⟨hleaves.1, Option.isSome_iff_ne_none.mpr hleaves.2⟩
    · rintro hleaves ⟨source, -, htarget, hstays⟩
      obtain ⟨file, hcopy, hstatus, hne⟩ := driftTarget_eq_some.mp htarget
      obtain ⟨hlater, hmoved⟩ := hleaves source file hcopy hstatus hne
      rw [hstays hlater] at hmoved
      cases hmoved

theorem moveAll_driftTarget_eq_none_iff :
    moveAll (driftTarget files) STATUS_DIRS files.copies dir = none ↔
      (∀ file, files.copies dir = some file → file.document.status ≠ dir) ∧
        ∀ source file, files.copies source = some file → file.document.status = dir →
          dir ≠ source → [source, dir].Sublist STATUS_DIRS ∧ (driftTarget files dir).isSome := by
  have hne : ∀ place, driftTarget files place ≠ some place := by
    intro place htarget
    obtain ⟨_, -, -, hother⟩ := driftTarget_eq_some.mp htarget
    exact hother rfl
  have hfull := full_driftTarget files STATUS_DIRS
  rw [← not_filled_iff, ← isSome_moveAll_iff hne nodup_STATUS_DIRS hfull,
    Option.not_isSome_iff_eq_none]

theorem repairable_iff {newest : Match} :
    Repairable files newest ↔
      ∀ dir, moveAll (driftTarget files) STATUS_DIRS files.copies dir =
        if dir = newest.task.document.status then some ⟨newest.task.document, newest.mtimeMs⟩
        else none := by
  have hsettles := moveAll_eq_some_iff nodup_STATUS_DIRS (full_driftTarget files STATUS_DIRS)
    newest.task.document.status
    ⟨newest.task.document, newest.mtimeMs⟩
  constructor
  · intro hrepairable dir
    split
    · rename_i hdir
      rw [hdir]
      exact hsettles.mpr hrepairable.settles
    · rename_i hdir
      rw [moveAll_driftTarget_eq_none_iff]
      constructor
      · exact fun file hcopy hstatus => hdir (hrepairable.inPlace dir file hcopy hstatus)
      · rintro source file hcopy rfl hsource
        exact hrepairable.moved source file hcopy hsource hdir
  · intro hrepaired
    have hothers := fun dir (hdir : dir ≠ newest.task.document.status) =>
      moveAll_driftTarget_eq_none_iff.mp ((hrepaired dir).trans (if_neg hdir))
    constructor
    · apply hsettles.mp
      rw [hrepaired, if_pos rfl]
    · intro dir file hcopy hstatus
      by_contra hdir
      exact (hothers dir hdir).1 file hcopy hstatus
    · intro dir file hcopy hmoved hother
      exact (hothers _ hother).2 dir file hcopy rfl hmoved

/-- The reconciliation leaves the copy that a get selects, and no other one, exactly when the newest
copy of each task is repairable. -/
theorem reconcileDrift_agrees_iff (disk : TaskDisk) :
    (∀ id dir file, (disk.files id).copies dir = some file →
      RepairedAs (disk.files id) (reconcileDrift disk id)) ↔
    ∀ id newest, newest ∈ (newestFirst ((disk.files id).matchesIn STATUS_DIRS)).head? →
      Repairable (disk.files id) newest := by
  constructor
  · intro hagrees id newest hnewest
    have hcopy := (mem_matchesIn.mp (mem_newestFirst.mp (List.mem_of_head? hnewest))).2
    obtain ⟨file, hselected, hrepaired⟩ := hagrees id _ _ hcopy
    obtain ⟨other, hother, rfl⟩ := selected_iff.mp hselected
    obtain rfl : newest = other := Option.some.inj (hnewest.symm.trans hother)
    rw [repairable_iff, ← copies_reconcileDrift]
    exact hrepaired
  · intro hrepairable id dir file hcopy
    have hmem : (⟨⟨file.document, dir⟩, file.mtimeMs⟩ : Match) ∈
        (disk.files id).matchesIn STATUS_DIRS := mem_matchesIn.mpr ⟨mem_STATUS_DIRS dir, hcopy⟩
    cases hsorted : newestFirst ((disk.files id).matchesIn STATUS_DIRS) with
    | nil =>
        rw [← mem_newestFirst, hsorted] at hmem
        cases hmem
    | cons newest stale =>
        have hnewest : newest ∈ (newestFirst ((disk.files id).matchesIn STATUS_DIRS)).head? := by
          rw [hsorted]
          rfl
        refine ⟨_, selected_iff.mpr ⟨newest, hnewest, rfl⟩, ?_⟩
        have hrepaired := repairable_iff.mp (hrepairable id newest hnewest)
        rw [← copies_reconcileDrift] at hrepaired
        exact hrepaired

def copyIn (status : TaskStatus) (mtimeMs : Nat) : TaskFile where
  document := { title := ⟨"t", by decide⟩, status, updatedAt := mtimeMs, lastTransitionAt := mtimeMs }
  mtimeMs := mtimeMs

/-- A transition from `backlog` to `ready` that stopped before it removed the old file. -/
def interrupted : TaskDisk where
  files id :=
    { copies := fun dir =>
        if id = "t" then
          match dir with
          | .backlog => some (copyIn .backlog 1)
          | .ready => some (copyIn .ready 2)
          | _ => none
        else none }
  listing dir := if dir = .backlog ∨ dir = .ready then ["t"] else []
  nodup := by
    intro dir
    split
    · exact List.nodup_singleton _
    · exact List.nodup_nil
  listed := by
    intro dir id
    by_cases hid : id = "t" <;> cases dir <;> simp [hid]

theorem reconcileDrift_interrupted (id : String) :
    (reconcileDrift interrupted id).copies = (interrupted.files id).copies := by
  rw [copies_reconcileDrift]
  by_cases hid : id = "t"
  · subst hid
    rfl
  · have hnone : ∀ dir, driftTarget (interrupted.files id) dir = none := by
      intro dir
      simp [driftTarget, interrupted, hid]
    simp [moveAll, STATUS_DIRS, moveOne, hnone]

/-- Both copies lie in the directories of their own status, and both remain. -/
theorem duplicates_remain : ¬ ∀ id dir file, (interrupted.files id).copies dir = some file →
      RepairedAs (interrupted.files id) (reconcileDrift interrupted id) := by
  intro hagrees
  obtain ⟨file, -, hrepaired⟩ := hagrees "t" .backlog (copyIn .backlog 1) rfl
  rw [reconcileDrift_interrupted] at hrepaired
  have hbacklog : TaskStatus.backlog = file.document.status := by
    by_contra hne
    have hnone := hrepaired .backlog
    rw [if_neg hne] at hnone
    cases hnone
  have hready : TaskStatus.ready = file.document.status := by
    by_contra hne
    have hnone := hrepaired .ready
    rw [if_neg hne] at hnone
    cases hnone
  cases hbacklog.trans hready.symm

end Aof
