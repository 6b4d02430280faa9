import Aof.Proof.MigrationPlaces

/-!
# What the rollback restores

The rollback looks at one backup.  When several runs were interrupted, each has moved a part of the
legacy directories into a backup of its own, and only those in the latest one come back.
-/

namespace Aof.ProjectMigration

open DiskProgram DiskPath

/-- Runs of the migration one after the other, each stopped anywhere, each with its own
timestamp. -/
inductive MigrationRuns (yaml : Yaml) (layout : Disk) : Disk → Prop
  | start : MigrationRuns yaml layout layout
  | run {disk after : Disk} (timestamp : String) (hruns : MigrationRuns yaml layout disk)
      (hstops : StopsAt (migrateToProjects yaml {} timestamp) disk after) :
      MigrationRuns yaml layout after

def LegacyRestored (layout disk : Disk) : Prop :=
  ∀ d ∈ LEGACY_DIRS, layout.get? [d] = some .dir →
    ∀ rel, disk.get? (d :: rel) = layout.get? (d :: rel)

def latestBackupOf (disk : Disk) : Option String := latestBackup ((disk.listing []).map Prod.fst)

variable {yaml : Yaml} {layout disk after : Disk} {aside made : List String}
variable {moved : String → Option String} {b d now : String}

theorem MigrationRuns.migrating (hruns : MigrationRuns yaml layout disk) :
    ∃ moved made, Migrating layout ["Projects"] moved made disk := by
  induction hruns with
  | start => exact ⟨_, _, Migrating.start layout _⟩
  | run timestamp _ hstops ih =>
      obtain ⟨moved, made, hmigrating⟩ := ih
      exact stopsAt_migrateToProjects hmigrating hstops

namespace Migrating

variable (hmigrating : Migrating layout aside moved made disk)
include hmigrating

theorem get?_backup (hbackup : isBackupName b = true) (haside : b ∉ aside)
    (hfree : ∀ rel, layout.get? (b :: rel) = none) (entry : Entry) :
    disk.get? [b, d] = some entry ↔ moved d = some b ∧ entry = .dir := by
  rw [hmigrating.lies b [d] haside, placed, hmigrating.moved_backup hbackup, hfree]
  by_cases hmoved : moved d = some b
  · rw [if_pos hmoved, (hmigrating.legacy d b hmoved).2.1]
    simp [hmoved, eq_comm]
  · simp [hmoved]

theorem dir_of_backup (hbackup : isBackupName b = true) (haside : b ∉ aside)
    (hmade : (disk.get? [b]).isSome) (hnew : layout.get? [b] = none) :
    disk.get? [b] = some .dir := by
  rw [hmigrating.lies b [] haside, placed, hmigrating.moved_backup hbackup, hnew] at hmade ⊢
  by_cases hin : b ∈ made
  · rw [if_pos hin]
  · rw [if_neg hin] at hmade
    cases hmade

theorem restored_iff (haside : ∀ d ∈ LEGACY_DIRS, d ∉ aside) : LegacyRestored layout disk ↔
      ∀ d ∈ LEGACY_DIRS, layout.get? [d] = some .dir → moved d = none := by
  apply forall₂_congr
  intro d hlegacy
  apply forall_congr'
  intro hdir
  constructor
  · intro hrestored
    rw [← hmigrating.get?_root hlegacy (haside d hlegacy) hdir, ← hdir]
    exact hrestored []
  · intro hmoved rel
    rw [hmigrating.lies d rel (haside d hlegacy), hmigrating.unmoved hlegacy hmoved]

end Migrating

theorem mem_of_latestBackup {names : List String} (hlatest : latestBackup names = some b) :
    b ∈ names ∧ isBackupName b = true := by
  have hmem := List.mem_of_mem_head? hlatest
  rw [List.mem_reverse, List.mem_insertionSort, List.mem_filter] at hmem
  exact hmem

theorem get?_of_latestBackupOf (hlatest : latestBackupOf disk = some b) :
    (disk.get? [b]).isSome ∧ isBackupName b = true := by
  obtain ⟨hmem, hbackup⟩ := mem_of_latestBackup hlatest
  obtain ⟨⟨name, entry⟩, hentry, rfl⟩ := List.mem_map.mp hmem
  have hget : disk.get? [name] = some entry := mem_listing.mp hentry
  exact ⟨by rw [hget]; rfl, hbackup⟩

theorem finish_findLatestBackup :
    finish findLatestBackup disk = (some (latestBackupOf disk), disk) := rfl

theorem head?_renamedInbox (now : String) : (renamedInboxOf now).toList.head? = some '_' := by
  simp [renamedInboxOf, toString]

theorem renamedInbox_ne (hlegacy : d ∈ "Projects" :: LEGACY_DIRS) : d ≠ renamedInboxOf now := by
  rintro rfl
  have hhead : ∀ d ∈ "Projects" :: LEGACY_DIRS, d.toList.head? ≠ some '_' := by decide
  exact hhead _ hlegacy (head?_renamedInbox now)

theorem legacy_not_aside (hlegacy : d ∈ LEGACY_DIRS) : d ∉ ["Projects", renamedInboxOf now] := by
  have hname := @renamedInbox_ne d now (List.mem_cons_of_mem _ hlegacy)
  have hprojects := not_projects_of_legacy hlegacy
  simpa [hname] using hprojects

theorem not_projects_of_backup (hbackup : isBackupName b = true) : b ∉ ["Projects"] := by
  rw [List.mem_singleton]
  rintro rfl
  revert hbackup
  decide

theorem backup_not_aside (hbackup : isBackupName b = true) :
    b ∉ ["Projects", renamedInboxOf now] := by
  have hname : b ≠ renamedInboxOf now := by
    rintro rfl
    obtain ⟨tail, htail⟩ := List.isPrefixOf_iff_prefix.mp hbackup
    have hhead := head?_renamedInbox now
    rw [← htail] at hhead
    revert hhead
    simp
  simpa [hname] using not_projects_of_backup hbackup

theorem finish_restoreItems {items restoredDirs : List String}
    (hmigrating : Migrating layout aside moved made disk) (hb : b ∉ aside)
    (hlegacyAside : ∀ d ∈ LEGACY_DIRS, d ∉ aside) (hfree : ∀ rel, layout.get? (b :: rel) = none)
    (hnodup : items.Nodup) (hitems : ∀ d ∈ items, moved d = some b) :
    ∃ restored after, finish (foldEach (restoreItem false b) restoredDirs items) disk =
        (some restored, after) ∧
      Migrating layout aside (fun d => if d ∈ items then none else moved d) made after := by
  induction items generalizing disk moved restoredDirs with
  | nil => exact ⟨restoredDirs, disk, rfl, by simpa using hmigrating⟩
  | cons d rest ih =>
      obtain ⟨hd, hrest⟩ := List.nodup_cons.mp hnodup
      have hmoved := hitems d List.mem_cons_self
      obtain ⟨hlegacy, hdir, hmade⟩ := hmigrating.legacy d b hmoved
      have haside := hlegacyAside d hlegacy
      have hsource : disk.get? [b, d] = some .dir := by
        rw [hmigrating.lies b [d] hb, placed, if_pos hmoved, hdir]
      have htarget : disk.get? [d] = none := by
        rw [hmigrating.lies d [] haside, placed, if_neg (hmigrating.not_made hlegacy), hmoved]
        rfl
      have hmoves : disk.moves [b, d] [d] = true :=
        moves_of_free hsource (List.cons_ne_nil _ _) htarget (List.cons_ne_nil _ _) rfl
          (by simp [below])
      have hitem : finish (restoreItem false b restoredDirs d) disk =
          (some (restoredDirs ++ [d]), disk.rename [b, d] [d]) := by
        rw [restoreItem, finish_bind_of_some (finish_found_eq_some finish_stat |>.mpr
          ⟨by simpa [Disk.stat] using hsource, rfl⟩), if_pos rfl]
        exact finish_bind_of_some (finish_rename_eq_some.mpr ⟨hmoves, rfl⟩)
      obtain ⟨restored, after, hfinish, hafter⟩ := ih
        (hmigrating.rename_back hb hfree hmoved) hrest (by
          intro x hx
          have hne : x ≠ d := by
            rintro rfl
            exact hd hx
          rw [Function.update_of_ne hne]
          exact hitems x (List.mem_cons_of_mem _ hx))
      refine ⟨restored, after, ?_, ?_⟩
      · rw [foldEach, finish_bind_of_some hitem]
        exact hfinish
      · have hsame : (fun x => if x ∈ d :: rest then none else moved x) =
            fun x => if x ∈ rest then none else Function.update moved d none x := by
          funext x
          by_cases hx : x = d <;> simp [hx]
        rw [hsame]
        exact hafter

theorem finish_putInboxAside (hmigrating : Migrating layout ["Projects"] moved made disk)
    (hfree : disk.get? [renamedInboxOf now] = none) :
    ∃ after, finish (onlyIf (disk.isDir INBOX) (rename INBOX [renamedInboxOf now])) disk =
        (some (), after) ∧ Migrating layout ["Projects", renamedInboxOf now] moved made after := by
  have hmono : Migrating layout ["Projects", renamedInboxOf now] moved made disk :=
    hmigrating.mono (by simp)
  cases hinbox : disk.isDir INBOX with
  | false => exact ⟨disk, rfl, hmono⟩
  | true =>
      refine ⟨disk.rename INBOX [renamedInboxOf now], ?_, hmono.frame ?_⟩
      · apply finish_rename_eq_some.mpr
        refine ⟨?_, rfl⟩
        have hdir : disk.get? INBOX = some .dir :=
          (Disk.isDir_iff.mp hinbox).resolve_left (List.cons_ne_nil _ _)
        exact moves_of_free hdir (List.cons_ne_nil _ _) hfree (List.cons_ne_nil _ _) rfl
          (by simp [INBOX, below])
      · intro name rel hname
        simp only [List.mem_cons, List.not_mem_nil, or_false, not_or] at hname
        rw [Disk.get?_rename]
        simp [INBOX, below, Ne.symm hname.1, Ne.symm hname.2]

theorem finish_restoreBackup (htree : layout.IsTree)
    (hmigrating : Migrating layout ["Projects"] moved made disk)
    (hfree : disk.get? [renamedInboxOf now] = none) (hbackup : isBackupName b = true)
    (hmade : (disk.get? [b]).isSome) (hnew : layout.get? [b] = none) :
    Migrating layout ["Projects", renamedInboxOf now]
      (fun d => if moved d = some b then none else moved d) made
      (finish (restoreBackup {} now b) disk).2 := by
  have hbFree : ∀ rel, layout.get? (b :: rel) = none :=
    htree.get?_append hnew (List.cons_ne_nil _ _)
  have hbAside := @backup_not_aside b now hbackup
  obtain ⟨put, hput, hputAside⟩ := finish_putInboxAside hmigrating hfree
  have hputMade : (put.get? [b]).isSome := by
    rw [hputAside.lies b [] hbAside, ← hmigrating.lies b [] (not_projects_of_backup hbackup)]
    exact hmade
  have hdir : put.isDir [b] = true :=
    Disk.isDir_iff.mpr (Or.inr (hputAside.dir_of_backup hbackup hbAside hputMade hnew))
  have hitems : ∀ d, d ∈ (put.listing [b]).map Prod.fst ↔ moved d = some b := by
    intro d
    rw [List.mem_map]
    constructor
    · rintro ⟨⟨name, entry⟩, hentry, rfl⟩
      exact ((hputAside.get?_backup hbackup hbAside hbFree entry).mp (mem_listing.mp hentry)).1
    · intro hmoved
      exact ⟨(d, .dir), mem_listing.mpr
        ((hputAside.get?_backup hbackup hbAside hbFree .dir).mpr ⟨hmoved, rfl⟩), rfl⟩
  obtain ⟨restored, after, hrestore, hafter⟩ := @finish_restoreItems _ _ _ _ _ _ _ []
    hputAside hbAside (fun _ => legacy_not_aside) hbFree (nodup_listing put [b])
    fun d hd => (hitems d).mp hd
  have hfinish : (finish (restoreBackup {} now b) disk).2 = after := by
    rw [restoreBackup, finish_bind_of_some finish_isDirectory]
    simp only [Bool.not_false, Bool.and_true]
    rw [finish_bind_of_some hput,
      finish_bind_of_some (finish_readdir_eq_some.mpr ⟨⟨hdir, rfl⟩, rfl⟩),
      finish_bind_of_some hrestore]
    rfl
  rw [hfinish]
  simpa only [hitems] using hafter

/-- The rollback restores the legacy directories exactly if each of them is still at the root or in
the backup that it finds. -/
theorem rollback_restores_iff (htree : layout.IsTree) (hruns : MigrationRuns yaml layout disk)
    (now : String) (hlatest : ∀ b, latestBackupOf disk = some b → layout.get? [b] = none)
    (hfree : disk.get? [renamedInboxOf now] = none) :
    LegacyRestored layout (finish (rollbackMigration {} now) disk).2 ↔
      ∀ d ∈ LEGACY_DIRS, layout.get? [d] = some .dir → disk.get? [d] = some .dir ∨
          ∃ b, latestBackupOf disk = some b ∧ disk.get? [b, d] = some .dir := by
  obtain ⟨moved, made, hmigrating⟩ := hruns.migrating
  have hroot : ∀ d ∈ LEGACY_DIRS, layout.get? [d] = some .dir →
      (disk.get? [d] = some .dir ↔ moved d = none) := fun d hlegacy hdir =>
    hmigrating.get?_root hlegacy (not_projects_of_legacy hlegacy) hdir
  rw [rollbackMigration, chooseBackup, finish_bind_of_some finish_findLatestBackup]
  cases hbackup : latestBackupOf disk with
  | none =>
      show LegacyRestored layout disk ↔ _
      rw [hmigrating.restored_iff fun d => not_projects_of_legacy]
      apply forall₂_congr
      intro d hlegacy
      apply forall_congr'
      intro hdir
      simp [hroot d hlegacy hdir]
  | some b =>
      obtain ⟨hmade, hisBackup⟩ := get?_of_latestBackupOf hbackup
      have hnew := hlatest b hbackup
      have haside := not_projects_of_backup hisBackup
      have hdir : disk.isDir [b] = true :=
        Disk.isDir_iff.mpr (Or.inr (hmigrating.dir_of_backup hisBackup haside hmade hnew))
      simp only [finish_bind_of_some finish_isDirectory, hdir, if_true]
      rw [(finish_restoreBackup htree hmigrating hfree hisBackup hmade hnew).restored_iff
        fun _ => legacy_not_aside]
      apply forall₂_congr
      intro d hlegacy
      apply forall_congr'
      intro hlayout
      have hin := hmigrating.get?_backup (d := d) hisBackup haside
        (htree.get?_append hnew (List.cons_ne_nil _ _)) .dir
      simp only [Option.some.injEq, exists_eq_left', hroot d hlegacy hlayout, hin, and_true]
      by_cases hmoved : moved d = some b <;> simp [hmoved]

def legacyVault : Disk :=
  Disk.putAll Dict.empty [] [(["tasks"], .dir), (["tasks", "backlog"], .dir), (["events"], .dir),
    (["events", "today.jsonl"], .file "{}")]

def stoppedRun (timestamp : String) (disk : Disk) : Disk :=
  stoppedAfter 7 (migrateToProjects ⟨fun _ => none, fun _ => ""⟩ {} timestamp) disk

theorem stoppedRun_runs {timestamp : String}
    (hruns : MigrationRuns ⟨fun _ => none, fun _ => ""⟩ layout disk) :
    MigrationRuns ⟨fun _ => none, fun _ => ""⟩ layout (stoppedRun timestamp disk) :=
  hruns.run timestamp (stopsAt_stoppedAfter 7 _ _)

/-- After one interrupted run the rollback restores what it had moved. -/
theorem rollback_restores_example : LegacyRestored legacyVault
      (finish (rollbackMigration {} "3") (stoppedRun "1" legacyVault)).2 := by
  have hbackup : latestBackupOf (stoppedRun "1" legacyVault) = some "tasks.backup-1" := by decide
  apply (rollback_restores_iff (by decide) (stoppedRun_runs .start) "3" _ (by decide)).mpr
  · intro d hlegacy hdir
    simp only [LEGACY_DIRS, List.mem_cons, List.not_mem_nil, or_false] at hlegacy
    rcases hlegacy with rfl | rfl | rfl | rfl
    · exact Or.inr ⟨"tasks.backup-1", hbackup, by decide⟩
    · exact Or.inl (by decide)
    · exact absurd hdir (by decide)
    · exact absurd hdir (by decide)
  · intro b hlatest
    obtain rfl := Option.some.inj (hbackup.symm.trans hlatest)
    decide

/-- After two interrupted runs the first directory stays in the first backup. -/
theorem first_backup_forgotten : MigrationRuns ⟨fun _ => none, fun _ => ""⟩ legacyVault
        (stoppedRun "2" (stoppedRun "1" legacyVault)) ∧ ¬ LegacyRestored legacyVault
        (finish (rollbackMigration {} "3") (stoppedRun "2" (stoppedRun "1" legacyVault))).2 := by
  refine ⟨stoppedRun_runs (stoppedRun_runs .start), fun hrestored => ?_⟩
  have htasks := hrestored "tasks" (by decide) (by decide) []
  revert htasks
  decide

end Aof.ProjectMigration
