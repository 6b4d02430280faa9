import Aof.Projects.Migration
import Mathlib.Logic.Function.Basic

/-!
# Where the legacy directories are

While a vault is migrated, each legacy directory lies at the root or in one of the backups that were
made, with the contents that it had in the legacy layout.
-/

namespace Aof.ProjectMigration

open DiskProgram DiskPath

theorem isBackupName_legacy {d : String} (hlegacy : d ∈ LEGACY_DIRS) : isBackupName d = false := by
  revert hlegacy
  revert d
  decide

/-- What lies at a path when some directories have been moved into backups. -/
def placed (layout : Disk) (moved : String → Option String) (made : List String) :
    DiskPath → Option Entry
  | [] => layout.get? []
  | [b] => if b ∈ made then some .dir else if (moved b).isSome then none else layout.get? [b]
  | b :: d :: rel =>
      if moved d = some b then layout.get? (d :: rel)
      else if (moved b).isSome then none
      else layout.get? (b :: d :: rel)

/-- The directories that were moved, and the backups that were made; nothing is said of what lies
aside. -/
structure Migrating (layout : Disk) (aside : List String) (moved : String → Option String)
    (made : List String) (disk : Disk) : Prop where
  lies : ∀ name rel, name ∉ aside →
    disk.get? (name :: rel) = placed layout moved made (name :: rel)
  legacy : ∀ d b, moved d = some b → d ∈ LEGACY_DIRS ∧ layout.get? [d] = some .dir ∧ b ∈ made
  backup : ∀ b ∈ made, isBackupName b = true

section Places

variable {layout disk after : Disk} {aside made : List String} {moved : String → Option String}
variable {b d : String}

namespace Migrating

theorem start (layout : Disk) (aside : List String) :
    Migrating layout aside (fun _ => none) [] layout where
  lies name rel _ := by cases rel <;> rfl
  legacy _ _ hmoved := nomatch hmoved
  backup _ hmem := nomatch hmem

variable (hmigrating : Migrating layout aside moved made disk)
include hmigrating

theorem frame
    (hsame : ∀ name rel, name ∉ aside → after.get? (name :: rel) = disk.get? (name :: rel)) :
    Migrating layout aside moved made after where
  lies name rel haside := (hsame name rel haside).trans (hmigrating.lies name rel haside)
  legacy := hmigrating.legacy
  backup := hmigrating.backup

theorem mono {aside' : List String} (haside : aside ⊆ aside') :
    Migrating layout aside' moved made disk where
  lies name rel hname := hmigrating.lies name rel fun hmem => hname (haside hmem)
  legacy := hmigrating.legacy
  backup := hmigrating.backup

theorem not_made (hlegacy : d ∈ LEGACY_DIRS) : d ∉ made := by
  intro hmem
  have hbackup := hmigrating.backup d hmem
  rw [isBackupName_legacy hlegacy] at hbackup
  cases hbackup

theorem moved_backup (hbackup : isBackupName b = true) : moved b = none := by
  rw [Option.eq_none_iff_forall_ne_some]
  intro b' hmoved
  have hlegacy := isBackupName_legacy (hmigrating.legacy b b' hmoved).1
  rw [hbackup] at hlegacy
  cases hlegacy

theorem unmoved (hlegacy : d ∈ LEGACY_DIRS) (hmoved : moved d = none) (rel : DiskPath) :
    placed layout moved made (d :: rel) = layout.get? (d :: rel) := by
  cases rel with
  | nil => simp [placed, hmigrating.not_made hlegacy, hmoved]
  | cons x rel =>
      have hne : moved x ≠ some d := fun hx =>
        hmigrating.not_made hlegacy (hmigrating.legacy x d hx).2.2
      simp [placed, hne, hmoved]

theorem get?_root (hlegacy : d ∈ LEGACY_DIRS) (haside : d ∉ aside)
    (hdir : layout.get? [d] = some .dir) : disk.get? [d] = some .dir ↔ moved d = none := by
  rw [hmigrating.lies d [] haside, placed, if_neg (hmigrating.not_made hlegacy), hdir]
  cases moved d <;> simp

theorem mkdir (hbackup : isBackupName b = true) (hmade : disk.mkdirs [b] = some after) :
    Migrating layout aside moved (b :: made) after where
  lies name rel haside := by
    rw [Disk.get?_mkdirs hmade]
    cases rel with
    | nil =>
        by_cases heq : name = b
        · simp [heq, placed]
        · rw [if_neg (by simp [below, heq]), hmigrating.lies name [] haside]
          simp [placed, heq]
    | cons x rel =>
        rw [if_neg (by simp [below]), hmigrating.lies name _ haside]
        rfl
  legacy d b hmoved := by
    obtain ⟨hd, hdir, hb⟩ := hmigrating.legacy d b hmoved
    exact ⟨hd, hdir, List.mem_cons_of_mem _ hb⟩
  backup b' hmem := by
    rcases List.mem_cons.mp hmem with rfl | hmem
    · exact hbackup
    · exact hmigrating.backup b' hmem

theorem rename_into (hd : d ∉ aside) (hlegacy : d ∈ LEGACY_DIRS)
    (hdir : layout.get? [d] = some .dir) (hmoved : moved d = none) (hb : b ∈ made) :
    Migrating layout aside (Function.update moved d (some b)) made (disk.rename [d] [b, d]) where
  lies name rel haside := by
    have hdb : d ≠ b := by
      rintro rfl
      exact hmigrating.not_made hlegacy hb
    have hnot : ∀ x, moved x ≠ some d := fun x hx =>
      hmigrating.not_made hlegacy (hmigrating.legacy x d hx).2.2
    rw [Disk.get?_rename]
    cases hbelow : below [b, d] (name :: rel) with
    | some tail =>
        obtain ⟨rfl, rfl⟩ := List.cons.inj (below_eq_some.mp hbelow)
        show disk.get? (d :: tail) = _
        rw [hmigrating.lies d tail hd, hmigrating.unmoved hlegacy hmoved]
        simp [placed]
    | none =>
        by_cases hname : name = d
        · subst hname
          rw [if_pos (by simp [below])]
          cases rel with
          | nil => simp [placed, hmigrating.not_made hlegacy]
          | cons x rel =>
              have hx : Function.update moved name (some b) x ≠ some name := by
                by_cases hx : x = name
                · simp [hx, hdb.symm]
                · simpa [hx] using hnot x
              simp [placed, hx]
        · rw [if_neg (by simp [below, Ne.symm hname]), hmigrating.lies name rel haside]
          cases rel with
          | nil => simp [placed, hname]
          | cons x rel =>
              have hx : Function.update moved d (some b) x = some name ↔ moved x = some name := by
                by_cases hx : x = d
                · subst hx
                  have hbn : b ≠ name := by
                    rintro rfl
                    simp [below] at hbelow
                  simp [hbn, hmoved]
                · simp [hx]
              simp only [placed, hx, Function.update_of_ne hname]
  legacy x b' hx := by
    by_cases hxd : x = d
    · subst hxd
      rw [Function.update_self, Option.some.injEq] at hx
      exact ⟨hlegacy, hdir, hx ▸ hb⟩
    · rw [Function.update_of_ne hxd] at hx
      exact hmigrating.legacy x b' hx
  backup := hmigrating.backup

theorem rename_back (hb : b ∉ aside) (hfree : ∀ rel, layout.get? (b :: rel) = none)
    (hmoved : moved d = some b) :
    Migrating layout aside (Function.update moved d none) made (disk.rename [b, d] [d]) where
  lies name rel haside := by
    obtain ⟨hlegacy, -, hmade⟩ := hmigrating.legacy d b hmoved
    have hnotMade := hmigrating.not_made hlegacy
    have hdb : d ≠ b := by
      rintro rfl
      exact hnotMade hmade
    have hnot : ∀ x, moved x ≠ some d := fun x hx =>
      hnotMade (hmigrating.legacy x d hx).2.2
    rw [Disk.get?_rename]
    cases hbelow : below [d] (name :: rel) with
    | some tail =>
        obtain ⟨rfl, hrel⟩ := List.cons.inj (below_eq_some.mp hbelow)
        obtain rfl : tail = rel := hrel.symm
        show disk.get? (b :: name :: tail) = _
        rw [hmigrating.lies b _ hb]
        cases tail with
        | nil => simp [placed, hmoved, hnotMade]
        | cons x rel =>
            have hx : Function.update moved name none x ≠ some name := by
              by_cases hx : x = name
              · simp [hx]
              · simpa [hx] using hnot x
            simp [placed, hmoved, hx]
    | none =>
        have hname : name ≠ d := by
          rintro rfl
          simp [below] at hbelow
        cases rel with
        | nil =>
            rw [if_neg (by simp [below]), hmigrating.lies name [] haside]
            simp [placed, hname]
        | cons x rel =>
            by_cases hin : name = b ∧ x = d
            · obtain ⟨rfl, rfl⟩ := hin
              rw [if_pos (by simp [below])]
              simp [placed, hfree]
            · have hout : ¬ (below [b, d] (name :: x :: rel)).isSome := by
                rw [Option.isSome_iff_exists]
                rintro ⟨tail, htail⟩
                have hpath := below_eq_some.mp htail
                simp only [List.cons_append, List.cons.injEq] at hpath
                exact hin ⟨hpath.1, hpath.2.1⟩
              rw [if_neg hout, hmigrating.lies name _ haside]
              have hx : Function.update moved d none x = some name ↔ moved x = some name := by
                by_cases hx : x = d
                · subst hx
                  have hbn : b ≠ name := fun h => hin ⟨h.symm, rfl⟩
                  simp [hmoved, hbn]
                · simp [hx]
              simp only [placed, hx, Function.update_of_ne hname]
  legacy x b' hx := by
    by_cases hxd : x = d
    · simp [hxd] at hx
    · rw [Function.update_of_ne hxd] at hx
      exact hmigrating.legacy x b' hx
  backup := hmigrating.backup

end Migrating

def movedTo (moved : String → Option String) (dirs : List String) (b : String) (d : String) :
    Option String :=
  if d ∈ dirs then some b else moved d

theorem movedTo_cons (moved : String → Option String) (d : String) (dirs : List String)
    (b : String) :
    movedTo (Function.update moved d (some b)) dirs b = movedTo moved (d :: dirs) b := by
  funext x
  by_cases hx : x = d <;> simp [movedTo, hx]

def Movable (layout : Disk) (aside : List String) (moved : String → Option String)
    (dirs : List String) : Prop :=
  ∀ d ∈ dirs, d ∉ aside ∧ d ∈ LEGACY_DIRS ∧ layout.get? [d] = some .dir ∧ moved d = none

theorem Movable.tail {rest : List String} (hdirs : Movable layout aside moved (d :: rest))
    (hnodup : (d :: rest).Nodup) :
    Movable layout aside (Function.update moved d (some b)) rest := by
  intro x hx
  obtain ⟨haside, hlegacy, hdir, hmoved⟩ := hdirs x (List.mem_cons_of_mem _ hx)
  have hne : x ≠ d := by
    rintro rfl
    exact (List.nodup_cons.mp hnodup).1 hx
  exact ⟨haside, hlegacy, hdir, by rw [Function.update_of_ne hne, hmoved]⟩

theorem stopsAt_moves {dirs : List String} (hmigrating : Migrating layout aside moved made disk)
    (hb : b ∈ made) (hnodup : dirs.Nodup) (hdirs : Movable layout aside moved dirs)
    (hstops : StopsAt (forEach (fun d => rename [d] [b, d]) dirs) disk after) :
    ∃ done, done <+: dirs ∧ Migrating layout aside (movedTo moved done b) made after := by
  induction dirs generalizing disk moved with
  | nil =>
      obtain rfl : after = disk := hstops
      exact ⟨[], List.prefix_rfl, hmigrating⟩
  | cons d rest ih =>
      obtain ⟨haside, hlegacy, hdir, hmoved⟩ := hdirs d List.mem_cons_self
      have hnext := hmigrating.rename_into haside hlegacy hdir hmoved hb
      rcases stopsAt_bind.mp hstops with hfirst | ⟨⟨⟩, middle, hfirst, hrest⟩
      · rcases stopsAt_rename.mp hfirst with rfl | ⟨-, rfl⟩
        · exact ⟨[], List.nil_prefix, hmigrating⟩
        · refine ⟨[d], List.prefix_append [d] rest, ?_⟩
          rw [← movedTo_cons]
          exact hnext
      · obtain ⟨-, rfl⟩ := finish_rename_eq_some.mp hfirst
        obtain ⟨done, hdone, hafter⟩ :=
          ih hnext (List.nodup_cons.mp hnodup).2 (hdirs.tail hnodup) hrest
        rw [movedTo_cons] at hafter
        exact ⟨d :: done, List.cons_prefix_cons.mpr ⟨rfl, hdone⟩, hafter⟩

theorem finish_moves {dirs : List String} (hmigrating : Migrating layout aside moved made disk)
    (hb : b ∈ made) (hnodup : dirs.Nodup) (hdirs : Movable layout aside moved dirs)
    (hfinish : finish (forEach (fun d => rename [d] [b, d]) dirs) disk = (some (), after)) :
    Migrating layout aside (movedTo moved dirs b) made after := by
  induction dirs generalizing disk moved with
  | nil =>
      obtain ⟨-, rfl⟩ := Prod.mk.inj hfinish
      exact hmigrating
  | cons d rest ih =>
      obtain ⟨haside, hlegacy, hdir, hmoved⟩ := hdirs d List.mem_cons_self
      obtain ⟨⟨⟩, middle, hfirst, hrest⟩ := finish_bind_eq_some.mp hfinish
      obtain ⟨-, rfl⟩ := finish_rename_eq_some.mp hfirst
      rw [← movedTo_cons]
      exact ih (hmigrating.rename_into haside hlegacy hdir hmoved hb)
        (List.nodup_cons.mp hnodup).2 (hdirs.tail hnodup) hrest

end Places

/-- The program only makes directories among the projects and writes files in the inbox. -/
def FillsInbox {α : Type} (program : DiskProgram α) : Prop :=
  program.Fills (fun p => ∃ rel, p = "Projects" :: rel)
    (fun p => ∃ name rel, p = INBOX ++ name :: rel)

variable {yaml : Yaml}

theorem fillsInbox_mkdir (rel : DiskPath) : FillsInbox (mkdir ("Projects" :: rel)) :=
  fills_mkdir ⟨rel, rfl⟩

theorem fillsInbox_bootstrapProject : FillsInbox (bootstrapProject INBOX) := by
  apply (fills_forEach _ fun dir => fillsInbox_mkdir _).bind
  intro _
  exact fills_forEach _ fun tier => fillsInbox_mkdir _

theorem fillsInbox_setUpInbox (withEvents : Bool) : FillsInbox (setUpInbox yaml withEvents) := by
  apply (fillsInbox_mkdir []).bind
  intro _
  apply fillsInbox_bootstrapProject.bind
  intro _
  apply (Fills.onlyIf fun _ => fillsInbox_mkdir _).bind
  exact fun _ => fills_writeFile ⟨"project.yaml", [], rfl⟩

theorem fillsInbox_updateTaskCard (projectId : String) (dryRun : Bool) (name : String)
    (rel : DiskPath) (stats : UpdateStats) :
    FillsInbox (updateTaskCard yaml projectId dryRun (INBOX ++ name :: rel) stats) := by
  apply fills_readFile.bind
  intro content
  split
  · trivial
  · apply Fills.bind
    · apply Fills.onlyIf
      intro _
      split
      · exact fills_writeFile ⟨name, rel, rfl⟩
      · trivial
    · exact fun _ => trivial

theorem fillsInbox_updateTaskCardFrontmatter (rel : DiskPath) (projectId : String) (dryRun : Bool) :
    FillsInbox (updateTaskCardFrontmatter yaml (INBOX ++ rel) projectId dryRun) := by
  apply Fills.bind (fills_stat.bind fun _ => fills_ret _)
  intro hasTasks
  split
  · apply fills_readdir.bind
    intro statusDirs
    apply fills_foldEach
    intro stats statusEntry
    unfold updateStatusDir
    split
    · apply fills_readdir.bind
      intro taskFiles
      apply fills_foldEach
      intro stats taskEntry
      split
      · simp only [List.append_assoc]
        cases rel with
        | nil => exact fillsInbox_updateTaskCard _ _ _ _ _
        | cons name rel => exact fillsInbox_updateTaskCard _ _ _ _ _
      · trivial
    · trivial
  · trivial

theorem fillsInbox_copyLegacyDir (dryRun : Bool) (backupPath : DiskPath) (stats : UpdateStats)
    (dir : String) : FillsInbox (copyLegacyDir yaml dryRun backupPath stats dir) := by
  apply Fills.bind
  · apply Fills.onlyIf
    intro _
    apply fills_depth.bind
    intro bound
    apply fills_copyTree
    · exact fun rel => ⟨"_inbox" :: dir :: rel, rfl⟩
    · exact fun name rel => ⟨dir, name :: rel, rfl⟩
  · intro _
    split
    · apply (fillsInbox_updateTaskCardFrontmatter _ _ _).bind
      exact fun _ => trivial
    · trivial

theorem fillsInbox_checkLegacyDirsExist : FillsInbox checkLegacyDirsExist :=
  fills_filter _ fun _ => fills_isDirectory

section Runs

variable {layout disk after : Disk} {made : List String} {moved : String → Option String}

theorem Migrating.frame_inbox {α : Type} {program : DiskProgram α}
    (hmigrating : Migrating layout ["Projects"] moved made disk)
    (hstops : StopsAt program disk after) (hfills : FillsInbox program) :
    Migrating layout ["Projects"] moved made after := by
  apply hmigrating.frame
  intro name rel hname
  rw [List.mem_singleton] at hname
  apply hstops.get?_eq hfills
  · rintro ⟨name', rel', hpath⟩
    exact hname (List.cons.inj hpath).1
  · rintro p ⟨rel', rfl⟩ -
    simp [below, hname]

def legacyDirsOf (disk : Disk) : List String := LEGACY_DIRS.filter fun dir => disk.isDir [dir]

theorem finish_checkLegacyDirsExist :
    finish checkLegacyDirsExist disk = (some (legacyDirsOf disk), disk) :=
  finish_filter _ fun _ => finish_isDirectory

theorem nodup_legacyDirsOf (disk : Disk) : (legacyDirsOf disk).Nodup :=
  List.Nodup.filter _ (by decide)

theorem mem_legacyDirsOf {d : String} :
    d ∈ legacyDirsOf disk ↔ d ∈ LEGACY_DIRS ∧ disk.get? [d] = some .dir := by
  simp [legacyDirsOf, Disk.isDir]

theorem not_projects_of_legacy {d : String} (hlegacy : d ∈ LEGACY_DIRS) : d ∉ ["Projects"] := by
  revert hlegacy
  revert d
  decide

theorem Migrating.movable (hmigrating : Migrating layout ["Projects"] moved made disk) :
    Movable layout ["Projects"] moved (legacyDirsOf disk) := by
  intro d hd
  obtain ⟨hlegacy, hdir⟩ := mem_legacyDirsOf.mp hd
  have haside := not_projects_of_legacy hlegacy
  have hlies := hmigrating.lies d [] haside
  rw [hdir, placed, if_neg (hmigrating.not_made hlegacy)] at hlies
  by_cases hmoved : (moved d).isSome
  · rw [if_pos hmoved] at hlies
    cases hlies
  · rw [if_neg hmoved] at hlies
    exact ⟨haside, hlegacy, hlies.symm, Option.not_isSome_iff_eq_none.mp hmoved⟩

theorem isBackupName_backup (timestamp : String) :
    isBackupName s!"tasks.backup-{timestamp}" = true := by
  simp [isBackupName, toString]

variable {timestamp : String}

theorem stopsAt_migrateLegacyDirs {inboxExists : Bool}
    (hmigrating : Migrating layout ["Projects"] moved made disk)
    (hstops : StopsAt (migrateLegacyDirs yaml {} timestamp (legacyDirsOf disk) inboxExists) disk
      after) : ∃ done made', done <+: legacyDirsOf disk ∧
      Migrating layout ["Projects"] (movedTo moved done s!"tasks.backup-{timestamp}") made' after := by
  have hnodup := nodup_legacyDirsOf disk
  have hmovable := hmigrating.movable
  generalize hdirs : legacyDirsOf disk = dirs at *
  rcases stopsAt_bind.mp hstops with hmkdir | ⟨⟨⟩, withBackup, hmkdir, hstops⟩
  · rcases stopsAt_mkdir.mp hmkdir with rfl | hmade
    · exact ⟨[], made, List.nil_prefix, hmigrating⟩
    · exact ⟨[], _, List.nil_prefix, hmigrating.mkdir (isBackupName_backup timestamp) hmade⟩
  · have hbackup := hmigrating.mkdir (isBackupName_backup timestamp)
      (finish_mkdir_eq_some.mp hmkdir)
    rcases stopsAt_bind.mp hstops with hmoves | ⟨⟨⟩, allMoved, hmoves, hstops⟩
    · obtain ⟨done, hdone, hafter⟩ :=
        stopsAt_moves hbackup List.mem_cons_self hnodup hmovable hmoves
      exact ⟨done, _, hdone, hafter⟩
    · have hmoved := finish_moves hbackup List.mem_cons_self hnodup hmovable hmoves
      refine ⟨dirs, _, List.prefix_rfl, hmoved.frame_inbox hstops ?_⟩
      apply (Fills.onlyIf fun _ => fillsInbox_setUpInbox _).bind
      intro _
      apply (fills_foldEach _ _ fun _ _ => fillsInbox_copyLegacyDir _ _ _ _).bind
      exact fun _ => trivial

theorem stopsAt_migrateToProjects (hmigrating : Migrating layout ["Projects"] moved made disk)
    (hstops : StopsAt (migrateToProjects yaml {} timestamp) disk after) :
    ∃ moved' made', Migrating layout ["Projects"] moved' made' after := by
  rcases stopsAt_bind.mp hstops with hcheck | ⟨dirs, same, hcheck, hstops⟩
  · exact ⟨moved, made, hmigrating.frame_inbox hcheck fillsInbox_checkLegacyDirsExist⟩
  · rw [finish_checkLegacyDirsExist, Prod.mk.injEq, Option.some.injEq] at hcheck
    obtain ⟨rfl, rfl⟩ := hcheck
    rcases stopsAt_bind.mp hstops with hinbox | ⟨inboxExists, same, hinbox, hstops⟩
    · exact ⟨moved, made, hmigrating.frame_inbox hinbox fills_isDirectory⟩
    · rw [finish_isDirectory, Prod.mk.injEq] at hinbox
      obtain ⟨-, rfl⟩ := hinbox
      split at hstops
      · refine ⟨moved, made, hmigrating.frame_inbox hstops ?_⟩
        split
        · trivial
        · apply (Fills.onlyIf fun _ => fillsInbox_setUpInbox _).bind
          exact fun _ => trivial
      · obtain ⟨done, made', -, hafter⟩ := stopsAt_migrateLegacyDirs hmigrating hstops
        exact ⟨_, made', hafter⟩

end Runs

end Aof.ProjectMigration
