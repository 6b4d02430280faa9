import Aof.Proof.InboxContents

/-!
# Runs after an interrupted run

What a run of the migration brings into the inbox is decided by the legacy directories that it finds
at the root.  After an interrupted run these are not all that there were, and once the inbox has been
begun and none is left, the next run takes the migration for done.
-/

namespace Aof.ProjectMigration

open DiskProgram DiskPath Disk

variable {yaml : Yaml} {layout disk : Disk} {done dirs made : List String} {old : Contents}

variable {after : Disk} {rel : DiskPath} {path : String → DiskPath} {withEvents : Bool} {d : String}

theorem get?_inbox_of_mkdir (hmade : disk.mkdirs (INBOX ++ rel) = some after) :
    after.get? INBOX = some .dir := by
  rw [get?_mkdirs hmade, if_pos]
  exact ⟨List.cons_ne_nil _ _, by simp [INBOX]⟩

theorem get?_inbox_of_fillsInbox {α : Type} {program : DiskProgram α}
    (hstops : StopsAt program disk after) (hfills : FillsInbox program)
    (hinbox : disk.get? INBOX = some .dir) : after.get? INBOX = some .dir := by
  apply hstops.get?_dir hfills _ hinbox
  rintro ⟨name, rel, hpath⟩
  simp at hpath

theorem fillsInbox_makeDirs (items : List String) (path : String → DiskPath) :
    FillsInbox (forEach (fun item => mkdir (INBOX ++ path item)) items) :=
  fills_forEach _ fun _ => fillsInbox_mkdir _

theorem get?_inbox_of_makeDirs {after : Disk} {item : String} {rest : List String}
    {path : String → DiskPath}
    (hfinish : finish (forEach (fun item => mkdir (INBOX ++ path item)) (item :: rest)) disk =
      (some (), after)) : after.get? INBOX = some .dir := by
  obtain ⟨⟨⟩, middle, hfirst, hrest⟩ := finish_bind_eq_some.mp hfinish
  apply get?_inbox_of_fillsInbox (stopsAt_of_finish hrest) (fillsInbox_makeDirs rest path)
  exact get?_inbox_of_mkdir (finish_mkdir_eq_some.mp hfirst)

theorem stopsAt_makeDirs {items : List String}
    (hstops : StopsAt (forEach (fun item => mkdir (INBOX ++ path item)) items) disk after) :
    after = disk ∨ after.get? INBOX = some .dir := by
  cases items with
  | nil => exact Or.inl hstops
  | cons item rest =>
      rcases stopsAt_bind.mp hstops with hfirst | ⟨⟨⟩, middle, hfirst, hrest⟩
      · exact (stopsAt_mkdir.mp hfirst).imp id get?_inbox_of_mkdir
      · right
        apply get?_inbox_of_fillsInbox hrest (fillsInbox_makeDirs rest path)
        exact get?_inbox_of_mkdir (finish_mkdir_eq_some.mp hfirst)

theorem stopsAt_setUpInbox (hstops : StopsAt (setUpInbox yaml withEvents) disk after) :
    inboxOf after = inboxOf disk ∨ after.get? INBOX = some .dir := by
  rcases stopsAt_bind.mp hstops with hprojects | ⟨⟨⟩, d₁, hprojects, hrest⟩
  · left
    rcases stopsAt_mkdir.mp hprojects with rfl | hmade
    · rfl
    · exact inboxOf_mkdir_root hmade
  · rw [← inboxOf_mkdir_root (finish_mkdir_eq_some.mp hprojects)]
    rcases stopsAt_bind.mp hrest with hboot | ⟨⟨⟩, d₂, hboot, hrest⟩
    · rcases stopsAt_bind.mp hboot with hdirs | ⟨⟨⟩, d₃, hdirs, htiers⟩
      · exact (stopsAt_makeDirs hdirs).imp (congrArg inboxOf) id
      · right
        apply get?_inbox_of_fillsInbox htiers (fillsInbox_makeDirs _ _)
        exact get?_inbox_of_makeDirs hdirs
    · right
      apply get?_inbox_of_fillsInbox hrest
      · apply (Fills.onlyIf fun _ => fillsInbox_mkdir _).bind
        exact fun _ => fills_writeFile ⟨"project.yaml", [], rfl⟩
      · obtain ⟨⟨⟩, d₃, hdirs, htiers⟩ := finish_bind_eq_some.mp hboot
        apply get?_inbox_of_fillsInbox (stopsAt_of_finish htiers) (fillsInbox_makeDirs _ _)
        exact get?_inbox_of_makeDirs hdirs

/-- Where a first run may be stopped: before the inbox is begun, with a part of the directories moved,
or later, with all of them moved. -/
theorem stopsAt_first_run {timestamp : String}
    (hstops : StopsAt (migrateToProjects yaml {} timestamp) layout disk) :
    ∃ done backup made, done <+: legacyDirsOf layout ∧
      Migrating layout ["Projects"] (movedTo (fun _ => none) done backup) made disk ∧
      (inboxOf disk = inboxOf layout ∨
        (done = legacyDirsOf layout ∧ disk.get? INBOX = some .dir)) := by
  have hstart := Migrating.start layout ["Projects"]
  have hsame : (∀ r, disk.get? r = layout.get? r) →
      ∃ done backup made, done <+: legacyDirsOf layout ∧
        Migrating layout ["Projects"] (movedTo (fun _ => none) done backup) made disk ∧
        (inboxOf disk = inboxOf layout ∨
          (done = legacyDirsOf layout ∧ disk.get? INBOX = some .dir)) := by
    intro hget
    refine ⟨[], "", [], List.nil_prefix, hstart.frame fun name rel _ => hget _, Or.inl ?_⟩
    exact funext fun rel => hget _
  rcases stopsAt_bind.mp hstops with hcheck | ⟨dirs, d₁, hcheck, hstops⟩
  · exact hsame (hcheck.get?_of_reads (fills_filter _ fun _ => fills_isDirectory))
  rw [finish_checkLegacyDirsExist, Prod.mk.injEq, Option.some.injEq] at hcheck
  obtain ⟨rfl, rfl⟩ := hcheck
  rcases stopsAt_bind.mp hstops with hinbox | ⟨inboxExists, d₂, hinbox, hstops⟩
  · exact hsame (hinbox.get?_of_reads fills_isDirectory)
  rw [finish_isDirectory, Prod.mk.injEq] at hinbox
  obtain ⟨-, rfl⟩ := hinbox
  have hnodup := nodup_legacyDirsOf layout
  have hmovable := hstart.movable
  by_cases hempty : legacyDirsOf layout = []
  · -- nothing to move: the inbox is set up, or it is there
    rw [if_pos hempty] at hstops
    split at hstops
    · obtain rfl := hstops
      exact hsame fun _ => rfl
    · rcases stopsAt_bind.mp hstops with hsetUp | ⟨⟨⟩, d₃, hsetUp, hend⟩
      · refine ⟨[], "", [], List.nil_prefix, hstart.frame_inbox hsetUp (fillsInbox_setUpInbox _), ?_⟩
        rw [hempty]
        exact (stopsAt_setUpInbox hsetUp).imp id fun h => ⟨rfl, h⟩
      · obtain rfl : disk = d₃ := hend
        have hsetUp := stopsAt_of_finish hsetUp
        refine ⟨[], "", [], List.nil_prefix, hstart.frame_inbox hsetUp (fillsInbox_setUpInbox _), ?_⟩
        rw [hempty]
        exact (stopsAt_setUpInbox hsetUp).imp id fun h => ⟨rfl, h⟩
  · rw [if_neg hempty] at hstops
    rcases stopsAt_bind.mp hstops with hmkdir | ⟨⟨⟩, d₃, hmkdir, hstops⟩
    · rcases stopsAt_mkdir.mp hmkdir with rfl | hmade
      · exact hsame fun _ => rfl
      · exact ⟨[], "", _, List.nil_prefix, hstart.mkdir (isBackupName_backup timestamp) hmade,
          Or.inl (inboxOf_mkdir_root hmade)⟩
    have hmade := finish_mkdir_eq_some.mp hmkdir
    have hbackup := hstart.mkdir (isBackupName_backup timestamp) hmade
    have hnoProjects : ∀ d ∈ legacyDirsOf layout, d ≠ "Projects" := fun d => legacy_ne_projects
    rcases stopsAt_bind.mp hstops with hmoves | ⟨⟨⟩, d₄, hmoves, hstops⟩
    · obtain ⟨done, hdone, hafter⟩ :=
        stopsAt_moves hbackup List.mem_cons_self hnodup hmovable hmoves
      refine ⟨done, _, _, hdone, hafter, Or.inl ?_⟩
      rw [inboxOf_moves (backup_ne_projects timestamp) hnoProjects hmoves, inboxOf_mkdir_root hmade]
    have hmoved := finish_moves hbackup List.mem_cons_self hnodup hmovable hmoves
    have hinbox : inboxOf d₄ = inboxOf layout := by
      rw [inboxOf_moves (backup_ne_projects timestamp) hnoProjects (stopsAt_of_finish hmoves),
        inboxOf_mkdir_root hmade]
    refine ⟨_, _, _, List.prefix_rfl, hmoved.frame_inbox hstops ?_, ?_⟩
    · apply (Fills.onlyIf fun _ => fillsInbox_setUpInbox _).bind
      intro _
      apply (fills_foldEach _ _ fun _ _ => fillsInbox_copyLegacyDir _ _ _ _).bind
      exact fun _ => trivial
    · rcases stopsAt_bind.mp hstops with hsetUp | ⟨⟨⟩, d₅, hsetUp, hstops⟩
      · rw [← hinbox]
        exact (stopsAt_setUpInbox hsetUp).imp id fun h => ⟨rfl, h⟩
      · refine Or.inr ⟨rfl, get?_inbox_of_fillsInbox hstops ?_ (get?_inbox_of_setUp hsetUp)⟩
        apply (fills_foldEach _ _ fun _ _ => fillsInbox_copyLegacyDir _ _ _ _).bind
        exact fun _ => trivial

theorem setUp_events (hrel : rel ≠ ["events"]) :
    setUp yaml withEvents old rel = setUp yaml false old rel := by
  cases withEvents with
  | false => rfl
  | true => simp [setUp, inboxDirs, hrel]

theorem broughtDir_events (hdir : layout.get? [d] = some .dir) :
    broughtDir yaml layout (setUp yaml withEvents old) d =
      broughtDir yaml layout (setUp yaml false old) d := by
  have hover : (fun rel => (layout.get? (d :: rel)).or (setUp yaml withEvents old (d :: rel))) =
      fun rel => (layout.get? (d :: rel)).or (setUp yaml false old (d :: rel)) := by
    funext rel
    cases rel with
    | nil => rw [hdir, Option.some_or, Option.some_or]
    | cons name rel => rw [setUp_events (by simp)]
  unfold broughtDir
  rw [hover]

theorem broughtDir_congr {other : Disk}
    (hsame : ∀ rel, other.get? (d :: rel) = layout.get? (d :: rel)) :
    broughtDir yaml other old d = broughtDir yaml layout old d := by
  unfold broughtDir
  simp only [hsame]

/-- What the directory brings into an inbox that has just been set up is there already. -/
def BringsNothing (yaml : Yaml) (layout : Disk) (d : String) : Prop :=
  ∀ rel, broughtDir yaml layout (setUp yaml false (inboxOf layout)) d rel =
    setUp yaml false (inboxOf layout) (d :: rel)

/-- If the next run finds an inbox and no legacy directory, then the inbox is complete; otherwise
what was moved before brings nothing. -/
def Resumable (yaml : Yaml) (layout disk : Disk) : Prop :=
  if legacyDirsOf disk = [] ∧ disk.isDir INBOX = true then inboxOf disk = migrated yaml layout
  else ∀ d ∈ legacyDirsOf layout, d ∉ legacyDirsOf disk → BringsNothing yaml layout d

section NextRun

variable {backup : String}

section

variable
  (hmigrating : Migrating layout ["Projects"] (movedTo (fun _ => none) done backup) made disk)
include hmigrating

theorem mem_legacyDirsOf_moved {d : String} :
    d ∈ legacyDirsOf disk ↔ d ∈ legacyDirsOf layout ∧ d ∉ done := by
  constructor
  · intro hd
    obtain ⟨-, hlegacy, hdir, hmoved⟩ := hmigrating.movable d hd
    refine ⟨mem_legacyDirsOf.mpr ⟨hlegacy, hdir⟩, fun hdone => ?_⟩
    rw [movedTo, if_pos hdone] at hmoved
    cases hmoved
  · rintro ⟨hd, hdone⟩
    obtain ⟨hlegacy, hdir⟩ := mem_legacyDirsOf.mp hd
    rw [mem_legacyDirsOf, hmigrating.get?_root hlegacy (not_projects_of_legacy hlegacy) hdir]
    exact ⟨hlegacy, if_neg hdone⟩

theorem get?_unmoved {d : String} (hd : d ∈ legacyDirsOf disk) (rel : DiskPath) :
    disk.get? (d :: rel) = layout.get? (d :: rel) := by
  obtain ⟨haside, hlegacy, -, hmoved⟩ := hmigrating.movable d hd
  rw [hmigrating.lies d rel haside, hmigrating.unmoved hlegacy hmoved]

end

theorem migrated_of_unfinished (hunfinished : ¬ (legacyDirsOf layout = [] ∧
    layout.isDir INBOX = true)) : migrated yaml layout = brought yaml layout (legacyDirsOf layout)
      (setUp yaml ((legacyDirsOf layout).contains "events") (inboxOf layout)) :=
  if_neg hunfinished

theorem isDir_inbox_congr (hinbox : inboxOf disk = inboxOf layout) :
    disk.isDir INBOX = layout.isDir INBOX := by
  have hroot := congrFun hinbox []
  simp only [inboxOf, List.append_nil] at hroot
  simp [isDir, hroot]

theorem migrated_eq_iff
    (hmigrating : Migrating layout ["Projects"] (movedTo (fun _ => none) done backup) made disk)
    (hinbox : inboxOf disk = inboxOf layout)
    (hunfinished : ¬ (legacyDirsOf disk = [] ∧ disk.isDir INBOX = true)) :
    migrated yaml disk = migrated yaml layout ↔
      ∀ d ∈ legacyDirsOf layout, d ∉ legacyDirsOf disk → BringsNothing yaml layout d := by
  have hmem := @mem_legacyDirsOf_moved layout disk done made backup hmigrating
  have hlayout : ¬ (legacyDirsOf layout = [] ∧ layout.isDir INBOX = true) := by
    rintro ⟨hempty, hdir⟩
    apply hunfinished
    rw [isDir_inbox_congr hinbox]
    refine ⟨List.eq_nil_iff_forall_not_mem.mpr fun d hd => ?_, hdir⟩
    have hin := (hmem.mp hd).1
    rw [hempty] at hin
    cases hin
  rw [migrated_of_unfinished hunfinished, migrated_of_unfinished hlayout, hinbox]
  -- the events directory of the inbox depends on what is brought in
  have hbrought : ∀ d ∈ legacyDirsOf layout, ∀ withEvents,
      broughtDir yaml layout (setUp yaml withEvents (inboxOf layout)) d =
        broughtDir yaml layout (setUp yaml false (inboxOf layout)) d := fun d hd withEvents =>
    broughtDir_events (mem_legacyDirsOf.mp hd).2
  have hsetUp : ∀ {dirs : List String} {d : String} (rel : DiskPath), d ∉ dirs →
      setUp yaml (dirs.contains "events") (inboxOf layout) (d :: rel) =
        setUp yaml false (inboxOf layout) (d :: rel) := by
    intro dirs d rel hd
    by_cases hrel : d :: rel = ["events"]
    · obtain ⟨rfl, rfl⟩ := List.cons.inj hrel
      rw [show dirs.contains "events" = false by simpa using hd]
    · exact setUp_events hrel
  constructor
  · intro hsame d hd hmoved rel
    have hrel := congrFun hsame (d :: rel)
    simp only [brought, if_neg hmoved, if_pos hd] at hrel
    rw [hbrought d hd, hsetUp rel hmoved] at hrel
    exact hrel.symm
  · intro hnothing
    funext rel
    cases rel with
    | nil =>
        simp only [brought]
        rw [setUp_events (by simp), ← setUp_events (by simp)]
    | cons d rel =>
        by_cases hleft : d ∈ legacyDirsOf disk
        · have hd := (hmem.mp hleft).1
          simp only [brought, if_pos hleft, if_pos hd]
          rw [broughtDir_congr (get?_unmoved hmigrating hleft)]
          exact congrFun ((hbrought d hd _).trans (hbrought d hd _).symm) rel
        · by_cases hd : d ∈ legacyDirsOf layout
          · simp only [brought, if_neg hleft, if_pos hd]
            rw [hbrought d hd, hsetUp rel hleft, hnothing d hd hleft rel]
          · simp only [brought, if_neg hleft, if_neg hd]
            rw [hsetUp rel hleft, hsetUp rel hd]

end NextRun

/-- After an interrupted run, the next one leaves the inbox that an uninterrupted one would have left
exactly if it can be resumed from there. -/
theorem rerun_agrees_iff (htree : layout.IsTree) {first second : String}
    (hstops : StopsAt (migrateToProjects yaml {} first) layout disk)
    (hwhole : (finish (migrateToProjects yaml {} first) layout).1.isSome = true)
    (hrerun : (finish (migrateToProjects yaml {} second) disk).1.isSome = true) :
    inboxOf (finish (migrateToProjects yaml {} second) disk).2 =
        inboxOf (finish (migrateToProjects yaml {} first) layout).2 ↔
      Resumable yaml layout disk := by
  obtain ⟨done, backup, made, hdone, hmigrating, hphase⟩ := stopsAt_first_run hstops
  obtain ⟨result, hresult⟩ := Option.isSome_iff_exists.mp hwhole
  obtain ⟨again, hagain⟩ := Option.isSome_iff_exists.mp hrerun
  have htrees : ∀ d, TreeBelow layout [d] := fun d =>
    treeBelow_of_isTree htree (List.cons_ne_nil _ _)
  rw [inboxOf_migrateToProjects (fun d _ => htrees d) (Prod.ext hresult rfl),
    inboxOf_migrateToProjects _ (Prod.ext hagain rfl), Resumable]
  · by_cases hfound : legacyDirsOf disk = [] ∧ disk.isDir INBOX = true
    · rw [if_pos hfound, migrated, if_pos hfound]
    · rw [if_neg hfound]
      apply migrated_eq_iff hmigrating _ hfound
      rcases hphase with hinbox | ⟨rfl, hdir⟩
      · exact hinbox
      · refine absurd ⟨?_, isDir_iff.mpr (Or.inr hdir)⟩ hfound
        apply List.eq_nil_iff_forall_not_mem.mpr
        intro d hd
        obtain ⟨hdir, hmoved⟩ := (mem_legacyDirsOf_moved hmigrating).mp hd
        exact hmoved hdir
  · intro d hd
    exact (htrees d).congr (get?_unmoved hmigrating hd)

def cardVault : Disk :=
  putAll Dict.empty [] [(["tasks"], .dir), (["tasks", "ready"], .dir),
    (["tasks", "ready", "TASK-1.md"], .file "---\nid: 1\n---\nbody"), (["state"], .dir)]

def cardYaml : Yaml where
  parse _ := some (.obj [("id", .str "1")])
  stringify _ := "id: 1\nproject: _inbox\n"

/-- A run that is stopped after the backup was made can be resumed. -/
theorem rerun_agrees_example : inboxOf (finish (migrateToProjects cardYaml {} "2")
        (stoppedAfter 6 (migrateToProjects cardYaml {} "1") cardVault)).2 =
      inboxOf (finish (migrateToProjects cardYaml {} "1") cardVault).2 := by
  apply (rerun_agrees_iff (by decide) (stopsAt_stoppedAfter 6 _ _) (by decide +kernel)
    (by decide +kernel)).mpr
  have hsame : legacyDirsOf (stoppedAfter 6 (migrateToProjects cardYaml {} "1") cardVault) =
      legacyDirsOf cardVault := by decide +kernel
  rw [Resumable, if_neg (by decide +kernel), hsame]
  exact fun d hd hmoved => absurd hd hmoved

/-- A run that is stopped after the tasks were moved loses them. -/
theorem moved_tasks_lost : StopsAt (migrateToProjects cardYaml {} "1") cardVault
        (stoppedAfter 7 (migrateToProjects cardYaml {} "1") cardVault) ∧
      inboxOf (finish (migrateToProjects cardYaml {} "1") cardVault).2
          ["tasks", "ready", "TASK-1.md"] = some (.file "---\nid: 1\nproject: _inbox\n---body") ∧
      inboxOf (finish (migrateToProjects cardYaml {} "2")
          (stoppedAfter 7 (migrateToProjects cardYaml {} "1") cardVault)).2
          ["tasks", "ready", "TASK-1.md"] = none := by
  exact ⟨stopsAt_stoppedAfter 7 _ _, by decide +kernel, by decide +kernel⟩

end Aof.ProjectMigration
