import Aof.Proof.MigrationPlaces

/-!
# What the inbox contains

The contents of the inbox after a run of the migration that is not interrupted, as a function of
what the vault contained before.
-/

namespace Aof.ProjectMigration

open DiskProgram DiskPath Disk

abbrev Contents := DiskPath → Option Entry

def inboxOf (disk : Disk) : Contents := fun rel => disk.get? (INBOX ++ rel)

def inboxDirs (withEvents : Bool) : List DiskPath :=
  [] :: REQUIRED_DIRS.map (fun dir => [dir]) ++ ARTIFACT_TIERS.map (fun tier => ["artifacts", tier]) ++
    if withEvents then [["events"]] else []

def setUp (yaml : Yaml) (withEvents : Bool) (old : Contents) : Contents := fun rel =>
  if rel = ["project.yaml"] then some (.file (yaml.stringify inboxManifest))
  else if rel ∈ inboxDirs withEvents then some .dir
  else old rel

def updatedEntry (yaml : Yaml) (name : String) (entry : Entry) : Entry :=
  match entry with
  | .file content =>
      if isTaskCard name entry && !hasProjectField yaml content "_inbox" then
        .file ((updateTaskFrontmatter yaml content "_inbox").getD content)
      else entry
  | _ => entry

def cardsUpdated (yaml : Yaml) (tasks : Contents) : Contents
  | [status, name] =>
      if tasks [status] = some .dir then (tasks [status, name]).map (updatedEntry yaml name)
      else tasks [status, name]
  | rel => tasks rel

def broughtDir (yaml : Yaml) (layout : Disk) (old : Contents) (dir : String) : Contents :=
  let overlay : Contents := fun rel => (layout.get? (dir :: rel)).or (old (dir :: rel))
  if dir = "tasks" then cardsUpdated yaml overlay else overlay

def brought (yaml : Yaml) (layout : Disk) (dirs : List String) (old : Contents) : Contents
  | [] => old []
  | dir :: rel => if dir ∈ dirs then broughtDir yaml layout old dir rel else old (dir :: rel)

def migrated (yaml : Yaml) (layout : Disk) : Contents :=
  let dirs := legacyDirsOf layout
  if dirs = [] ∧ layout.isDir INBOX = true then inboxOf layout
  else brought yaml layout dirs (setUp yaml (dirs.contains "events") (inboxOf layout))

variable {yaml : Yaml} {layout disk after : Disk} {dirs : List String} {old : Contents}

theorem finish_onlyIf_eq_some {condition : Bool} {action : DiskProgram Unit} :
    finish (onlyIf condition action) disk = (some (), after) ↔
      if condition then finish action disk = (some (), after) else after = disk := by
  cases condition <;> simp [onlyIf, eq_comm]

theorem get?_makeDirs {items : List String} {path : String → DiskPath}
    (hfinish : finish (forEach (fun item => mkdir (INBOX ++ path item)) items) disk =
      (some (), after)) (rel : DiskPath) :
    after.get? (INBOX ++ rel) =
      if ∃ item ∈ items, (below rel (path item)).isSome then some .dir
      else disk.get? (INBOX ++ rel) := by
  obtain ⟨-, hsettles⟩ : True ∧ Settles (fun _ => some .dir)
      (fun r => ∃ item ∈ items, r ≠ [] ∧ (below r (INBOX ++ path item)).isSome) disk after := by
    apply forEach_settles (fun item r => r ≠ [] ∧ (below r (INBOX ++ path item)).isSome)
      (fun _ => True) _ trivial hfinish
    intro item _ disk after _ hmkdir
    refine ⟨trivial, fun r => ?_⟩
    rw [get?_mkdirs (finish_mkdir_eq_some.mp hmkdir)]
    exact ⟨fun h => if_pos h, fun h => if_neg h⟩
  have hbelow : ∀ item, (below (INBOX ++ rel) (INBOX ++ path item)).isSome ↔
      (below rel (path item)).isSome := by
    intro item
    simp [INBOX, below]
  have hne : INBOX ++ rel ≠ [] := List.cons_ne_nil _ _
  have hrel := hsettles (INBOX ++ rel)
  simp only [hbelow, hne, ne_eq, not_false_eq_true, true_and] at hrel
  split
  · rename_i hitem
    exact hrel.1 hitem
  · rename_i hitem
    exact hrel.2 hitem

variable {rel tasksDir : DiskPath} {withEvents : Bool} {name status dir backup : String}
  {entry : Entry} {stats next : UpdateStats} {before : Disk}

theorem mem_inboxDirs : rel ∈ inboxDirs withEvents ↔
      (withEvents = true ∧ (below rel ["events"]).isSome) ∨
      (∃ tier ∈ ARTIFACT_TIERS, (below rel ["artifacts", tier]).isSome) ∨
      ∃ dir ∈ REQUIRED_DIRS, (below rel [dir]).isSome := by
  match rel with
  | [] => simp [inboxDirs, ARTIFACT_TIERS]
  | [a] => cases withEvents <;> simp [inboxDirs, ARTIFACT_TIERS, REQUIRED_DIRS] <;> tauto
  | [a, b] => cases withEvents <;> simp [inboxDirs, ARTIFACT_TIERS, REQUIRED_DIRS] <;> tauto
  | a :: b :: c :: rest => cases withEvents <;> simp [inboxDirs, ARTIFACT_TIERS, REQUIRED_DIRS]

theorem inboxOf_setUpInbox (hfinish : finish (setUpInbox yaml withEvents) disk = (some (), after)) :
    inboxOf after = setUp yaml withEvents (inboxOf disk) := by
  obtain ⟨⟨⟩, d₁, hprojects, hfinish⟩ := finish_bind_eq_some.mp hfinish
  obtain ⟨⟨⟩, d₃, hboot, hfinish⟩ := finish_bind_eq_some.mp hfinish
  obtain ⟨⟨⟩, d₂, hdirs, htiers⟩ := finish_bind_eq_some.mp hboot
  obtain ⟨⟨⟩, d₄, hevents, hmanifest⟩ := finish_bind_eq_some.mp hfinish
  funext rel
  have h₁ : d₁.get? (INBOX ++ rel) = disk.get? (INBOX ++ rel) := by
    rw [get?_mkdirs (finish_mkdir_eq_some.mp hprojects), if_neg]
    simp [INBOX, below]
  have h₂ := get?_makeDirs hdirs rel
  have h₃ := @get?_makeDirs _ _ _ (fun tier => ["artifacts", tier]) htiers rel
  have h₄ : d₄.get? (INBOX ++ rel) =
      if withEvents = true ∧ (below rel ["events"]).isSome then some .dir
      else d₃.get? (INBOX ++ rel) := by
    rw [finish_onlyIf_eq_some] at hevents
    cases withEvents with
    | false => rw [if_neg (by decide)] at hevents; rw [hevents]; rfl
    | true =>
        rw [if_pos rfl] at hevents
        rw [get?_mkdirs (finish_mkdir_eq_some.mp hevents)]
        simp [INBOX, below]
  rw [inboxOf, DiskOp.get?_writeFile (finish_writeFile_eq_some.mp hmanifest), h₄, h₃, h₂, h₁]
  have hname : INBOX ++ ["project.yaml"] = INBOX ++ rel ↔ rel = ["project.yaml"] := by
    simp [eq_comm]
  simp only [setUp, hname, inboxOf, mem_inboxDirs, ite_or]

theorem finish_updateTaskCard {taskPath : DiskPath} (hne : taskPath ≠ [])
    (hentry : disk.get? taskPath = some entry) (hcard : isTaskCard name entry = true)
    (hfinish : finish (updateTaskCard yaml "_inbox" false taskPath stats) disk = (some next, after))
    (r : DiskPath) :
    after.get? r = if taskPath = r then some (updatedEntry yaml name entry) else disk.get? r := by
  obtain ⟨content, same, hread, hrest⟩ := finish_bind_eq_some.mp hfinish
  obtain ⟨hcontent, rfl⟩ := finish_readFile_eq_some.mp hread
  have hfile : entry = .file content := by
    have hstat := readFile_eq_some.mp hcontent
    rw [Disk.stat, if_neg hne, hentry] at hstat
    exact Option.some.inj hstat
  subst hfile
  by_cases hskip : hasProjectField yaml content "_inbox" = true
  · rw [if_pos hskip] at hrest
    obtain ⟨-, rfl⟩ := Prod.mk.inj hrest
    split
    · rename_i heq
      simp [← heq, hentry, updatedEntry, hskip]
    · rfl
  · rw [if_neg hskip] at hrest
    obtain ⟨⟨⟩, written, hwrite, hend⟩ := finish_bind_eq_some.mp hrest
    obtain ⟨-, rfl⟩ := Prod.mk.inj hend
    rw [finish_onlyIf_eq_some, if_pos (by rfl)] at hwrite
    split at hwrite
    · rename_i updatedContent hupdated
      rw [DiskOp.get?_writeFile (finish_writeFile_eq_some.mp hwrite)]
      simp [updatedEntry, hcard, hskip, hupdated]
    · cases (Prod.mk.inj hwrite).1

def withCards (yaml : Yaml) (before : Disk) (tasksDir : DiskPath) : DiskPath → Option Entry :=
  fun r => match below tasksDir r with
    | some rel => cardsUpdated yaml (fun rel => before.get? (tasksDir ++ rel)) rel
    | none => before.get? r

theorem withCards_below (rel : DiskPath) : withCards yaml before tasksDir (tasksDir ++ rel) =
      cardsUpdated yaml (fun rel => before.get? (tasksDir ++ rel)) rel := by
  rw [withCards, below_append]

theorem updatedEntry_of_not_card (hcard : isTaskCard name entry = false) :
    updatedEntry yaml name entry = entry := by
  unfold updatedEntry
  split
  · simp [hcard]
  · rfl

theorem withCards_card (hdir : before.get? (tasksDir ++ [status]) = some .dir) :
    withCards yaml before tasksDir (tasksDir ++ [status, name]) =
      (before.get? (tasksDir ++ [status, name])).map (updatedEntry yaml name) := by
  rw [withCards_below, cardsUpdated, if_pos hdir]

theorem withCards_other
    (hother : before.get? (tasksDir ++ [status]) ≠ some .dir ∨ ∀ name, rel ≠ [name]) :
    withCards yaml before tasksDir (tasksDir ++ status :: rel) =
      before.get? (tasksDir ++ status :: rel) := by
  rw [withCards_below]
  unfold cardsUpdated
  split
  · rename_i status' name heq
    obtain ⟨rfl, rfl⟩ := List.cons.inj heq
    rcases hother with hdir | hrel
    · exact if_neg hdir
    · exact absurd rfl (hrel name)
  · rfl

theorem finish_updateCards {before : Disk} {tasksDir : DiskPath} {status : String}
    {stats next : UpdateStats} (hdir : before.get? (tasksDir ++ [status]) = some .dir)
    (hstart : ∀ rel, disk.get? (tasksDir ++ status :: rel) =
      before.get? (tasksDir ++ status :: rel))
    (hfinish : finish (foldEach (fun stats (taskEntry : String × Entry) =>
      if isTaskCard taskEntry.1 taskEntry.2 then
        updateTaskCard yaml "_inbox" false (tasksDir ++ [status] ++ [taskEntry.1]) stats
      else pure stats) stats (disk.listing (tasksDir ++ [status]))) disk = (some next, after)) :
    Settles (withCards yaml before tasksDir)
      (fun r => ∃ item ∈ disk.listing (tasksDir ++ [status]), tasksDir ++ [status, item.1] = r)
      disk after := by
  apply foldEach_settles_apart
    (fun (item : String × Entry) r => tasksDir ++ [status, item.1] = r) _ _
    (fun _ _ r _ => (rfl : disk.get? r = disk.get? r)) hfinish
  · have hnames := nodup_listing disk (tasksDir ++ [status])
    rw [List.Nodup, List.pairwise_map] at hnames
    apply hnames.imp
    rintro x y hne r rfl heq
    simp only [List.append_cancel_left_eq, List.cons.injEq, and_true, true_and] at heq
    exact hne heq
  · rintro ⟨name, entry⟩ hitem value next middle after hpart hbody r
    have hpath : tasksDir ++ [status] ++ [name] = tasksDir ++ [status, name] := by simp
    have hentry : disk.get? (tasksDir ++ [status, name]) = some entry := by
      rw [← hpath]
      exact mem_listing.mp hitem
    have hbefore : before.get? (tasksDir ++ [status, name]) = some entry := by
      rw [← hstart, hentry]
    simp only at hbody hpart ⊢
    rw [hpath] at hbody
    by_cases hcard : isTaskCard name entry = true
    · rw [if_pos hcard] at hbody
      have hmiddle : middle.get? (tasksDir ++ [status, name]) = some entry := by
        rw [hpart _ rfl, hentry]
      rw [finish_updateTaskCard (by simp) hmiddle hcard hbody]
      refine ⟨?_, fun hne => if_neg hne⟩
      rintro rfl
      rw [if_pos rfl, withCards_card hdir, hbefore]
      rfl
    · rw [if_neg hcard] at hbody
      obtain ⟨-, rfl⟩ := Prod.mk.inj hbody
      refine ⟨?_, fun _ => rfl⟩
      rintro rfl
      rw [hpart _ rfl, hentry, withCards_card hdir, hbefore, Option.map_some,
        updatedEntry_of_not_card (Bool.eq_false_iff.mpr hcard)]

theorem finish_updateStatusDir {before : Disk} {tasksDir : DiskPath} {status : String}
    {kind : Entry} {stats next : UpdateStats}
    (hkind : before.get? (tasksDir ++ [status]) = some kind)
    (hstart : ∀ r, (below (tasksDir ++ [status]) r).isSome → disk.get? r = before.get? r)
    (hfinish : finish (updateStatusDir yaml tasksDir "_inbox" false stats (status, kind)) disk =
      (some next, after)) :
    Settles (withCards yaml before tasksDir) (fun r => (below (tasksDir ++ [status]) r).isSome)
      disk after := by
  have hstatus : ∀ rel, disk.get? (tasksDir ++ status :: rel) =
      before.get? (tasksDir ++ status :: rel) := by
    intro rel
    apply hstart
    rw [List.append_cons tasksDir status rel, below_append]
    rfl
  unfold updateStatusDir at hfinish
  by_cases hdir : kind = .dir
  · subst hdir
    rw [if_pos rfl] at hfinish
    obtain ⟨entries, same, hreaddir, hloop⟩ := finish_bind_eq_some.mp hfinish
    obtain ⟨⟨-, rfl⟩, rfl⟩ := finish_readdir_eq_some.mp hreaddir
    have hsettles := finish_updateCards hkind hstatus hloop
    apply settles_below
    · intro rel
      rw [List.append_assoc, List.singleton_append]
      by_cases hcard : ∃ item ∈ same.listing (tasksDir ++ [status]),
          tasksDir ++ [status, item.1] = tasksDir ++ status :: rel
      · exact (hsettles _).1 hcard
      · rw [(hsettles _).2 hcard, hstatus]
        by_cases hrel : ∃ name, rel = [name]
        · obtain ⟨name, rfl⟩ := hrel
          -- what is not listed is not there
          have hnone : before.get? (tasksDir ++ [status, name]) = none := by
            rw [Option.eq_none_iff_forall_ne_some]
            intro entry hentry
            apply hcard
            refine ⟨(name, entry), mem_listing.mpr ?_, rfl⟩
            rw [List.append_assoc, List.singleton_append, hstatus, hentry]
          rw [hnone, withCards_card hkind, hnone]
          rfl
        · exact (withCards_other (Or.inr fun name hname => hrel ⟨name, hname⟩)).symm
    · intro r hr
      apply (hsettles r).2
      rintro ⟨item, -, rfl⟩
      rw [List.append_cons tasksDir status [item.1], below_append] at hr
      cases hr
  · rw [if_neg hdir] at hfinish
    obtain ⟨-, rfl⟩ := Prod.mk.inj hfinish
    apply settles_below
    · intro rel
      rw [List.append_assoc, List.singleton_append, hstatus, withCards_other]
      exact Or.inl fun h => hdir (Option.some.inj (hkind.symm.trans h))
    · exact fun _ _ => rfl

theorem get?_updateTaskCardFrontmatter (hdir : (disk.stat tasksDir).isSome = true)
    (hfinish : finish (updateTaskCardFrontmatter yaml tasksDir "_inbox" false) disk =
      (some stats, after)) (r : DiskPath) : after.get? r = withCards yaml disk tasksDir r := by
  rw [updateTaskCardFrontmatter, finish_bind_of_some finish_pathExists, if_pos hdir] at hfinish
  obtain ⟨entries, again, hreaddir, hloop⟩ := finish_bind_eq_some.mp hfinish
  obtain ⟨⟨-, rfl⟩, rfl⟩ := finish_readdir_eq_some.mp hreaddir
  have hsettles : Settles (withCards yaml again tasksDir)
      (fun r => ∃ item ∈ again.listing tasksDir, (below (tasksDir ++ [item.1]) r).isSome)
      again after := by
    apply foldEach_settles_apart
      (fun (item : String × Entry) r => (below (tasksDir ++ [item.1]) r).isSome = true) _ _
      (fun _ _ r _ => (rfl : again.get? r = again.get? r)) hloop
    · have hnames := nodup_listing again tasksDir
      rw [List.Nodup, List.pairwise_map] at hnames
      apply hnames.imp
      intro x y hne r hy hx
      apply hne
      obtain ⟨rel, hrel⟩ := Option.isSome_iff_exists.mp hx
      obtain ⟨rel', hrel'⟩ := Option.isSome_iff_exists.mp hy
      rw [below_eq_some] at hrel hrel'
      have heq := hrel.symm.trans hrel'
      simp only [List.append_assoc, List.append_cancel_left_eq, List.singleton_append,
        List.cons.injEq] at heq
      exact heq.1
    · intro item hitem value next middle after hpart hbody
      exact finish_updateStatusDir (mem_listing.mp hitem) hpart hbody
  cases hbelow : below tasksDir r with
  | none =>
      rw [(hsettles r).2, withCards, hbelow]
      rintro ⟨item, -, hr⟩
      obtain ⟨tail, htail⟩ := Option.isSome_iff_exists.mp hr
      rw [below_eq_some, List.append_assoc] at htail
      rw [htail, below_append] at hbelow
      cases hbelow
  | some rel =>
      obtain rfl := below_eq_some.mp hbelow
      cases rel with
      | nil =>
          rw [(hsettles _).2, withCards_below]
          · rfl
          · rintro ⟨item, -, hr⟩
            rw [List.append_nil, below_longer] at hr
            cases hr
      | cons status rel =>
          by_cases hlisted : ∃ item ∈ again.listing tasksDir,
              (below (tasksDir ++ [item.1]) (tasksDir ++ status :: rel)).isSome
          · exact (hsettles _).1 hlisted
          · rw [(hsettles _).2 hlisted, withCards_other]
            left
            intro hstatus
            apply hlisted
            refine ⟨(status, .dir), mem_listing.mpr hstatus, ?_⟩
            rw [List.append_cons tasksDir status rel, below_append]
            rfl

theorem inboxOf_copyLegacyDir {backupPath : DiskPath}
    (hapart : Apart (backupPath ++ [dir]) (INBOX ++ [dir]))
    (hsource : ∀ rel, disk.get? (backupPath ++ dir :: rel) = layout.get? (dir :: rel))
    (hdir : layout.get? [dir] = some .dir) (htree : TreeBelow layout [dir])
    (hinbox : disk.get? INBOX = some .dir)
    (hfinish : finish (copyLegacyDir yaml false backupPath stats dir) disk = (some next, after)) :
    inboxOf after = brought yaml layout [dir] (inboxOf disk) := by
  obtain ⟨⟨⟩, overlay, hcopy, hrest⟩ := finish_bind_eq_some.mp hfinish
  rw [finish_onlyIf_eq_some, if_pos (by rfl), copyDirectory, finish_bind_of_some finish_depth]
    at hcopy
  have hsourceTree : TreeBelow disk (backupPath ++ [dir]) := by
    intro rel name hsome
    rw [List.append_assoc, List.singleton_append, hsource] at hsome ⊢
    exact htree rel name hsome
  have hcopied := copyTree_eq hapart hsourceTree hcopy
  have hover : ∀ rel, overlay.get? (INBOX ++ [dir] ++ rel) =
      (layout.get? (dir :: rel)).or (disk.get? (INBOX ++ dir :: rel)) := by
    intro rel
    rw [hcopied, copied, below_append]
    simp only [List.append_assoc, List.singleton_append, hsource]
  have houtside : ∀ rel, below [dir] rel = none → overlay.get? (INBOX ++ rel) =
      disk.get? (INBOX ++ rel) := by
    intro rel hrel
    have hbelow : below (INBOX ++ [dir]) (INBOX ++ rel) = none := by
      rw [← hrel]
      rfl
    rw [hcopied, copied, hbelow]
    cases rel with
    | nil => simp [INBOX, ← hinbox, below]
    | cons name rel =>
        have hname : name ≠ dir := by
          rintro rfl
          simp [below] at hrel
        simp [INBOX, below, hname]
  -- the cards of the tasks directory are updated in the copy
  have hafter : ∀ r, after.get? r =
      if dir = "tasks" then withCards yaml overlay (INBOX ++ [dir]) r else overlay.get? r := by
    intro r
    by_cases htasks : dir = "tasks"
    · rw [if_pos htasks] at hrest ⊢
      obtain ⟨more, updated, hupdate, hend⟩ := finish_bind_eq_some.mp hrest
      obtain ⟨-, rfl⟩ := Prod.mk.inj hend
      apply get?_updateTaskCardFrontmatter _ hupdate
      have hcopy : overlay.get? (INBOX ++ [dir]) = some .dir := by
        simpa [hdir] using hover []
      rw [Disk.stat, if_neg (by simp), hcopy]
      rfl
    · rw [if_neg htasks] at hrest ⊢
      obtain ⟨-, rfl⟩ := Prod.mk.inj hrest
      rfl
  have hout : ∀ rel, below [dir] rel = none → after.get? (INBOX ++ rel) =
      disk.get? (INBOX ++ rel) := by
    intro rel hrel
    have hbelow : below (INBOX ++ [dir]) (INBOX ++ rel) = none := by
      rw [← hrel]
      rfl
    rw [hafter, ← houtside rel hrel, withCards, hbelow]
    exact ite_self _
  funext rel
  cases rel with
  | nil => exact hout [] rfl
  | cons name rel =>
      by_cases hname : name = dir
      · subst hname
        have hpath : INBOX ++ name :: rel = INBOX ++ [name] ++ rel := by simp
        rw [inboxOf, hpath, hafter, withCards_below]
        simp only [brought, broughtDir, List.mem_singleton, if_true, hover, inboxOf]
        split <;> rfl
      · rw [inboxOf, hout _ (by simp [below, Ne.symm hname])]
        simp [brought, hname, inboxOf]

theorem brought_cons {rest : List String} (hdir : dir ∉ rest) :
    brought yaml layout rest (brought yaml layout [dir] old) =
      brought yaml layout (dir :: rest) old := by
  funext rel
  cases rel with
  | nil => rfl
  | cons name rel =>
      by_cases hname : name = dir
      · subst hname
        simp [brought, hdir]
      · simp [brought, hname, broughtDir]

theorem inboxOf_copyLegacyDirs {backup : String} {stats last : UpdateStats}
    (hbackup : backup ≠ "Projects") (hnodup : dirs.Nodup)
    (hsource : ∀ d ∈ dirs, ∀ rel, disk.get? (backup :: d :: rel) = layout.get? (d :: rel))
    (hdirs : ∀ d ∈ dirs, layout.get? [d] = some .dir ∧ TreeBelow layout [d])
    (hinbox : disk.get? INBOX = some .dir)
    (hfinish : finish (foldEach (copyLegacyDir yaml false [backup]) stats dirs) disk =
      (some last, after)) : inboxOf after = brought yaml layout dirs (inboxOf disk) := by
  induction dirs generalizing disk stats with
  | nil =>
      obtain ⟨-, rfl⟩ := Prod.mk.inj hfinish
      funext rel
      cases rel <;> rfl
  | cons dir rest ih =>
      obtain ⟨next, middle, hfirst, hrest⟩ := finish_bind_eq_some.mp hfinish
      obtain ⟨hdir, hnodup⟩ := List.nodup_cons.mp hnodup
      obtain ⟨hlayout, htree⟩ := hdirs dir List.mem_cons_self
      have hapart : Apart ([backup] ++ [dir]) (INBOX ++ [dir]) := by
        simp [Apart, INBOX, below, hbackup, Ne.symm hbackup]
      have hmiddle := inboxOf_copyLegacyDir hapart (hsource dir List.mem_cons_self) hlayout htree
        hinbox hfirst
      have hstops := stopsAt_of_finish hfirst
      have hfills : FillsInbox (copyLegacyDir yaml false [backup] stats dir) :=
        fillsInbox_copyLegacyDir _ _ _ _
      rw [← brought_cons hdir, ← hmiddle]
      apply ih hnodup _ (fun d hd => hdirs d (List.mem_cons_of_mem _ hd)) _ hrest
      · intro d hd rel
        rw [← hsource d (List.mem_cons_of_mem _ hd)]
        apply hstops.get?_eq hfills
        · rintro ⟨name, rel', hpath⟩
          exact hbackup (List.cons.inj hpath).1
        · rintro p ⟨rel', rfl⟩ -
          simp [below, hbackup]
      · apply hstops.get?_dir hfills _ hinbox
        rintro ⟨name, rel', hpath⟩
        simp at hpath

theorem treeBelow_of_isTree (htree : layout.IsTree) {p : DiskPath} (hne : p ≠ []) :
    TreeBelow layout p := by
  intro rel name hsome
  obtain ⟨entry, hentry⟩ := Option.isSome_iff_exists.mp hsome
  rw [← List.append_assoc] at hentry
  have hparent := htree.isDir_dropLast hentry
  rw [List.dropLast_concat] at hparent
  exact (isDir_iff.mp hparent).resolve_left (by simp [hne])

theorem get?_inbox_of_setUp
    (hfinish : finish (setUpInbox yaml withEvents) disk = (some (), after)) :
    after.get? INBOX = some .dir := by
  have hroot := congrFun (inboxOf_setUpInbox hfinish) []
  simpa [inboxOf, setUp, inboxDirs] using hroot

theorem brought_nil (old : Contents) : brought yaml layout [] old = old := by
  funext rel
  cases rel <;> rfl

theorem backup_ne_projects (timestamp : String) : s!"tasks.backup-{timestamp}" ≠ "Projects" := by
  intro heq
  have hbackup := isBackupName_backup timestamp
  rw [heq] at hbackup
  revert hbackup
  decide

theorem inboxOf_mkdir_root (hmade : disk.mkdirs [name] = some after) :
    inboxOf after = inboxOf disk := by
  funext rel
  rw [inboxOf, get?_mkdirs hmade, if_neg]
  · rfl
  · simp [INBOX]

theorem inboxOf_moves (hbackup : backup ≠ "Projects") (hdirs : ∀ d ∈ dirs, d ≠ "Projects")
    (hstops : StopsAt (forEach (fun d => rename [d] [backup, d]) dirs) disk after) :
    inboxOf after = inboxOf disk := by
  funext rel
  apply hstops.get?_of_uses
  apply uses_foldEach
  intro _ d hd
  refine uses_check ⟨?_, fun _ => trivial⟩
  simp [DiskOp.Writes, INBOX, hbackup, hdirs d hd]

theorem legacy_ne_projects {d : String} (hd : d ∈ legacyDirsOf layout) : d ≠ "Projects" := by
  rintro rfl
  exact not_projects_of_legacy (mem_legacyDirsOf.mp hd).1 List.mem_cons_self

theorem inboxOf_migrateToProjects {timestamp : String} {result : MigrationResult}
    (htrees : ∀ d ∈ legacyDirsOf layout, TreeBelow layout [d])
    (hfinish : finish (migrateToProjects yaml {} timestamp) layout = (some result, after)) :
    inboxOf after = migrated yaml layout := by
  rw [migrateToProjects, finish_bind_of_some finish_checkLegacyDirsExist,
    finish_bind_of_some finish_isDirectory] at hfinish
  unfold migrated
  by_cases hempty : legacyDirsOf layout = []
  · rw [if_pos hempty] at hfinish
    by_cases hinbox : layout.isDir INBOX = true
    · rw [if_pos hinbox] at hfinish
      obtain ⟨-, rfl⟩ := Prod.mk.inj hfinish
      rw [if_pos ⟨hempty, hinbox⟩]
    · rw [if_neg hinbox] at hfinish
      obtain ⟨⟨⟩, made, hmade, hend⟩ := finish_bind_eq_some.mp hfinish
      obtain ⟨-, rfl⟩ := Prod.mk.inj hend
      rw [finish_onlyIf_eq_some, if_pos (by rfl)] at hmade
      rw [if_neg fun h => hinbox h.2, hempty, brought_nil]
      exact inboxOf_setUpInbox hmade
  · rw [if_neg hempty] at hfinish
    rw [if_neg fun h => hempty h.1]
    obtain ⟨⟨⟩, withBackup, hmkdir, hrest⟩ := finish_bind_eq_some.mp hfinish
    obtain ⟨⟨⟩, allMoved, hmoves, hrest⟩ := finish_bind_eq_some.mp hrest
    obtain ⟨⟨⟩, ready, hsetUp, hrest⟩ := finish_bind_eq_some.mp hrest
    obtain ⟨stats, filled, hcopies, hend⟩ := finish_bind_eq_some.mp hrest
    obtain ⟨-, rfl⟩ := Prod.mk.inj hend
    rw [finish_onlyIf_eq_some, if_pos (by rfl)] at hmkdir hsetUp
    have hmade := finish_mkdir_eq_some.mp hmkdir
    have hmigrating := (Migrating.start layout ["Projects"]).mkdir
      (isBackupName_backup timestamp) hmade
    have hmoved := (finish_moves hmigrating List.mem_cons_self (nodup_legacyDirsOf layout)
      (Migrating.start layout _).movable hmoves).frame_inbox (stopsAt_of_finish hsetUp)
      (fillsInbox_setUpInbox _)
    have hbackup := backup_ne_projects timestamp
    have hready : inboxOf ready = setUp yaml ((legacyDirsOf layout).contains "events")
        (inboxOf layout) := by
      rw [inboxOf_setUpInbox hsetUp, inboxOf_moves hbackup (fun d => legacy_ne_projects)
        (stopsAt_of_finish hmoves), inboxOf_mkdir_root hmade]
    rw [← hready]
    apply inboxOf_copyLegacyDirs hbackup (nodup_legacyDirsOf layout) _ _
      (get?_inbox_of_setUp hsetUp) hcopies
    · intro d hd rel
      rw [hmoved.lies _ _ (by simpa using hbackup), placed, movedTo, if_pos hd, if_pos rfl]
    · intro d hd
      exact ⟨(mem_legacyDirsOf.mp hd).2, htrees d hd⟩

end Aof.ProjectMigration
