import Aof.Proof.UpdateCopies

/-!
# All or nothing, and the backup

The rollback brings back the paths that are preserved, and only those.  What lies elsewhere stays
as the failure left it: in part removed, in part or wholly replaced by the release.  Whatever fails,
the backup is made without a change elsewhere, and it is complete unless a copy into it fails.
-/

namespace Aof.Updater

open Command Disk DiskPath

variable (opts : UpdateOptions) (env : UpdateEnv) (failure : Option UpdateFailure)
variable (before : Disk)

def Outside (r : DiskPath) : Prop := below [BACKUP_DIR_NAME] r = none

instance (r : DiskPath) : Decidable (Outside r) := inferInstanceAs (Decidable (_ = none))

def metadata : List DiskPath := [[".aof"], configPath, versionFilePath]

def Tracked (r : DiskPath) : Prop := r ≠ [] ∧ Outside r ∧ r ∉ metadata

def fileText : Option Entry → Option String
  | some (.file content) => some content
  | _ => none

/-- A throw leaves every file as it was; an update leaves what is below the preserved paths. -/
def AllOrNothing : Prop :=
  Ends (selfUpdate opts env failure) { root := before }
    (fun _ after => ∀ q ∈ opts.preservePaths, (before.get? q).isSome →
      ∀ rel, Tracked (q ++ rel) → after.root.get? (q ++ rel) = before.get? (q ++ rel))
    (fun after => ∀ r, Tracked r →
      fileText (after.root.get? r) = fileText (before.get? r))

structure TakesVersion (disk : Disk) : Prop where
  dir : disk.get? [".aof"] = none ∨ disk.get? [".aof"] = some .dir
  config : disk.get? configPath ≠ some .dir ∧ disk.get? configPath ≠ some .special
  version : disk.get? versionFilePath ≠ some .dir ∧ disk.get? versionFilePath ≠ some .special

/-- What is preserved are different places in the directory, with files and directories in them that
the release has no files in the way of, and the backup has a place of its own. -/
structure UpdateSetup : Prop where
  tree : before.IsTree
  releaseTree : env.release.IsTree
  plain : ∀ q ∈ opts.preservePaths, ∀ entry ∈ before.subtree q, entry.2 ≠ .special
  releasePlain : ∀ entry ∈ env.release.entries, entry.2 ≠ .special
  inside : ∀ q ∈ opts.preservePaths, q ≠ [] ∧ q.head? ≠ some BACKUP_DIR_NAME
  backupDir : before.get? [BACKUP_DIR_NAME] = none ∨ before.get? [BACKUP_DIR_NAME] = some .dir
  backupFree : before.get? (backupPathOf env) = none
  releaseFree : env.release.get? [BACKUP_DIR_NAME] = none
  parents : ∀ q ∈ opts.preservePaths, (before.get? q).isSome → ∀ r ∈ q.dropLast.inits.tail,
    env.release.get? r = none ∨ env.release.get? r = some .dir
  listed : ∀ name ∈ before.names [], name ∈ env.entries
  version : TakesVersion before
  releaseVersion : TakesVersion env.release

def existing : List DiskPath := opts.preservePaths.filter fun q => (before.get? q).isSome

def Covered (paths : List DiskPath) (r : DiskPath) : Prop := ∃ q ∈ paths, Beside q r

def Throws : UpdateStep → Prop
  | .backUp _ | .preserve _ | .removeBackup => False
  | .remove entry => entry ∈ env.entries ∧ entry ≠ BACKUP_DIR_NAME
  | .clear path | .restore path => path ∈ existing opts before
  | _ => True

def removedBy (entry : String) (done : DiskPath → Bool) (r : DiskPath) : Bool :=
  (env.entries.takeWhile (· ≠ entry)).any (fun name => (below [name] r).isSome) ||
    ((below [entry] r).isSome && done r)

/-- What the failure finds or leaves at a place that is not preserved. -/
def leftBy (failing : UpdateFailure) (r : DiskPath) : Option Entry :=
  match failing.step with
  | .remove entry => if removedBy env entry failing.done r then none else before.get? r
  | .install => if failing.done r then env.release.get? r else none
  | .clear _ | .restore _ | .makeConfigDir | .writeConfig | .writeVersionFile | .postUpdate
  | .removeTempDir => env.release.get? r
  | _ => before.get? r

/-- The failure changes nothing outside the preserved paths, or it is swallowed; and the release has
what a preserved path had whose copy failed. -/
def Harmless (failing : UpdateFailure) : Prop :=
  (Throws opts env before failing.step → ∀ r, Tracked r → ¬ Covered (existing opts before) r →
    fileText (leftBy env before failing r) = fileText (before.get? r)) ∧
  ∀ q ∈ existing opts before, failing.step = .preserve q → ∀ rel, Tracked (q ++ rel) →
    ¬ Covered ((existing opts before).filter (· ≠ q)) (q ++ rel) →
    env.release.get? (q ++ rel) = before.get? (q ++ rel)

variable {opts env failure before}
variable {q r : DiskPath} {s : UpdateState}

theorem outside_of_head {name : String} (hname : name ≠ BACKUP_DIR_NAME) (rel : DiskPath) :
    Outside (name :: rel) := by
  simp [Outside, below, Ne.symm hname]

theorem Outside.beside (hout : Outside q) (hne : q ≠ []) (hbeside : Beside q r) : Outside r := by
  obtain ⟨hr, hbelow⟩ := hbeside
  cases q with
  | nil => exact absurd rfl hne
  | cons a q =>
      cases r with
      | nil => exact absurd rfl hr
      | cons b r =>
          have hhead : a = b := by
            rcases hbelow with hbelow | hbelow
            · exact (isSome_below_cons_cons.mp hbelow).1
            · exact (isSome_below_cons_cons.mp hbelow).1.symm
          rw [← hhead]
          apply outside_of_head
          rintro rfl
          simp [Outside, below] at hout

theorem beside_append (hne : q ≠ []) (rel : DiskPath) : Beside q (q ++ rel) :=
  ⟨fun h => hne (List.append_eq_nil_iff.mp h).1, Or.inl (by simp)⟩

theorem mem_existing : q ∈ existing opts before ↔
    q ∈ opts.preservePaths ∧ (before.get? q).isSome := by
  simp [existing]

theorem dir_above {disk : Disk} (htree : disk.IsTree) (hsome : (disk.get? q).isSome)
    (hne : r ≠ []) (habove : (below r q.dropLast).isSome) : disk.get? r = some .dir := by
  obtain ⟨entry, hentry⟩ := Option.isSome_iff_exists.mp hsome
  have hq : q ≠ [] := by
    rintro rfl
    rw [htree.get?_root] at hentry
    cases hentry
  obtain ⟨rel, hrel⟩ := Option.isSome_iff_exists.mp habove
  rw [below_eq_some] at hrel
  have hsplit : q = r ++ (rel ++ [q.getLast hq]) := by
    rw [← List.append_assoc, ← hrel, List.dropLast_append_getLast]
  rw [hsplit] at hentry
  exact (isDir_iff.mp (htree.isDir_of_append hentry (by simp))).resolve_left hne

section Setup

variable (hsetup : UpdateSetup opts env before)
include hsetup

section

variable (hq : q ∈ opts.preservePaths)
include hq

theorem UpdateSetup.outside : Outside q := by
  obtain ⟨hne, hhead⟩ := hsetup.inside q hq
  cases q with
  | nil => exact absurd rfl hne
  | cons name rel => exact outside_of_head (fun h => hhead (by rw [h]; rfl)) rel

theorem UpdateSetup.outside_append (rel : DiskPath) : Outside (q ++ rel) :=
  (hsetup.outside hq).beside (hsetup.inside q hq).1 (beside_append (hsetup.inside q hq).1 rel)

theorem UpdateSetup.not_special (rel : DiskPath) : before.get? (q ++ rel) ≠ some .special := by
  intro hspecial
  exact hsetup.plain q hq (rel, .special) (mem_subtree.mpr hspecial) rfl

theorem UpdateSetup.none_below (hnone : before.get? q = none) (rel : DiskPath) :
    before.get? (q ++ rel) = none :=
  hsetup.tree.get?_append hnone (hsetup.inside q hq).1 rel

end

omit hsetup in
theorem not_outside_backup (rel : DiskPath) : ¬ Outside (backupPathOf env ++ rel) := by
  simp [Outside, below, backupPathOf]

structure Backed (opts : UpdateOptions) (env : UpdateEnv) (before root : Disk) : Prop where
  dir : root.get? (backupPathOf env) = some .dir
  files : ∀ q ∈ opts.preservePaths, ∀ rel,
    root.get? (backupPathOf env ++ (q ++ rel)) = before.get? (q ++ rel)

omit hsetup in
theorem Backed.congr {root other : Disk} (hbacked : Backed opts env before root)
    (hsame : ∀ r, ¬ Outside r → other.get? r = root.get? r) : Backed opts env before other where
  dir := by
    rw [hsame _ (by simpa using @not_outside_backup env []), hbacked.dir]
  files q hq rel := by
    rw [hsame _ (not_outside_backup _), hbacked.files q hq rel]

def backupGoal (env : UpdateEnv) (before made : Disk) (r : DiskPath) : Option Entry :=
  match below (backupPathOf env) r with
  | some rel => (before.get? rel).or (made.get? r)
  | none => made.get? r

omit hsetup in
theorem backupGoal_append {made : Disk} (rel : DiskPath) :
    backupGoal env before made (backupPathOf env ++ rel) =
      (before.get? rel).or (made.get? (backupPathOf env ++ rel)) := by
  rw [backupGoal, below_append]

omit hsetup in
theorem backupGoal_outside {made : Disk} (hr : Outside r) :
    backupGoal env before made r = made.get? r := by
  have hnone : below (backupPathOf env) r = none := by
    rw [below_eq_none]
    rintro rel rfl
    exact not_outside_backup rel hr
  rw [backupGoal, hnone]

structure BackupDir (env : UpdateEnv) (before made : Disk) : Prop where
  dirs : ∀ r, r ≠ [] → (below r (backupPathOf env)).isSome → made.get? r = some .dir
  free : ∀ rel, rel ≠ [] → made.get? (backupPathOf env ++ rel) = none
  outside : ∀ r, Outside r → made.get? r = before.get? r

section BackupDir

variable {made : Disk} (hmade : BackupDir env before made)
include hmade

omit hsetup in
theorem BackupDir.goal {rel : DiskPath} (hrel : rel ≠ []) :
    backupGoal env before made (backupPathOf env ++ rel) = before.get? rel := by
  rw [backupGoal_append, hmade.free rel hrel, Option.or_none]

theorem BackupDir.goal_preserved (hq : q ∈ opts.preservePaths) (rel : DiskPath) :
    backupGoal env before made (backupPathOf env ++ (q ++ rel)) = before.get? (q ++ rel) :=
  hmade.goal fun h => (hsetup.inside q hq).1 (List.append_eq_nil_iff.mp h).1

omit hmade in
theorem backupGoal_self :
    backupGoal env before made (backupPathOf env) = made.get? (backupPathOf env) := by
  simpa [hsetup.tree.get?_root] using @backupGoal_append env before made []

omit hsetup in
theorem BackupDir.root_outside (hbetween : Between made.get? (backupGoal env before made) s.root)
    (hr : Outside r) : s.root.get? r = before.get? r := by
  rcases hbetween r with heq | heq
  · rw [heq, hmade.outside r hr]
  · rw [heq, backupGoal_outside hr, hmade.outside r hr]

theorem BackupDir.dir_above_goal {path : DiskPath} (hne : path ≠ [])
    (hsome : (before.get? path).isSome) (hr : r ≠ [])
    (hbelow : (below r (backupPathOf env ++ path).dropLast).isSome) :
    backupGoal env before made r = some .dir := by
  rw [List.dropLast_append_of_ne_nil hne] at hbelow
  cases hrel : below (backupPathOf env) r with
  | none =>
      rw [backupGoal, hrel]
      apply hmade.dirs r hr
      obtain ⟨tail, htail⟩ := Option.isSome_iff_exists.mp hbelow
      rcases List.append_eq_append_iff.mp (below_eq_some.mp htail) with
        ⟨mid, hmid, -⟩ | ⟨mid, hmid, -⟩
      · rw [hmid, below_append] at hrel
        cases hrel
      · rw [hmid, below_append]
        rfl
  | some rel =>
      obtain rfl := below_eq_some.mp hrel
      by_cases hrelNil : rel = []
      · subst hrelNil
        rw [List.append_nil, backupGoal_self hsetup]
        exact hmade.dirs _ (by simp [backupPathOf]) (by simp)
      · rw [hmade.goal hrelNil]
        apply dir_above hsetup.tree hsome hrelNil
        obtain ⟨tail, htail⟩ := Option.isSome_iff_exists.mp hbelow
        rw [below_eq_some, List.append_assoc] at htail
        rw [List.append_cancel_left htail, below_append]
        rfl

theorem BackupDir.fits (hbetween : Between made.get? (backupGoal env before made) s.root) :
    s.root.get? (backupPathOf env ++ q) = none ∨ s.root.get? (backupPathOf env ++ q) =
        backupGoal env before made (backupPathOf env ++ q) := by
  rcases hbetween (backupPathOf env ++ q) with heq | heq
  · by_cases hq : q = []
    · rw [hq, List.append_nil] at heq ⊢
      rw [backupGoal_self hsetup]
      exact Or.inr heq
    · rw [heq, hmade.free q hq]
      exact Or.inl rfl
  · exact Or.inr heq

theorem backUp_ends {path : DiskPath} (hpath : path ∈ opts.preservePaths)
    (hbetween : Between made.get? (backupGoal env before made) s.root) :
    Ends (attempt do
        access path
        cpInRoot failure (.backUp path) path (backupPathOf env ++ path)) s
      (fun _ t => Between s.root.get? (backupGoal env before made) t.root ∧
        (¬ Fires failure (.backUp path) → ∀ rel,
          t.root.get? (backupPathOf env ++ (path ++ rel)) = before.get? (path ++ rel)))
      (fun _ => False) := by
  have hne := (hsetup.inside path hpath).1
  have hgoal := fun rel => hmade.goal_preserved hsetup hpath rel
  have hroot : s.root.get? path = before.get? path :=
    hmade.root_outside hbetween (hsetup.outside hpath)
  apply Ends.attempt
  refine Ends.bind (p := fun _ t => t = s ∧ (before.get? path).isSome)
    (ends_access (fun hsome => ?_) fun hnone => ?_) ?_
  · refine ⟨rfl, ?_⟩
    rwa [Disk.stat, if_neg hne, hroot] at hsome
  · -- there is nothing to copy
    rw [Disk.stat, if_neg hne, hroot] at hnone
    refine ⟨Between.refl _ _, fun _ rel => ?_⟩
    have hrel := hsetup.none_below hpath hnone rel
    rcases hmade.fits hsetup hbetween with heq | heq
    · rw [heq, hrel]
    · rw [heq, hgoal]
  · rintro ⟨⟩ t ⟨rfl, hsome⟩
    have hout : below path (backupPathOf env ++ path) = none := by
      rw [below_eq_none]
      intro rel hrel
      apply @not_outside_backup env path
      rw [hrel]
      exact hsetup.outside_append hpath rel
    have hsource : ∀ rel, t.root.get? (path ++ rel) =
        backupGoal env before made (backupPathOf env ++ path ++ rel) := by
      intro rel
      rw [hmade.root_outside hbetween (hsetup.outside_append hpath rel), List.append_assoc, hgoal]
    have hplain : ∀ rel,
        backupGoal env before made (backupPathOf env ++ path ++ rel) ≠ some .special := by
      intro rel
      rw [List.append_assoc, hgoal]
      exact hsetup.not_special hpath rel
    have hfits : ∀ r, Beside (backupPathOf env ++ path) r →
        t.root.get? r = none ∨ t.root.get? r = backupGoal env before made r := by
      intro r hbeside
      cases hrel : below (backupPathOf env) r with
      | none =>
          rw [backupGoal, hrel]
          have hsame := hbetween r
          rw [backupGoal, hrel] at hsame
          exact Or.inr (hsame.elim id id)
      | some rel =>
          obtain rfl := below_eq_some.mp hrel
          exact hmade.fits hsetup hbetween
    apply (@ends_cpInRoot _ failure (.backUp path) t (backupGoal env before made) path hout hsource
      hplain (fun r => hmade.dir_above_goal hsetup hne hsome) hfits
      (by simp [backupPathOf])).mono
    · rintro _ u ⟨-, root, rfl, hsettles⟩
      refine ⟨hsettles.between (Between.refl _ _), fun _ rel => ?_⟩
      rw [← hgoal, ← List.append_assoc]
      exact (hsettles _).1 (beside_append (by simp [backupPathOf]) rel)
    · rintro u ⟨hfires, root, rfl, hkept⟩
      exact ⟨fun r => (hkept r).imp id And.right, fun hquiet => absurd hfires hquiet⟩

end BackupDir

omit hsetup in
theorem above_backup (hne : r ≠ []) (habove : (below r (backupPathOf env)).isSome) :
    r = [BACKUP_DIR_NAME] ∨ r = backupPathOf env := by
  rcases r with _ | ⟨a, _ | ⟨b, _ | ⟨c, r⟩⟩⟩
  · exact absurd rfl hne
  · simp [backupPathOf] at habove
    simp [habove]
  · simp [backupPathOf] at habove
    simp [habove, backupPathOf]
  · simp [backupPathOf] at habove

theorem createBackup_ends : Ends (createBackup opts env failure) { root := before }
      (fun backupPath t => backupPath = backupPathOf env ∧ ¬ Fires failure .makeBackupDir ∧
        (∀ r, Outside r → t.root.get? r = before.get? r) ∧
        ((∀ q, ¬ Fires failure (.backUp q)) → Backed opts env before t.root))
      (fun t => Fires failure .makeBackupDir ∧ ∀ r, Outside r → t.root.get? r = before.get? r) := by
  obtain ⟨made, hmade, -⟩ := @foldlM_mkdir before (backupPathOf env).inits.tail fun r hr => by
    obtain ⟨hne, habove⟩ := mem_inits_tail.mp hr
    rcases above_backup hne habove with rfl | rfl
    · exact hsetup.backupDir
    · exact Or.inl hsetup.backupFree
  have hget := get?_mkdirs hmade
  have hdir : BackupDir env before made := by
    refine ⟨fun r hne habove => (hget r).trans (if_pos ⟨hne, habove⟩), ?_, ?_⟩
    · intro rel hrel
      obtain ⟨name, rel, rfl⟩ := List.exists_cons_of_ne_nil hrel
      rw [hget, below_longer, if_neg fun h => nomatch h.2]
      exact hsetup.tree.get?_append hsetup.backupFree (by simp [backupPathOf]) _
    · intro r hr
      rw [hget, if_neg]
      rintro ⟨hne, habove⟩
      rcases above_backup hne habove with rfl | rfl
      · simp [Outside] at hr
      · exact not_outside_backup [] (by simpa using hr)
  refine Ends.bind (p := fun _ t => t = { root := made } ∧ ¬ Fires failure .makeBackupDir)
    (ends_simple (fun hquiet => ends_onRoot ?_) fun hfires => ⟨hfires, fun _ _ => rfl⟩) ?_
  · exact ends_of_run (run_change hmade) ⟨rfl, hquiet⟩
  · rintro ⟨⟩ t ⟨rfl, hquiet⟩
    refine Ends.bind (p := fun _ t =>
      Between made.get? (backupGoal env before made) t.root ∧
        ∀ q ∈ opts.preservePaths, ¬ Fires failure (.backUp q) → ∀ rel,
          t.root.get? (backupPathOf env ++ (q ++ rel)) = before.get? (q ++ rel)) ?_ ?_
    · apply Ends.forM opts.preservePaths fun (done : List DiskPath) (t : UpdateState) =>
        Between made.get? (backupGoal env before made) t.root ∧
          ∀ q ∈ done, ¬ Fires failure (.backUp q) → ∀ rel,
            t.root.get? (backupPathOf env ++ (q ++ rel)) = before.get? (q ++ rel)
      · rintro done path rest hpaths t ⟨hbetween, hdone⟩
        have hmem : ∀ q ∈ done ++ [path], q ∈ opts.preservePaths := by
          intro q hq
          rw [hpaths, List.append_cons]
          exact List.mem_append_left rest hq
        apply (backUp_ends hsetup hdir (hmem path (by simp)) hbetween).mono
        · rintro _ u ⟨hkept, hcopied⟩
          refine ⟨hbetween.trans hkept, fun q hq hquiet rel => ?_⟩
          rcases List.mem_append.mp hq with hq' | hq'
          · rw [← hdir.goal_preserved hsetup (hmem q hq)]
            apply hkept.eq_of_eq
            rw [hdir.goal_preserved hsetup (hmem q hq), hdone q hq' hquiet]
          · obtain rfl := List.mem_singleton.mp hq'
            exact hcopied hquiet rel
        · exact fun _ hfalse => hfalse.elim
      · exact ⟨Between.refl _ _, fun q hq => absurd hq (by simp)⟩
    · rintro ⟨⟩ u ⟨hbetween, hcopied⟩
      refine ⟨rfl, hquiet, fun r hr => hdir.root_outside hbetween hr, fun hall =>
        ⟨?_, fun q hq => hcopied q hq (hall q)⟩⟩
      have hkept : u.root.get? (backupPathOf env) = made.get? (backupPathOf env) :=
        (hbetween _).elim id fun h => h.trans (backupGoal_self hsetup)
      rw [hkept]
      exact hdir.dirs _ (by simp [backupPathOf]) (by simp)

end Setup

end Aof.Updater
