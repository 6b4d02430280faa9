import Aof.Packaging.Updater

/-!
# Snapshots and their restoration

Taking and restoring a snapshot are two copies with the same exclusions, one into the snapshot and
one out of it.  What the copy does is stated once, as the disk it leads to.
-/

namespace Aof

open Disk DiskPath

/-- What is copied one by one: not the data directory and not `.aof` as a whole, and nothing below
the snapshots. -/
def Copied (rel : DiskPath) : Prop :=
  rel ≠ [] ∧ rel ≠ [".aof"] ∧ below SNAPSHOT_DIR rel = none

instance (rel : DiskPath) : Decidable (Copied rel) := inferInstanceAs (Decidable (_ ∧ _ ∧ _))

theorem copied_of_ne {name : String} (hname : name ≠ ".aof") (rest : DiskPath) :
    Copied ([name] ++ rest) := by
  refine ⟨by simp, by simp [hname], ?_⟩
  simp [SNAPSHOT_DIR, below, Ne.symm hname]

theorem copied_of_ne_snapshots {name : String} (hname : name ≠ "snapshots") (rest : DiskPath) :
    Copied ([".aof", name] ++ rest) := by
  refine ⟨by simp, by simp, ?_⟩
  simp [SNAPSHOT_DIR, below, Ne.symm hname]

theorem not_copied {rel : DiskPath} (hrel : ¬ Copied rel) :
    rel = [] ∨ rel = [".aof"] ∨ (below SNAPSHOT_DIR rel).isSome := by
  by_contra hnone
  push Not at hnone
  exact hrel ⟨hnone.1, hnone.2.1, by simpa using hnone.2.2⟩

section Copy

def copyGoal (start : Disk) (src dst r : DiskPath) : Option Entry :=
  match below dst r with
  | none => start.get? r
  | some rel =>
      if Copied rel then (start.get? (src ++ rel)).filter isCopyable
      else if rel = [".aof"] then some .dir
      else start.get? r

/-- Nothing is in the way of the copy, and it does not reach its own source. -/
structure Prepared (start : Disk) (src dst : DiskPath) : Prop where
  tree : ∀ rel rest entry, start.get? (src ++ rel ++ rest) = some entry → rel ≠ [] → rest ≠ [] →
    start.get? (src ++ rel) = some .dir
  aof : start.get? (src ++ [".aof"]) = some .dir
  dirs : ∀ r, r ≠ [] → (below r dst).isSome → start.get? r = some .dir
  free : ∀ rel, Copied rel → start.get? (dst ++ rel) = none
  free_aof : start.get? (dst ++ [".aof"]) = none ∨ start.get? (dst ++ [".aof"]) = some .dir
  source : ∀ rel, rel = [".aof"] ∨ Copied rel → copyGoal start src dst (src ++ rel) =
    start.get? (src ++ rel)
  out : ∀ rel, Copied rel → below (src ++ rel) (dst ++ rel) = none

variable {start disk : Disk} {src dst : DiskPath}

variable {rel r : DiskPath}

theorem copyGoal_of_copied (start : Disk) (src dst : DiskPath) (hrel : Copied rel) :
    copyGoal start src dst (dst ++ rel) = (start.get? (src ++ rel)).filter isCopyable := by
  simp [copyGoal, hrel]

theorem copyGoal_aof (start : Disk) (src dst : DiskPath) : copyGoal start src dst (dst ++
    [".aof"]) = some .dir := by
  have hnot : ¬ Copied [".aof"] := fun h => h.2.1 rfl
  simp [copyGoal, hnot]

theorem copyGoal_of_below (hr : (below r dst).isSome) :
    copyGoal start src dst r = start.get? r := by
  unfold copyGoal
  split
  · rfl
  · rename_i rel hrel
    obtain ⟨rel', hrel'⟩ := Option.isSome_iff_exists.mp hr
    have hnil : rel = [] := by
      rw [below_eq_some] at hrel hrel'
      rw [hrel, List.append_assoc] at hrel'
      have hlen := congrArg List.length hrel'
      simp only [List.length_append] at hlen
      exact List.length_eq_zero_iff.mp (by omega)
    have hnot : ¬ Copied rel := fun h => h.1 hnil
    rw [if_neg hnot, if_neg (by simp [hnil])]

variable (hprepared : Prepared start src dst)
include hprepared

theorem Prepared.source_eq (hbetween : Between start.get? (copyGoal start src dst) disk)
    (hrel : rel = [".aof"] ∨ Copied rel) : disk.get? (src ++ rel) = start.get? (src ++ rel) :=
  (hbetween _).elim id fun h => h.trans (hprepared.source rel hrel)

theorem Prepared.dirs_eq (hbetween : Between start.get? (copyGoal start src dst) disk)
    (hne : r ≠ []) (hr : (below r dst).isSome) : disk.get? r = some .dir := by
  rcases hbetween r with heq | heq
  · exact heq.trans (hprepared.dirs r hne hr)
  · exact (heq.trans (copyGoal_of_below hr)).trans (hprepared.dirs r hne hr)

theorem Prepared.copyIfCopyable (rel : DiskPath) (hrel : ∀ rest, Copied (rel ++ rest))
    (hparent : ∀ r, r ≠ [] → (below r (dst ++ rel).dropLast).isSome → disk.get? r = some .dir)
    (hbetween : Between start.get? (copyGoal start src dst) disk) :
    ∃ after, copyIfCopyable disk (src ++ rel) (dst ++ rel) = some after ∧
      Settles (copyGoal start src dst) (fun r => (below (dst ++ rel) r).isSome) disk after := by
  have hsource : ∀ rest, disk.get? (src ++ rel ++ rest) = start.get? (src ++ rel ++ rest) := by
    intro rest
    rw [List.append_assoc]
    exact hprepared.source_eq hbetween (Or.inr (hrel rest))
  have htarget : ∀ rest, disk.get? (dst ++ rel ++ rest) = none ∨ disk.get? (dst ++ rel ++ rest) =
      (start.get? (src ++ rel ++ rest)).filter isCopyable := by
    intro rest
    rw [List.append_assoc, List.append_assoc, ← copyGoal_of_copied _ _ _ (hrel rest),
      ← hprepared.free _ (hrel rest)]
    exact hbetween _
  unfold Aof.copyIfCopyable
  split
  · obtain ⟨after, hafter, hget⟩ := @cp_eq_some disk (src ++ rel) (dst ++ rel)
      isCopyable (hprepared.out rel (by simpa using hrel []))
      hparent (by
        intro rest new old hnew hkeep hold
        rcases htarget rest with hnone | hsome
        · rw [hnone] at hold
          cases hold
        · rw [hold, ← hsource, hnew, Option.filter_some, if_pos hkeep] at hsome
          rw [Option.some.inj hsome]
          exact Iff.rfl)
    refine ⟨after, hafter, fun r => ⟨fun hpart => ?_, fun hpart => ?_⟩⟩
    · obtain ⟨rest, hrest⟩ := Option.isSome_iff_exists.mp hpart
      obtain rfl := below_eq_some.mp hrest
      have hgoal : copyGoal start src dst (dst ++ rel ++ rest) =
          (start.get? (src ++ rel ++ rest)).filter isCopyable := by
        rw [List.append_assoc, List.append_assoc]
        exact copyGoal_of_copied _ _ _ (hrel rest)
      rw [hget, hrest, Option.bind_some, hsource, hgoal]
      rcases htarget rest with hnone | hsome
      · rw [hnone, Option.or_none]
      · rw [hsome, Option.or_self]
    · rw [hget, Option.not_isSome_iff_eq_none.mp hpart]
      rfl
  · rename_i hspecial
    refine ⟨disk, rfl, fun r => ⟨fun hpart => ?_, fun _ => rfl⟩⟩
    obtain ⟨rest, hrest⟩ := Option.isSome_iff_exists.mp hpart
    obtain rfl := below_eq_some.mp hrest
    have hroot : (start.get? (src ++ rel)).filter isCopyable = none := by
      have hsame := hsource []
      rw [List.append_nil] at hsame
      rw [hsame] at hspecial
      cases hentry : start.get? (src ++ rel) with
      | none => rfl
      | some entry =>
          rw [hentry] at hspecial
          simpa using hspecial
    have hnone : (start.get? (src ++ rel ++ rest)).filter isCopyable = none := by
      by_cases hnil : rest = []
      · rwa [hnil, List.append_nil]
      · cases hentry : start.get? (src ++ rel ++ rest) with
        | none => rfl
        | some entry =>
            have hdir := hprepared.tree rel rest entry hentry (by simpa using (hrel []).1) hnil
            rw [hdir] at hroot
            cases hroot
    have hgoal : copyGoal start src dst (dst ++ rel ++ rest) = none := by
      rw [List.append_assoc, copyGoal_of_copied _ _ _ (hrel rest), ← List.append_assoc, hnone]
    rw [hgoal]
    exact (htarget rest).elim id fun h => h.trans hnone

omit hprepared in
theorem below_dropLast_aof {ae : String} (hr : (below r (dst ++ [".aof", ae]).dropLast).isSome) :
    r = dst ++ [".aof"] ∨ (below r dst).isSome := by
  have hdrop : (dst ++ [".aof", ae]).dropLast = dst ++ [".aof"] := by
    rw [List.dropLast_append_of_ne_nil (by simp)]
    rfl
  rw [hdrop] at hr
  exact isSome_below_concat.mp hr

theorem Prepared.unsettled (hbetween : Between start.get? (copyGoal start src dst) disk)
    (haof : rel ≠ [".aof"]) (hnone : Copied rel → start.get? (src ++ rel) = none) :
    disk.get? (dst ++ rel) = copyGoal start src dst (dst ++ rel) := by
  refine (hbetween _).elim (fun hstart => hstart.trans ?_) id
  by_cases hcopied : Copied rel
  · rw [hprepared.free rel hcopied, copyGoal_of_copied _ _ _ hcopied, hnone hcopied]
    rfl
  · simp [copyGoal, hcopied, haof]

theorem Prepared.absent (rel : DiskPath) {name : String}
    (hbetween : Between start.get? (copyGoal start src dst) disk)
    (hrel : rel ++ [name] = [".aof"] ∨ Copied (rel ++ [name]))
    (hname : name ∉ disk.names (src ++ rel)) (rest : DiskPath) :
    start.get? (src ++ (rel ++ name :: rest)) = none := by
  by_contra hsome
  obtain ⟨entry, hentry⟩ := Option.ne_none_iff_exists'.mp hsome
  apply hname
  rw [mem_names, List.append_assoc, hprepared.source_eq hbetween hrel]
  by_cases hnil : rest = []
  · simp [← hnil, hentry]
  · rw [hprepared.tree (rel ++ [name]) rest entry (by simpa using hentry) (by simp) hnil]
    rfl

theorem Prepared.copyAofEntries (haof : disk.get? (dst ++ [".aof"]) = some .dir)
    (hbetween : Between start.get? (copyGoal start src dst) disk) :
    ∃ after, copyAofEntries disk (src ++ [".aof"]) (dst ++ [".aof"]) = some after ∧
      Settles (copyGoal start src dst) (fun r => (below (dst ++ [".aof"]) r).isSome) disk
        after := by
  have hgoal : disk.get? (dst ++ [".aof"]) = copyGoal start src dst (dst ++ [".aof"]) := by
    rw [haof, copyGoal_aof]
  obtain ⟨after, hafter, hsettles⟩ := @foldlM_settles disk disk.get?
    (copyGoal start src dst) _ (disk.names (src ++ [".aof"]))
    (fun (disk : Disk) ae =>
      if ae = "snapshots" then some disk
      else Aof.copyIfCopyable disk (src ++ [".aof"] ++ [ae]) (dst ++ [".aof"] ++ [ae]))
    (fun ae r => ae ≠ "snapshots" ∧ (below (dst ++ [".aof", ae]) r).isSome)
    (by
      intro ae _ current hcurrent
      split
      · rename_i hsnapshots
        exact ⟨current, rfl, fun r => ⟨fun h => absurd hsnapshots h.1, fun _ => rfl⟩⟩
      · rename_i hae
        rw [List.append_assoc, List.append_assoc]
        obtain ⟨after, hafter, hsettles⟩ := hprepared.copyIfCopyable [".aof", ae]
          (copied_of_ne_snapshots hae)
          (by
            intro r hne hr
            rcases below_dropLast_aof hr with rfl | hr
            · rw [hcurrent.eq_of_eq hgoal, copyGoal_aof]
            · exact hprepared.dirs_eq (hbetween.trans hcurrent) hne hr)
          (hbetween.trans hcurrent)
        refine ⟨after, hafter, fun r => ⟨fun h => (hsettles r).1 h.2, fun h => (hsettles r).2 ?_⟩⟩
        exact fun hbelow => h ⟨hae, hbelow⟩)
    (.refl _ disk)
  refine ⟨after, hafter, fun r => ⟨fun hpart => ?_, fun hpart => ?_⟩⟩
  · by_cases hsettled : ∃ ae ∈ disk.names (src ++ [".aof"]),
        ae ≠ "snapshots" ∧ (below (dst ++ [".aof", ae]) r).isSome
    · exact (hsettles r).1 hsettled
    · rw [(hsettles r).2 hsettled]
      obtain ⟨rest, hrest⟩ := Option.isSome_iff_exists.mp hpart
      obtain rfl := below_eq_some.mp hrest
      rcases rest with _ | ⟨ae, rest⟩
      · rw [List.append_nil, hgoal]
      · rw [List.append_assoc]
        apply hprepared.unsettled hbetween (by simp)
        intro hcopied
        have hae : ae ≠ "snapshots" := by
          rintro rfl
          simp [Copied, SNAPSHOT_DIR, below] at hcopied
        apply hprepared.absent [".aof"] hbetween (Or.inr (copied_of_ne_snapshots hae []))
        intro hname
        exact hsettled ⟨ae, hname, hae, by simp [show dst ++ [".aof"] ++ ae :: rest =
          dst ++ [".aof", ae] ++ rest by simp, -List.append_assoc]⟩
  · apply (hsettles r).2
    rintro ⟨ae, -, -, hbelow⟩
    obtain ⟨rest, hrest⟩ := Option.isSome_iff_exists.mp hbelow
    apply hpart
    apply Option.isSome_iff_exists.mpr
    refine ⟨ae :: rest, below_eq_some.mpr ?_⟩
    rw [below_eq_some.mp hrest]
    simp

theorem Prepared.all (step : Disk → String → Option Disk)
    (hstep : ∀ name current, Between start.get? (copyGoal start src dst) current →
      ∃ after, step current name = some after ∧
        Settles (copyGoal start src dst) (fun r => (below (dst ++ [name]) r).isSome) current
          after) : ∃ after, (start.names src).foldlM step start = some after ∧
      ∀ r, after.get? r = copyGoal start src dst r := by
  obtain ⟨after, hafter, hsettles⟩ := foldlM_settles
    (fun name r => (below (dst ++ [name]) r).isSome) (fun name _ => hstep name) (.refl _ start)
  refine ⟨after, hafter, fun r => ?_⟩
  by_cases hsettled : ∃ name ∈ start.names src, (below (dst ++ [name]) r).isSome
  · exact (hsettles r).1 hsettled
  rw [(hsettles r).2 hsettled]
  cases hbelow : below dst r with
  | none => simp [copyGoal, hbelow]
  | some rel =>
      obtain rfl := below_eq_some.mp hbelow
      rcases rel with _ | ⟨name, rest⟩
      · have hnot : ¬ Copied [] := fun h => h.1 rfl
        simp [copyGoal, hnot]
      · have hname : name ∉ start.names src := by
          intro hname
          exact hsettled ⟨name, hname, by simp [show dst ++ name :: rest =
            dst ++ [name] ++ rest by simp, -List.append_assoc]⟩
        have hne : name ≠ ".aof" := by
          rintro rfl
          exact hname (by simp [mem_names, hprepared.aof])
        apply hprepared.unsettled (.refl _ start) (by simp [hne])
        intro _
        have habsent := hprepared.absent [] (.refl _ start)
          (Or.inr (copied_of_ne hne [])) (by simpa using hname) rest
        simpa using habsent

end Copy

section Create

variable {disk made snapped : Disk} {now : Nat} {snapshotPath : DiskPath}

theorem copied_append {rel rest : DiskPath} (hrel : Copied rel) : Copied (rel ++ rest) := by
  obtain ⟨hnil, haof, hbelow⟩ := hrel
  match rel, hnil with
  | [a], _ =>
      have ha : a ≠ ".aof" := by simpa using haof
      exact copied_of_ne ha rest
  | a :: b :: rel, _ =>
      refine ⟨by simp, by simp, ?_⟩
      simpa [SNAPSHOT_DIR, below] using hbelow

theorem below_snapshotPathOf {rel : DiskPath} (hrel : below SNAPSHOT_DIR rel = none) :
    below (snapshotPathOf now) rel = none := by
  rw [below_eq_none] at hrel ⊢
  intro rest
  rw [snapshotPathOf, List.append_assoc]
  exact hrel _

theorem snapshotPathOf_eq (now : Nat) :
    ∃ name, snapshotPathOf now = [".aof", "snapshots", name] := ⟨_, rfl⟩

theorem get?_of_copied {rel : DiskPath} (hmade : disk.mkdirs (snapshotPathOf now) = some made)
    (hrel : Copied rel) : made.get? rel = disk.get? rel := by
  rw [get?_mkdirs hmade, if_neg]
  rintro ⟨hne, habove⟩
  obtain ⟨name, hname⟩ := snapshotPathOf_eq now
  rw [hname] at habove
  obtain ⟨-, haof, hbelow⟩ := hrel
  match rel, hne with
  | [a], _ =>
      have ha : a = ".aof" := by
        by_contra hne
        simp [below, hne] at habove
      exact haof (by rw [ha])
  | a :: b :: rest, _ =>
      have hab : a = ".aof" ∧ b = "snapshots" := by
        by_contra hne
        rw [not_and_or] at hne
        rcases hne with hne | hne <;> simp [below, hne] at habove
      simp [SNAPSHOT_DIR, below, hab.1, hab.2] at hbelow

variable (htree : disk.IsTree)
  (hfresh : ∀ rel, rel ≠ [] → disk.get? (snapshotPathOf now ++ rel) = none)
  (hmade : disk.mkdirs (snapshotPathOf now) = some made)
include htree hfresh hmade

theorem prepared_create : Prepared made [] (snapshotPathOf now) := by
  have hget := get?_mkdirs hmade
  have hmtree := htree.mkdirs hmade
  have habove : ∀ r, r ≠ [] → (below r (snapshotPathOf now)).isSome → made.get? r = some .dir := by
    intro r hne hr
    rw [hget, if_pos ⟨hne, hr⟩]
  have hfree : ∀ rel, rel ≠ [] → made.get? (snapshotPathOf now ++ rel) = none := by
    intro rel hne
    rw [hget, if_neg, hfresh rel hne]
    rintro ⟨-, hbelow⟩
    obtain ⟨rest, hrest⟩ := Option.isSome_iff_exists.mp hbelow
    have hlen := congrArg List.length (below_eq_some.mp hrest)
    simp only [List.length_append] at hlen
    exact hne (List.length_eq_zero_iff.mp (by omega))
  obtain ⟨name, hname⟩ := snapshotPathOf_eq now
  refine ⟨?_, ?_, habove, fun rel hrel => hfree rel hrel.1, Or.inl (hfree _ (by simp)), ?_, ?_⟩
  · intro rel rest entry hentry hne hrest
    rcases isDir_iff.mp (hmtree.isDir_of_append hentry hrest) with hroot | hdir
    · exact absurd hroot hne
    · exact hdir
  · exact habove _ (by simp) (by simp [hname, below])
  · rintro rel (rfl | hrel)
    · exact copyGoal_of_below (by simp [hname, below])
    · rw [copyGoal, List.nil_append, below_snapshotPathOf hrel.2.2]
  · intro rel hrel
    rw [below_eq_none, List.nil_append]
    intro rest heq
    have hsnap : below SNAPSHOT_DIR (snapshotPathOf now ++ rel) ≠ none := by
      simp [hname, SNAPSHOT_DIR, below]
    apply hsnap
    rw [heq]
    exact (copied_append hrel).2.2

theorem createSnapshot_eq :
    ∃ snapped, createSnapshot disk now = some (snapshotPathOf now, snapped) ∧
      ∀ r, snapped.get? r = copyGoal made [] (snapshotPathOf now) r := by
  have hprepared := prepared_create htree hfresh hmade
  have hdirs : ∀ {current r}, Between made.get? (copyGoal made [] (snapshotPathOf now)) current →
      r ≠ [] → (below r (snapshotPathOf now)).isSome → current.get? r = some .dir :=
    fun hcurrent hne hr => hprepared.dirs_eq hcurrent hne hr
  obtain ⟨snapped, hsnapped, hget⟩ := hprepared.all (createEntry (snapshotPathOf now))
    (by
      intro name current hcurrent
      unfold createEntry
      split
      · rename_i haof
        subst haof
        have hsource : current.get? [".aof"] = some .dir := by
          have heq := hprepared.source_eq hcurrent (Or.inl rfl)
          exact heq.trans hprepared.aof
        have hfree : current.get? (snapshotPathOf now ++ [".aof"]) = none ∨
            current.get? (snapshotPathOf now ++ [".aof"]) = some .dir := by
          rcases hcurrent (snapshotPathOf now ++ [".aof"]) with heq | heq
          · rw [heq]
            exact hprepared.free_aof
          · rw [heq, copyGoal_aof]
            exact Or.inr rfl
        obtain ⟨next, hnext, hnget⟩ := mkdirs_concat (fun r => hdirs hcurrent) hfree
        have hmade : Settles (copyGoal made [] (snapshotPathOf now))
            (fun r => r = snapshotPathOf now ++ [".aof"]) current next := by
          intro r
          refine ⟨?_, fun hne => by rw [hnget, if_neg hne]⟩
          rintro rfl
          rw [hnget, if_pos rfl, copyGoal_aof]
        obtain ⟨after, hafter, hsettles⟩ := hprepared.copyAofEntries
          (by rw [(hmade _).1 rfl, copyGoal_aof]) (hmade.between hcurrent)
        refine ⟨after, ?_, fun r => ⟨(hsettles r).1, fun hr => ?_⟩⟩
        · rw [hsource, Option.any_some, if_pos (show isCopyable .dir = true from rfl), hnext]
          exact hafter
        · rw [(hsettles r).2 hr, (hmade r).2]
          rintro rfl
          exact hr (by simp)
      · rename_i hname
        apply hprepared.copyIfCopyable [name] (copied_of_ne hname) _ hcurrent
        intro r hne hr
        rw [List.dropLast_concat] at hr
        exact hdirs hcurrent hne hr)
  refine ⟨snapped, ?_, hget⟩
  rw [createSnapshot, hmade]
  show ((made.names []).foldlM (createEntry (snapshotPathOf now)) made).bind _ = _
  rw [hsnapped]
  rfl

end Create

section Restore

variable {disk made snapped later : Disk} {now : Nat} {snapshotPath : DiskPath}

def LeftInPlace (r : DiskPath) : Prop := r = [".aof"] ∨ (below SNAPSHOT_DIR r).isSome

instance (r : DiskPath) : Decidable (LeftInPlace r) := inferInstanceAs (Decidable (_ ∨ _))

theorem leftInPlace_iff {r : DiskPath} (hne : r ≠ []) : LeftInPlace r ↔ ¬ Copied r := by
  constructor
  · rintro (rfl | hbelow) hcopied
    · exact hcopied.2.1 rfl
    · rw [hcopied.2.2] at hbelow
      cases hbelow
  · intro hcopied
    exact (not_copied hcopied).resolve_left hne

def removalGoal (later : Disk) (r : DiskPath) : Option Entry :=
  if LeftInPlace r then later.get? r else none

theorem removeAll_settles (later : Disk) {p : DiskPath} (hp : ∀ rest, Copied (p ++ rest))
    (current : Disk) :
    Settles (removalGoal later) (fun r => (below p r).isSome) current (current.removeAll p) := by
  intro r
  rw [get?_removeAll]
  constructor
  · intro hpart
    obtain ⟨rest, hrest⟩ := Option.isSome_iff_exists.mp hpart
    have hnot : ¬ LeftInPlace r := by
      rw [below_eq_some.mp hrest, leftInPlace_iff (hp rest).1, not_not]
      exact hp rest
    rw [if_pos hpart, removalGoal, if_neg hnot]
  · intro hpart
    rw [if_neg hpart]

theorem removeAof_settles {current : Disk} (hcurrent : current.IsTree)
    (hbetween : Between later.get? (removalGoal later) current) : (((current.names [".aof"]).foldl
        (fun disk ae => if ae = "snapshots" then disk else disk.removeAll [".aof", ae])
        current).IsTree) ∧ Settles (removalGoal later) (fun r => (below [".aof"] r).isSome) current
        ((current.names [".aof"]).foldl
          (fun disk ae => if ae = "snapshots" then disk else disk.removeAll [".aof", ae])
          current) := by
  obtain ⟨htree, hsettles⟩ := @foldl_settles_of current (removalGoal later) _
    (current.names [".aof"])
    (fun ae r => ae ≠ "snapshots" ∧ (below [".aof", ae] r).isSome)
    (fun disk ae => if ae = "snapshots" then disk else disk.removeAll [".aof", ae]) IsTree
    (by
      intro ae _ disk hdisk
      split
      · rename_i hae
        exact ⟨hdisk, fun r => ⟨fun h => absurd hae h.1, fun _ => rfl⟩⟩
      · rename_i hae
        refine ⟨hdisk.removeAll, fun r => ?_⟩
        have hr := removeAll_settles later (copied_of_ne_snapshots hae) disk r
        exact ⟨fun h => hr.1 h.2, fun h => hr.2 fun hbelow => h ⟨hae, hbelow⟩⟩)
    hcurrent
  refine ⟨htree, fun r => ⟨fun hpart => ?_, fun hpart => ?_⟩⟩
  · by_cases hsettled : ∃ ae ∈ current.names [".aof"],
        ae ≠ "snapshots" ∧ (below [".aof", ae] r).isSome
    · exact (hsettles r).1 hsettled
    · rw [(hsettles r).2 hsettled]
      refine (hbetween r).elim (fun hstart => ?_) id
      rw [removalGoal]
      split
      · exact hstart
      · rename_i hkept
        obtain ⟨rest, hrest⟩ := Option.isSome_iff_exists.mp hpart
        obtain rfl := below_eq_some.mp hrest
        rcases rest with _ | ⟨ae, rest⟩
        · exact absurd (Or.inl rfl) hkept
        · by_contra hsome
          obtain ⟨entry, hentry⟩ := Option.ne_none_iff_exists'.mp hsome
          have hae : ae ≠ "snapshots" := by
            rintro rfl
            exact hkept (Or.inr (by simp [SNAPSHOT_DIR, below]))
          exact hsettled ⟨ae, hcurrent.mem_names hentry, hae, by simp [below]⟩
  · apply (hsettles r).2
    rintro ⟨ae, -, -, hbelow⟩
    obtain ⟨rest, hrest⟩ := Option.isSome_iff_exists.mp hbelow
    exact hpart (Option.isSome_iff_exists.mpr ⟨ae :: rest, below_eq_some.mpr
      (by rw [below_eq_some.mp hrest]; rfl)⟩)

theorem get?_removeCurrent (hlater : later.IsTree) (r : DiskPath) :
    (removeCurrent later).get? r = removalGoal later r := by
  obtain ⟨-, hsettles⟩ := @foldl_settles_of later (removalGoal later) _ (later.names [])
    (fun name r => (below [name] r).isSome)
    (fun disk name =>
      if name = ".aof" then
        (disk.names [".aof"]).foldl
          (fun disk ae => if ae = "snapshots" then disk else disk.removeAll [".aof", ae]) disk
      else disk.removeAll [name])
    (fun disk => disk.IsTree ∧ Between later.get? (removalGoal later) disk)
    (by
      rintro name _ disk ⟨htree, hbetween⟩
      split
      · rename_i hname
        subst hname
        obtain ⟨hnext, hsettles⟩ := removeAof_settles htree hbetween
        exact ⟨⟨hnext, hsettles.between hbetween⟩, hsettles⟩
      · rename_i hname
        have hsettles := removeAll_settles later (copied_of_ne hname) disk
        exact ⟨⟨htree.removeAll, hsettles.between hbetween⟩, hsettles⟩)
    ⟨hlater, .refl _ later⟩
  by_cases hsettled : ∃ name ∈ later.names [], (below [name] r).isSome
  · exact (hsettles r).1 hsettled
  · have hsame : (removeCurrent later).get? r = later.get? r := (hsettles r).2 hsettled
    rw [hsame, removalGoal]
    split
    · rfl
    · by_contra hsome
      obtain ⟨entry, hentry⟩ := Option.ne_none_iff_exists'.mp hsome
      rcases r with _ | ⟨name, rest⟩
      · rw [hlater.get?_root] at hentry
        cases hentry
      · exact hsettled ⟨name, hlater.mem_names (p := []) hentry, by simp [below]⟩

section

variable (hlater : later.IsTree) (haof : later.get? (snapshotPathOf now ++ [".aof"]) = some .dir)
include hlater haof

theorem get?_aof_removeCurrent : (removeCurrent later).get? [".aof"] = some .dir := by
  obtain ⟨name, hname⟩ := snapshotPathOf_eq now
  rw [hname] at haof
  rw [get?_removeCurrent hlater, removalGoal, if_pos (show LeftInPlace [".aof"] from Or.inl rfl)]
  have hdir : later.isDir [".aof"] = true :=
    hlater.isDir_of_append (q := ["snapshots", name, ".aof"]) haof (by simp)
  simpa [isDir_iff] using hdir

theorem prepared_restore : Prepared (removeCurrent later) (snapshotPathOf now) [] := by
  obtain ⟨name, hname⟩ := snapshotPathOf_eq now
  have hget := get?_removeCurrent hlater
  have hkept : ∀ rel, LeftInPlace (snapshotPathOf now ++ rel) := by
    intro rel
    right
    simp [hname, SNAPSHOT_DIR, below]
  have hsnap : ∀ rel, (removeCurrent later).get? (snapshotPathOf now ++ rel) =
      later.get? (snapshotPathOf now ++ rel) := by
    intro rel
    rw [hget, removalGoal, if_pos (hkept rel)]
  refine ⟨?_, ?_, ?_, ?_, ?_, ?_, ?_⟩
  · intro rel rest entry hentry hne hrest
    rw [List.append_assoc, hsnap, ← List.append_assoc] at hentry
    rw [hsnap]
    refine (isDir_iff.mp (hlater.isDir_of_append hentry hrest)).resolve_left ?_
    simp [hname]
  · rw [hsnap, haof]
  · intro r hne hr
    obtain ⟨rel, hrel⟩ := Option.isSome_iff_exists.mp hr
    exact absurd (List.append_eq_nil_iff.mp (below_eq_some.mp hrel).symm).1 hne
  · intro rel hrel
    rw [List.nil_append, hget, removalGoal, if_neg]
    rwa [leftInPlace_iff hrel.1, not_not]
  · exact Or.inr (get?_aof_removeCurrent hlater haof)
  · intro rel _
    have hnot : ¬ Copied (snapshotPathOf now ++ rel) :=
      (leftInPlace_iff (by simp [hname])).mp (hkept rel)
    have hne : snapshotPathOf now ++ rel ≠ [".aof"] := by simp [hname]
    simp only [copyGoal, below]
    rw [if_neg hnot, if_neg hne]
  · intro rel hrel
    rw [below_eq_none]
    intro rest heq
    have hlen := congrArg List.length heq
    simp only [hname, List.length_append, List.length_cons, List.nil_append,
      List.length_nil] at hlen
    omega

end

/-- The restored disk is the one before the snapshot, apart from the snapshots, the directory that
holds them and what a snapshot leaves out. -/
structure Restores (disk restored : Disk) : Prop where
  entries : ∀ p, below SNAPSHOT_DIR p = none → p ≠ [".aof"] →
    restored.get? p = (disk.get? p).filter isCopyable
  aof : restored.get? [".aof"] = some .dir

def RoundTrips (disk : Disk) (now : Nat) : Prop :=
  ∀ snapshotPath snapped later, createSnapshot disk now = some (snapshotPath, snapped) →
    later.IsTree →
    (∀ rel, later.get? (snapshotPath ++ rel) = snapped.get? (snapshotPath ++ rel)) →
    ∃ restored, restoreSnapshot later snapshotPath = some restored ∧ Restores disk restored

theorem restoreSnapshot_eq (hlater : later.IsTree)
    (haof : later.get? (snapshotPathOf now ++ [".aof"]) = some .dir) :
    ∃ restored, restoreSnapshot later (snapshotPathOf now) = some restored ∧
      ∀ r, restored.get? r = copyGoal (removeCurrent later) (snapshotPathOf now) [] r := by
  have hprepared := prepared_restore hlater haof
  have hdir : (removeCurrent later).isDir (snapshotPathOf now) = true := by
    apply isDir_iff.mpr
    right
    rw [get?_removeCurrent hlater, removalGoal,
      if_pos (show LeftInPlace (snapshotPathOf now) from Or.inr rfl)]
    exact (isDir_iff.mp (hlater.isDir_of_append haof (by simp))).resolve_left
      (List.append_ne_nil_of_left_ne_nil (by simp [SNAPSHOT_DIR]) _)
  obtain ⟨restored, hrestored, hget⟩ := hprepared.all (restoreEntry (snapshotPathOf now))
    (by
      intro name current hcurrent
      unfold restoreEntry
      split
      · rename_i hname
        subst hname
        apply hprepared.copyAofEntries _ hcurrent
        rcases hcurrent ([] ++ [".aof"]) with heq | heq
        · exact heq.trans (get?_aof_removeCurrent hlater haof)
        · rw [heq, copyGoal_aof]
      · rename_i hname
        apply hprepared.copyIfCopyable [name] (copied_of_ne hname) _ hcurrent
        intro r hne hr
        obtain ⟨rel, hrel⟩ := Option.isSome_iff_exists.mp hr
        exact absurd (List.append_eq_nil_iff.mp (below_eq_some.mp hrel).symm).1 hne)
  refine ⟨restored, ?_, hget⟩
  rw [restoreSnapshot, if_pos hdir]
  exact hrestored

def leftoverSnapshot : Disk :=
  ⟨[([".aof"], .dir), ([".aof", "snapshots"], .dir), ([".aof", "snapshots", "snapshot-5"], .dir),
    ([".aof", "snapshots", "snapshot-5", "old.md"], .file "old"), (["tasks"], .dir)], by decide⟩

/-- What lay in the directory of the snapshot before is restored with it. -/
theorem leftover_restored : ¬ ∀ (disk : Disk) (now : Nat), disk.IsTree → RoundTrips disk now := by
  intro hall
  have hrun : (createSnapshot leftoverSnapshot 5).any (fun snapshot =>
      decide snapshot.2.IsTree && (restoreSnapshot snapshot.2 snapshot.1).any fun restored =>
        restored.get? ["old.md"] = some (.file "old")) = true := by decide
  obtain ⟨⟨snapshotPath, snapped⟩, hcreate, hrest⟩ := (Option.any_eq_true _ _).mp hrun
  rw [Bool.and_eq_true, decide_eq_true_eq] at hrest
  obtain ⟨restored, hrestored, hleft⟩ := hall leftoverSnapshot 5 (by decide) snapshotPath snapped
    snapped hcreate hrest.1 (fun _ => rfl)
  obtain ⟨other, hother, hold⟩ := (Option.any_eq_true _ _).mp hrest.2
  obtain rfl := Option.some.inj (hother.symm.trans hrestored)
  rw [decide_eq_true_eq, hleft.entries _ (by decide) (by decide)] at hold
  exact absurd hold (by decide)

/-- A snapshot into a directory of its own can be restored. -/
theorem snapshot_round_trip (htree : disk.IsTree)
    (hfresh : ∀ rel, rel ≠ [] → disk.get? (snapshotPathOf now ++ rel) = none) :
    RoundTrips disk now := by
  intro snapshotPath snapped later hcreate hlater hkept
  obtain ⟨made, hmade, -⟩ := Option.bind_eq_some_iff.mp hcreate
  obtain ⟨other, hother, hsnapped⟩ := createSnapshot_eq htree hfresh hmade
  obtain ⟨rfl, rfl⟩ := Prod.mk.inj (Option.some.inj (hother.symm.trans hcreate))
  have hsaved : ∀ rel, Copied rel → later.get? (snapshotPathOf now ++ rel) =
      (disk.get? rel).filter isCopyable := by
    intro rel hrel
    rw [hkept, hsnapped, copyGoal_of_copied _ _ _ hrel, List.nil_append, get?_of_copied hmade hrel]
  have haof : later.get? (snapshotPathOf now ++ [".aof"]) = some .dir := by
    rw [hkept, hsnapped, copyGoal_aof]
  obtain ⟨restored, hrestored, hget⟩ := restoreSnapshot_eq hlater haof
  refine ⟨restored, hrestored, fun p hbelow hne => ?_, ?_⟩
  · by_cases hroot : p = []
    · rw [hroot, htree.get?_root, hget]
      show (removeCurrent later).get? [] = none
      rw [get?_removeCurrent hlater, removalGoal]
      split
      · exact hlater.get?_root
      · rfl
    · have hcopied : Copied p := ⟨hroot, hne, hbelow⟩
      have hgoal := copyGoal_of_copied (removeCurrent later) (snapshotPathOf now) [] hcopied
      rw [List.nil_append] at hgoal
      rw [hget, hgoal, get?_removeCurrent hlater, removalGoal, if_pos, hsaved p hcopied,
        Option.filter_filter]
      · simp
      · exact Or.inr rfl
  · have hgoal := copyGoal_aof (removeCurrent later) (snapshotPathOf now) []
    rw [hget]
    exact hgoal

theorem snapshot_round_trip_example :
    RoundTrips ⟨[(["tasks"], .dir), (["tasks", "a.md"], .file "a"), (["daemon.sock"], .special)],
      by decide⟩ 5 :=
  snapshot_round_trip (by decide) fun _ _ => rfl

end Restore

end Aof
