import Aof.Proof.UpdateBackup

/-!
# The steps of the swap

What each step of an update leaves in the directory if it is done, and what if it fails.
-/

namespace Aof.Updater

open Command Disk DiskPath

variable {opts : UpdateOptions} {env : UpdateEnv} {failure : Option UpdateFailure} {before : Disk}
variable {q r : DiskPath} {s : UpdateState}

section Setup

variable (hsetup : UpdateSetup opts env before)
include hsetup

theorem UpdateSetup.dir_above_existing (hq : q ∈ existing opts before) (hne : r ≠ [])
    (habove : (below r q.dropLast).isSome) : before.get? r = some .dir :=
  dir_above hsetup.tree (mem_existing.mp hq).2 hne habove

theorem UpdateSetup.outside_of_covered (hcovered : Covered (existing opts before) r) :
    Outside r := by
  obtain ⟨q, hq, hbeside⟩ := hcovered
  have hpath := (mem_existing.mp hq).1
  exact (hsetup.outside hpath).beside (hsetup.inside q hpath).1 hbeside

variable {kept : List DiskPath} {root other after : Disk} {p : DiskPath} {content : String}

theorem preservePath_ends {path : DiskPath} (hpath : path ∈ opts.preservePaths)
    (hroot : ∀ r, Outside r → s.root.get? r = before.get? r)
    (hbetween : Between (fun _ => none) before.get? s.preserved) :
    Ends (preservePath failure kept path) s
      (fun kept' t => (t.root = s.root ∧ t.extracted = s.extracted) ∧
        Between s.preserved.get? before.get? t.preserved ∧
        ((kept' = kept ∧ (before.get? path = none ∨ Fires failure (.preserve path))) ∨
          ((∀ q, q ∈ kept' ↔ q ∈ kept ∨ q = path) ∧ (before.get? path).isSome ∧
            ¬ Fires failure (.preserve path) ∧
            ∀ rel, t.preserved.get? (path ++ rel) = before.get? (path ++ rel))))
      (fun _ => False) := by
  have hne := (hsetup.inside path hpath).1
  refine Ends.bind (p := fun copied t => (t.root = s.root ∧ t.extracted = s.extracted) ∧
    Between s.preserved.get? before.get? t.preserved ∧
      ((copied = false ∧ (before.get? path = none ∨ Fires failure (.preserve path))) ∨
        (copied = true ∧ (before.get? path).isSome ∧ ¬ Fires failure (.preserve path) ∧
          ∀ rel, t.preserved.get? (path ++ rel) = before.get? (path ++ rel))))
    (Ends.succeeds ?_) ?_
  · refine Ends.bind (p := fun _ t => t = s ∧ (before.get? path).isSome)
      (ends_access (fun hsome => ⟨rfl, ?_⟩) fun hnone => ?_) ?_
    · rwa [Disk.stat, if_neg hne, hroot path (hsetup.outside hpath)] at hsome
    · rw [Disk.stat, if_neg hne, hroot path (hsetup.outside hpath)] at hnone
      exact ⟨⟨rfl, rfl⟩, Between.refl _ _, Or.inl ⟨rfl, Or.inl hnone⟩⟩
    · rintro ⟨⟩ t ⟨rfl, hsome⟩
      have htree : ∀ rel, Dict.getEntries rel (t.root.subtree path) =
          before.get? (path ++ rel) := by
        intro rel
        rw [getEntries_subtree, hroot _ (hsetup.outside_append hpath rel)]
      have habove : ∀ r, r ≠ [] → (below r path.dropLast).isSome → before.get? r = some .dir :=
        fun r hr hbelow => dir_above hsetup.tree hsome hr hbelow
      apply ends_operation
      · intro hquiet
        obtain ⟨preserved, hrun, hsettles⟩ := @cpFrom_settles t.preserved (t.root.subtree path) path
          before.get? (nodup_subtree _ _)
          (fun entry hentry hspecial => by
            apply hsetup.not_special hpath entry.1
            rw [← htree, ← hspecial]
            exact (Dict.getEntries_eq_some_iff (nodup_subtree _ _)).mpr hentry)
          htree habove (fun r _ => hbetween r) hne
        exact ends_onPreserved hrun ⟨⟨rfl, rfl⟩, hsettles.between (Between.refl _ _),
          Or.inr ⟨rfl, hsome, hquiet, fun rel => (hsettles _).1 (beside_append hne rel)⟩⟩
      · intro failing hfailing hlabel
        refine ⟨⟨rfl, rfl⟩, fun r => ?_, Or.inl ⟨rfl, Or.inr ⟨failing, hfailing, hlabel⟩⟩⟩
        exact (cpPart_between (nodup_subtree _ _) htree habove hne failing.done r).imp id And.right
  · rintro copied t ⟨hsame, hkept, ⟨rfl, hnot⟩ | ⟨rfl, hsome, hquiet, hcopied⟩⟩
    · exact ⟨hsame, hkept, Or.inl ⟨rfl, hnot⟩⟩
    · refine ⟨hsame, hkept, Or.inr ⟨fun q => ?_, hsome, hquiet, hcopied⟩⟩
      show q ∈ (if (true && !kept.contains path) = true then kept ++ [path] else kept) ↔ _
      by_cases hmem : path ∈ kept
      · have hqpath : q = path → q ∈ kept := fun h => h ▸ hmem
        simpa [hmem] using hqpath
      · simp [hmem]

theorem preserveAll_ends (hroot : ∀ r, Outside r → s.root.get? r = before.get? r)
    (hempty : s.preserved = .empty) : Ends (opts.preservePaths.foldlM (preservePath failure) []) s
      (fun kept t => (t.root = s.root ∧ t.extracted = s.extracted) ∧
        (∀ q, q ∈ kept ↔ q ∈ existing opts before ∧ ¬ Fires failure (.preserve q)) ∧
        ∀ q ∈ kept, ∀ rel, t.preserved.get? (q ++ rel) = before.get? (q ++ rel))
      (fun _ => False) := by
  refine (Ends.foldlM opts.preservePaths (fun (done kept : List DiskPath) (t : UpdateState) =>
    (t.root = s.root ∧ t.extracted = s.extracted) ∧
      Between (fun _ => none) before.get? t.preserved ∧
      (∀ q, q ∈ kept ↔ q ∈ done ∧ (before.get? q).isSome ∧ ¬ Fires failure (.preserve q)) ∧
      ∀ q ∈ kept, ∀ rel, t.preserved.get? (q ++ rel) = before.get? (q ++ rel)) ?_ ?_).mono ?_
      fun _ hfalse => hfalse
  · rintro done path rest hpaths kept t ⟨⟨hsame, hextracted⟩, hbetween, hkept, hcopied⟩
    have hpath : path ∈ opts.preservePaths := by
      rw [hpaths]
      simp
    apply (preservePath_ends hsetup hpath (by rw [hsame]; exact hroot) hbetween).mono
    · rintro kept' u ⟨⟨hsame', hextracted'⟩, hmore, hturn⟩
      have hstays : ∀ q ∈ kept, ∀ rel,
          u.preserved.get? (q ++ rel) = before.get? (q ++ rel) :=
        fun q hq rel => hmore.eq_of_eq (hcopied q hq rel)
      refine ⟨⟨hsame'.trans hsame, hextracted'.trans hextracted⟩, hbetween.trans hmore, ?_⟩
      rcases hturn with ⟨rfl, hnot⟩ | ⟨hmem, hsome, hquiet, hnew⟩
      · refine ⟨fun q => ?_, hstays⟩
        rw [hkept, List.mem_append, List.mem_singleton]
        refine ⟨fun ⟨hdone, hq⟩ => ⟨Or.inl hdone, hq⟩, fun ⟨hq, hsome, hquiet⟩ => ?_⟩
        refine ⟨hq.resolve_right ?_, hsome, hquiet⟩
        rintro rfl
        rcases hnot with hnone | hfires
        · simp [hnone] at hsome
        · exact hquiet hfires
      · refine ⟨fun q => ?_, fun q hq => ?_⟩
        · rw [hmem, hkept, List.mem_append, List.mem_singleton]
          constructor
          · rintro (⟨hdone, hq⟩ | rfl)
            · exact ⟨Or.inl hdone, hq⟩
            · exact ⟨Or.inr rfl, hsome, hquiet⟩
          · rintro ⟨hdone | rfl, hq⟩
            · exact Or.inl ⟨hdone, hq⟩
            · exact Or.inr rfl
        · rcases (hmem q).mp hq with hq | rfl
          · exact hstays q hq
          · exact hnew
    · exact fun _ hfalse => hfalse
  · exact ⟨⟨rfl, rfl⟩, fun r => Or.inl (by rw [hempty]; rfl), by simp, by simp⟩
  · rintro kept t ⟨hsame, -, hkept, hcopied⟩
    refine ⟨hsame, fun q => ?_, hcopied⟩
    rw [hkept, mem_existing, and_assoc]

theorem UpdateSetup.name_listed (hne : r ≠ []) (hsome : (before.get? r).isSome) :
    env.entries.any (fun name => (below [name] r).isSome) = true := by
  obtain ⟨name, rel, rfl⟩ := List.exists_cons_of_ne_nil hne
  obtain ⟨entry, hentry⟩ := Option.isSome_iff_exists.mp hsome
  rw [List.any_eq_true]
  exact ⟨name, hsetup.listed name (hsetup.tree.mem_names (p := []) hentry), by simp⟩

omit hsetup in
theorem outside_of_below {name : String} (hname : name ≠ BACKUP_DIR_NAME)
    (hbelow : (below [name] r).isSome) : Outside r := by
  obtain ⟨rel, hrel⟩ := Option.isSome_iff_exists.mp hbelow
  rw [below_eq_some.mp hrel]
  exact outside_of_head hname rel

theorem removeOld_ends (hroot : ∀ r, Outside r → s.root.get? r = before.get? r) :
    Ends (removeOld env failure) s
      (fun _ t => (t.preserved = s.preserved ∧ t.extracted = s.extracted) ∧
        (¬ Fires failure .listRoot ∧ ∀ entry ∈ env.entries, entry ≠ BACKUP_DIR_NAME →
          ¬ Fires failure (.remove entry)) ∧
        ∀ r, r ≠ [] → t.root.get? r = if Outside r then none else s.root.get? r)
      (fun t => ∃ failing, failure = some failing ∧
        ((failing.step = .listRoot ∧ t.root = s.root) ∨
          ∃ entry ∈ env.entries, entry ≠ BACKUP_DIR_NAME ∧ failing.step = .remove entry ∧
            ∀ r, t.root.get? r =
              if Outside r ∧ removedBy env entry failing.done r then none
              else s.root.get? r)) := by
  refine Ends.bind (p := fun _ t => t = s ∧ ¬ Fires failure .listRoot)
    (ends_simple (fun hquiet => ⟨rfl, hquiet⟩)
      fun ⟨failing, hfailing, hlabel⟩ => ⟨failing, hfailing, Or.inl ⟨hlabel, rfl⟩⟩) ?_
  rintro ⟨⟩ t ⟨rfl, hlist⟩
  refine (Ends.forM env.entries (fun (done : List String) (u : UpdateState) =>
    (u.preserved = t.preserved ∧ u.extracted = t.extracted) ∧
      (∀ entry ∈ done, entry ≠ BACKUP_DIR_NAME → ¬ Fires failure (.remove entry)) ∧
      ∀ r, u.root.get? r =
        if Outside r ∧ done.any (fun name => (below [name] r).isSome) then none
        else t.root.get? r) ?_ ?_).mono ?_ fun _ hfail => hfail
  · rintro done entry rest hentries u ⟨hsame, hquiet, hget⟩
    by_cases hentry : entry = BACKUP_DIR_NAME
    · rw [if_pos hentry]
      refine ⟨hsame, fun name hname hne => ?_, fun r => ?_⟩
      · exact hquiet name ((List.mem_append.mp hname).resolve_right
          fun h => hne ((List.mem_singleton.mp h).trans hentry)) hne
      · rw [hget]
        apply if_congr _ rfl rfl
        apply and_congr_right
        intro hout
        have hnone : below [entry] r = none := by
          rw [hentry]
          exact hout
        simp [hnone]
    · rw [if_neg hentry]
      apply ends_rmFromRoot
      · intro hstill
        refine ⟨hsame, fun name hname hne => ?_, fun r => ?_⟩
        · rcases List.mem_append.mp hname with hdone | hlast
          · exact hquiet name hdone hne
          · rwa [List.mem_singleton.mp hlast]
        · show (u.root.removeAll [entry]).get? r = _
          rw [get?_removeAll, hget, List.any_append]
          by_cases hbelow : (below [entry] r).isSome
          · rw [if_pos hbelow, if_pos ⟨outside_of_below hentry hbelow, by simp [hbelow]⟩]
          · simp [hbelow]
      · intro failing hfailing hlabel
        have hfires : Fires failure (.remove entry) := ⟨failing, hfailing, hlabel⟩
        have hdone : ∀ name ∈ done, name ≠ entry := by
          rintro name hname rfl
          exact hquiet name hname hentry hfires
        have htake : env.entries.takeWhile (· ≠ entry) = done := by
          rw [hentries, List.takeWhile_append_of_pos (by simpa using hdone)]
          simp
        refine ⟨failing, hfailing, Or.inr ⟨entry, by simp [hentries], hentry, hlabel, fun r => ?_⟩⟩
        show (rmPart failing.done [entry] u.root).get? r = _
        rw [get?_rmPart, hget, removedBy, htake]
        by_cases hbelow : (below [entry] r).isSome
        · have hout := outside_of_below hentry hbelow
          cases failing.done r <;> simp [hbelow, hout]
        · simp [hbelow]
  · exact ⟨⟨rfl, rfl⟩, by simp, fun r => by simp⟩
  · rintro ⟨⟩ u ⟨hsame, hquiet, hget⟩
    refine ⟨hsame, ⟨hlist, hquiet⟩, fun r hne => ?_⟩
    rw [hget]
    by_cases hout : Outside r
    · rw [if_pos hout]
      by_cases hsome : (before.get? r).isSome
      · rw [if_pos ⟨hout, hsetup.name_listed hne hsome⟩]
      · split
        · rfl
        · rw [hroot r hout]
          exact Option.not_isSome_iff_eq_none.mp hsome
    · rw [if_neg hout, if_neg fun h => hout h.1]

theorem UpdateSetup.release_outside {entry : Entry} (hentry : env.release.get? r = some entry) :
    r ≠ [] ∧ Outside r := by
  refine ⟨?_, ?_⟩
  · rintro rfl
    rw [hsetup.releaseTree.get?_root] at hentry
    cases hentry
  · apply below_eq_none.mpr
    rintro rel rfl
    rw [hsetup.releaseTree.get?_append hsetup.releaseFree (by simp)] at hentry
    cases hentry

theorem install_ends (hextracted : s.extracted = env.release)
    (hempty : ∀ r, r ≠ [] → Outside r → s.root.get? r = none) :
    Ends (cpToRoot failure .install (s.extracted.subtree []) []) s
      (fun _ t => t.preserved = s.preserved ∧ ¬ Fires failure .install ∧
        ∀ r, r ≠ [] → t.root.get? r = if Outside r then env.release.get? r else s.root.get? r)
      (fun t => ∃ failing, failure = some failing ∧ failing.step = .install ∧
        ∀ r, r ≠ [] → t.root.get? r =
          if Outside r then (if failing.done r then env.release.get? r else none)
          else s.root.get? r) := by
  have hnodup := nodup_subtree env.release []
  have hmem : ∀ {rel new}, (rel, new) ∈ env.release.subtree [] →
      env.release.get? rel = some new := fun hrel => mem_subtree.mp hrel
  have hgoal : ∀ (entry : Option Entry) r, r ≠ [] →
      (entry = env.release.get? r ∨ entry = none) →
      entry.or (s.root.get? r) = if Outside r then entry else s.root.get? r := by
    intro entry r hne hentry
    by_cases hout : Outside r
    · rw [if_pos hout, hempty r hne hout, Option.or_none]
    · rw [if_neg hout]
      have hnone : env.release.get? r = none := by
        rw [Option.eq_none_iff_forall_ne_some]
        intro other hother
        exact hout (hsetup.release_outside hother).2
      rcases hentry with rfl | rfl
      · rw [hnone, Option.none_or]
      · exact Option.none_or
  rw [hextracted]
  apply ends_operation
  · intro hquiet
    obtain ⟨root, hrun, hget⟩ := @run_cpFrom s.root (env.release.subtree []) [] hnodup
      (fun entry hentry => hsetup.releasePlain _ (Dict.get?_eq_some_iff.mp (hmem hentry)))
      (fun r hne habove => absurd habove (by cases r <;> simp_all))
      (fun rel new old hrel hold => by
        obtain ⟨hne, hout⟩ := hsetup.release_outside (hmem hrel)
        rw [List.nil_append, hempty rel hne hout] at hold
        cases hold)
    refine ends_onRoot (ends_of_run hrun ⟨rfl, hquiet, fun r hne => ?_⟩)
    rw [hget, if_neg fun h => by cases r <;> simp_all, ← hgoal _ r hne (Or.inl rfl)]
    show (Dict.getEntries r _).or _ = _
    rw [getEntries_subtree, List.nil_append]
  · intro failing hfailing hlabel
    refine ⟨failing, hfailing, hlabel, fun r hne => ?_⟩
    show (cpPart failing.done (env.release.subtree []) [] s.root).get? r = _
    rw [get?_cpPart hnodup, ← hgoal _ r hne (by cases failing.done r <;> simp)]
    show (if _ then Dict.getEntries r _ else none : Option Entry).or _ = _
    rw [getEntries_subtree, List.nil_append]
    rfl

def Passable (opts : UpdateOptions) (before root : Disk) : Prop :=
  ∀ q ∈ existing opts before, ∀ r, r ≠ [] → (below r q.dropLast).isSome →
    root.get? r = none ∨ root.get? r = some .dir

theorem Passable.congr {root other : Disk} (hpassable : Passable opts before root)
    (hother : ∀ r, other.get? r = none ∨ other.get? r = root.get? r ∨
      other.get? r = before.get? r) : Passable opts before other := by
  intro q hq r hne habove
  rcases hother r with hnone | hsame | hbefore
  · exact Or.inl hnone
  · rw [hsame]
    exact hpassable q hq r hne habove
  · exact Or.inr (hbefore.trans (hsetup.dir_above_existing hq hne habove))

theorem Passable.fits_removed (hpassable : Passable opts before root)
    (hq : q ∈ existing opts before) (hbeside : Beside q r) :
    (root.removeAll q).get? r = none ∨ (root.removeAll q).get? r = before.get? r := by
  rw [get?_removeAll]
  split
  · exact Or.inl rfl
  · rename_i hout
    have habove := hbeside.above (Option.not_isSome_iff_eq_none.mp hout)
    rw [hsetup.dir_above_existing hq hbeside.1 habove]
    exact hpassable q hq r hbeside.1 habove

theorem settles_of_removed (hq : q ∈ opts.preservePaths)
    (hsettles : Settles before.get? (Beside q) (root.removeAll q) after) :
    Settles before.get? (Beside q) root after := by
  intro r
  refine ⟨(hsettles r).1, fun hout => ?_⟩
  rw [(hsettles r).2 hout, get?_removeAll, if_neg]
  intro hbelow
  apply hout
  refine ⟨?_, Or.inl hbelow⟩
  rintro rfl
  cases q with
  | nil => exact (hsetup.inside [] hq).1 rfl
  | cons a q => simp at hbelow

theorem restorePath_ends (hq : q ∈ existing opts before)
    (hpreserved : ∀ rel, s.preserved.get? (q ++ rel) = before.get? (q ++ rel))
    (hpassable : Passable opts before s.root) : Ends (restorePath failure q) s
      (fun _ t => t.preserved = s.preserved ∧
        (¬ Fires failure (.clear q) ∧ ¬ Fires failure (.restore q)) ∧
        Settles before.get? (Beside q) s.root t.root)
      (fun t => (Fires failure (.clear q) ∨ Fires failure (.restore q)) ∧
        ∀ r, t.root.get? r = s.root.get? r ∨
          (Beside q r ∧ (t.root.get? r = none ∨ t.root.get? r = before.get? r))) := by
  have hpath := (mem_existing.mp hq).1
  have hne := (hsetup.inside q hpath).1
  have hremoved : ∀ r, (s.root.removeAll q).get? r = s.root.get? r ∨
      (Beside q r ∧ (s.root.removeAll q).get? r = none) := by
    intro r
    rw [get?_removeAll]
    split
    · rename_i hbelow
      obtain ⟨rel, hrel⟩ := Option.isSome_iff_exists.mp hbelow
      rw [below_eq_some.mp hrel]
      exact Or.inr ⟨beside_append hne rel, rfl⟩
    · exact Or.inl rfl
  refine Ends.bind (p := fun _ t => t = { s with root := s.root.removeAll q } ∧
    ¬ Fires failure (.clear q)) (ends_rmFromRoot (fun hquiet => ⟨rfl, hquiet⟩) ?_) ?_
  · intro failing hfailing hlabel
    refine ⟨Or.inl ⟨failing, hfailing, hlabel⟩, fun r => ?_⟩
    show (rmPart failing.done q s.root).get? r = _ ∨
      (_ ∧ ((rmPart failing.done q s.root).get? r = none ∨ _))
    rw [get?_rmPart]
    split
    · rename_i hbelow
      rw [Bool.and_eq_true] at hbelow
      obtain ⟨rel, hrel⟩ := Option.isSome_iff_exists.mp hbelow.1
      rw [below_eq_some.mp hrel]
      exact Or.inr ⟨beside_append hne rel, Or.inl rfl⟩
    · exact Or.inl rfl
  · rintro ⟨⟩ t ⟨rfl, hclear⟩
    have htree : ∀ rel, Dict.getEntries rel (s.preserved.subtree q) = before.get? (q ++ rel) := by
      intro rel
      rw [getEntries_subtree, hpreserved]
    apply (@ends_cpToRoot (s.preserved.subtree q) q failure (.restore q)
      { s with root := s.root.removeAll q } before.get? (nodup_subtree _ _)
      (fun entry hentry hspecial => by
        apply hsetup.not_special hpath entry.1
        rw [← htree, ← hspecial]
        exact (Dict.getEntries_eq_some_iff (nodup_subtree _ _)).mpr hentry)
      htree (fun r hr habove => hsetup.dir_above_existing hq hr habove)
      (fun r hbeside => hpassable.fits_removed hsetup hq hbeside) hne).mono
    · rintro _ u ⟨hrestore, root, rfl, hsettles⟩
      exact ⟨rfl, ⟨hclear, hrestore⟩, settles_of_removed hsetup hpath hsettles⟩
    · rintro u ⟨hfires, root, rfl, hkept⟩
      refine ⟨Or.inr hfires, fun r => ?_⟩
      rcases hkept r with heq | ⟨hbeside, heq⟩
      · rcases hremoved r with hsame | ⟨hbeside, hnone⟩
        · exact Or.inl (heq.trans hsame)
        · exact Or.inr ⟨hbeside, Or.inl (heq.trans hnone)⟩
      · exact Or.inr ⟨hbeside, Or.inr heq⟩

theorem restoreAll_ends (hkept : ∀ q ∈ kept, q ∈ existing opts before)
    (hpreserved : ∀ q ∈ kept, ∀ rel, s.preserved.get? (q ++ rel) = before.get? (q ++ rel))
    (hpassable : Passable opts before s.root) : Ends (kept.forM (restorePath failure)) s
      (fun _ t => (∀ q ∈ kept, ¬ Fires failure (.clear q) ∧ ¬ Fires failure (.restore q)) ∧
        Settles before.get? (Covered kept) s.root t.root)
      (fun t => (∃ q ∈ kept, Fires failure (.clear q) ∨ Fires failure (.restore q)) ∧
        Passable opts before t.root ∧
        ∀ r, ¬ Covered (existing opts before) r → t.root.get? r = s.root.get? r) := by
  have hcovered : ∀ {root : Disk} {done : List DiskPath}, (∀ q ∈ done, q ∈ kept) →
      Settles before.get? (Covered done) s.root root → ∀ r, root.get? r = s.root.get? r ∨
        (Covered (existing opts before) r ∧ root.get? r = before.get? r) := by
    intro root done hdone hsettles r
    by_cases hr : Covered done r
    · obtain ⟨q, hq, hbeside⟩ := hr
      exact Or.inr ⟨⟨q, hkept q (hdone q hq), hbeside⟩, (hsettles r).1 ⟨q, hq, hbeside⟩⟩
    · exact Or.inl ((hsettles r).2 hr)
  refine (Ends.forM kept (fun (done : List DiskPath) (t : UpdateState) =>
    t.preserved = s.preserved ∧
      (∀ q ∈ done, ¬ Fires failure (.clear q) ∧ ¬ Fires failure (.restore q)) ∧
      Settles before.get? (Covered done) s.root t.root) ?_ ?_).mono
    (fun _ t ht => ht.2) fun _ hfail => hfail
  · rintro done q rest hsplit t ⟨hsame, hquiet, hsettles⟩
    have hdone : ∀ p ∈ done, p ∈ kept := by
      intro p hp
      rw [hsplit]
      exact List.mem_append_left _ hp
    have hq : q ∈ kept := by
      rw [hsplit]
      simp
    have hpassableT : Passable opts before t.root := by
      apply hpassable.congr hsetup
      intro r
      rcases hcovered hdone hsettles r with heq | ⟨-, heq⟩
      · exact Or.inr (Or.inl heq)
      · exact Or.inr (Or.inr heq)
    apply (restorePath_ends hsetup (hkept q hq)
      (fun rel => by rw [hsame, hpreserved q hq]) hpassableT).mono
    · rintro _ u ⟨hsame', hquiet', hsettles'⟩
      refine ⟨hsame'.trans hsame, fun p hp => ?_, ?_⟩
      · rcases List.mem_append.mp hp with hp | hp
        · exact hquiet p hp
        · rwa [List.mem_singleton.mp hp]
      · apply (hsettles.trans hsettles').congr
        intro r
        simp [Covered, or_and_right, exists_or]
    · rintro u ⟨hfires, hleft⟩
      refine ⟨⟨q, hq, hfires⟩, ?_, fun r hr => ?_⟩
      · apply hpassableT.congr hsetup
        intro r
        rcases hleft r with heq | ⟨-, heq | heq⟩
        · exact Or.inr (Or.inl heq)
        · exact Or.inl heq
        · exact Or.inr (Or.inr heq)
      · rcases hleft r with heq | ⟨hbeside, -⟩
        · rw [heq]
          exact (hcovered hdone hsettles r).elim id fun h => absurd h.1 hr
        · exact absurd ⟨q, hkept q hq, hbeside⟩ hr
  · exact ⟨rfl, by simp, fun r => ⟨fun ⟨_, hq, _⟩ => by simp at hq, fun _ => rfl⟩⟩

omit hsetup in
theorem TakesVersion.mix {disk mixed : Disk} (hdisk : TakesVersion disk)
    (hother : TakesVersion other)
    (hmixed : ∀ r ∈ metadata, mixed.get? r = disk.get? r ∨ mixed.get? r = other.get? r) :
    TakesVersion mixed where
  dir := by
    rcases hmixed [".aof"] (by simp [metadata]) with heq | heq
    · rw [heq]
      exact hdisk.dir
    · rw [heq]
      exact hother.dir
  config := by
    rcases hmixed configPath (by simp [metadata]) with heq | heq
    · rw [heq]
      exact hdisk.config
    · rw [heq]
      exact hother.config
  version := by
    rcases hmixed versionFilePath (by simp [metadata]) with heq | heq
    · rw [heq]
      exact hdisk.version
    · rw [heq]
      exact hother.version

def VersionOnly (root after : Disk) : Prop :=
  (∀ r, r ∉ metadata → after.get? r = root.get? r) ∧
    (after.get? [".aof"] = root.get? [".aof"] ∨ after.get? [".aof"] = some .dir)

omit hsetup in
theorem VersionOnly.trans {a b c : Disk} (hab : VersionOnly a b) (hbc : VersionOnly b c) :
    VersionOnly a c := by
  refine ⟨fun r hr => (hbc.1 r hr).trans (hab.1 r hr), ?_⟩
  rcases hbc.2 with heq | heq
  · rw [heq]
    exact hab.2
  · exact Or.inr heq

omit hsetup in
theorem versionOnly_writeFile (hp : p = configPath ∨ p = versionFilePath)
    (hwrite : root.writeFile p content = some after) : VersionOnly root after := by
  have hget : ∀ r, p ≠ r → after.get? r = root.get? r := by
    intro r hr
    rw [DiskOp.get?_writeFile hwrite, if_neg hr]
  refine ⟨fun r hr => hget r ?_, Or.inl (hget _ ?_)⟩
  · rintro rfl
    rcases hp with rfl | rfl <;> simp [metadata] at hr
  · rcases hp with rfl | rfl <;> decide

omit hsetup in
theorem updateVersionConfig_keeps (version : String) :
    Ends (updateVersionConfig env failure version) s
      (fun _ t => VersionOnly s.root t.root) (fun t => VersionOnly s.root t.root) := by
  have hrefl : ∀ root : Disk, VersionOnly root root := fun _ => ⟨fun _ _ => rfl, Or.inl rfl⟩
  apply Ends.read_bind
  refine Ends.bind (p := fun _ t => VersionOnly s.root t.root)
    (ends_simple_change (fun _ root hmade => ?_) fun _ => hrefl _) ?_
  · refine ⟨fun r hr => (get?_mkdirs hmade r).trans (if_neg fun h => hr ?_),
      Or.inr ((get?_mkdirs hmade _).trans (if_pos (by decide)))⟩
    obtain ⟨hne, habove⟩ := h
    rcases r with _ | ⟨a, _ | ⟨b, r⟩⟩
    · exact absurd rfl hne
    · have ha : a = ".aof" := by simpa using habove
      simp [ha, metadata]
    · simp at habove
  · rintro ⟨⟩ t ht
    refine Ends.bind (p := fun _ u => VersionOnly s.root u.root)
      (ends_simple_change (fun _ root hwrite => ?_) fun _ => ht) ?_
    · exact ht.trans (versionOnly_writeFile (Or.inl rfl) hwrite)
    · rintro ⟨⟩ u hu
      apply ends_simple_change
      · exact fun _ root hwrite => hu.trans (versionOnly_writeFile (Or.inr rfl) hwrite)
      · exact fun _ => hu

omit hsetup in
theorem writeFile_of_free (hp : p ≠ [])
    (hfree : root.get? p ≠ some .dir ∧ root.get? p ≠ some .special)
    (hparent : root.isDir p.dropLast = true) :
    root.writeFile p content = some (root.set p (.file content)) := by
  rw [Disk.writeFile, Disk.stat, if_neg hp]
  cases hget : root.get? p with
  | none => exact if_pos hparent
  | some entry =>
      cases entry with
      | dir => exact absurd hget hfree.1
      | file text => exact if_pos hparent
      | special => exact absurd hget hfree.2

omit hsetup in
theorem updateVersionConfig_ends {version : String} (htakes : TakesVersion s.root) :
    Ends (updateVersionConfig env failure version) s
      (fun _ _ => ¬ Fires failure .makeConfigDir ∧ ¬ Fires failure .writeConfig ∧
        ¬ Fires failure .writeVersionFile)
      (fun _ => Fires failure .makeConfigDir ∨ Fires failure .writeConfig ∨
        Fires failure .writeVersionFile) := by
  obtain ⟨made, hmade, hmget⟩ := @mkdirs_concat s.root [] ".aof"
    (fun r hne habove => absurd habove (by cases r <;> simp_all)) htakes.dir
  have hmake : s.root.mkdirs [".aof"] = some made := hmade
  have hdir : made.get? [".aof"] = some .dir := (hmget _).trans (if_pos rfl)
  have hconfig := @writeFile_of_free made configPath
    (env.withVersion (s.root.readFile configPath) version) (by decide)
    (by rw [hmget, if_neg (by decide)]; exact htakes.config)
    (isDir_iff.mpr (Or.inr hdir))
  apply Ends.read_bind
  refine Ends.bind (p := fun _ t => t.root = made ∧ ¬ Fires failure .makeConfigDir)
    (ends_simple_change (fun hquiet root hroot => ⟨?_, hquiet⟩) fun hnot => ?_) ?_
  · exact Option.some.inj (hroot.symm.trans hmake)
  · exact Or.inl (hnot.resolve_left (by rw [hmake]; exact Option.some_ne_none made))
  · rintro ⟨⟩ t ⟨rfl, hmakes⟩
    refine Ends.bind (p := fun _ u => u.root.get? versionFilePath = s.root.get? versionFilePath ∧
      ¬ Fires failure .makeConfigDir ∧ ¬ Fires failure .writeConfig)
      (ends_simple_change (fun hquiet root hroot => ⟨?_, hmakes, hquiet⟩) fun hnot => ?_) ?_
    · show root.get? versionFilePath = _
      rw [DiskOp.get?_writeFile hroot, if_neg (by decide), hmget, if_neg (by decide)]
    · exact Or.inr (Or.inl (hnot.resolve_left (by rw [hconfig]; exact Option.some_ne_none _)))
    · rintro ⟨⟩ u ⟨hsame, hmakes, hwrites⟩
      have hversion := @writeFile_of_free u.root versionFilePath version (by decide)
        (by rw [hsame]; exact htakes.version) (isDir_iff.mpr (Or.inl rfl))
      apply ends_simple_change
      · exact fun hquiet root hroot => ⟨hmakes, hwrites, hquiet⟩
      · intro hnot
        exact Or.inr (Or.inr (hnot.resolve_left (by rw [hversion]; exact Option.some_ne_none _)))

end Setup

end Aof.Updater
