import Aof.Proof.UpdateSwap

/-!
# When an update is all or nothing

A failure that is not swallowed ends in a rollback, which brings back what is preserved from the
backup.  Everything else stays as the failure left it.
-/

namespace Aof.Updater

open Command Disk DiskPath

variable {opts : UpdateOptions} {env : UpdateEnv} {failure : Option UpdateFailure} {before : Disk}
variable {q r : DiskPath} {s : UpdateState} {failing : UpdateFailure}

structure Broken (opts : UpdateOptions) (env : UpdateEnv) (before : Disk)
    (failing : UpdateFailure) (root : Disk) : Prop where
  backed : Backed opts env before root
  passable : Passable opts before root
  rest : ∀ r, Tracked r → ¬ Covered (existing opts before) r →
    root.get? r = leftBy env before failing r

def PutAside (opts : UpdateOptions) (failure : Option UpdateFailure) (before : Disk)
    (r : DiskPath) : Prop :=
  ∃ q ∈ existing opts before, ¬ Fires failure (.preserve q) ∧ Beside q r

def Swapped (opts : UpdateOptions) (env : UpdateEnv) (failure : Option UpdateFailure)
    (before root : Disk) : Prop :=
  ∀ r, Tracked r → (PutAside opts failure before r → root.get? r = before.get? r) ∧
    (¬ PutAside opts failure before r → root.get? r = env.release.get? r)

theorem leftBy_early (hstep : failing.step ∈ [UpdateStep.preUpdate, .makeBackupDir, .makeTempDir,
    .download, .extract, .healthCheck, .makePreserveDir, .listRoot]) :
    leftBy env before failing r = before.get? r := by
  simp only [List.mem_cons, List.not_mem_nil, or_false] at hstep
  rcases hstep with h | h | h | h | h | h | h | h <;> simp [leftBy, h]

theorem leftBy_late (hstep : failing.step ∈ [UpdateStep.makeConfigDir, .writeConfig,
    .writeVersionFile, .postUpdate, .removeTempDir]) :
    leftBy env before failing r = env.release.get? r := by
  simp only [List.mem_cons, List.not_mem_nil, or_false] at hstep
  rcases hstep with h | h | h | h | h <;> simp [leftBy, h]

theorem not_mem_metadata (hout : ¬ Outside r) : r ∉ metadata := by
  intro hr
  simp only [metadata, List.mem_cons, List.not_mem_nil, or_false] at hr
  rcases hr with rfl | rfl | rfl <;> exact hout (by decide)

section Setup

variable (hsetup : UpdateSetup opts env before)
include hsetup

theorem passable_of_outside {root : Disk} (hroot : ∀ r, Outside r → root.get? r = before.get? r) :
    Passable opts before root := by
  intro q hq r hne habove
  right
  rw [hroot r (hsetup.outside_of_covered ⟨q, hq, beside_of_above hne habove⟩)]
  exact hsetup.dir_above_existing hq hne habove

theorem Passable.version {root after : Disk} (hpassable : Passable opts before root)
    (honly : VersionOnly root after) : Passable opts before after := by
  intro q hq r hne habove
  have hdir := hsetup.dir_above_existing hq hne habove
  by_cases hr : r ∈ metadata
  · simp only [metadata, List.mem_cons, List.not_mem_nil, or_false] at hr
    rcases hr with rfl | rfl | rfl
    · rcases honly.2 with heq | heq
      · rw [heq]
        exact hpassable q hq _ hne habove
      · exact Or.inr heq
    · exact absurd hdir hsetup.version.config.1
    · exact absurd hdir hsetup.version.version.1
  · rw [honly.1 r hr]
    exact hpassable q hq r hne habove

theorem UpdateSetup.release_passable {root : Disk}
    (hroot : ∀ r, r ≠ [] → Outside r → root.get? r = none ∨ root.get? r = env.release.get? r) :
    Passable opts before root := by
  intro q hq r hne habove
  rcases hroot r hne (hsetup.outside_of_covered ⟨q, hq, beside_of_above hne habove⟩) with
    heq | heq
  · exact Or.inl heq
  · rw [heq]
    have hpath := mem_existing.mp hq
    exact hsetup.parents q hpath.1 hpath.2 r (mem_inits_tail.mpr ⟨hne, habove⟩)

def Failed (opts : UpdateOptions) (env : UpdateEnv) (failure : Option UpdateFailure)
    (before root : Disk) : Prop :=
  ∃ failing, failure = some failing ∧ Throws opts env before failing.step ∧
    Broken opts env before failing root

def Quiet (opts : UpdateOptions) (env : UpdateEnv) (failure : Option UpdateFailure)
    (before : Disk) : Prop :=
  ∀ failing, failure = some failing → Throws opts env before failing.step →
    failing.step = .preUpdate ∨ failing.step = .makeBackupDir

omit hsetup in
theorem Failed.intro {root start : Disk} {label : UpdateStep}
    (hbacked : (∀ q, ¬ Fires failure (.backUp q)) → Backed opts env before start)
    (hfires : Fires failure label) (hthrows : Throws opts env before label)
    (hinside : ∀ r, ¬ Outside r → root.get? r = start.get? r)
    (hpassable : Passable opts before root)
    (hrest : ∀ failing, failure = some failing → failing.step = label → ∀ r, Tracked r →
      ¬ Covered (existing opts before) r → root.get? r = leftBy env before failing r) :
    Failed opts env failure before root := by
  obtain ⟨failing, hfailing, rfl⟩ := hfires
  refine ⟨failing, hfailing, hthrows, ?_, hpassable, hrest failing hfailing rfl⟩
  apply (hbacked ?_).congr hinside
  rintro q ⟨other, hother, hstep⟩
  rw [hfailing] at hother
  obtain rfl := Option.some.inj hother
  rw [hstep] at hthrows
  exact hthrows

section Failures

variable {root start : Disk} {label : UpdateStep} {kept : List DiskPath}
variable (hstart : ∀ r, Outside r → start.get? r = before.get? r)
variable (hbacked : (∀ q, ¬ Fires failure (.backUp q)) → Backed opts env before start)

include hstart hbacked

theorem Failed.early (hsame : root = start) (hfires : Fires failure label)
    (hlabel : label ∈ [UpdateStep.preUpdate, .makeBackupDir, .makeTempDir, .download, .extract,
      .healthCheck, .makePreserveDir, .listRoot]) (hthrows : Throws opts env before label) :
    Failed opts env failure before root := by
  rw [hsame]
  apply Failed.intro hbacked hfires hthrows (fun _ _ => rfl) (passable_of_outside hsetup hstart)
  rintro failing - rfl r hr -
  rw [hstart r hr.2.1, leftBy_early hlabel]

theorem Failed.removing {entry : String} (hfailing : failure = some failing)
    (hstep : failing.step = .remove entry) (hthrows : Throws opts env before (.remove entry))
    (hget : ∀ r, root.get? r =
      if Outside r ∧ removedBy env entry failing.done r then none else start.get? r) :
    Failed opts env failure before root := by
  apply Failed.intro hbacked ⟨failing, hfailing, hstep⟩ hthrows
  · intro r hr
    rw [hget, if_neg fun h => hr h.1]
  · apply (passable_of_outside hsetup hstart).congr hsetup
    intro r
    rw [hget]
    split
    · exact Or.inl rfl
    · exact Or.inr (Or.inl rfl)
  · rintro other hother - r hr -
    obtain rfl := Option.some.inj (hfailing.symm.trans hother)
    rw [hget, leftBy, hstep]
    simp only [hr.2.1, true_and]
    split
    · rfl
    · exact hstart r hr.2.1

omit hstart

theorem Failed.installing (hfailing : failure = some failing) (hstep : failing.step = .install)
    (hget : ∀ r, r ≠ [] → root.get? r =
      if Outside r then (if failing.done r then env.release.get? r else none) else start.get? r) :
    Failed opts env failure before root := by
  apply Failed.intro hbacked ⟨failing, hfailing, hstep⟩ trivial
  · intro r hr
    rw [hget r (fun h => hr (by rw [h]; rfl)), if_neg hr]
  · apply hsetup.release_passable
    intro r hne hr
    rw [hget r hne, if_pos hr]
    split
    · exact Or.inr rfl
    · exact Or.inl rfl
  · rintro other hother - r hr -
    obtain rfl := Option.some.inj (hfailing.symm.trans hother)
    rw [hget r hr.1, if_pos hr.2.1, leftBy, hstep]

omit hsetup in
theorem Failed.installed (hfires : Fires failure label)
    (hlabel : (∃ q, label = .clear q ∨ label = .restore q) ∨
      label ∈ [UpdateStep.makeConfigDir, .writeConfig, .writeVersionFile, .postUpdate,
        .removeTempDir])
    (hthrows : Throws opts env before label) (hpassable : Passable opts before root)
    (hinside : ∀ r, ¬ Outside r → root.get? r = start.get? r)
    (hrelease : ∀ r, Tracked r → ¬ Covered (existing opts before) r →
      root.get? r = env.release.get? r) : Failed opts env failure before root := by
  apply Failed.intro hbacked hfires hthrows hinside hpassable
  rintro failing - rfl r hr hcovered
  rw [hrelease r hr hcovered]
  rcases hlabel with ⟨q, hstep | hstep⟩ | hlabel
  · rw [leftBy, hstep]
  · rw [leftBy, hstep]
  · rw [leftBy_late hlabel]

end Failures

omit hsetup in
theorem Fires.eq {label other : UpdateStep} (hfires : Fires failure label)
    (hother : Fires failure other) : label = other := by
  obtain ⟨failing, hfailing, rfl⟩ := hfires
  obtain ⟨failing', hfailing', rfl⟩ := hother
  rw [Option.some.inj (hfailing.symm.trans hfailing')]

theorem swap_ends (hroot : ∀ r, Outside r → s.root.get? r = before.get? r)
    (hbacked : (∀ q, ¬ Fires failure (.backUp q)) → Backed opts env before s.root) :
    Ends (swap opts env failure) s
      (fun _ t => Quiet opts env failure before ∧ Swapped opts env failure before t.root)
      (fun t => Failed opts env failure before t.root) := by
  have hearly : ∀ {label : UpdateStep} {t : UpdateState}, t.root = s.root ∧ Fires failure label →
      label ∈ [UpdateStep.preUpdate, .makeBackupDir, .makeTempDir, .download, .extract,
        .healthCheck, .makePreserveDir, .listRoot] → Throws opts env before label →
      Failed opts env failure before t.root :=
    fun h hlabel hthrows => Failed.early hsetup hroot hbacked h.1 h.2 hlabel hthrows
  refine Ends.bind ((ends_simple_modify _).mono (fun _ _ => id)
    fun t ht => hearly ⟨by rw [ht.1], ht.2⟩ (by simp) trivial) ?_
  rintro ⟨⟩ t₁ ⟨rfl, hmakeTempDir⟩
  refine Ends.bind (ends_simple_pure.mono (fun _ _ => id)
    fun t ht => hearly ⟨by rw [ht.1], ht.2⟩ (by simp) trivial) ?_
  rintro ⟨⟩ t₂ ⟨rfl, hdownload⟩
  refine Ends.bind ((ends_simple_modify _).mono (fun _ _ => id)
    fun t ht => hearly ⟨by rw [ht.1], ht.2⟩ (by simp) trivial) ?_
  rintro ⟨⟩ t₃ ⟨rfl, hextract⟩
  refine Ends.bind (ends_simple_pure.mono (fun _ _ => id)
    fun t ht => hearly ⟨by rw [ht.1], ht.2⟩ (by simp) trivial) ?_
  rintro ⟨⟩ t₄ ⟨rfl, hhealthCheck⟩
  refine Ends.bind (ends_simple_pure.mono (fun _ _ => id)
    fun t ht => hearly ⟨by rw [ht.1], ht.2⟩ (by simp) trivial) ?_
  rintro ⟨⟩ t₅ ⟨rfl, hmakePreserveDir⟩
  refine Ends.bind ((preserveAll_ends hsetup (s := { root := s.root, extracted := env.release })
    hroot rfl).mono (fun _ _ => id) fun _ hfalse => hfalse.elim) ?_
  rintro kept t₆ ⟨⟨hroot₆, hextracted₆⟩, hkept, hpreserved⟩
  have hkeptExisting : ∀ q ∈ kept, q ∈ existing opts before := fun q hq => ((hkept q).mp hq).1
  have haside : ∀ r, PutAside opts failure before r ↔ Covered kept r := by
    intro r
    constructor
    · rintro ⟨q, hq, hquiet, hbeside⟩
      exact ⟨q, (hkept q).mpr ⟨hq, hquiet⟩, hbeside⟩
    · rintro ⟨q, hq, hbeside⟩
      exact ⟨q, ((hkept q).mp hq).1, ((hkept q).mp hq).2, hbeside⟩
  -- the old installation goes
  refine Ends.bind ((removeOld_ends hsetup (s := t₆) (by rw [hroot₆]; exact hroot)).mono
    (fun _ _ => id) ?_) ?_
  · rintro t ⟨failing, hfailing, ⟨hstep, hsame⟩ | ⟨entry, hentry, hne, hstep, hget⟩⟩
    · exact hearly ⟨hsame.trans hroot₆, failing, hfailing, hstep⟩ (by simp) trivial
    · rw [hroot₆] at hget
      exact Failed.removing hsetup hroot hbacked hfailing hstep ⟨hentry, hne⟩ hget
  rintro ⟨⟩ t₇ ⟨⟨hpreserved₇, hextracted₇⟩, ⟨hlistRoot, hremove⟩, hget₇⟩
  rw [hroot₆] at hget₇
  have hinside₇ : ∀ r, ¬ Outside r → t₇.root.get? r = s.root.get? r := by
    intro r hr
    rw [hget₇ r (fun h => hr (by rw [h]; rfl)), if_neg hr]
  -- the release comes
  apply Ends.read_bind
  refine Ends.bind ((install_ends hsetup (s := t₇) (hextracted₇.trans hextracted₆)
    fun r hne hr => (hget₇ r hne).trans (if_pos hr)).mono (fun _ _ => id) ?_) ?_
  · rintro t ⟨failing, hfailing, hstep, hget⟩
    apply Failed.installing hsetup hbacked hfailing hstep
    intro r hne
    rw [hget r hne]
    split
    · rfl
    · exact hinside₇ r ‹_›
  rintro ⟨⟩ t₈ ⟨hpreserved₈, hinstall, hget₈⟩
  have hinside₈ : ∀ r, ¬ Outside r → t₈.root.get? r = s.root.get? r := by
    intro r hr
    rw [hget₈ r (fun h => hr (by rw [h]; rfl)), if_neg hr, hinside₇ r hr]
  have hrelease₈ : ∀ r, r ≠ [] → Outside r → t₈.root.get? r = env.release.get? r :=
    fun r hne hr => (hget₈ r hne).trans (if_pos hr)
  -- what was put aside comes back
  refine Ends.bind ((restoreAll_ends hsetup (s := t₈) hkeptExisting
    (fun q hq rel => by rw [hpreserved₈, hpreserved₇, hpreserved q hq])
    (hsetup.release_passable fun r hne hr => Or.inr (hrelease₈ r hne hr))).mono
      (fun _ _ => id) ?_) ?_
  · rintro t ⟨⟨q, hq, hfires⟩, hpassable, hget⟩
    have hin : ∀ r, ¬ Outside r → t.root.get? r = s.root.get? r := by
      intro r hr
      rw [hget r fun hcovered => hr (hsetup.outside_of_covered hcovered), hinside₈ r hr]
    have hrelease : ∀ r, Tracked r → ¬ Covered (existing opts before) r →
        t.root.get? r = env.release.get? r :=
      fun r hr hcovered => (hget r hcovered).trans (hrelease₈ r hr.1 hr.2.1)
    rcases hfires with hfires | hfires
    · exact Failed.installed hbacked hfires (.inl ⟨q, .inl rfl⟩) (hkeptExisting q hq)
        hpassable hin hrelease
    · exact Failed.installed hbacked hfires (.inl ⟨q, .inr rfl⟩) (hkeptExisting q hq)
        hpassable hin hrelease
  rintro ⟨⟩ t₉ ⟨hrestore, hsettles⟩
  have hcovered₉ : ∀ r, ¬ Covered (existing opts before) r → ¬ Covered kept r :=
    fun r hr hcovered => hr (hcovered.imp fun q hq => ⟨hkeptExisting q hq.1, hq.2⟩)
  have hinside₉ : ∀ r, ¬ Outside r → t₉.root.get? r = s.root.get? r := by
    intro r hr
    rw [(hsettles r).2 (hcovered₉ r fun h => hr (hsetup.outside_of_covered h)), hinside₈ r hr]
  have hrelease₉ : ∀ r, r ≠ [] → Outside r → ¬ Covered kept r →
      t₉.root.get? r = env.release.get? r := by
    intro r hne hr hcovered
    rw [(hsettles r).2 hcovered, hrelease₈ r hne hr]
  have hpassable₉ : Passable opts before t₉.root := by
    apply (hsetup.release_passable fun r hne hr => Or.inr (hrelease₈ r hne hr)).congr hsetup
    intro r
    by_cases hr : Covered kept r
    · exact Or.inr (Or.inr ((hsettles r).1 hr))
    · exact Or.inr (Or.inl ((hsettles r).2 hr))
  have hlate : ∀ {label : UpdateStep} {t : UpdateState}, VersionOnly t₉.root t.root →
      Fires failure label → label ∈ [UpdateStep.makeConfigDir, .writeConfig, .writeVersionFile,
        .postUpdate, .removeTempDir] → Throws opts env before label →
      Failed opts env failure before t.root := by
    intro label t honly hfires hlabel hthrows
    apply Failed.installed hbacked hfires (.inr hlabel) hthrows
    · exact hpassable₉.version hsetup honly
    · intro r hr
      rw [honly.1 r (not_mem_metadata hr), hinside₉ r hr]
    · intro r hr hcovered
      rw [honly.1 r hr.2.2, hrelease₉ r hr.1 hr.2.1 (hcovered₉ r hcovered)]
  have htakes : TakesVersion t₉.root := by
    apply hsetup.version.mix hsetup.releaseVersion
    intro r hr
    have hplace : r ≠ [] ∧ Outside r := by
      simp only [metadata, List.mem_cons, List.not_mem_nil, or_false] at hr
      rcases hr with rfl | rfl | rfl <;> exact ⟨by decide, by decide⟩
    by_cases hcovered : Covered kept r
    · exact Or.inl ((hsettles r).1 hcovered)
    · exact Or.inr (hrelease₉ r hplace.1 hplace.2 hcovered)
  -- the version is recorded
  refine Ends.bind (((updateVersionConfig_keeps _).and (updateVersionConfig_ends htakes)).mono
    (fun _ _ => id) ?_) ?_
  · rintro t ⟨honly, hfires | hfires | hfires⟩
    · exact hlate honly hfires (by simp) trivial
    · exact hlate honly hfires (by simp) trivial
    · exact hlate honly hfires (by simp) trivial
  rintro ⟨⟩ t₁₀ ⟨honly, hmakeConfigDir, hwriteConfig, hwriteVersionFile⟩
  refine Ends.bind (ends_simple_pure.mono (fun _ _ => id)
    fun t ht => hlate (by rw [ht.1]; exact honly) ht.2 (by simp) trivial) ?_
  rintro ⟨⟩ t₁₁ ⟨rfl, hpostUpdate⟩
  refine (ends_simple_modify _).mono ?_
    fun t ht => hlate (by rw [ht.1]; exact honly) ht.2 (by simp) trivial
  rintro ⟨⟩ t ⟨rfl, hremoveTempDir⟩
  have hpassed : ∀ label, Throws opts env before label → Fires failure label →
      label = .preUpdate ∨ label = .makeBackupDir := by
    intro label hthrows hfires
    cases label with
    | preUpdate => exact Or.inl rfl
    | makeBackupDir => exact Or.inr rfl
    | backUp path => exact hthrows.elim
    | makeTempDir => exact absurd hfires hmakeTempDir
    | download => exact absurd hfires hdownload
    | extract => exact absurd hfires hextract
    | healthCheck => exact absurd hfires hhealthCheck
    | makePreserveDir => exact absurd hfires hmakePreserveDir
    | preserve path => exact hthrows.elim
    | listRoot => exact absurd hfires hlistRoot
    | remove entry => exact absurd hfires (hremove entry hthrows.1 hthrows.2)
    | install => exact absurd hfires hinstall
    | clear path =>
        have hquiet : ¬ Fires failure (.preserve path) := by
          intro hpreserve
          cases hfires.eq hpreserve
        exact absurd hfires (hrestore path ((hkept path).mpr ⟨hthrows, hquiet⟩)).1
    | restore path =>
        have hquiet : ¬ Fires failure (.preserve path) := by
          intro hpreserve
          cases hfires.eq hpreserve
        exact absurd hfires (hrestore path ((hkept path).mpr ⟨hthrows, hquiet⟩)).2
    | makeConfigDir => exact absurd hfires hmakeConfigDir
    | writeConfig => exact absurd hfires hwriteConfig
    | writeVersionFile => exact absurd hfires hwriteVersionFile
    | postUpdate => exact absurd hfires hpostUpdate
    | removeTempDir => exact absurd hfires hremoveTempDir
    | removeBackup => exact hthrows.elim
  refine ⟨?_, fun r hr => ?_⟩
  · exact fun failing hfailing hthrows => hpassed _ hthrows ⟨failing, hfailing, rfl⟩
  · show (_ → t₁₁.root.get? r = _) ∧ (_ → t₁₁.root.get? r = _)
    rw [honly.1 r hr.2.2, haside]
    exact ⟨(hsettles r).1, hrelease₉ r hr.1 hr.2.1⟩

def Undone (opts : UpdateOptions) (env : UpdateEnv) (before : Disk) (failing : UpdateFailure)
    (root : Disk) : Prop :=
  ∀ r, Tracked r → (Covered (existing opts before) r → root.get? r = before.get? r) ∧
    (¬ Covered (existing opts before) r → root.get? r = leftBy env before failing r)

omit hsetup in
theorem quiet_none {label : UpdateStep} : ¬ Fires none label := by
  rintro ⟨_, hnone, _⟩
  cases hnone

theorem bringBack_ends {path : DiskPath} (hpath : path ∈ opts.preservePaths)
    (hbacked : Backed opts env before s.root) (hpassable : Passable opts before s.root) :
    Ends (attempt do
        access (backupPathOf env ++ path)
        rmFromRoot none (.clear path) path
        cpInRoot none (.restore path) (backupPathOf env ++ path) path) s
      (fun _ t => Settles before.get?
        (fun r => path ∈ existing opts before ∧ Beside path r) s.root t.root)
      (fun _ => False) := by
  have hne := (hsetup.inside path hpath).1
  have hfile : s.root.stat (backupPathOf env ++ path) = before.get? path := by
    have hget := hbacked.files path hpath []
    rw [List.append_nil] at hget
    rw [Disk.stat, if_neg (by simp [backupPathOf]), hget]
  apply Ends.attempt
  refine Ends.bind (p := fun _ t => t = s ∧ path ∈ existing opts before)
    (ends_access (fun hsome => ⟨rfl, ?_⟩) fun hnone => ?_) ?_
  · rw [hfile] at hsome
    exact mem_existing.mpr ⟨hpath, hsome⟩
  · intro r
    refine ⟨fun hr => ?_, fun _ => rfl⟩
    rw [hfile] at hnone
    simp [existing, hnone] at hr
  · rintro ⟨⟩ t ⟨rfl, hexisting⟩
    have hout : ∀ rel, below path (backupPathOf env ++ rel) = none := by
      intro rel
      rw [below_eq_none]
      intro tail htail
      apply @not_outside_backup env rel
      rw [htail]
      exact hsetup.outside_append hpath tail
    have hback : ∀ rel, below (backupPathOf env ++ path) (path ++ rel) = none := by
      intro rel
      rw [below_eq_none]
      intro tail htail
      apply @not_outside_backup env (path ++ tail)
      rw [← List.append_assoc, ← htail]
      exact hsetup.outside_append hpath rel
    refine Ends.bind (p := fun _ u => u = { t with root := t.root.removeAll path })
      (ends_rmFromRoot (fun _ => rfl) fun _ hnone => by cases hnone) ?_
    rintro ⟨⟩ u rfl
    apply (@ends_cpInRoot path none (.restore path) { t with root := t.root.removeAll path }
      before.get? (backupPathOf env ++ path) (by simpa using hback [])
      (fun rel => by
        show (t.root.removeAll path).get? _ = _
        rw [get?_removeAll, List.append_assoc, hout]
        exact hbacked.files path hpath rel)
      (fun rel => hsetup.not_special hpath rel)
      (fun r hr habove => hsetup.dir_above_existing hexisting hr habove)
      (fun r hbeside => hpassable.fits_removed hsetup hexisting hbeside) hne).mono
    · rintro _ v ⟨-, root, rfl, hsettles⟩
      apply (settles_of_removed hsetup hpath hsettles).congr
      intro r
      simp [hexisting]
    · rintro v ⟨hfires, -⟩
      exact absurd hfires quiet_none

theorem bringAllBack_ends (hbacked : Backed opts env before s.root)
    (hpassable : Passable opts before s.root) :
    Ends (opts.preservePaths.forM fun path => attempt do
        access (backupPathOf env ++ path)
        rmFromRoot none (.clear path) path
        cpInRoot none (.restore path) (backupPathOf env ++ path) path) s
      (fun _ t => Settles before.get? (Covered (existing opts before)) s.root t.root)
      (fun _ => False) := by
  refine (Ends.forM opts.preservePaths (fun (done : List DiskPath) (u : UpdateState) =>
    Settles before.get? (fun r => ∃ q ∈ done, q ∈ existing opts before ∧ Beside q r) s.root
      u.root) ?_ ?_).mono ?_ fun _ (hfalse : False) => hfalse.elim
  · rintro done path rest hpaths u hsettles
    have hsame : ∀ r, u.root.get? r = s.root.get? r ∨
        (Covered (existing opts before) r ∧ u.root.get? r = before.get? r) := by
      intro r
      by_cases hr : ∃ q ∈ done, q ∈ existing opts before ∧ Beside q r
      · obtain ⟨q, hdone, hq, hbeside⟩ := hr
        exact Or.inr ⟨⟨q, hq, hbeside⟩, (hsettles r).1 ⟨q, hdone, hq, hbeside⟩⟩
      · exact Or.inl ((hsettles r).2 hr)
    apply (bringBack_ends hsetup (by rw [hpaths]; simp)
      (hbacked.congr fun r hr => (hsame r).resolve_right
        fun h => hr (hsetup.outside_of_covered h.1))
      (hpassable.congr hsetup fun r => Or.inr ((hsame r).imp id And.right))).mono
    · rintro _ v hturn
      apply (hsettles.trans hturn).congr
      intro r
      simp [or_and_right, exists_or]
    · exact fun _ hfalse => hfalse.elim
  · exact fun r => ⟨fun hnothing => by simp at hnothing, fun _ => rfl⟩
  · rintro _ u hsettles
    apply hsettles.congr
    intro r
    constructor
    · rintro ⟨q, -, hq, hbeside⟩
      exact ⟨q, hq, hbeside⟩
    · rintro ⟨q, hq, hbeside⟩
      exact ⟨q, (mem_existing.mp hq).1, hq, hbeside⟩

theorem undo_ends (hbroken : Broken opts env before failing s.root) :
    Ends (undo opts env (backupPathOf env)) s (fun _ t => Undone opts env before failing t.root)
      (fun t => Undone opts env before failing t.root) := by
  suffices hrollback : Ends (rollbackUpdate opts env none (backupPathOf env)) s
      (fun _ t => Undone opts env before failing t.root)
      (fun t => Undone opts env before failing t.root) by
    refine hrollback.bind fun _ t hundone => ?_
    exact Ends.attempt hundone
  refine Ends.bind (p := fun _ t => t = s) (ends_access (fun _ => rfl) fun hnone => ?_) ?_
  · rw [Disk.stat, if_neg (by simp [backupPathOf]), hbroken.backed.dir] at hnone
    cases hnone
  rintro ⟨⟩ t rfl
  refine Ends.bind (p := fun _ u => u = t) (ends_of_run rfl rfl) ?_
  rintro restoredVersion t rfl
  refine Ends.bind ((bringAllBack_ends hsetup hbroken.backed hbroken.passable).mono
    (fun _ _ => id) fun _ hfalse => hfalse.elim) ?_
  rintro ⟨⟩ u hsettles
  have hundone : ∀ {root : Disk}, (∀ r, Tracked r → root.get? r = u.root.get? r) →
      Undone opts env before failing root := by
    intro root hroot r hr
    rw [hroot r hr]
    exact ⟨(hsettles r).1, fun hcovered => ((hsettles r).2 hcovered).trans
      (hbroken.rest r hr hcovered)⟩
  refine Ends.bind (p := fun _ v => ∀ r, Tracked r → v.root.get? r = u.root.get? r)
    (ends_rmFromRoot (fun _ r hr => ?_) fun _ hnone => by cases hnone) ?_
  · show (u.root.removeAll (backupPathOf env)).get? r = _
    rw [get?_removeAll, if_neg]
    intro hbelow
    obtain ⟨rel, hrel⟩ := Option.isSome_iff_exists.mp hbelow
    apply @not_outside_backup env rel
    rw [← below_eq_some.mp hrel]
    exact hr.2.1
  rintro ⟨⟩ v hv
  refine Ends.bind (p := fun _ w => ∀ r, Tracked r → w.root.get? r = u.root.get? r) ?_
    fun _ w hw => hundone hw
  unfold recordRestored
  split
  · exact hv
  · apply (updateVersionConfig_keeps restoredVersion).mono
    · exact fun _ w honly r hr => (honly.1 r hr.2.2).trans (hv r hr)
    · exact fun w honly => hundone fun r hr => (honly.1 r hr.2.2).trans (hv r hr)

theorem selfUpdate_ends : Ends (selfUpdate opts env failure) { root := before }
      (fun _ t => (∀ failing, failure = some failing → ¬ Throws opts env before failing.step) ∧
        Swapped opts env failure before t.root)
      (fun t => ∃ failing, failure = some failing ∧ Throws opts env before failing.step ∧
        Undone opts env before failing t.root) := by
  have hstart : ∀ {label : UpdateStep} {t : UpdateState}, Fires failure label →
      label = .preUpdate ∨ label = .makeBackupDir →
      (∀ r, Outside r → t.root.get? r = before.get? r) →
      ∃ failing, failure = some failing ∧ Throws opts env before failing.step ∧
        Undone opts env before failing t.root := by
    rintro label t ⟨failing, hfailing, rfl⟩ hlabel hsame
    refine ⟨failing, hfailing, by rcases hlabel with h | h <;> rw [h] <;> trivial, ?_⟩
    intro r hr
    rw [hsame r hr.2.1, leftBy_early (by rcases hlabel with h | h <;> simp [h])]
    exact ⟨fun _ => rfl, fun _ => rfl⟩
  refine Ends.bind (ends_simple_pure.mono (fun _ _ => id) fun t ht =>
    hstart ht.2 (Or.inl rfl) (by rw [ht.1]; exact fun _ _ => rfl)) ?_
  rintro ⟨⟩ t ⟨rfl, hpreUpdate⟩
  refine Ends.bind ((createBackup_ends hsetup).mono (fun _ _ => id) fun t ht =>
    hstart ht.1 (Or.inr rfl) ht.2) ?_
  rintro backupPath t ⟨rfl, hmakeBackupDir, hroot, hbacked⟩
  refine Ends.bind (p := fun _ u => Quiet opts env failure before ∧
    Swapped opts env failure before u.root) (Ends.onThrow ?_) ?_
  · refine (swap_ends hsetup hroot hbacked).mono (fun _ _ => id) ?_
    rintro u ⟨failing, hfailing, hthrows, hbroken⟩
    apply (undo_ends hsetup hbroken).mono
    · exact fun _ v hundone => ⟨failing, hfailing, hthrows, hundone⟩
    · exact fun v hundone => ⟨failing, hfailing, hthrows, hundone⟩
  · rintro ⟨⟩ u ⟨hquiet, hswapped⟩
    refine ⟨fun failing hfailing hthrows => ?_, hswapped⟩
    rcases hquiet failing hfailing hthrows with hstep | hstep
    · exact hpreUpdate ⟨failing, hfailing, hstep⟩
    · exact hmakeBackupDir ⟨failing, hfailing, hstep⟩

end Setup

/-- The update is all or nothing exactly if a failure that ends in a rollback left nothing changed
outside the preserved paths. -/
theorem selfUpdate_atomic_iff (hsetup : UpdateSetup opts env before) :
    AllOrNothing opts env failure before ↔
      ∀ failing, failure = some failing → Harmless opts env before failing := by
  apply (selfUpdate_ends hsetup).iff
  · rintro _ t ⟨hquiet, hswapped⟩
    constructor
    · intro hkept failing hfailing
      refine ⟨fun hthrows => absurd hthrows (hquiet failing hfailing), ?_⟩
      intro q hq hstep rel hrel hcovered
      obtain ⟨hpath, hsome⟩ := mem_existing.mp hq
      rw [← hkept q hpath hsome rel hrel, (hswapped _ hrel).2]
      rintro ⟨p, hp, hputAside, hbeside⟩
      refine hcovered ⟨p, List.mem_filter.mpr ⟨hp, ?_⟩, hbeside⟩
      simp only [ne_eq, decide_eq_true_eq]
      rintro rfl
      exact hputAside ⟨failing, hfailing, hstep⟩
    · intro hharmless q hpath hsome rel hrel
      have hq := mem_existing.mpr ⟨hpath, hsome⟩
      by_cases haside : PutAside opts failure before (q ++ rel)
      · exact (hswapped _ hrel).1 haside
      · rw [(hswapped _ hrel).2 haside]
        have hfires : Fires failure (.preserve q) := by
          by_contra hquietQ
          exact haside ⟨q, hq, hquietQ, beside_append (hsetup.inside q hpath).1 rel⟩
        obtain ⟨failing, hfailing, hstep⟩ := hfires
        apply (hharmless failing hfailing).2 q hq hstep rel hrel
        rintro ⟨p, hp, hbeside⟩
        obtain ⟨hp, hne⟩ := List.mem_filter.mp hp
        apply haside ⟨p, hp, ?_, hbeside⟩
        rintro ⟨other, hother, hpreserve⟩
        rw [← Option.some.inj (hfailing.symm.trans hother), hstep] at hpreserve
        cases hpreserve
        simp at hne
  · rintro t ⟨failing, hfailing, hthrows, hundone⟩
    constructor
    · intro hsame other hother
      obtain rfl := Option.some.inj (hfailing.symm.trans hother)
      refine ⟨fun _ r hr hcovered => ?_, fun q _ hstep => ?_⟩
      · rw [← (hundone r hr).2 hcovered]
        exact hsame r hr
      · rw [hstep] at hthrows
        exact hthrows.elim
    · intro hharmless r hr
      by_cases hcovered : Covered (existing opts before) r
      · rw [(hundone r hr).1 hcovered]
      · rw [(hundone r hr).2 hcovered]
        exact (hharmless failing hfailing).1 hthrows r hr hcovered

def sampleOptions : UpdateOptions where
  targetVersion := "2.0.0"
  preservePaths := [["data"], [".aof"]]

def sampleRoot : Disk where
  entries := [(["package.json"], .file "old"), (["data"], .dir), (["data", "a.md"], .file "a"),
    ([".aof"], .dir), (configPath, .file "1.0.0")]
  nodup := by decide

def sampleEnv : UpdateEnv where
  now := 5
  release := {
    entries := [(["package.json"], .file "new"), (["data"], .dir)]
    nodup := by decide }
  entries := ["package.json", "data", ".aof", BACKUP_DIR_NAME]
  versionOf := id
  withVersion := fun _ version => version

theorem selfUpdate_atomic_example :
    AllOrNothing sampleOptions sampleEnv (some ⟨.healthCheck, fun _ => false⟩) sampleRoot := by
  have hsetup : UpdateSetup sampleOptions sampleEnv sampleRoot := {
    tree := by decide
    releaseTree := by decide
    plain := by decide
    releasePlain := by decide
    inside := by decide
    backupDir := by decide
    backupFree := by decide +kernel
    releaseFree := by decide
    parents := by decide
    listed := by decide
    version := ⟨by decide, by decide, by decide⟩
    releaseVersion := ⟨by decide, by decide, by decide⟩ }
  apply (selfUpdate_atomic_iff hsetup).mpr
  rintro failing ⟨⟩
  exact ⟨fun _ r _ _ => rfl, fun q _ hstep => nomatch hstep⟩

/-- The hook throws after the swap, and the new files stay. -/
theorem old_files_lost :
    ¬ AllOrNothing sampleOptions sampleEnv (some ⟨.postUpdate, fun _ => false⟩) sampleRoot := by
  intro hatomic
  have hthrows : ((selfUpdate sampleOptions sampleEnv (some ⟨.postUpdate, fun _ => false⟩)).run
      { root := sampleRoot }).1 = none := by decide +kernel
  have htext : fileText (((selfUpdate sampleOptions sampleEnv
      (some ⟨.postUpdate, fun _ => false⟩)).run { root := sampleRoot }).2.root.get?
        ["package.json"]) = some "new" := by decide +kernel
  unfold AllOrNothing Ends at hatomic
  generalize (selfUpdate sampleOptions sampleEnv (some ⟨.postUpdate, fun _ => false⟩)).run
    { root := sampleRoot } = ends at hatomic hthrows htext
  obtain ⟨result, after⟩ := ends
  obtain rfl : result = none := hthrows
  have hsame := hatomic ["package.json"] ⟨by decide, by decide, by decide⟩
  rw [show fileText (after.root.get? ["package.json"]) = some "new" from htext] at hsame
  exact absurd hsame (by decide)

end Aof.Updater
