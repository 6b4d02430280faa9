import Aof.Packaging.Migrations

/-!
# Migrations up and down

An upward run applies what is pending in the order of the versions and can be resumed where it has
failed.  A downward run goes through the array backwards, which is the reverse of the order of
application only if the array has that order.
-/

namespace Aof

variable {migrations : List Migration} {history : List String} {targetVersion : SemVer}

theorem SemVer.precedence_injective : Function.Injective SemVer.precedence := by
  intro a b hab
  obtain ⟨hnumbers, hprerelease⟩ := Prod.mk.inj (toLex.injective hab)
  have hprerelease : a.prerelease = b.prerelease := by
    split at hprerelease <;> split at hprerelease
    · rename_i ha hb
      rw [ha, hb]
    · exact absurd hprerelease WithTop.top_ne_coe
    · exact absurd hprerelease WithTop.coe_ne_top
    · exact List.map_injective_iff.mpr toLex.injective (WithTop.coe_injective hprerelease)
  obtain ⟨hmajor, hminor, hpatch⟩ : a.major = b.major ∧ a.minor = b.minor ∧ a.patch = b.patch := by
    simpa using hnumbers
  cases a
  cases b
  simp_all

def ComparesRight (versions : List SemVer) : Prop :=
  ∀ a ∈ versions, ∀ b ∈ versions,
    (compareVersions a.text b.text ≤ 0 ↔ a.precedence ≤ b.precedence)

def VersionLE (a b : Migration) : Prop := a.version.precedence ≤ b.version.precedence

instance : DecidableRel VersionLE := fun a b =>
  inferInstanceAs (Decidable (a.version.precedence ≤ b.version.precedence))

instance : Std.Total VersionLE := ⟨fun a b => le_total a.version.precedence b.version.precedence⟩

instance : IsTrans Migration VersionLE := ⟨fun _ _ _ => le_trans⟩

def InVersionOrder (ms : List Migration) : Prop :=
  ms.Pairwise fun a b => a.version.precedence < b.version.precedence

instance (ms : List Migration) : Decidable (InVersionOrder ms) :=
  inferInstanceAs (Decidable (ms.Pairwise _))

def toApply (migrations : List Migration) (history : List String) (targetVersion : SemVer) :
    List Migration :=
  migrations.filter fun m =>
    m.id ∉ history ∧ m.version.precedence ≤ targetVersion.precedence

variable {ms pending done rest : List Migration} {m : Migration}

theorem inVersionOrder_insertionSort (hversions : (ms.map Migration.version).Nodup) :
    InVersionOrder (ms.insertionSort VersionLE) := by
  have hdistinct : (ms.insertionSort VersionLE).Pairwise fun a b => a.version ≠ b.version := by
    apply List.pairwise_map.mp
    exact (((List.perm_insertionSort VersionLE ms).map _).nodup_iff).mpr hversions
  apply ((List.pairwise_insertionSort VersionLE ms).and hdistinct).imp
  rintro a b ⟨hle, hne⟩
  exact lt_of_le_of_ne hle fun heq => hne (SemVer.precedence_injective heq)

theorem InVersionOrder.eq_of_perm {ms' : List Migration} (hms : InVersionOrder ms)
    (hms' : InVersionOrder ms') (hperm : ms.Perm ms') : ms = ms' := by
  apply hperm.eq_of_pairwise _ hms hms'
  intro a b _ _ hab hba
  exact absurd hab (lt_asymm hba)

theorem sortByVersion_eq
    (hcompares : ComparesRight (targetVersion :: migrations.map Migration.version))
    (hversions : (migrations.map Migration.version).Nodup)
    (hperm : pending.Perm (toApply migrations history targetVersion))
    (horder : InVersionOrder pending) :
    sortByVersion (pendingUp migrations history targetVersion) = pending := by
  have hmem : ∀ m ∈ migrations, m.version ∈ targetVersion :: migrations.map Migration.version :=
    fun m hm => List.mem_cons_of_mem _ (List.mem_map_of_mem hm)
  have hpending : pendingUp migrations history targetVersion =
      toApply migrations history targetVersion := by
    apply List.filter_congr
    intro m hm
    simp only [hcompares _ (hmem m hm) _ List.mem_cons_self]
  have hsort : sortByVersion (toApply migrations history targetVersion) =
      (toApply migrations history targetVersion).insertionSort VersionLE := by
    have hmap := List.map_insertionSort
      (r := fun a b : Migration => compareVersions a.version.text b.version.text ≤ 0)
      (s := VersionLE) id (toApply migrations history targetVersion) fun a ha b hb =>
        hcompares _ (hmem a (List.mem_of_mem_filter ha)) _ (hmem b (List.mem_of_mem_filter hb))
    rw [sortByVersion]
    simpa only [List.map_id, id_eq] using hmap
  rw [hpending, hsort]
  apply InVersionOrder.eq_of_perm
  · apply inVersionOrder_insertionSort
    exact (List.filter_sublist.map Migration.version).nodup hversions
  · exact horder
  · exact (List.perm_insertionSort _ _).trans hperm.symm

open MigrationState

variable {throws : MigrationCall → Bool}

def nothingThrows (_ : MigrationCall) : Bool := false

theorem run_applyUp (hthrows : throws (.up m.id) = false) (s : MigrationState) :
    (applyUp throws m).run s = (some (), ⟨s.history ++ [m.id], s.calls ++ [.up m.id]⟩) := by
  simp [applyUp, call, recordMigration, Command.run_bind, hthrows]

theorem forM_cons {body : Migration → Command MigrationState Unit} (m : Migration)
    (ms : List Migration) : (m :: ms).forM body = (body m >>= fun _ => ms.forM body) := rfl

theorem run_forM_applyUp (hthrows : ∀ m ∈ ms, throws (.up m.id) = false) (s : MigrationState) :
    (ms.forM (applyUp throws)).run s =
      (some (), ⟨s.history ++ ms.map Migration.id, s.calls ++ ms.map fun m => .up m.id⟩) := by
  induction ms generalizing s with
  | nil => simp [List.forM, List.forM.eq_1]
  | cons m ms ih =>
      rw [forM_cons, Command.run_bind_of_some (run_applyUp (hthrows m List.mem_cons_self) s),
        ih fun m hm => hthrows m (List.mem_cons_of_mem _ hm)]
      simp

theorem run_forM_applyUp_of_throws {failed : Migration}
    (hdone : ∀ m ∈ done, throws (.up m.id) = false) (hfailed : throws (.up failed.id) = true)
    (s : MigrationState) : ((done ++ failed :: rest).forM (applyUp throws)).run s =
      (none, ⟨s.history ++ done.map Migration.id,
        s.calls ++ (done ++ [failed]).map fun m => .up m.id⟩) := by
  induction done generalizing s with
  | nil =>
      have hrun : (applyUp throws failed).run s =
          (none, ⟨s.history, s.calls ++ [.up failed.id]⟩) := by
        simp [applyUp, call, Command.run_bind, hfailed]
      rw [List.nil_append, forM_cons, Command.run_bind_of_none hrun]
      simp
  | cons m done ih =>
      rw [List.cons_append, forM_cons,
        Command.run_bind_of_some (run_applyUp (hdone m List.mem_cons_self) s),
        ih fun m hm => hdone m (List.mem_cons_of_mem _ hm)]
      simp

theorem run_applyDown (hreversible : m.reversible = true) (s : MigrationState) :
    (applyDown nothingThrows m).run s =
      (some (), ⟨s.history.filter fun id => id ≠ m.id, s.calls ++ [.down m.id]⟩) := by
  simp [applyDown, call, nothingThrows, removeMigration, Command.run_bind, hreversible]

theorem run_forM_applyDown (ms : List Migration) (s : MigrationState) :
    (ms.forM (applyDown nothingThrows)).run s =
        (some (), ⟨s.history.filter fun id => id ∉ ms.map Migration.id,
          s.calls ++ ms.map fun m => .down m.id⟩) ∧ (∀ m ∈ ms, m.reversible = true) ∨
      ((ms.forM (applyDown nothingThrows)).run s).1 = none ∧ ∃ m ∈ ms, m.reversible = false := by
  induction ms generalizing s with
  | nil => simp [List.forM, List.forM.eq_1]
  | cons m ms ih =>
      rw [forM_cons]
      by_cases hreversible : m.reversible = true
      · rw [Command.run_bind_of_some (run_applyDown hreversible s)]
        rcases ih _ with ⟨hrun, hall⟩ | ⟨hrun, m', hm', hnot⟩
        · left
          have hhistory : (s.history.filter fun id => id ≠ m.id).filter
              (fun id => id ∉ ms.map Migration.id) =
                s.history.filter fun id => id ∉ (m :: ms).map Migration.id := by
            rw [List.filter_filter]
            apply List.filter_congr
            intro id _
            simp only [List.map_cons, List.mem_cons, not_or, Bool.decide_and]
            exact Bool.and_comm _ _
          rw [hrun, hhistory, List.append_assoc]
          exact ⟨rfl, List.forall_mem_cons.mpr ⟨hreversible, hall⟩⟩
        · exact .inr ⟨hrun, m', List.mem_cons_of_mem _ hm', hnot⟩
      · right
        have hrun : (applyDown nothingThrows m).run s = (none, s) := by
          simp [applyDown, hreversible]
        rw [Command.run_bind_of_none hrun]
        exact ⟨rfl, m, List.mem_cons_self, by simpa using hreversible⟩

theorem toApply_append (migrations : List Migration) (history ids : List String)
    (targetVersion : SemVer) : toApply migrations (history ++ ids) targetVersion =
      (toApply migrations history targetVersion).filter fun m => m.id ∉ ids := by
  rw [toApply, toApply, List.filter_filter]
  apply List.filter_congr
  intro m _
  simp only [List.mem_append, not_or, Bool.decide_and, ← Bool.and_assoc]
  rw [Bool.and_comm (decide (m.id ∉ history))]

theorem perm_toApply_of_done (hids : (migrations.map Migration.id).Nodup)
    (hperm : pending.Perm (toApply migrations history targetVersion))
    (hsplit : pending = done ++ rest) :
    rest.Perm (toApply migrations (history ++ done.map Migration.id) targetVersion) := by
  have hnodup : ((done ++ rest).map Migration.id).Nodup := by
    rw [← hsplit]
    exact ((hperm.map _).nodup_iff).mpr ((List.filter_sublist.map _).nodup hids)
  rw [List.map_append, List.nodup_append] at hnodup
  have hdone : done.filter (fun m => m.id ∉ done.map Migration.id) = [] := by
    rw [List.filter_eq_nil_iff]
    intro m hm
    simpa using ⟨m, hm, rfl⟩
  have hrest : rest.filter (fun m => m.id ∉ done.map Migration.id) = rest := by
    rw [List.filter_eq_self]
    intro m hm
    have hnot : m.id ∉ done.map Migration.id := fun hmem =>
      hnodup.2.2 _ hmem _ (List.mem_map_of_mem hm) rfl
    simpa using hnot
  rw [toApply_append]
  have hfilter := hperm.filter fun m => m.id ∉ done.map Migration.id
  rwa [hsplit, List.filter_append, hdone, hrest, List.nil_append] at hfilter

def isAbove (migrations : List Migration) (backVersion : SemVer) (id : String) : Bool :=
  migrations.any fun m => m.id = id ∧ backVersion.precedence < m.version.precedence

/-- The pending migrations are applied and recorded one by one; a run that fails can be resumed; and
what has been applied above a version is taken back in the reverse order. -/
structure UndoesInReverse (migrations : List Migration) (history : List String)
    (targetVersion backVersion : SemVer) (pending : List Migration) : Prop where
  up : (runUp nothingThrows migrations targetVersion).run ⟨history, []⟩ =
    (some (), ⟨history ++ pending.map Migration.id, pending.map fun m => .up m.id⟩)
  fails : ∀ throws done failed rest, pending = done ++ failed :: rest →
    (∀ m ∈ done, throws (.up m.id) = false) → throws (.up failed.id) = true →
      (runUp throws migrations targetVersion).run ⟨history, []⟩ =
        (none, ⟨history ++ done.map Migration.id, (done ++ [failed]).map fun m => .up m.id⟩) ∧
      (runUp nothingThrows migrations targetVersion).run
          ⟨history ++ done.map Migration.id, []⟩ =
        (some (), ⟨history ++ pending.map Migration.id,
          (failed :: rest).map fun m => .up m.id⟩)
  down : (runDown nothingThrows migrations backVersion).run
      ⟨history ++ pending.map Migration.id, []⟩ =
    (some (), ⟨(history ++ pending.map Migration.id).filter fun id =>
        !isAbove migrations backVersion id,
      ((history ++ pending.map Migration.id).filter
        (isAbove migrations backVersion)).reverse.map .down⟩)

/-- The migrations to be taken back stand in the array in the order of application, and each has a
`down`. -/
def InArrayOrder (migrations : List Migration) (backVersion : SemVer) (applied : List String) :
    Prop :=
  (migrations.filter fun m =>
      m.id ∈ applied ∧ backVersion.precedence < m.version.precedence).map Migration.id =
    applied.filter (isAbove migrations backVersion) ∧
  ∀ m ∈ migrations, m.id ∈ applied → backVersion.precedence < m.version.precedence →
    m.reversible = true

variable {backVersion : SemVer} {applied : List String}

theorem pendingDown_eq
    (hcompares : ComparesRight (backVersion :: migrations.map Migration.version)) :
    pendingDown migrations applied backVersion = migrations.filter fun m =>
      m.id ∈ applied ∧ backVersion.precedence < m.version.precedence := by
  apply List.filter_congr
  intro m hm
  have hle := hcompares _ (List.mem_cons_of_mem _ (List.mem_map_of_mem hm)) _ List.mem_cons_self
  have hlt : 0 < compareVersions m.version.text backVersion.text ↔
      backVersion.precedence < m.version.precedence := by
    rw [← not_le, hle, not_le]
  simp only [hlt]

/-- A downward run takes back in reverse order exactly if the array has the order of application. -/
theorem runDown_iff (hcompares : ComparesRight (backVersion :: migrations.map Migration.version)) :
    (runDown nothingThrows migrations backVersion).run ⟨applied, []⟩ =
        (some (), ⟨applied.filter fun id => !isAbove migrations backVersion id,
          (applied.filter (isAbove migrations backVersion)).reverse.map .down⟩) ↔
      InArrayOrder migrations backVersion applied := by
  have hrun : (runDown nothingThrows migrations backVersion).run ⟨applied, []⟩ =
      ((migrations.filter fun m => m.id ∈ applied ∧
        backVersion.precedence < m.version.precedence).reverse.forM
          (applyDown nothingThrows)).run ⟨applied, []⟩ := by
    rw [← pendingDown_eq hcompares]
    rfl
  have hreversible : (∀ m ∈ (migrations.filter fun m => m.id ∈ applied ∧
      backVersion.precedence < m.version.precedence).reverse, m.reversible = true) ↔
      ∀ m ∈ migrations, m.id ∈ applied → backVersion.precedence < m.version.precedence →
        m.reversible = true := by
    simp only [List.mem_reverse, List.mem_filter, decide_eq_true_eq]
    exact ⟨fun h m hm hid hlt => h m ⟨hm, hid, hlt⟩, fun h m hm => h m hm.1 hm.2.1 hm.2.2⟩
  rw [hrun, InArrayOrder, ← hreversible]
  generalize hlist : (migrations.filter fun m => m.id ∈ applied ∧
    backVersion.precedence < m.version.precedence) = undone
  have hkept : (applied.filter fun id => id ∉ undone.reverse.map Migration.id) =
      applied.filter fun id => !isAbove migrations backVersion id := by
    apply List.filter_congr
    intro id hid
    have hmem : id ∈ undone.reverse.map Migration.id ↔
        isAbove migrations backVersion id = true := by
      simp only [← hlist, List.mem_map, List.mem_reverse, List.mem_filter, decide_eq_true_eq,
        isAbove, List.any_eq_true]
      constructor
      · rintro ⟨m, ⟨hm, -, hlt⟩, rfl⟩
        exact ⟨m, hm, rfl, hlt⟩
      · rintro ⟨m, hm, rfl, hlt⟩
        exact ⟨m, ⟨hm, hid, hlt⟩, rfl⟩
    simp only [hmem, decide_not, Bool.decide_eq_true]
  rcases run_forM_applyDown undone.reverse ⟨applied, []⟩ with ⟨hdown, hall⟩ | ⟨hdown, m, hm, hnot⟩
  · rw [hdown, hkept, List.nil_append]
    rw [and_iff_left hall]
    constructor
    · intro heq
      have hcalls := congrArg MigrationState.calls (Prod.mk.inj heq).2
      have hinj : Function.Injective MigrationCall.down := fun _ _ h => MigrationCall.down.inj h
      have hids : undone.reverse.map Migration.id =
          (applied.filter (isAbove migrations backVersion)).reverse := by
        apply List.map_injective_iff.mpr hinj
        rw [List.map_map]
        exact hcalls
      rw [List.map_reverse] at hids
      exact List.reverse_injective hids
    · intro hids
      rw [← hids, ← List.map_reverse, List.map_map]
      rfl
  · constructor
    · intro heq
      rw [heq] at hdown
      cases hdown
    · intro horder
      rw [horder.2 m hm] at hnot
      cases hnot

def firstMigration : Migration := { id := "001", version := ⟨1, 9, 0, []⟩ }

def secondMigration : Migration := { id := "002", version := ⟨1, 10, 0, []⟩ }

end Aof
