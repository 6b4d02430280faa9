import Aof.Views.Kanban

/-!
# The view is rebuilt

Whatever earlier calls have left in the view, a call makes of it what it would have made from
nothing.
-/

namespace Aof

theorem mem_dashRuns {p : Char → Bool} {c : Char} {cs : List Char} (hmem : c ∈ dashRuns p cs) :
    c = '-' ∨ c ∈ cs := by
  induction cs with
  | nil => exact Or.inr hmem
  | cons first cs ih =>
      have hrest : c ∈ dashRuns p cs → c = '-' ∨ c ∈ first :: cs :=
        fun h => (ih h).imp_right (List.mem_cons_of_mem _)
      unfold dashRuns at hmem
      split at hmem
      · split at hmem
        · exact hrest hmem
        · exact (List.mem_cons.mp hmem).elim Or.inl hrest
      · rcases List.mem_cons.mp hmem with rfl | hmem
        · exact Or.inr List.mem_cons_self
        · exact hrest hmem

theorem dashRuns_eq_nil {p : Char → Bool} {cs : List Char} (hnil : dashRuns p cs = []) :
    cs = [] := by
  induction cs with
  | nil => rfl
  | cons first cs ih =>
      unfold dashRuns at hnil
      split at hnil
      · split at hnil
        · rename_i hhead
          rw [ih hnil] at hhead
          cases hhead
        · cases hnil
      · cases hnil

/-- A lane is the name of one directory. -/
def IsLaneName (lane : String) : Prop := lane ≠ "" ∧ ∀ c ∈ lane.toList, isLaneChar c = true

theorem isLaneName_normalizeSwimlane (name : String) : IsLaneName (normalizeSwimlane name) := by
  unfold normalizeSwimlane
  split
  · exact ⟨by decide, List.all_eq_true.mp (by decide)⟩
  · rename_i hname
    refine ⟨fun hempty => hname ?_, fun c hc => ?_⟩
    · have hnil := congrArg String.toList hempty
      rw [String.toList_ofList] at hnil
      have hplain := dashRuns_eq_nil (List.map_eq_nil_iff.mp (dashRuns_eq_nil hnil))
      exact String.toList_eq_nil_iff.mp (List.map_eq_nil_iff.mp hplain)
    · rw [String.toList_ofList] at hc
      rcases mem_dashRuns hc with rfl | hc
      · rfl
      · obtain ⟨old, -, rfl⟩ := List.mem_map.mp hc
        cases hold : isLaneChar old <;> simp [hold]
        rfl

namespace KanbanViewOptions

variable (options : KanbanViewOptions) (tasks : List ListedTask) (cell : String × TaskStatus)

def tasksOf : List ListedTask :=
  tasks.filter fun task => options.laneOf task = cell.1 ∧ task.document.status = cell.2

/-- The last of the tasks with the name is written last. -/
def pointerAt (name : String) : Option String :=
  ((options.tasksOf tasks cell).reverse.find? fun task => pointerName task = name).map
    (options.pointerText cell)

def visit (root : KanbanRoot) : KanbanRoot where
  lanes := if cell.1 ∈ root.lanes then root.lanes else root.lanes ++ [cell.1]
  files := Function.update root.files cell (pruneDir ((options.tasksOf tasks cell).map pointerName)
    (options.writePointers cell (options.tasksOf tasks cell) (root.files cell)))

/-- What a call of `syncKanbanView` visits. -/
def cellsOf (root : KanbanRoot) : List (String × TaskStatus) :=
  let added := (tasks.foldl options.addDesired .empty).keys.filter fun lane =>
    !root.lanes.contains lane
  (root.lanes ++ added).flatMap fun lane => KANBAN_COLUMNS.map fun status => (lane, status)

/-- The view holds the pointers of the tasks and nothing else. -/
structure Shows (root : KanbanRoot) : Prop where
  pointers : ∀ cell name, (root.files cell).get? name =
    if cell.2 ∈ KANBAN_COLUMNS then options.pointerAt tasks cell name else none
  covers : ∀ task ∈ tasks, options.laneOf task ∈ root.lanes
  named : ∀ lane ∈ root.lanes, IsLaneName lane

variable {options tasks cell} {name : String}
  {desired : Dict String (Dict TaskStatus (List ListedTask))}

theorem get?_desired (lane : String) (status : TaskStatus) :
    ((((tasks.foldl options.addDesired desired).get? lane).getD .empty).get? status).getD [] =
      (((desired.get? lane).getD .empty).get? status).getD [] ++
        options.tasksOf tasks (lane, status) := by
  induction tasks generalizing desired with
  | nil => simp [tasksOf]
  | cons task tasks ih =>
      rw [List.foldl_cons, ih]
      by_cases hlane : options.laneOf task = lane
      · by_cases hstatus : task.document.status = status
        · simp [addDesired, tasksOf, hlane, hstatus]
        · simp [addDesired, tasksOf, hlane, hstatus, Dict.get?_set_of_ne]
      · simp [addDesired, tasksOf, hlane, Dict.get?_set_of_ne]

theorem mem_keys_desired (lane : String) : lane ∈ (tasks.foldl options.addDesired desired).keys ↔
      lane ∈ desired.keys ∨ ∃ task ∈ tasks, options.laneOf task = lane := by
  induction tasks generalizing desired with
  | nil => simp
  | cons task tasks ih =>
      rw [List.foldl_cons, ih, addDesired, ← Dict.has_iff, Dict.has_set, Bool.or_eq_true,
        decide_eq_true_eq, Dict.has_iff, List.exists_mem_cons_iff, or_assoc]
      exact or_left_comm

theorem syncKanbanView_eq (root : KanbanRoot) : options.syncKanbanView tasks root =
      (options.cellsOf tasks root).foldl (fun root cell => options.visit tasks cell root) root := by
  simp only [cellsOf, syncKanbanView, List.foldl_flatMap, List.foldl_map, visit, get?_desired,
    Dict.get?_empty, Option.getD_none, List.nil_append]

theorem get?_pruneDir (keep : List String) (files : Dict String String) :
    (pruneDir keep files).get? name =
      if isPointerName name = true ∧ name ∉ keep then none else files.get? name := by
  have hfold : ∀ (entries : List String) (files : Dict String String),
      (entries.foldl (fun files entry => files.erase entry) files).get? name =
        if name ∈ entries then none else files.get? name := by
    intro entries
    induction entries with
    | nil => simp
    | cons entry entries ih =>
        intro files
        rw [List.foldl_cons, ih, Dict.get?_erase]
        by_cases hname : name = entry <;> simp [hname]
  rw [pruneDir, hfold]
  simp only [List.mem_filter, Bool.and_eq_true, Bool.not_eq_true', List.contains_eq_mem,
    decide_eq_false_iff_not]
  by_cases hkeys : name ∈ files.keys
  · simp [hkeys]
  · have hnone : files.get? name = none := by
      rw [← Option.not_isSome_iff_eq_none]
      exact fun hsome => hkeys (Dict.has_iff.mp hsome)
    simp [hkeys, hnone]

theorem isPointerName_of_pointerAt (hsome : (options.pointerAt tasks cell name).isSome) :
    isPointerName name = true := by
  rw [pointerAt, Option.isSome_map, Option.isSome_iff_exists] at hsome
  obtain ⟨task, htask⟩ := hsome
  obtain rfl : pointerName task = name := by simpa using List.find?_some htask
  rw [isPointerName, List.isSuffixOf_iff_suffix, pointerName, String.toList_append]
  exact List.suffix_append _ _

theorem pointerAt_of_ne (hlane : ∀ task ∈ tasks, options.laneOf task ≠ cell.1) :
    options.pointerAt tasks cell name = none := by
  have hnil : options.tasksOf tasks cell = [] :=
    List.filter_eq_nil_iff.mpr fun task htask h => hlane task htask (of_decide_eq_true h).1
  rw [pointerAt, hnil]
  rfl

/-- A visit makes the column show its tasks, whatever pointers were in it. -/
theorem get?_visit {root : KanbanRoot}
    (hfiles : ((root.files cell).get? name).isSome → isPointerName name = true) :
    ((options.visit tasks cell root).files cell).get? name = options.pointerAt tasks cell name := by
  simp only [visit, Function.update_self, get?_pruneDir, writePointers,
    Dict.get?_foldl_set_latest]
  cases hfind : (options.tasksOf tasks cell).reverse.find? fun task => pointerName task = name with
  | some task =>
      have hkeep : name ∈ (options.tasksOf tasks cell).map pointerName :=
        List.mem_map.mpr ⟨task, List.mem_reverse.mp (List.mem_of_find?_eq_some hfind),
          by simpa using List.find?_some hfind⟩
      rw [if_neg fun h => h.2 hkeep, pointerAt, hfind]
      rfl
  | none =>
      rw [pointerAt, hfind, Option.map_none, Option.none_or, ite_eq_left_iff]
      intro hkept
      by_contra hsome
      refine hkept ⟨hfiles (Option.isSome_iff_ne_none.mpr hsome), ?_⟩
      rw [List.find?_eq_none] at hfind
      simpa using hfind

theorem foldl_visit (cells : List (String × TaskStatus)) (root : KanbanRoot)
    (hfiles : ∀ cell name, ((root.files cell).get? name).isSome → isPointerName name = true) :
    (∀ cell name, ((cells.foldl (fun root cell => options.visit tasks cell root) root).files
      cell).get? name = if cell ∈ cells then options.pointerAt tasks cell name
        else (root.files cell).get? name) ∧
    ∀ lane, lane ∈ (cells.foldl (fun root cell => options.visit tasks cell root) root).lanes ↔
      lane ∈ root.lanes ∨ ∃ cell ∈ cells, cell.1 = lane := by
  induction cells generalizing root with
  | nil => simp
  | cons first cells ih =>
      have hvisit : ∀ cell name, ((options.visit tasks first root).files cell).get? name =
          if cell = first then options.pointerAt tasks cell name
          else (root.files cell).get? name := by
        intro cell name
        split
        · rename_i heq
          subst heq
          exact get?_visit (hfiles cell name)
        · rename_i hne
          simp only [visit, Function.update_of_ne hne]
      obtain ⟨hget, hlanes⟩ := ih (options.visit tasks first root) (by
        intro cell name hsome
        rw [hvisit] at hsome
        split at hsome
        · exact isPointerName_of_pointerAt hsome
        · exact hfiles cell name hsome)
      refine ⟨fun cell name => ?_, fun lane => ?_⟩
      · rw [List.foldl_cons, hget, hvisit]
        by_cases hmem : cell ∈ cells <;> simp [hmem]
      · rw [List.foldl_cons, hlanes, visit]
        by_cases hold : first.1 ∈ root.lanes
        · rw [if_pos hold]
          constructor
          · exact Or.imp_right fun ⟨cell, hcell, h⟩ => ⟨cell, List.mem_cons_of_mem _ hcell, h⟩
          · rintro (h | ⟨cell, hcell, rfl⟩)
            · exact Or.inl h
            · rcases List.mem_cons.mp hcell with rfl | hcell
              · exact Or.inl hold
              · exact Or.inr ⟨cell, hcell, rfl⟩
        · simp [hold, or_assoc, eq_comm]

theorem sync_shows {tasks' : List ListedTask} {root : KanbanRoot}
    (hshows : options.Shows tasks' root) : options.Shows tasks (options.syncKanbanView tasks root) ∧
      ∀ lane, lane ∈ (options.syncKanbanView tasks root).lanes ↔
        lane ∈ root.lanes ∨ ∃ task ∈ tasks, options.laneOf task = lane := by
  let added := (tasks.foldl options.addDesired .empty).keys.filter fun lane =>
    !root.lanes.contains lane
  have hadded : ∀ lane, lane ∈ root.lanes ++ added ↔
      lane ∈ root.lanes ∨ ∃ task ∈ tasks, options.laneOf task = lane := by
    intro lane
    have hkeys : lane ∈ (tasks.foldl options.addDesired .empty).keys ↔ _ := mem_keys_desired lane
    by_cases hlane : lane ∈ root.lanes
    · simp [hlane]
    · simpa [added, hlane, Dict.keys, Dict.empty] using hkeys
  have hcells : ∀ cell, cell ∈ options.cellsOf tasks root ↔
      cell.1 ∈ root.lanes ++ added ∧ cell.2 ∈ KANBAN_COLUMNS := by
    rintro ⟨lane, status⟩
    simp [cellsOf, added, or_and_right]
  obtain ⟨hget, hlanes⟩ := foldl_visit (options.cellsOf tasks root) root (by
    intro cell name hsome
    rw [hshows.pointers] at hsome
    split at hsome
    · exact isPointerName_of_pointerAt hsome
    · cases hsome)
  rw [syncKanbanView_eq]
  have hmem : ∀ lane, lane ∈ ((options.cellsOf tasks root).foldl
      (fun root cell => options.visit tasks cell root) root).lanes ↔
        lane ∈ root.lanes ∨ ∃ task ∈ tasks, options.laneOf task = lane := by
    intro lane
    rw [hlanes, ← hadded, List.mem_append]
    refine or_congr_right' fun hnew => ⟨?_, fun hlane => ?_⟩
    · rintro ⟨cell, hcell, rfl⟩
      exact (List.mem_append.mp ((hcells cell).mp hcell).1).resolve_left hnew
    · have hbacklog : TaskStatus.backlog ∈ KANBAN_COLUMNS := by decide
      exact ⟨(lane, .backlog), (hcells _).mpr ⟨List.mem_append_right _ hlane, hbacklog⟩, rfl⟩
  refine ⟨⟨fun cell name => ?_, fun task htask => (hmem _).mpr (Or.inr ⟨task, htask, rfl⟩),
    fun lane hlane => ?_⟩, hmem⟩
  swap
  · rcases (hmem lane).mp hlane with hold | ⟨task, -, rfl⟩
    · exact hshows.named lane hold
    · exact isLaneName_normalizeSwimlane _
  rw [hget]
  simp only [hcells]
  by_cases hcolumn : cell.2 ∈ KANBAN_COLUMNS
  · rw [if_pos hcolumn]
    split
    · rfl
    · rename_i hnot
      have hlane : cell.1 ∉ root.lanes ++ added := fun h => hnot ⟨h, hcolumn⟩
      rw [hshows.pointers, if_pos hcolumn, pointerAt_of_ne, pointerAt_of_ne]
      · intro task htask heq
        exact hlane ((hadded _).mpr (Or.inr ⟨task, htask, heq⟩))
      · intro task htask heq
        exact hlane (List.mem_append_left _ (heq ▸ hshows.covers task htask))
  · rw [if_neg hcolumn, if_neg fun h => hcolumn h.2, hshows.pointers, if_neg hcolumn]

theorem exists_shows (earlier : List (List ListedTask)) : ∃ tasks, options.Shows tasks
      (earlier.foldl (fun root tasks => options.syncKanbanView tasks root) {}) := by
  induction earlier using List.reverseRecOn with
  | nil => exact ⟨[], fun cell name => by simp [pointerAt, tasksOf], by simp,
      by simp⟩
  | append_singleton earlier tasks ih =>
      obtain ⟨tasks', hshows⟩ := ih
      rw [List.foldl_concat]
      exact ⟨tasks, (sync_shows hshows).1⟩

end KanbanViewOptions

open KanbanViewOptions in
/-- After any earlier calls, a call leaves the pointers that it would have made without them, one
for each task of a column, and the same call again changes nothing. -/
theorem kanban_rebuilt (options : KanbanViewOptions) (earlier : List (List ListedTask))
    (tasks : List ListedTask) :
    let before := earlier.foldl (fun root tasks => options.syncKanbanView tasks root) {}
    let after := options.syncKanbanView tasks before
    let again := options.syncKanbanView tasks after
    (∀ cell name, (after.files cell).get? name =
      ((options.syncKanbanView tasks {}).files cell).get? name) ∧
    (∀ cell name, (after.files cell).get? name =
      if cell.2 ∈ KANBAN_COLUMNS then options.pointerAt tasks cell name else none) ∧
    (∀ cell name, (again.files cell).get? name = (after.files cell).get? name) ∧
    (∀ lane, lane ∈ again.lanes ↔ lane ∈ after.lanes) ∧ ∀ lane ∈ after.lanes, IsLaneName lane := by
  intro before after again
  obtain ⟨tasks', hbefore⟩ : ∃ tasks', options.Shows tasks' before := exists_shows earlier
  obtain ⟨hafter, -⟩ : options.Shows tasks after ∧ _ := sync_shows hbefore
  obtain ⟨hagain, hlanes⟩ : options.Shows tasks again ∧ _ := sync_shows hafter
  obtain ⟨first, hempty⟩ : ∃ first, options.Shows first {} := exists_shows []
  obtain ⟨hfresh, -⟩ : options.Shows tasks (options.syncKanbanView tasks {}) ∧ _ :=
    sync_shows hempty
  refine ⟨fun cell name => ?_, hafter.pointers, fun cell name => ?_, fun lane => ?_,
    hafter.named⟩
  · rw [hafter.pointers]
    exact (hfresh.pointers cell name).symm
  · rw [hagain.pointers, hafter.pointers]
  · rw [hlanes]
    exact or_iff_left_of_imp fun ⟨task, htask, h⟩ => h ▸ hafter.covers task htask

end Aof
