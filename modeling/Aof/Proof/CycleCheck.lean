import Mathlib.Data.Set.Finite.Basic
import Aof.Proof.DependencyGraph

/-!
# The cycle check

On files that do not change meanwhile `hasCycle` answers on every graph, and its answer is right.
A call of `addDep` that runs alone searches in the same order, so that it refuses the dependencies
that would close a cycle.
-/

namespace Aof

open Relation (ReflTransGen)

namespace Project

theorem mem_dependenciesOf {project : Project} {id dep : String} :
    dep ∈ project.dependenciesOf id ↔ project.Depends id dep := by
  unfold dependenciesOf Depends
  cases project.tasks id <;> simp

theorem closesCycle_iff {project : Project} {taskId blockerId : String} :
    project.ClosesCycle taskId blockerId ↔ ReflTransGen project.Depends blockerId taskId := by
  constructor
  · intro hcloses
    have hold : ∀ start, ReflTransGen
        (fun id dep => project.Depends id dep ∨ id = taskId ∧ dep = blockerId) start taskId →
          ReflTransGen project.Depends start taskId := by
      intro start hpath
      induction hpath using ReflTransGen.head_induction_on with
      | refl => exact .refl
      | @head id dep hedge _ ih =>
          by_cases hid : id = taskId
          · rw [hid]
          · exact .head (hedge.resolve_right fun hnew => hid hnew.1) ih
    exact hold blockerId hcloses
  · apply ReflTransGen.mono
    intro id dep hdepends
    exact Or.inl hdepends

end Project

namespace DependencyCalls

/-- A call that runs alone, on a file system that does not fail. -/
def Goes (config next : Project × Process) : Prop :=
  advance false config.1 config.2 = some next

section Search

variable {project : Project} {edit : Edit} {task : Document}

/-- A search that is at some tasks ends like the depth-first search from them. -/
def Follows (project : Project) (edit : Edit) (task : Document)
    (visited : List (String × List String)) (starts pending : List String) :
    Bool × List String → Prop
  | (true, _) =>
      ReflTransGen Goes (project, search edit task visited (starts ++ pending))
        (project, .releasing edit.taskId false)
  | (false, after) => ∃ visited', ids visited' = after ∧
      ReflTransGen Goes (project, search edit task visited (starts ++ pending))
        (project, search edit task visited' pending)

variable {visited : List (String × List String)} {starts pending : List String}
  {result : Bool × List String}

theorem Follows.of_goes {visited' : List (String × List String)} {starts' : List String}
    (hgoes : ReflTransGen Goes (project, search edit task visited (starts ++ pending)) (project,
      search edit task visited' (starts' ++ pending)))
    (hfollows : Follows project edit task visited' starts' pending result) :
    Follows project edit task visited starts pending result := by
  obtain ⟨found, after⟩ := result
  cases found with
  | true => exact hgoes.trans hfollows
  | false =>
      obtain ⟨visited'', hids, hrest⟩ := hfollows
      exact ⟨visited'', hids, hgoes.trans hrest⟩

theorem follows_each {visit : String → List String → Option (Bool × List String)}
    (hvisit : ∀ id visited pending result, visit id (ids visited) = some result →
      Follows project edit task visited [id] pending result)
    (heach : DepthFirst.each visit starts (ids visited) = some result) :
    Follows project edit task visited starts pending result := by
  induction starts generalizing visited with
  | nil =>
      obtain rfl := Option.some.inj heach
      exact ⟨visited, rfl, .refl⟩
  | cons id rest ih =>
      unfold DepthFirst.each at heach
      split at heach
      · cases heach
      · rename_i between hfirst
        obtain rfl := Option.some.inj heach
        exact hvisit id visited (rest ++ pending) _ hfirst
      · rename_i between hfirst
        obtain ⟨visited', rfl, hgoes⟩ := hvisit id visited (rest ++ pending) _ hfirst
        exact Follows.of_goes hgoes (ih heach)

theorem follows_search {depth : Nat} {currentId : String} {visited : List (String × List String)}
    {pending : List String} {result : Bool × List String}
    (hsearch : DepthFirst.search project.dependenciesOf edit.taskId depth currentId (ids visited) =
      some result) : Follows project edit task visited [currentId] pending result := by
  induction depth generalizing currentId visited pending result with
  | zero => cases hsearch
  | succ depth ih =>
      unfold DepthFirst.search at hsearch
      split at hsearch
      · rename_i heq
        obtain rfl := Option.some.inj hsearch
        have hfound : search edit task visited ([currentId] ++ pending) =
            .releasing edit.taskId false := by simp [search, nextVisit, heq]
        change ReflTransGen Goes _ _
        rw [hfound]
      · rename_i hne
        split at hsearch
        · rename_i hmem
          obtain rfl := Option.some.inj hsearch
          have hseen : search edit task visited ([currentId] ++ pending) =
              search edit task visited pending := by
            simp only [ids] at hmem
            simp [search, nextVisit, hne, hmem]
          refine ⟨visited, rfl, ?_⟩
          rw [hseen]
        · rename_i hfresh
          let read := project.dependenciesOf currentId
          have hvisit : search edit task visited ([currentId] ++ pending) =
              .searching edit task visited currentId pending := by
            simp only [ids] at hfresh
            simp [search, nextVisit, hne, hfresh]
          have hstep : Goes (project, search edit task visited ([currentId] ++ pending))
              (project, search edit task ((currentId, read) :: visited) (read ++ pending)) := by
            rw [hvisit]
            rfl
          apply Follows.of_goes (.single hstep)
          exact follows_each (fun _ _ _ _ => ih) hsearch

end Search

variable {project : Project} {edit : Edit} {task blocker : Document}

theorem goes_addDep (hfree : project.locked edit.taskId = false)
    (htask : project.tasks edit.taskId = some task)
    (hblocker : project.tasks edit.blockerId = some blocker) :
    ReflTransGen Goes (project, .waiting (.addDep edit))
      (project.lock edit.taskId, addDependency edit task (some blocker)) := by
  have hlock : Goes (project, .waiting (.addDep edit))
      (project.lock edit.taskId, .reading (.addDep edit)) := by
    simp [Goes, advance, Call.edit, hfree]
  have hread : Goes (project.lock edit.taskId, .reading (.addDep edit))
      (project.lock edit.taskId, .readingBlocker edit task) := by
    simp [Goes, advance, Call.edit, Project.get, Project.lock, htask]
  have hreadBlocker : Goes (project.lock edit.taskId, .readingBlocker edit task)
      (project.lock edit.taskId, addDependency edit task (some blocker)) := by
    simp [Goes, advance, Project.get, Project.lock, hblocker]
  exact ((ReflTransGen.single hlock).tail hread).tail hreadBlocker

theorem unlock_lock {id : String} (hfree : project.locked id = false) :
    (project.lock id).unlock id = project := by
  unfold Project.lock Project.unlock
  congr 1
  rw [Function.update_idem, ← hfree, Function.update_eq_self]

theorem addDependency_eq_search (hopen : task.status ≠ .done ∧ task.status ≠ .cancelled)
    (hnew : edit.blockerId ∉ task.dependsOn) (hne : edit.taskId ≠ edit.blockerId) :
    addDependency edit task (some blocker) = search edit task [] [edit.blockerId] := by
  unfold addDependency
  simp [hopen.1, hopen.2, hnew, hne]

theorem addDependency_self (hself : edit.taskId = edit.blockerId) :
    addDependency edit task (some blocker) = .releasing edit.taskId false := by
  unfold addDependency
  simp [hself]

theorem addDep_alone {depth : Nat} {cyclic : Bool} (hfree : project.locked edit.taskId = false)
    (htask : project.tasks edit.taskId = some task)
    (hblocker : project.tasks edit.blockerId = some blocker)
    (hopen : task.status ≠ .done ∧ task.status ≠ .cancelled)
    (hnew : edit.blockerId ∉ task.dependsOn)
    (hcycle : project.hasCycle edit.taskId edit.blockerId depth = some cyclic) :
    ReflTransGen Goes (project, .waiting (.addDep edit)) (if cyclic then project
        else project.write edit.taskId (task.dependingOn edit.blockerId edit.now),
        .finished (!cyclic)) := by
  refine (goes_addDep hfree htask hblocker).trans ?_
  have hrefused : Goes (project.lock edit.taskId, .releasing edit.taskId false)
      (project, .finished false) := by
    simp [Goes, advance, unlock_lock hfree]
  obtain ⟨⟨found, after⟩, hsearch, rfl⟩ := Option.map_eq_some_iff.mp hcycle
  by_cases hself : edit.taskId = edit.blockerId
  · -- the refusal of a self-dependency comes before the search, which would find it at once
    have hfound : found = true := by
      cases depth with
      | zero => cases hsearch
      | succ depth =>
          rw [DepthFirst.search, if_pos hself.symm] at hsearch
          exact (congrArg Prod.fst (Option.some.inj hsearch)).symm
    rw [hfound, addDependency_self hself]
    exact .single hrefused
  · rw [addDependency_eq_search hopen hnew hself]
    have hfollows : Follows (project.lock edit.taskId) edit task [] [edit.blockerId] []
        (found, after) := follows_search hsearch
    cases found with
    | true => exact hfollows.tail hrefused
    | false =>
        obtain ⟨visited, -, hgoes⟩ := hfollows
        have hwrite : Goes (project.lock edit.taskId, search edit task visited [])
            ((project.lock edit.taskId).write edit.taskId
              (task.dependingOn edit.blockerId edit.now), .releasing edit.taskId true) := by
          simp [Goes, advance, search, nextVisit]
        refine (hgoes.tail hwrite).tail ?_
        have hunlock := congrArg
          (fun project => project.write edit.taskId (task.dependingOn edit.blockerId edit.now))
          (unlock_lock hfree)
        exact congrArg (fun project => some (project, Process.finished true)) hunlock

/-- With finitely many tasks `hasCycle` returns, whatever depends on what; it finds out whether
the blocker leads to the task, and the call refuses the dependency if and only if it would close a
cycle. -/
theorem hasCycle_exact {project : Project} (hfinite : {id | (project.tasks id).isSome}.Finite)
    (taskId blockerId : String) : ∃ cyclic, (∃ bound, ∀ depth, bound < depth →
        project.hasCycle taskId blockerId depth = some cyclic) ∧
      (cyclic = true ↔ ReflTransGen project.Depends blockerId taskId) ∧
      ∀ task blocker now, project.locked taskId = false →
        project.tasks taskId = some task → project.tasks blockerId = some blocker →
        task.status ≠ .done ∧ task.status ≠ .cancelled → blockerId ∉ task.dependsOn →
        (cyclic = true ↔ project.ClosesCycle taskId blockerId) ∧
        ReflTransGen Goes (project, .waiting (.addDep ⟨taskId, blockerId, now⟩))
          (if cyclic then project else project.write taskId (task.dependingOn blockerId now),
            .finished (!cyclic)) := by
  have hleaf : ∀ id, id ∉ hfinite.toFinset → project.dependenciesOf id = [] := by
    intro id hid
    have hnone : project.tasks id = none := by simpa using hid
    simp [Project.dependenciesOf, hnone]
  obtain ⟨cyclic, hreturns, hfound⟩ :=
    DepthFirst.search_exact hleaf taskId blockerId
  have hcycle : ∀ depth, hfinite.toFinset.card < depth →
      project.hasCycle taskId blockerId depth = some cyclic := hreturns
  simp only [Project.mem_dependenciesOf] at hfound
  refine ⟨cyclic, ⟨_, hcycle⟩, hfound, ?_⟩
  intro task blocker now hfree htask hblocker hopen hnew
  refine ⟨hfound.trans Project.closesCycle_iff.symm, ?_⟩
  let edit : Edit := ⟨taskId, blockerId, now⟩
  have hcheck : project.hasCycle edit.taskId edit.blockerId _ = some cyclic :=
    hcycle _ (Nat.lt_succ_self _)
  exact addDep_alone hfree htask hblocker hopen hnew hcheck

def crossed : Project where
  tasks id := if id = "A" then some (untouched.dependingOn "B" 1)
    else if id = "B" then some untouched else none

theorem hasCycle_exact_crossed :
    ReflTransGen Goes (crossed, .waiting (.addDep ⟨"B", "A", 2⟩)) (crossed, .finished false) := by
  have hfinite : {id | (crossed.tasks id).isSome}.Finite := by
    apply (Set.toFinite {"A", "B"}).subset
    intro id hid
    by_contra hother
    simp only [Set.mem_insert_iff, Set.mem_singleton_iff, not_or] at hother
    simp [crossed, hother.1, hother.2] at hid
  obtain ⟨cyclic, -, hfound, hcall⟩ := hasCycle_exact hfinite "B" "A"
  have hpath : ReflTransGen crossed.Depends "A" "B" :=
    .single ⟨_, rfl, by decide⟩
  obtain rfl : cyclic = true := hfound.mpr hpath
  exact (hcall untouched (untouched.dependingOn "B" 1) 2 rfl rfl rfl (by decide) (by decide)).2

end DependencyCalls

end Aof
