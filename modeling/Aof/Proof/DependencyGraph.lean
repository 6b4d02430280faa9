import Aof.Store.TaskDeps

/-!
# The dependency graph

A search that ends in a write has visited a set of tasks that does not contain the edited one.  The
set is closed under the dependencies of that moment, if the search has seen all of them, and the new
dependency leads into it.
-/

namespace Aof.DependencyCalls

open Interleaving (Pool Turn Assertion)

def Process.holds : Process → Option String
  | .waiting _ | .finished _ => none
  | .reading call => some call.edit.taskId
  | .readingBlocker edit _ | .searching edit _ _ _ _ => some edit.taskId
  | .writing taskId _ _ | .releasing taskId _ => some taskId

def ids (visited : List (String × List String)) : List String := visited.map Prod.fst

def Explored (visited : List (String × List String)) (pending : List String) : Prop :=
  ∀ id dependsOn, (id, dependsOn) ∈ visited → ∀ dep ∈ dependsOn, dep ∈ ids visited ∨ dep ∈ pending

structure Searching (edit : Edit) (visited : List (String × List String)) (pending : List String) :
    Prop where
  blocker : edit.blockerId ∈ ids visited ∨ edit.blockerId ∈ pending
  explored : Explored visited pending
  out : edit.taskId ∉ ids visited

/-- The document keeps dependencies of the file or adds visited tasks, which do not lead back. -/
structure Addable (project : Project) (taskId : String) (document : Document)
    (visited : List (String × List String)) : Prop where
  explored : Explored visited []
  out : taskId ∉ ids visited
  added : ∃ task, project.tasks taskId = some task ∧
    ∀ dep ∈ document.dependsOn, dep ∈ task.dependsOn ∨ dep ∈ ids visited

def Process.Ready (project : Project) : Process → Prop
  | .readingBlocker edit task => project.tasks edit.taskId = some task
  | .searching edit task visited currentId pending =>
      project.tasks edit.taskId = some task ∧ Searching edit visited (currentId :: pending) ∧
        currentId ≠ edit.taskId
  | .writing taskId task visited => Addable project taskId task visited
  | _ => True

def dependencies : Assertion Project Process where
  global project := Acyclic project.Depends
  waiting project process :=
    (∀ id, process.holds = some id → project.locked id = true) ∧ process.Ready project
  apart p q := ∀ id, p.holds = some id → q.holds ≠ some id

variable {taskId : String} {visited : List (String × List String)} {pending others : List String}
  {edit : Edit} {project after : Project} {task : Document} {fails : Bool} {process next : Process}

theorem nextVisit_eq_acyclic {visited : List String}
    (hsearch : nextVisit taskId visited pending = .acyclic) : ∀ id ∈ pending, id ∈ visited := by
  induction pending with
  | nil => simp
  | cons currentId pending ih =>
      unfold nextVisit at hsearch
      split at hsearch
      · cases hsearch
      · split at hsearch
        · rename_i hvisited
          exact List.forall_mem_cons.mpr ⟨hvisited, ih hsearch⟩
        · cases hsearch

theorem nextVisit_eq_visit {id : String} {visited : List String}
    (hsearch : nextVisit taskId visited pending = .visit id others) :
    id ≠ taskId ∧ ∀ other ∈ pending, other ∈ visited ∨ other ∈ id :: others := by
  induction pending with
  | nil => cases hsearch
  | cons currentId pending ih =>
      unfold nextVisit at hsearch
      split at hsearch
      · cases hsearch
      · rename_i hne
        split at hsearch
        · rename_i hvisited
          obtain ⟨hid, hpending⟩ := ih hsearch
          exact ⟨hid, List.forall_mem_cons.mpr ⟨.inl hvisited, hpending⟩⟩
        · obtain ⟨rfl, rfl⟩ := Search.visit.inj hsearch
          exact ⟨hne, fun other hother => .inr hother⟩

theorem Searching.of_pending (hsearching : Searching edit visited pending)
    (hpending : ∀ id ∈ pending, id ∈ ids visited ∨ id ∈ others) :
    Searching edit visited others := by
  refine ⟨?_, ?_, hsearching.out⟩
  · exact hsearching.blocker.elim .inl (hpending _)
  · intro id dependsOn hmem dep hdep
    exact (hsearching.explored id dependsOn hmem dep hdep).elim .inl (hpending dep)

theorem ready_search (htask : project.tasks edit.taskId = some task)
    (hsearching : Searching edit visited pending) :
    (search edit task visited pending).Ready project := by
  unfold search
  split
  · trivial
  · rename_i hacyclic
    have hall : Searching edit visited [] :=
      hsearching.of_pending fun id hid => .inl (nextVisit_eq_acyclic hacyclic id hid)
    refine ⟨hall.explored, hall.out, task, htask, ?_⟩
    intro dep hdep
    rcases List.mem_append.mp hdep with hold | hnew
    · exact .inl hold
    · obtain rfl := List.mem_singleton.mp hnew
      exact .inr (hall.blocker.resolve_right (List.not_mem_nil))
  · rename_i currentId others hvisit
    obtain ⟨hne, hpending⟩ := nextVisit_eq_visit hvisit
    exact ⟨htask, hsearching.of_pending hpending, hne⟩

theorem Searching.visit {currentId : String}
    (hsearching : Searching edit visited (currentId :: pending)) (hne : currentId ≠ edit.taskId)
    (dependsOn : List String) :
    Searching edit ((currentId, dependsOn) :: visited) (dependsOn ++ pending) := by
  have hpending : ∀ id, id ∈ ids visited ∨ id ∈ currentId :: pending →
      id ∈ ids ((currentId, dependsOn) :: visited) ∨ id ∈ dependsOn ++ pending := by
    intro id hid
    simp only [ids, List.map_cons, List.mem_cons, List.mem_append] at hid ⊢
    tauto
  refine ⟨hpending _ hsearching.blocker, ?_, ?_⟩
  · intro id read hmem dep hdep
    rcases List.mem_cons.mp hmem with hnew | hold
    · obtain ⟨rfl, rfl⟩ := Prod.mk.inj hnew
      exact .inr (List.mem_append_left _ hdep)
    · exact hpending _ (hsearching.explored id read hold dep hdep)
  · intro hmem
    rcases List.mem_cons.mp hmem with hcurrent | hold
    · exact hne hcurrent.symm
    · exact hsearching.out hold

theorem ready_addDependency (htask : project.tasks edit.taskId = some task)
    (blocker : Option Document) : (addDependency edit task blocker).Ready project := by
  unfold addDependency
  split_ifs
  all_goals try trivial
  apply ready_search htask
  exact ⟨.inr List.mem_cons_self, fun _ _ hmem => absurd hmem List.not_mem_nil, List.not_mem_nil⟩

theorem ready_removeDependency (htask : project.tasks edit.taskId = some task) :
    (removeDependency edit task).Ready project := by
  unfold removeDependency
  split_ifs
  · trivial
  · refine ⟨fun _ _ hmem => absurd hmem List.not_mem_nil, List.not_mem_nil, task, htask, ?_⟩
    intro dep hdep
    exact .inl (List.mem_of_mem_erase hdep)
  · trivial

@[simp]
theorem holds_search (edit : Edit) (task : Document) (visited : List (String × List String))
    (pending : List String) : (search edit task visited pending).holds = some edit.taskId := by
  unfold search
  split <;> rfl

@[simp]
theorem holds_addDependency (edit : Edit) (task : Document) (blocker : Option Document) :
    (addDependency edit task blocker).holds = some edit.taskId := by
  unfold addDependency
  split_ifs
  · rfl
  · rfl
  · rfl
  · rfl
  · exact holds_search edit task [] [edit.blockerId]

@[simp]
theorem holds_removeDependency (edit : Edit) (task : Document) :
    (removeDependency edit task).holds = some edit.taskId := by
  unfold removeDependency
  split_ifs <;> rfl

/-- A turn takes a free lock, keeps the lock and writes the locked task at most, or gives the lock
back. -/
inductive Moves (project : Project) (process : Process) : Project → Process → Prop
  | lock {next : Process} {id : String} (hfrom : process.holds = none) (hto : next.holds = some id)
      (hfree : project.locked id = false) : Moves project process (project.lock id) next
  | keep {next : Process} {id : String} (hfrom : process.holds = some id)
      (hto : next.holds = some id) : Moves project process project next
  | write {id : String} {task : Document} {visited : List (String × List String)}
      (hwriting : process = .writing id task visited) :
      Moves project process (project.write id task) (.releasing id true)
  | unlock {id : String} {succeeded : Bool} (hfrom : process.holds = some id) :
      Moves project process (project.unlock id) (.finished succeeded)

theorem moves_advance (hadvance : advance fails project process = some (after, next)) :
    Moves project process after next := by
  cases process with
  | waiting call =>
      simp only [advance, Option.ite_none_left_eq_some, Option.some.injEq, Prod.mk.injEq]
        at hadvance
      obtain ⟨hfree, rfl, rfl⟩ := hadvance
      exact .lock rfl rfl (Bool.not_eq_true _ ▸ hfree)
  | reading call =>
      simp only [advance] at hadvance
      split at hadvance <;> obtain ⟨rfl, rfl⟩ := Prod.mk.inj (Option.some.inj hadvance)
      · exact .keep rfl rfl
      · exact .keep rfl rfl
      · exact .keep rfl (holds_removeDependency _ _)
  | readingBlocker edit task =>
      obtain ⟨rfl, rfl⟩ := Prod.mk.inj (Option.some.inj hadvance)
      exact .keep rfl (holds_addDependency _ _ _)
  | searching edit task visited currentId pending =>
      obtain ⟨rfl, rfl⟩ := Prod.mk.inj (Option.some.inj hadvance)
      exact .keep rfl (holds_search _ _ _ _)
  | writing taskId task visited =>
      simp only [advance] at hadvance
      split at hadvance <;> obtain ⟨rfl, rfl⟩ := Prod.mk.inj (Option.some.inj hadvance)
      · exact .keep rfl rfl
      · exact .write rfl
  | releasing taskId succeeded =>
      obtain ⟨rfl, rfl⟩ := Prod.mk.inj (Option.some.inj hadvance)
      exact .unlock rfl
  | finished succeeded => cases hadvance

theorem Process.Ready.congr (hready : process.Ready project)
    (hown : ∀ id, process.holds = some id → after.tasks id = project.tasks id) :
    process.Ready after := by
  cases process with
  | readingBlocker edit task => exact (hown _ rfl).trans hready
  | searching edit task visited currentId pending => exact ⟨(hown _ rfl).trans hready.1, hready.2⟩
  | writing taskId task visited =>
      obtain ⟨old, hold, hadded⟩ := hready.added
      exact ⟨hready.explored, hready.out, old, (hown _ rfl).trans hold, hadded⟩
  | _ => trivial

theorem acyclic_write {project : Project} {taskId : String} {document : Document}
    {visited : List (String × List String)} (hacyclic : Acyclic project.Depends)
    (haddable : Addable project taskId document visited)
    (hsaw : ∀ id dependsOn, (id, dependsOn) ∈ visited →
      ∀ blockerId, project.Depends id blockerId → blockerId ∈ dependsOn) :
    Acyclic (project.write taskId document).Depends := by
  apply hacyclic.insert (a := taskId) (s := {id | id ∈ ids visited}) ?_ haddable.out
  · intro id dep hdepends
    obtain ⟨task, htask, hdep⟩ := hdepends
    by_cases hid : id = taskId
    · obtain ⟨old, hold, hadded⟩ := haddable.added
      subst hid
      obtain rfl : document = task := by simpa [Project.write] using htask
      exact (hadded dep hdep).imp (fun hmem => ⟨old, hold, hmem⟩) fun hmem => ⟨rfl, hmem⟩
    · have hsame : project.tasks id = some task := by
        rw [← htask]
        exact (Function.update_of_ne hid _ _).symm
      exact .inl ⟨task, hsame, hdep⟩
  · intro id dep hid hdepends
    obtain ⟨⟨_, dependsOn⟩, hmem, rfl⟩ := List.mem_map.mp hid
    have hread := hsaw _ dependsOn hmem dep hdepends
    exact (haddable.explored _ dependsOn hmem dep hread).resolve_right List.not_mem_nil

theorem ready_advance (hready : process.Ready project)
    (hadvance : advance fails project process = some (after, next)) : next.Ready after := by
  cases process with
  | waiting call =>
      simp only [advance, Option.ite_none_left_eq_some, Option.some.injEq, Prod.mk.injEq]
        at hadvance
      obtain ⟨-, -, rfl⟩ := hadvance
      trivial
  | reading call =>
      have hget : ∀ task, project.get fails call.edit.taskId = some task →
          project.tasks call.edit.taskId = some task := by
        intro task htask
        exact (Option.ite_none_left_eq_some.mp htask).2
      simp only [advance] at hadvance
      split at hadvance <;> obtain ⟨rfl, rfl⟩ := Prod.mk.inj (Option.some.inj hadvance)
      · trivial
      · rename_i task edit htask
        exact hget task htask
      · rename_i task edit htask
        exact ready_removeDependency (hget task htask)
  | readingBlocker edit task =>
      obtain ⟨rfl, rfl⟩ := Prod.mk.inj (Option.some.inj hadvance)
      exact ready_addDependency hready _
  | searching edit task visited currentId pending =>
      obtain ⟨rfl, rfl⟩ := Prod.mk.inj (Option.some.inj hadvance)
      obtain ⟨htask, hsearching, hne⟩ := hready
      exact ready_search htask (hsearching.visit hne _)
  | writing taskId task visited =>
      simp only [advance] at hadvance
      split at hadvance <;> obtain ⟨-, rfl⟩ := Prod.mk.inj (Option.some.inj hadvance) <;> trivial
  | releasing taskId succeeded =>
      obtain ⟨-, rfl⟩ := Prod.mk.inj (Option.some.inj hadvance)
      trivial
  | finished succeeded => cases hadvance

theorem preserves_dependencies :
    Interleaving.Preserves advance SawAll dependencies where
  symm := by
    intro p q hapart id hq hp
    exact hapart id hp hq
  own := by
    intro pool turn process after next hholds hsaw hprocess hadvance
    obtain ⟨hlocked, hready⟩ := hholds.waiting _ _ hprocess
    have hnext := ready_advance hready hadvance
    cases moves_advance hadvance with
    | lock hfrom hto hfree =>
        refine ⟨hholds.global, ?_, hnext⟩
        intro id hid
        obtain rfl := Option.some.inj (hto.symm.trans hid)
        exact Function.update_self _ _ _
    | keep hfrom hto =>
        refine ⟨hholds.global, ?_, hnext⟩
        intro id hid
        exact hlocked id (hfrom.trans (hto.symm.trans hid))
    | write hwriting =>
        subst hwriting
        exact ⟨acyclic_write hholds.global hready (hsaw _ _ _ hprocess), hlocked, hnext⟩
    | unlock hfrom =>
        refine ⟨hholds.global, ?_, hnext⟩
        intro id hid
        cases hid
  others := by
    intro pool turn process after next index other hholds _ hprocess hadvance hindex hother
    obtain ⟨hlocked, hready⟩ := hholds.waiting _ _ hother
    have hapart := hholds.apart _ _ _ _ hindex hprocess hother
    cases moves_advance hadvance with
    | lock hfrom hto hfree =>
        rename_i held
        have hne : ∀ id, other.holds = some id → id ≠ held := by
          rintro id hid rfl
          rw [hlocked _ hid] at hfree
          cases hfree
        refine ⟨⟨?_, hready.congr fun _ _ => rfl⟩, ?_⟩
        · intro id hid
          exact (Function.update_of_ne (hne id hid) _ _).trans (hlocked id hid)
        · intro id hid hheld
          exact hne id hheld (Option.some.inj (hid.symm.trans hto))
    | keep hfrom hto =>
        refine ⟨⟨hlocked, hready⟩, ?_⟩
        intro id hid
        exact hapart id (hfrom.trans (hto.symm.trans hid))
    | write hwriting =>
        subst hwriting
        refine ⟨⟨hlocked, hready.congr ?_⟩, hapart⟩
        rintro id hid
        apply Function.update_of_ne
        rintro rfl
        exact hapart _ rfl hid
    | unlock hfrom =>
        refine ⟨⟨?_, hready.congr fun _ _ => rfl⟩, ?_⟩
        · intro id hid
          refine (Function.update_of_ne ?_ _ _).trans (hlocked id hid)
          rintro rfl
          exact hapart _ hfrom hid
        · intro id hid
          cases hid

structure Begins (project : Project) : Prop where
  acyclic : Acyclic project.Depends
  free : ∀ id, project.locked id = false

/-- The dependencies stay acyclic as long as every search that ends in a write has seen all the
dependencies of the tasks it visited. -/
theorem dependencies_acyclic {project : Project} (hbegins : Begins project) (calls : List Call)
    {turns : List (Turn Bool)} {pool : Pool Project Process}
    (hrun : Interleaving.Runs advance SawAll ⟨project, calls.map .waiting⟩ turns pool) :
    Acyclic pool.shared.Depends := by
  have hwaiting : ∀ (index : Nat) (process : Process),
      (calls.map Process.waiting)[index]? = some process → ∃ call, process = .waiting call := by
    intro index process hprocess
    obtain ⟨call, -, rfl⟩ := List.mem_map.mp (List.mem_of_getElem? hprocess)
    exact ⟨call, rfl⟩
  have hinit : dependencies.Holds ⟨project, calls.map .waiting⟩ := by
    refine ⟨hbegins.acyclic, ?_, ?_⟩
    · intro index process hprocess
      obtain ⟨call, rfl⟩ := hwaiting index process hprocess
      exact ⟨fun _ hid => absurd hid nofun, trivial⟩
    · intro i j p q _ hp hq id hid
      obtain ⟨call, rfl⟩ := hwaiting i p hp
      cases hid
  exact (preserves_dependencies.run hrun hinit).global

theorem report_titled : "report" ≠ "" := by decide

def untouched : Document :=
  { title := ⟨"report", report_titled⟩, status := .backlog, updatedAt := 0, lastTransitionAt := 0 }

def twoTasks : Project where
  tasks id := if id = "A" ∨ id = "B" then some untouched else none

def crossing : List Call := [.addDep ⟨"A", "B", 1⟩, .addDep ⟨"B", "A", 1⟩]

theorem begins_twoTasks : Begins twoTasks := by
  refine ⟨?_, fun _ => rfl⟩
  intro id hcycle
  obtain ⟨other, ⟨task, htask, hmem⟩, -⟩ := Relation.TransGen.head'_iff.mp hcycle
  obtain ⟨-, hdoc⟩ := Option.ite_none_right_eq_some.mp htask
  obtain rfl := Option.some.inj hdoc
  exact List.not_mem_nil hmem

def succeeded : Process → Bool
  | .finished succeeded => succeeded
  | _ => false

def depends (project : Project) (taskId blockerId : String) : Bool :=
  (project.tasks taskId).any fun task => task.dependsOn.contains blockerId

theorem depends_iff {blockerId : String} :
    depends project taskId blockerId = true ↔ project.Depends taskId blockerId := by
  simp [depends, Project.Depends, Option.any_eq_true]

/-- Each of the two calls ends its search before the other one writes. -/
theorem cycle_closed : ∃ turns pool,
    StepSystem.FreeRun (Interleaving.step advance) ⟨twoTasks, crossing.map .waiting⟩ turns pool ∧
    pool.processes.all succeeded = true ∧ ¬ Acyclic pool.shared.Depends := by
  have hexec : (StepSystem.exec (Interleaving.step advance) ⟨twoTasks, crossing.map .waiting⟩
      (List.replicate 4 ⟨0, false⟩ ++ List.replicate 6 ⟨1, false⟩ ++
        List.replicate 2 ⟨0, false⟩)).any (fun pool =>
          pool.processes.all succeeded && depends pool.shared "A" "B" &&
            depends pool.shared "B" "A") = true := by rfl
  obtain ⟨pool, hpool, htest⟩ := (Option.any_eq_true _ _).mp hexec
  rw [Bool.and_eq_true, Bool.and_eq_true, depends_iff, depends_iff] at htest
  obtain ⟨⟨hsucceeded, hforth⟩, hback⟩ := htest
  refine ⟨_, pool, StepSystem.freeRun_iff_exec.mpr hpool, hsucceeded, ?_⟩
  intro hacyclic
  exact hacyclic "A" (.tail (.single hforth) hback)

def sawAll (pool : Pool Project Process) (turn : Turn Bool) : Bool :=
  match pool.processes[turn.index]? with
  | some (.writing _ _ visited) =>
      visited.all fun (id, dependsOn) =>
        (pool.shared.tasks id).all fun task => task.dependsOn.all fun dep => dependsOn.contains dep
  | _ => true

theorem sawAll_of_test {pool : Pool Project Process} {turn : Turn Bool}
    (htest : sawAll pool turn = true) : SawAll pool turn := by
  rintro taskId document visited hwriting id dependsOn hmem blockerId ⟨task, htask, hdep⟩
  simp only [sawAll, hwriting, List.all_eq_true] at htest
  have hall := htest _ hmem
  rw [htask, Option.all_some, List.all_eq_true] at hall
  exact List.contains_iff_mem.mp (hall blockerId hdep)

/-- The second call searches after the first one has written, and refuses. -/
theorem second_refused : ∃ turns pool,
    Interleaving.Runs advance SawAll ⟨twoTasks, crossing.map .waiting⟩ turns pool ∧
    pool.processes.map succeeded = [true, false] ∧ Acyclic pool.shared.Depends := by
  have hexec : (StepSystem.exec (StepSystem.checked (Interleaving.step advance) sawAll)
      ⟨twoTasks, crossing.map .waiting⟩
      (List.replicate 6 ⟨0, false⟩ ++ List.replicate 5 ⟨1, false⟩)).any (fun pool =>
        pool.processes.map succeeded == [true, false]) = true := by rfl
  obtain ⟨pool, hpool, htest⟩ := (Option.any_eq_true _ _).mp hexec
  have hrun : Interleaving.Runs advance SawAll ⟨twoTasks, crossing.map .waiting⟩ _ pool :=
    StepSystem.Run.of_exec (fun _ _ h => sawAll_of_test h) hpool
  exact ⟨_, pool, hrun, by simpa using htest, dependencies_acyclic begins_twoTasks crossing hrun⟩

end Aof.DependencyCalls
