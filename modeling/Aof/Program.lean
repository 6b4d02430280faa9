import Aof.Tools.TaskFileTools

/-!
# The program as a state machine

The operations that change tasks, in any order.  The loops over scanned tasks are cut into their
turns, so that other operations can come between a scan and the visit of one of its task objects.
-/

namespace Aof

/-- The store, and the task objects that scans of the in-progress tasks hold in memory. -/
structure World where
  store : Store
  scanned : List Task

inductive Operation where
  | scan
  | visit (index : Nat) (executor : Option SpawnResult) (timestamp : String)
  | hopTimeout (index : Nat) (hopId : String) (spawn : Option SpawnResult) (timestamp : String)
  | report (report : CompletionReport)
  | complete (taskId : String)
  | schedule (action : SchedulerAction)
  | sessionWrites (taskId : String) (result : RunResult)

def inProgressTasks (store : Store) : List Task :=
  store.tasks.values.filter fun task => task.status = .inProgress

/-- A visit uses its task object up. -/
def programStep (world : World) : Operation → Option World
  | .scan => some { world with scanned := world.scanned ++ inProgressTasks world.store }
  | .visit index executor timestamp => do
      let task ← world.scanned[index]?
      some
        { store := (visitSession task executor timestamp).after world.store
          scanned := world.scanned.eraseIdx index }
  | .hopTimeout index hopId spawn timestamp => do
      let task ← world.scanned[index]?
      let (changed, store) := (escalateHopTimeout task hopId spawn timestamp).run world.store
      some { store, scanned := world.scanned.set index (changed.getD task) }
  | .report report =>
      some { world with store := (handleCompletionReport report).after world.store }
  | .complete taskId => some { world with store := (aofTaskComplete taskId).after world.store }
  | .schedule action => some { world with store := (executeAction action).after world.store }
  | .sessionWrites taskId result =>
      some { world with store := (Store.writeRunResult taskId result).after world.store }

def visitsOf (executor : String → Option SpawnResult) (clock : String → String)
    (tasks : List Task) : List Operation :=
  tasks.map fun task => .visit 0 (executor task.id) (clock task.id)

/-- A loop that a throw may end early has visited some of its tasks, from the front. -/
theorem exec_visits (executor : String → Option SpawnResult) (clock : String → String)
    (tasks rest : List Task) (store : Store) : ∃ visited unvisited, tasks = visited ++ unvisited ∧
      StepSystem.exec programStep ⟨store, tasks ++ rest⟩ (visitsOf executor clock visited) =
        some ⟨(tasks.forM fun task =>
          visitSession task (executor task.id) (clock task.id)).after store,
          unvisited ++ rest⟩ := by
  induction tasks generalizing store with
  | nil => exact ⟨[], [], rfl, rfl⟩
  | cons task tasks ih =>
      have hcons : ((task :: tasks).forM fun task =>
          visitSession task (executor task.id) (clock task.id)).run store =
          ((visitSession task (executor task.id) (clock task.id)) >>= fun _ =>
            tasks.forM fun task => visitSession task (executor task.id) (clock task.id)).run
              store := rfl
      match hrun : (visitSession task (executor task.id) (clock task.id)).run store with
      | (some (), next) =>
          obtain ⟨visited, unvisited, hsplit, hexec⟩ := ih next
          refine ⟨task :: visited, unvisited, by rw [hsplit, List.cons_append], ?_⟩
          rw [Command.after_eq, hcons, Command.run_bind_of_some hrun]
          refine Eq.trans ?_ hexec
          have hafter : (visitSession task (executor task.id) (clock task.id)).after store =
              next := congrArg Prod.snd hrun
          simp [visitsOf, programStep, hafter]
      | (none, next) =>
          refine ⟨[task], tasks, rfl, ?_⟩
          rw [Command.after_eq, hcons, Command.run_bind_of_none hrun]
          have hafter : (visitSession task (executor task.id) (clock task.id)).after store =
              next := congrArg Prod.snd hrun
          simp [visitsOf, programStep, hafter]

end Aof
