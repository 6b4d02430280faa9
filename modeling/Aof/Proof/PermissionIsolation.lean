import Aof.Permissions.TaskPermissions
import Aof.Proof.DuplicateRepair

/-!
# What an agent can do to the tasks of others

A checked operation on a task that is not the agent's is denied, and leaves the task as it is.  Not
checked are `save` and `saveToPath`, and an orchestrator may also change a task without a team that
has an assignee.
-/

namespace Aof

open StepSystem

open TaskFiles (quietly)

def CheckedOperation.changes : CheckedOperation → Bool
  | .list | .get | .create => false
  | _ => true

namespace PermissionAwareTaskStore

variable {store : PermissionAwareTaskStore}

/-- The task is outside the agent's teams if the agent is an orchestrator, and not assigned to it
otherwise. -/
def foreign (store : PermissionAwareTaskStore) (task : Document) : Bool :=
  if store.roleInfo.role = .orchestrator then
    !(truthy task.routing.team).any store.roleInfo.orchestratorTeams.contains
  else taskAssignee task ≠ some store.agentId

/-- Whom the checks let change a foreign task: an admin, and an orchestrator if the task has an
assignee and no team. -/
def overreaches (store : PermissionAwareTaskStore) (task : Document) : Bool :=
  store.roleInfo.role = .admin ∨
    (store.roleInfo.role = .orchestrator ∧ (truthy task.routing.team).isNone ∧
      (truthy (taskAssignee task)).isSome)

/-- The call changes no foreign task that the checks leave open. -/
def confined (store : PermissionAwareTaskStore) (files : TaskDirectory) : PermissionedCall → Bool
  | .create .. => true
  | .on id _ => (files id).current.all fun task =>
      !(store.foreign task.document && store.overreaches task.document)
  | .save task => (files task.target.id).current.all fun task => !store.foreign task.document
  | .saveToPath _ path => (files path.id).current.all fun task => !store.foreign task.document

variable {operation : CheckedOperation} {agentId id : String} {task : Document}
  {program : TaskProgram Unit}

theorem checkWorker_of_foreign (hoperation : operation ≠ .get)
    (hforeign : taskAssignee task ≠ some agentId) :
    (checkWorker operation agentId id task).allowed = false := by
  rw [checkWorker, if_neg hoperation, if_neg hforeign]
  split
  · rfl
  · rfl

theorem checkOrchestrator_of_foreign {operation : CheckedOperation} {agentId id : String}
    {task : Document} {orchestratorTeams : List String} (hoperation : operation ≠ .get)
    (hforeign : (truthy task.routing.team).any orchestratorTeams.contains = false)
    (hassigned : ¬((truthy task.routing.team).isNone = true ∧
      (truthy (taskAssignee task)).isSome = true)) :
    (checkOrchestrator operation agentId id task orchestratorTeams).allowed = false := by
  rw [checkOrchestrator, if_neg hoperation, hforeign, if_neg Bool.false_ne_true, if_neg hassigned]
  rfl

theorem denied_of_foreign (hchanges : operation.changes = true)
    (hforeign : store.foreign task = true) (hreach : store.overreaches task = false) :
    (checkPermission operation store.agentId id (some task) store.roleInfo).allowed = false := by
  have hlist : operation ≠ .list := fun heq => by rw [heq] at hchanges; cases hchanges
  have hget : operation ≠ .get := fun heq => by rw [heq] at hchanges; cases hchanges
  have hcreate : operation ≠ .create := fun heq => by rw [heq] at hchanges; cases hchanges
  rw [overreaches, decide_eq_false_iff_not, not_or] at hreach
  obtain ⟨hadmin, hopen⟩ := hreach
  rw [checkPermission, if_neg hadmin]
  split
  · rw [if_neg (not_or.mpr ⟨hlist, hget⟩)]
    rfl
  · rename_i hknown
    rw [foreign] at hforeign
    split at hforeign
    · rename_i hrole
      have hworker : store.roleInfo.role ≠ .worker := by
        rw [hrole]
        exact AgentRole.noConfusion
      rw [if_neg hworker]
      apply checkOrchestrator_of_foreign hget
      · rwa [Bool.not_eq_true'] at hforeign
      · exact fun hassigned => hopen ⟨hrole, hassigned⟩
    · rename_i hrole
      have hworker : store.roleInfo.role = .worker := by
        cases hcase : store.roleInfo.role with
        | admin => exact absurd hcase hadmin
        | orchestrator => exact absurd hcase hrole
        | worker => rfl
        | unknown => exact absurd hcase hknown
      rw [if_pos hworker]
      exact checkWorker_of_foreign hget (of_decide_eq_true hforeign)

variable {files next : TaskDirectory}

theorem run_guarded {task : TaskObject} (hchanges : operation.changes = true)
    (hcurrent : (files id).current = some task) (hforeign : store.foreign task.document = true)
    (hreach : store.overreaches task.document = false)
    (hrun : files.run id (store.guarded operation id program) = some next) :
    (next id).current = some task := by
  obtain ⟨after, halone, hsame, -⟩ := alone_get_current (files id)
  have hdenied : (checkPermission operation store.agentId id (some task.document)
      store.roleInfo).allowed = false := denied_of_foreign hchanges hforeign hreach
  have hthrow : (store.guarded operation id program).attempt.alone quietly (files id) =
      some (none, after) := by
    rw [guarded, Async.alone_attempt_bind halone, hcurrent, Option.map_some, hdenied,
      if_neg Bool.false_ne_true]
    rfl
  rw [TaskDirectory.run, hthrow, Option.map_some] at hrun
  obtain rfl := Option.some.inj hrun
  rw [Function.update_self, hsame, hcurrent]

theorem run_of_ne {other : String} (hother : other ≠ id) (hrun : files.run id program = some next) :
    next other = files other := by
  obtain ⟨result, -, rfl⟩ := Option.map_eq_some_iff.mp hrun
  exact Function.update_of_ne hother _ _

theorem program_eq_guarded (store : PermissionAwareTaskStore) (id : String) (call : GuardedCall) :
    ∃ operation program, operation.changes = true ∧
      call.program store id = store.guarded operation id program := by
  cases call with
  | transition newStatus metadataPatch now =>
      refine ⟨_, _, ?_, rfl⟩
      split
      · rfl
      · rfl
  | _ => exact ⟨_, _, rfl, rfl⟩

theorem exists_copy_of_current {files : TaskFiles} {task : TaskObject}
    (hcurrent : files.current = some task) : ∃ dir, (files.copies dir).isSome = true := by
  obtain ⟨newest, hhead, -⟩ := Option.map_eq_some_iff.mp hcurrent
  have hmem := mem_newestFirst.mp (List.mem_of_head? hhead)
  obtain ⟨-, hcopy⟩ := mem_matchesIn.mp hmem
  exact ⟨newest.task.path, by rw [hcopy]; rfl⟩

theorem current_step {call : PermissionedCall} {task : TaskObject}
    (hcurrent : (files id).current = some task) (hforeign : store.foreign task.document = true)
    (hconfined : store.confined files call = true) (hstep : store.step files call = some next) :
    (next id).current = some task := by
  have hsaved : ∀ {path : TaskPath} {document : Document},
      (files path.id).current.all (fun task => !store.foreign task.document) = true →
      files.run path.id (TaskProgram.writeFileAtomic path.dir document) = some next →
      (next id).current = some task := by
    intro path document hown hrun
    have hne : id ≠ path.id := by
      intro heq
      rw [← heq, hcurrent, Option.all_some, hforeign] at hown
      cases hown
    rw [run_of_ne hne hrun, hcurrent]
  cases call with
  | create newId opts now =>
      rw [step] at hstep
      split at hstep
      · split at hstep
        · rename_i hfresh
          obtain rfl := Option.some.inj hstep
          have hne : id ≠ newId := by
            intro heq
            obtain ⟨dir, hcopy⟩ := exists_copy_of_current (heq ▸ hcurrent)
            have hnone := List.all_eq_true.mp hfresh dir (mem_STATUS_DIRS dir)
            rw [Option.isNone_iff_eq_none] at hnone
            rw [hnone] at hcopy
            cases hcopy
          rw [Function.update_of_ne hne, hcurrent]
        · cases hstep
      · obtain rfl := Option.some.inj hstep
        exact hcurrent
  | on target call =>
      by_cases htarget : id = target
      · subst htarget
        obtain ⟨operation, program, hchanges, heq⟩ := program_eq_guarded store id call
        have hreach : store.overreaches task.document = false := by
          rwa [confined, hcurrent, Option.all_some, hforeign, Bool.true_and, Bool.not_eq_true']
            at hconfined
        rw [step, heq] at hstep
        exact run_guarded hchanges hcurrent hforeign hreach hstep
      · rw [run_of_ne htarget hstep, hcurrent]
  | save saved => exact hsaved hconfined hstep
  | saveToPath document path => exact hsaved hconfined hstep

/-- If no call changes a foreign task that the checks leave open, every foreign task stays the
same. -/
theorem foreign_tasks_unchanged {start finish : TaskDirectory} {calls : List PermissionedCall}
    (hrun : Run store.step (fun files call => store.confined files call = true) start calls finish)
    {id : String} {task : TaskObject} (hcurrent : (start id).current = some task)
    (hforeign : store.foreign task.document = true) : (finish id).current = some task := by
  apply hrun.invariant (fun files : TaskDirectory => (files id).current = some task)
  · intro files call next hinv hconfined hstep
    exact current_step hinv hforeign hconfined hstep
  · exact hcurrent

end PermissionAwareTaskStore

def smallChart : OrgChart where
  agents := [{ id := "swe", team := some "dev" }, { id := "pm", team := some "dev" }]
  teams := [{ id := "dev", named := by decide, lead := some "pm" }]

def storeFor (agentId : String) : PermissionAwareTaskStore where
  orgChart := smallChart
  agentId := agentId

def otherTask : Document where
  title := ⟨"other", by decide⟩
  status := .ready
  routing := { agent := some "qa" }
  updatedAt := 0
  lastTransitionAt := 0

def oneOther : TaskDirectory := fun id =>
  { copies := fun dir => if id = "T" ∧ dir = .ready then some ⟨otherTask, 1⟩ else none
    clock := 1 }

theorem current_oneOther : (oneOther "T").current = some ⟨otherTask, .ready⟩ := rfl

def retitle : UpdatePatch where
  title := some ⟨"mine", by decide⟩

def TaskDirectory.titleOf (files : TaskDirectory) (id : String) : Option String :=
  (files id).current.map fun task => task.document.title.val

theorem worker_denied : ∃ finish,
    Run (storeFor "swe").step (fun files call => (storeFor "swe").confined files call = true)
      oneOther [.on "T" (.update retitle 1), .on "T" .delete] finish ∧
      (finish "T").current = some ⟨otherTask, .ready⟩ := by
  have hexec : (exec (checked (storeFor "swe").step (storeFor "swe").confined) oneOther
      [.on "T" (.update retitle 1), .on "T" .delete]).isSome = true := by decide +kernel
  obtain ⟨finish, hfinish⟩ := Option.isSome_iff_exists.mp hexec
  have hrun := Run.of_exec (fun _ _ h => h) hfinish
  exact ⟨finish, hrun, PermissionAwareTaskStore.foreign_tasks_unchanged hrun current_oneOther
    (by decide +kernel)⟩

/-- Every foreign task stays the same, whatever the agent calls. -/
def PermissionAwareTaskStore.Isolates (store : PermissionAwareTaskStore) : Prop :=
  ∀ (start finish : TaskDirectory) (calls : List PermissionedCall) (id : String)
    (task : TaskObject), FreeRun store.step start calls finish →
    (start id).current = some task → store.foreign task.document = true →
      (finish id).current = some task

theorem not_isolates_of_exec {store : PermissionAwareTaskStore} {calls : List PermissionedCall}
    (hforeign : store.foreign otherTask = true) (hexec : (exec store.step oneOther calls).any
      (fun finish => finish.titleOf "T" = some "mine") = true) : ¬ store.Isolates := by
  intro hisolates
  obtain ⟨finish, hfinish, htitle⟩ := (Option.any_eq_true _ _).mp hexec
  have hsame := hisolates oneOther finish calls "T" ⟨otherTask, .ready⟩
    (freeRun_iff_exec.mpr hfinish) current_oneOther hforeign
  have hmine := of_decide_eq_true htitle
  rw [TaskDirectory.titleOf, hsame] at hmine
  revert hmine
  decide

/-- A worker saves over the task of another, and an orchestrator updates a task of no team. -/
theorem foreign_task_changed : ¬ (storeFor "swe").Isolates ∧ ¬ (storeFor "pm").Isolates := by
  constructor
  · have hexec : (exec (storeFor "swe").step oneOther
        [.save { id := "T", document := otherTask.updated retitle 1 }]).any
          (fun finish => finish.titleOf "T" = some "mine") = true := by decide +kernel
    exact not_isolates_of_exec (by decide +kernel) hexec
  · have hexec : (exec (storeFor "pm").step oneOther [.on "T" (.update retitle 1)]).any
        (fun finish => finish.titleOf "T" = some "mine") = true := by decide +kernel
    exact not_isolates_of_exec (by decide +kernel) hexec

end Aof
