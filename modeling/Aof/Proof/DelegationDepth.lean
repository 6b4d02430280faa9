import Aof.Proof.ProtocolMessages
import Aof.Proof.Rules

/-!
# Delegation does not nest

The depth of a delegated task is written to the task itself, and a handoff is refused below a parent
that has one.  What is not looked at is whether the child is a parent already.
-/

namespace Aof

open Command StepSystem
open ProtocolProject (onStore getTask)

/-- A task is handed off below a task that was handed off itself. -/
def Nested (delegations : List (String × String)) : Prop :=
  ∃ a b c, a ≠ b ∧ b ≠ c ∧ a ≠ c ∧ (b, a) ∈ delegations ∧ (c, b) ∈ delegations

def ProtocolProject.accepts (project : ProtocolProject) (envelope : ProtocolEnvelope)
    (payload : HandoffRequest) : Bool :=
  payload.taskId = envelope.taskId &&
    (project.store.tasks.get? envelope.taskId).any (checkAuthorization envelope.fromAgent) &&
    (project.store.tasks.get? payload.parentTaskId).isSome &&
    project.parentDepth payload.parentTaskId + 1 ≤ 1

section Requests

variable {project : ProtocolProject} {envelope : ProtocolEnvelope} {payload : HandoffRequest}

theorem handoffRequest_cases :
    (ProtocolProject.handleHandoffRequest envelope payload).after project = project ∨
      project.accepts envelope payload = true ∧
        ∃ childTask : Task, project.store.tasks.get? payload.taskId = some childTask ∧
          (ProtocolProject.handleHandoffRequest envelope payload).after project =
            project.delegate childTask payload := by
  show ((ProtocolProject.handleHandoffRequest envelope payload).run project).2 = _ ∨ _ ∧
    ∃ childTask : Task, _ ∧
      ((ProtocolProject.handleHandoffRequest envelope payload).run project).2 = _
  unfold ProtocolProject.handleHandoffRequest
  split
  · exact .inl rfl
  · rename_i hsame
    cases hchild : project.store.tasks.get? envelope.taskId with
    | none =>
        rw [run_bind_of_some (run_getTask hchild)]
        exact .inl rfl
    | some childTask =>
        rw [run_bind_of_some (run_getTask hchild)]
        dsimp only
        split
        · rename_i hauthorized
          cases hparent : project.store.tasks.get? payload.parentTaskId with
          | none =>
              rw [run_bind_of_some (run_getTask hparent)]
              exact .inl rfl
          | some parentTask =>
              rw [run_bind_of_some (run_getTask hparent), run_modify]
              dsimp only
              split
              · exact .inl rfl
              · rename_i hdepth
                refine .inr ⟨?_, childTask, (not_not.mp hsame).symm ▸ hchild, rfl⟩
                rw [ProtocolProject.accepts, hchild, hparent, Option.any_some, hauthorized,
                  Option.isSome_some, decide_eq_true (not_not.mp hsame),
                  decide_eq_true (not_lt.mp hdepth)]
                rfl
        · exact .inl rfl

end Requests

structure KeepsDelegation (before after : ProtocolProject) : Prop where
  depth : after.delegationDepth = before.delegationDepth
  delegations : after.delegations = before.delegations

instance : IsPreorder ProtocolProject KeepsDelegation where
  refl _ := ⟨rfl, rfl⟩
  trans _ _ _ h h' := ⟨h'.depth.trans h.depth, h'.delegations.trans h.delegations⟩

section Keeps

variable {project : ProtocolProject} {envelope : ProtocolEnvelope}

theorem keeps_onStore {α : Type} (command : Command Store α) (project : ProtocolProject) :
    Relates KeepsDelegation (onStore command) project := ⟨rfl, rfl⟩

theorem keeps_completionReport (payload : CompletionPayload) :
    Relates KeepsDelegation (ProtocolProject.handleCompletionReport envelope payload) project := by
  apply (keeps_onStore _ _).bind
  intro found p _
  cases found with
  | none => exact .pure () p
  | some task =>
      dsimp only
      split
      · apply (keeps_onStore _ p).bind
        intro _ p _
        apply (keeps_onStore _ p).bind
        intro _ p _
        have hcompletes : Relates KeepsDelegation
            (ProtocolProject.completeRunArtifact envelope.taskId) p := by
          apply Relates.modify
          split <;> exact ⟨rfl, rfl⟩
        apply hcompletes.bind
        intro _ p _
        split
        · exact (keeps_onStore _ p).attempt
        · exact .pure () p
      · exact .pure () p

theorem keeps_appendWorkLog (taskId : String) (payload : StatusUpdate) (now : String) :
    Relates KeepsDelegation (ProtocolProject.appendWorkLog taskId payload now) project := by
  unfold ProtocolProject.appendWorkLog
  split
  · exact .pure () project
  · exact Relates.modify ⟨rfl, rfl⟩

theorem keeps_transitionTask (task : Task) (status : TaskStatus) :
    Relates KeepsDelegation (ProtocolProject.transitionTask task status) project := by
  unfold ProtocolProject.transitionTask
  split
  · exact .pure task project
  · split
    · exact keeps_onStore _ project
    · exact .pure task project

theorem keeps_statusUpdate (cascadeBlocks : Bool) (now : String) (payload : StatusUpdate) :
    Relates KeepsDelegation
      (ProtocolProject.handleStatusUpdate cascadeBlocks now envelope payload) project := by
  apply (keeps_onStore _ _).bind
  intro found p _
  cases found with
  | none => exact .pure () p
  | some task =>
      have happly :
          Relates KeepsDelegation (ProtocolProject.applyStatus task payload.status) p := by
        cases payload.status with
        | none => exact .pure task p
        | some targetStatus => exact keeps_transitionTask task targetStatus
      apply happly.bind
      intro updatedTask p _
      split
      · split
        · exact keeps_onStore _ p
        · exact .pure () p
      · split
        · exact keeps_appendWorkLog envelope.taskId payload now
        · exact .pure () p

theorem keeps_handle (cascadeBlocks : Bool) (now : String)
    (htype : ∀ payload, envelope.message ≠ .handoffRequest payload) : KeepsDelegation project
      ((ProtocolProject.handle cascadeBlocks now envelope).after project) := by
  unfold ProtocolProject.handle
  cases hmessage : envelope.message with
  | completionReport payload => exact keeps_completionReport payload
  | statusUpdate payload => exact keeps_statusUpdate cascadeBlocks now payload
  | handoffRequest payload => exact absurd hmessage (htype payload)
  | handoffAccepted payload => exact ⟨rfl, rfl⟩
  | handoffRejected payload => exact keeps_onStore _ project

end Keeps

structure Delegated (project : ProtocolProject) : Prop where
  child : ∀ entry ∈ project.delegations, project.delegationDepth entry.1 = some 1
  depth : ∀ id depth, project.delegationDepth id = some depth → depth = 1
  flat : ¬ Nested project.delegations

/-- No request is accepted for a task that is the parent of another task's handoff. -/
def ProtocolProject.unchained (project : ProtocolProject) (envelope : ProtocolEnvelope) : Bool :=
  match envelope.message with
  | .handoffRequest payload =>
      !project.accepts envelope payload || project.delegations.all fun entry =>
        entry.2 ≠ payload.taskId || entry.1 = payload.taskId || entry.1 = payload.parentTaskId ||
          payload.parentTaskId = payload.taskId
  | _ => true

section Delegated

variable {project next : ProtocolProject} {payload : HandoffRequest} {childTask : Task}

variable (hproject : Delegated project)
include hproject

theorem Delegated.congr (hkeeps : KeepsDelegation project next) : Delegated next := by
  obtain ⟨hdepth, hdelegations⟩ := hkeeps
  constructor
  · rw [hdepth, hdelegations]
    exact hproject.child
  · rw [hdepth]
    exact hproject.depth
  · rw [hdelegations]
    exact hproject.flat

theorem Delegated.parent_root {parentTaskId : String}
    (haccepts : project.parentDepth parentTaskId + 1 ≤ 1) :
    project.delegationDepth parentTaskId = none := by
  cases hdepth : project.delegationDepth parentTaskId with
  | none => rfl
  | some depth =>
      obtain rfl := hproject.depth _ _ hdepth
      rw [ProtocolProject.parentDepth, hdepth, Option.getD_some] at haccepts
      omega

theorem Delegated.delegate (hid : childTask.id = payload.taskId)
    (haccepts : project.parentDepth payload.parentTaskId + 1 ≤ 1)
    (hunchained : ∀ entry ∈ project.delegations, entry.2 = payload.taskId → entry.1 =
      payload.taskId ∨ entry.1 = payload.parentTaskId ∨ payload.parentTaskId = payload.taskId) :
    Delegated (project.delegate childTask payload) := by
  have hroot := hproject.parent_root haccepts
  have hone : project.parentDepth payload.parentTaskId + 1 = 1 := by
    rw [ProtocolProject.parentDepth, hroot]
    rfl
  have hdelegated : (project.delegate childTask payload).delegationDepth =
      Function.update project.delegationDepth payload.taskId (some 1) := by
    rw [← hid, ← hone]
    rfl
  have hentries : (project.delegate childTask payload).delegations =
      project.delegations ++ [(payload.taskId, payload.parentTaskId)] := by
    rw [← hid]
    rfl
  constructor
  · intro entry hentry
    rw [hentries, List.mem_append, List.mem_singleton] at hentry
    rw [hdelegated, Function.update_apply]
    split
    · rfl
    · rename_i hne
      rcases hentry with hold | rfl
      · exact hproject.child entry hold
      · exact absurd rfl hne
  · intro id depth hdepth
    rw [hdelegated, Function.update_apply] at hdepth
    split at hdepth
    · exact (Option.some.inj hdepth).symm
    · exact hproject.depth id depth hdepth
  · rintro ⟨a, b, c, hab, hbc, hac, hfirst, hsecond⟩
    rw [hentries, List.mem_append, List.mem_singleton, Prod.mk.injEq] at hfirst hsecond
    rcases hfirst with hfirst | ⟨rfl, rfl⟩
    · rcases hsecond with hsecond | ⟨rfl, rfl⟩
      · exact hproject.flat ⟨a, b, c, hab, hbc, hac, hfirst, hsecond⟩
      · -- the parent would have been handed off
        have hdepth := hproject.child _ hfirst
        rw [hroot] at hdepth
        cases hdepth
    · rcases hsecond with hsecond | ⟨rfl, -⟩
      · -- the child would be a parent already
        rcases hunchained _ hsecond rfl with hsame | hsame | hsame
        · exact hbc hsame.symm
        · exact hac hsame.symm
        · exact hab hsame
      · exact hbc rfl

theorem Delegated.handle {envelope : ProtocolEnvelope}
    (hunchained : project.unchained envelope = true) (cascadeBlocks : Bool) (now : String) :
    Delegated ((ProtocolProject.handle cascadeBlocks now envelope).after project) := by
  cases hmessage : envelope.message with
  | handoffRequest payload =>
      rw [ProtocolProject.handle, hmessage]
      rw [ProtocolProject.unchained, hmessage] at hunchained
      rcases handoffRequest_cases with hsame | ⟨haccepts, childTask, hget, hafter⟩
      · dsimp only
        rw [hsame]
        exact hproject
      · dsimp only
        rw [hafter]
        dsimp only at hunchained
        rw [haccepts, Bool.not_true, Bool.false_or, List.all_eq_true] at hunchained
        apply hproject.delegate (project.store.keyed _ _ hget)
        · simp only [ProtocolProject.accepts, Bool.and_eq_true, decide_eq_true_iff] at haccepts
          exact haccepts.2
        · intro entry hentry hparent
          have hfree := hunchained entry hentry
          simpa [hparent, or_assoc] using hfree
  | _ => exact hproject.congr (keeps_handle cascadeBlocks now (by rw [hmessage]; intro _ h; cases h))

end Delegated

structure RoutedMessage where
  now : String
  envelope : ProtocolEnvelope

def routeStep (router : ProtocolRouter) (message : RoutedMessage) : Option ProtocolRouter :=
  some (router.route message.now message.envelope)

def ProtocolRouter.unchained (router : ProtocolRouter) (message : RoutedMessage) : Bool :=
  (router.resolveProjectStore message.envelope.projectId).all fun root =>
    (router.projects root).unchained message.envelope

/-- No task has a depth yet, and no handoff was accepted. -/
def ProtocolRouter.Undelegated (router : ProtocolRouter) : Prop :=
  ∀ root, (∀ id, (router.projects root).delegationDepth id = none) ∧
    (router.projects root).delegations = []

variable {router : ProtocolRouter}

theorem delegated_of_undelegated (hfresh : router.Undelegated) (root : String) :
    Delegated (router.projects root) := by
  obtain ⟨hdepth, hdelegations⟩ := hfresh root
  constructor
  · rw [hdelegations]
    exact nofun
  · intro id depth hsome
    rw [hdepth id] at hsome
    cases hsome
  · rintro ⟨a, b, c, -, -, -, hmem, -⟩
    rw [hdelegations] at hmem
    cases hmem

theorem delegated_route {message : RoutedMessage}
    (hrouter : ∀ root, Delegated (router.projects root))
    (hunchained : router.unchained message = true) (root : String) :
    Delegated ((router.route message.now message.envelope).projects root) := by
  unfold ProtocolRouter.route
  cases hresolved : router.resolveProjectStore message.envelope.projectId with
  | none => exact hrouter root
  | some resolved =>
      dsimp only
      split
      · exact hrouter root
      · rw [ProtocolRouter.unchained, hresolved, Option.all_some] at hunchained
        by_cases hroot : root = resolved
        · subst hroot
          dsimp only
          rw [Function.update_self]
          exact (hrouter root).handle hunchained _ _
        · dsimp only
          rw [Function.update_of_ne hroot]
          exact hrouter root

/-- If no handoff is accepted for a task that is the parent of another task's handoff, delegation
does not nest. -/
theorem delegation_never_nests {router finish : ProtocolRouter} {messages : List RoutedMessage}
    (hfresh : router.Undelegated)
    (hrun : Run routeStep (fun router message => router.unchained message = true) router messages
      finish) (root : String) : ¬ Nested (finish.projects root).delegations := by
  have hdelegated : ∀ root, Delegated (finish.projects root) := by
    apply hrun.invariant (fun router : ProtocolRouter => ∀ root, Delegated (router.projects root))
    · intro router message next hinv hunchained hstep
      obtain rfl := Option.some.inj hstep
      exact delegated_route hinv hunchained
    · exact delegated_of_undelegated hfresh
  exact (hdelegated root).flat

def threeTasks : ProtocolRouter where
  projects _ :=
    { store := .ofTasks (["A", "B", "C"].map fun id =>
        { id, status := .ready, routing := { agent := some "swe" } }) }
  resolveProjectStore _ := some "root"

def handOff (taskId parentTaskId : String) : RoutedMessage where
  now := ""
  envelope :=
    { projectId := "P"
      taskId
      fromAgent := "swe"
      toAgent := "qa"
      message := .handoffRequest
        { taskId, parentTaskId, fromAgent := "swe", toAgent := "qa", dueBy := "" } }

/-- The second handoff is below the child of the first, and refused. -/
theorem second_handoff_refused : ∃ finish,
    Run routeStep (fun (router : ProtocolRouter) message => router.unchained message = true)
      threeTasks [handOff "B" "A", handOff "C" "B"] finish ∧
      (finish.projects "root").delegations = [("B", "A")] ∧
      ¬ Nested (finish.projects "root").delegations := by
  have hexec : (exec (checked routeStep ProtocolRouter.unchained) threeTasks
      [handOff "B" "A", handOff "C" "B"]).any (fun finish =>
        (finish.projects "root").delegations = [("B", "A")]) = true := by decide +kernel
  obtain ⟨finish, hfinish, hdelegations⟩ := (Option.any_eq_true _ _).mp hexec
  have hrun : Run routeStep
      (fun (router : ProtocolRouter) message => router.unchained message = true)
      threeTasks [handOff "B" "A", handOff "C" "B"] finish := Run.of_exec (fun _ _ h => h) hfinish
  refine ⟨finish, hrun, of_decide_eq_true hdelegations, ?_⟩
  exact delegation_never_nests (fun _ => ⟨fun _ => rfl, rfl⟩) hrun "root"

/-- The child of the second handoff is the parent of the first. -/
theorem handoffs_nest :
    ¬ ∀ (router finish : ProtocolRouter) (messages : List RoutedMessage), router.Undelegated →
      FreeRun routeStep router messages finish →
        ∀ root, ¬ Nested (finish.projects root).delegations := by
  intro hclaim
  have hexec : (exec routeStep threeTasks [handOff "C" "B", handOff "B" "A"]).any (fun finish =>
      (finish.projects "root").delegations = [("C", "B"), ("B", "A")]) = true := by decide +kernel
  obtain ⟨finish, hfinish, hdelegations⟩ := (Option.any_eq_true _ _).mp hexec
  apply hclaim threeTasks finish _ (fun _ => ⟨fun _ => rfl, rfl⟩)
    (freeRun_iff_exec.mpr hfinish) "root"
  rw [of_decide_eq_true hdelegations]
  exact ⟨"A", "B", "C", by decide, by decide, by decide, by decide, by decide⟩

end Aof
