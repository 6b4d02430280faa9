import Aof.Protocol.Messages

/-!
# What the messages of the protocol do

On the task store a message does what the handler of that store does.  Of the senders only the agent
of the task is heard, but a status update is handled whoever sends it.  A handoff is accepted below
a parent that was not delegated itself.
-/

namespace Aof

open Command StepSystem
open ProtocolProject (onStore getTask)

section OnStore

variable {α β : Type} {project : ProtocolProject} {store : Store} {result : Option α}
  {command : Command Store α}

theorem run_onStore (hrun : command.run project.store = (result, store)) :
    (onStore command).run project = (result, { project with store }) := by
  have hpair := congrArg (fun pair : Option α × Store =>
    (pair.1, { project with store := pair.2 })) hrun
  exact hpair

theorem onStore_bind (command : Command Store α) (next : α → Command Store β) :
    onStore (command >>= next) = onStore command >>= fun a => onStore (next a) := by
  funext project
  show (onStore (command >>= next)).run project = (onStore command >>= _).run project
  cases hrun : command.run project.store with
  | mk result store =>
      cases result with
      | none =>
          rw [run_onStore (run_bind_of_none hrun), run_bind_of_none (run_onStore hrun)]
      | some a =>
          cases hnext : (next a).run store with
          | mk last final =>
              have hboth : (command >>= next).run project.store = (last, final) := by
                rw [run_bind_of_some hrun, hnext]
              have hlast : (onStore (next a)).run { project with store } =
                  (last, { project with store := final }) := run_onStore hnext
              rw [run_bind_of_some (run_onStore hrun), run_onStore hboth, hlast]

theorem run_getTask {id : String} {found : Option Task}
    (hget : project.store.tasks.get? id = found) :
    (getTask id).run project = (some found, project) := by
  rw [← hget]
  rfl

end OnStore

def Mirrors {α : Type} (command : Command ProtocolProject α) (onTasks : Command Store α) : Prop :=
  ∀ project : ProtocolProject, (command.run project).1 = (onTasks.run project.store).1 ∧
    (command.run project).2.store = (onTasks.run project.store).2

section Mirrors

variable {α β : Type} {command : Command ProtocolProject α} {onTasks : Command Store α}

theorem Mirrors.after (hmirrors : Mirrors command onTasks) (project : ProtocolProject) :
    (command.after project).store = onTasks.after project.store := (hmirrors project).2

theorem mirrors_onStore (command : Command Store α) : Mirrors (onStore command) command :=
  fun _ => ⟨rfl, rfl⟩

theorem mirrors_pure (a : α) : Mirrors (pure a) (pure a) := fun _ => ⟨rfl, rfl⟩

theorem mirrors_modify {f : ProtocolProject → ProtocolProject}
    (hf : ∀ project, (f project).store = project.store) : Mirrors (Command.modify f) (pure ()) :=
  fun project => ⟨rfl, hf project⟩

theorem Mirrors.attempt (hcommand : Mirrors command onTasks) :
    Mirrors command.attempt onTasks.attempt := fun project => ⟨rfl, (hcommand project).2⟩

theorem Mirrors.bind {next : α → Command ProtocolProject β} {onNext : α → Command Store β}
    (hcommand : Mirrors command onTasks) (hnext : ∀ a, Mirrors (next a) (onNext a)) :
    Mirrors (command >>= next) (onTasks >>= onNext) := by
  intro project
  obtain ⟨hresult, hstore⟩ := hcommand project
  rw [run_bind, run_bind]
  generalize command.run project = ended at hresult hstore
  obtain ⟨result, middle⟩ := ended
  dsimp only at hresult hstore
  rw [← Prod.eta (onTasks.run project.store), ← hresult, ← hstore]
  cases result with
  | none => exact ⟨rfl, rfl⟩
  | some a => exact hnext a middle

end Mirrors

theorem mirrors_completeRunArtifact (taskId : String) :
    Mirrors (ProtocolProject.completeRunArtifact taskId) (pure ()) := by
  apply mirrors_modify
  intro project
  split <;> rfl

theorem mirrors_completionReport (envelope : ProtocolEnvelope) (payload : CompletionPayload) :
    Mirrors (ProtocolProject.handleCompletionReport envelope payload) (Aof.handleCompletionReport
        ⟨envelope.taskId, envelope.fromAgent, payload.outcome, payload.notes⟩) := by
  apply (mirrors_onStore _).bind
  intro found
  cases found with
  | none => exact mirrors_pure ()
  | some task =>
      dsimp only
      split
      · apply (mirrors_onStore _).bind
        intro _
        apply (mirrors_onStore _).bind
        intro _
        have hcascade : Mirrors
            (if payload.outcome = .done then
              Command.attempt (onStore (cascadeOnCompletion envelope.taskId)) else pure ())
            (if payload.outcome = .done then
              Command.attempt (cascadeOnCompletion envelope.taskId) else pure ()) := by
          split
          · exact (mirrors_onStore _).attempt
          · exact mirrors_pure ()
        exact (mirrors_completeRunArtifact envelope.taskId).bind fun _ => hcascade
      · exact mirrors_pure ()

def StatusUpdate.moves (payload : StatusUpdate) (task : Task) : Option TaskStatus :=
  payload.status.filter fun targetStatus =>
    task.status ≠ targetStatus && isValidTransition task.status targetStatus

section StatusUpdate

variable {project : ProtocolProject} {envelope : ProtocolEnvelope} {payload : StatusUpdate}
  {task : Task} {cascadeBlocks : Bool} {now : String}

theorem run_statusUpdate_moves {targetStatus : TaskStatus}
    (hget : project.store.tasks.get? envelope.taskId = some task)
    (hmoves : payload.moves task = some targetStatus) :
    (ProtocolProject.handleStatusUpdate cascadeBlocks now envelope payload).run project =
      (onStore (do
        let _ ← Store.transition envelope.taskId targetStatus
        if targetStatus = .blocked ∧ cascadeBlocks then cascadeOnBlock envelope.taskId
        else pure ())).run project := by
  obtain ⟨hstatus, hallowed⟩ := Option.filter_eq_some_iff.mp hmoves
  rw [Bool.and_eq_true, decide_eq_true_iff] at hallowed
  obtain ⟨hne, hvalid⟩ := hallowed
  have hid : task.id = envelope.taskId := project.store.keyed _ _ hget
  have htransition := Store.run_transition hget hvalid hne
  rw [ProtocolProject.handleStatusUpdate, run_bind_of_some (run_getTask hget)]
  dsimp only
  rw [hstatus, ProtocolProject.applyStatus, ProtocolProject.transitionTask, if_neg hne,
    if_pos hvalid, hid, run_bind_of_some (run_onStore htransition), onStore_bind,
    run_bind_of_some (run_onStore htransition)]
  have hchanged : (Store.transitioned task targetStatus).status ≠ task.status := Ne.symm hne
  rw [if_pos hchanged]
  show (if targetStatus = .blocked ∧ cascadeBlocks = true then
    onStore (cascadeOnBlock envelope.taskId) else pure ()).run _ = _
  split <;> rfl

theorem applyStatus_of_none (hmoves : payload.moves task = none) :
    ProtocolProject.applyStatus task payload.status = pure task := by
  cases hstatus : payload.status with
  | none => rfl
  | some targetStatus =>
      rw [StatusUpdate.moves, hstatus, Option.filter_some] at hmoves
      rw [ProtocolProject.applyStatus, ProtocolProject.transitionTask]
      split
      · rfl
      · rename_i hne
        rw [if_neg]
        intro hvalid
        simp [hne, hvalid] at hmoves

theorem run_statusUpdate_stays (hget : project.store.tasks.get? envelope.taskId = some task)
    (hmoves : payload.moves task = none) :
    (ProtocolProject.handleStatusUpdate cascadeBlocks now envelope payload).run project =
      (if shouldAppendWorkLog payload then
        ProtocolProject.appendWorkLog envelope.taskId payload now else pure ()).run project := by
  rw [ProtocolProject.handleStatusUpdate, run_bind_of_some (run_getTask hget)]
  dsimp only
  rw [applyStatus_of_none hmoves, pure_bind, if_neg (not_not_intro rfl)]

end StatusUpdate

theorem store_appendWorkLog (taskId : String) (payload : StatusUpdate) (now : String)
    (project : ProtocolProject) :
    ((ProtocolProject.appendWorkLog taskId payload now).after project).store = project.store := by
  unfold ProtocolProject.appendWorkLog
  split <;> rfl

theorem store_statusUpdate (cascadeBlocks : Bool) (now : String) (envelope : ProtocolEnvelope)
    (payload : StatusUpdate) (project : ProtocolProject) :
    ((ProtocolProject.handleStatusUpdate cascadeBlocks now envelope payload).after project).store =
      match payload.status with
      | none => project.store
      | some targetStatus =>
          (Aof.handleStatusUpdate envelope.taskId targetStatus cascadeBlocks).after
            project.store := by
  show ((ProtocolProject.handleStatusUpdate cascadeBlocks now envelope payload).run project
    ).2.store = _
  cases hget : project.store.tasks.get? envelope.taskId with
  | none =>
      rw [ProtocolProject.handleStatusUpdate, run_bind_of_some (run_getTask hget)]
      cases payload.status with
      | none => rfl
      | some targetStatus =>
          have hfound : (Store.get envelope.taskId).run project.store =
              (some none, project.store) := by rw [Store.run_get, hget]
          show project.store = ((Aof.handleStatusUpdate _ _ _).run project.store).2
          rw [Aof.handleStatusUpdate, run_bind_of_some hfound]
          rfl
  | some task =>
      have hfound : (Store.get envelope.taskId).run project.store =
          (some (some task), project.store) := by rw [Store.run_get, hget]
      cases hmoves : payload.moves task with
      | none =>
          rw [run_statusUpdate_stays hget hmoves]
          have hkept : ((if shouldAppendWorkLog payload then
              ProtocolProject.appendWorkLog envelope.taskId payload now else pure ()).run
                project).2.store = project.store := by
            split
            · exact store_appendWorkLog envelope.taskId payload now project
            · rfl
          rw [hkept]
          cases hstatus : payload.status with
          | none => rfl
          | some targetStatus =>
              rw [StatusUpdate.moves, hstatus, Option.filter_some] at hmoves
              show project.store = ((Aof.handleStatusUpdate _ _ _).run project.store).2
              rw [Aof.handleStatusUpdate, run_bind_of_some hfound]
              dsimp only
              split
              · rfl
              · rename_i hne
                rw [if_neg]
                · rfl
                · intro hvalid
                  simp [hne, hvalid] at hmoves
      | some targetStatus =>
          obtain ⟨hstatus, hallowed⟩ := Option.filter_eq_some_iff.mp hmoves
          rw [Bool.and_eq_true, decide_eq_true_iff] at hallowed
          rw [run_statusUpdate_moves hget hmoves, hstatus]
          refine (mirrors_onStore _ project).2.trans ?_
          show _ = ((Aof.handleStatusUpdate _ _ _).run project.store).2
          rw [Aof.handleStatusUpdate, run_bind_of_some hfound]
          dsimp only
          rw [if_neg hallowed.1, if_pos hallowed.2]

/-- The message comes from the agent of a stored task. -/
def ProtocolRouter.authorizes (router : ProtocolRouter) (envelope : ProtocolEnvelope) : Bool :=
  (router.resolveProjectStore envelope.projectId).any fun root =>
    ((router.projects root).store.tasks.get? envelope.taskId).any
      (checkAuthorization envelope.fromAgent)

/-- The message is a status update that asks for no valid move and has no text. -/
def ProtocolRouter.idle (router : ProtocolRouter) (envelope : ProtocolEnvelope)
    (payload : StatusUpdate) : Bool :=
  !shouldAppendWorkLog payload &&
    (router.resolveProjectStore envelope.projectId).all fun root =>
      ((router.projects root).store.tasks.get? envelope.taskId).all fun task =>
        (payload.moves task).isNone

section Senders

variable {project : ProtocolProject} {envelope : ProtocolEnvelope} {task : Task}
  {cascadeBlocks : Bool} {now : String}

theorem after_handle_of_unauthorized (hget : project.store.tasks.get? envelope.taskId = some task)
    (hsender : checkAuthorization envelope.fromAgent task = false)
    (htype : ∀ payload, envelope.message ≠ .statusUpdate payload) :
    (ProtocolProject.handle cascadeBlocks now envelope).after project = project := by
  have hunheard : ¬ checkAuthorization envelope.fromAgent task = true := by
    rw [hsender]
    exact Bool.false_ne_true
  have hfound := run_getTask hget
  unfold ProtocolProject.handle
  cases hmessage : envelope.message with
  | completionReport payload =>
      show ((ProtocolProject.handleCompletionReport envelope payload).run project).2 = project
      rw [ProtocolProject.handleCompletionReport, run_bind_of_some hfound]
      dsimp only
      rw [if_neg hunheard]
      rfl
  | statusUpdate payload => exact absurd hmessage (htype payload)
  | handoffRequest payload =>
      show ((ProtocolProject.handleHandoffRequest envelope payload).run project).2 = project
      unfold ProtocolProject.handleHandoffRequest
      split
      · rfl
      · rw [run_bind_of_some hfound]
        dsimp only
        rw [if_neg hunheard]
        rfl
  | handoffAccepted payload => rfl
  | handoffRejected payload =>
      have hstore : (Aof.rejectHandoff envelope.taskId envelope.fromAgent).run project.store =
          (some (), project.store) := by
        rw [Aof.rejectHandoff, run_bind_of_some (Store.run_get envelope.taskId), hget]
        dsimp only
        rw [if_neg hunheard]
        rfl
      show ((onStore (Aof.rejectHandoff envelope.taskId envelope.fromAgent)).run project).2 = _
      rw [run_onStore hstore]

theorem after_handle_of_idle {payload : StatusUpdate}
    (hget : project.store.tasks.get? envelope.taskId = some task)
    (hmessage : envelope.message = .statusUpdate payload) (hmoves : payload.moves task = none)
    (htext : shouldAppendWorkLog payload = false) :
    (ProtocolProject.handle cascadeBlocks now envelope).after project = project := by
  rw [ProtocolProject.handle, hmessage]
  show ((ProtocolProject.handleStatusUpdate cascadeBlocks now envelope payload).run project).2 = _
  rw [run_statusUpdate_stays hget hmoves, htext]
  rfl

end Senders

theorem route_eq_self {router : ProtocolRouter} {envelope : ProtocolEnvelope} {now : String}
    (hsame : ∀ root task, router.resolveProjectStore envelope.projectId = some root →
      (router.projects root).store.tasks.get? envelope.taskId = some task →
      (ProtocolProject.handle router.cascadeBlocks now envelope).after (router.projects root) =
        router.projects root) : router.route now envelope = router := by
  unfold ProtocolRouter.route
  cases hroot : router.resolveProjectStore envelope.projectId with
  | none => rfl
  | some root =>
      dsimp only
      split
      · rfl
      · rename_i hsome
        obtain ⟨task, hget⟩ :=
          Option.ne_none_iff_exists'.mp (mt Option.isNone_iff_eq_none.mpr hsome)
        rw [hsame root task hroot hget, Function.update_eq_self]

def busyRouter : ProtocolRouter where
  projects _ :=
    { store := .ofTasks [{ id := "T", status := .inProgress, lease := some ⟨"swe", 10⟩ }] }
  resolveProjectStore _ := some "root"

def strangerEnvelope (message : ProtocolMessage) : ProtocolEnvelope where
  projectId := "P"
  taskId := "T"
  fromAgent := "other"
  toAgent := "aof"
  message := message

def ProtocolRouter.statusOf (router : ProtocolRouter) (root taskId : String) : Option TaskStatus :=
  ((router.projects root).store.tasks.get? taskId).map Task.status

end Aof
