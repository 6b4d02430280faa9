import Aof.Proof.FinalStatus
import Aof.ResultLedger

/-!
# Who consumes a run result

The program does not note for which run a result was written.  When every operation is timely, each
result is nevertheless consumed at most once, and for its own run.
-/

namespace Aof

section Sessions

variable {task : Task} {runResult : RunResult} {timestamp : String} {workflow : TaskWorkflow}
variable {hopId : String} {result : DAGEvaluationResult}

theorem no_hop_in_flight (hone : OneHopInFlight task)
    (hcompletion : HopCompletion task runResult timestamp workflow hopId result) (id : String) :
    statusOf result.state.hops id ≠ some .dispatched := by
  intro hdispatched
  obtain ⟨hbefore, hne⟩ := (evaluation_of_evaluateDAG hcompletion.evaluated).dispatched hdispatched
  exact hne (hone workflow hcompletion.workflow_eq id hopId hbefore
    (findDispatchedHop_spec hcompletion.dispatched))

theorem sessionOf_eq_none {state : WorkflowState} (hworkflow : task.workflow = some workflow)
    (hnone : ∀ id, statusOf state.hops id ≠ some .dispatched) :
    sessionOf (task.withWorkflowState state) = none := by
  have hfind : findDispatchedHop { workflow with state } = none := by
    rw [Option.eq_none_iff_forall_ne_some]
    exact fun id hid => hnone id (findDispatchedHop_spec hid)
  rw [sessionOf, withWorkflowState_workflow hworkflow]
  simp only [hfind, Option.bind_none]

theorem sessionOf_markDispatched {state : WorkflowState} {hop : Hop} {sessionId session : String}
    (hworkflow : task.workflow = some workflow)
    (hnone : ∀ id, statusOf state.hops id ≠ some .dispatched)
    (hsession : sessionOf (task.withWorkflowState (markDispatched hop state sessionId timestamp)) =
      some session) : session = sessionId := by
  rw [sessionOf, withWorkflowState_workflow hworkflow] at hsession
  simp only [Option.bind_eq_some_iff] at hsession
  obtain ⟨id, hfind, hopState, hget, hcorrelation⟩ := hsession
  have hdispatched := findDispatchedHop_spec hfind
  have hid : id = hop.id := by
    by_contra hne
    rw [statusOf_markDispatched, recordStatus_of_ne hne] at hdispatched
    exact hnone id hdispatched
  rw [hid, markDispatched, Dict.get?_set_self, Option.some.injEq] at hget
  rw [← hget, Option.some.injEq] at hcorrelation
  exact hcorrelation.symm

theorem executor_of_nextDispatch {executor : Option SpawnResult} {hop : Hop} {sessionId : String}
    (hnext : nextDispatch executor workflow result = some (hop, sessionId)) :
    executor = some (.success sessionId) := by
  simp only [nextDispatch, Option.bind_eq_bind, Option.bind_eq_some_iff] at hnext
  obtain ⟨found, -, spawn, rfl, hspawn⟩ := hnext
  cases spawn with
  | success other =>
      simp only [Option.some.injEq, Prod.mk.injEq] at hspawn
      rw [hspawn.2]
  | failure error => cases hspawn

theorem sessionOf_endedTask (executor : Option SpawnResult) (hone : OneHopInFlight task)
    (hcompletion : HopCompletion task runResult timestamp workflow hopId result)
    (hstatus : (endedTask task runResult executor timestamp workflow hopId result).status =
      .inProgress) {session : String}
    (hsession : sessionOf (endedTask task runResult executor timestamp workflow hopId result) =
      some session) : executor = some (.success session) := by
  have hnone := no_hop_in_flight hone hcompletion
  unfold endedTask at hstatus hsession
  simp only at hstatus hsession
  split at hstatus
  · rw [transitioned_status] at hstatus
    split at hstatus <;> cases hstatus
  · rename_i hopen
    rw [if_neg hopen] at hsession
    split at hstatus
    · cases hstatus
    · rename_i hgoes
      rw [if_neg hgoes] at hsession
      cases hnext : nextDispatch executor workflow result with
      | none =>
          rw [hnext] at hsession
          simp [sessionOf_eq_none hcompletion.workflow_eq hnone] at hsession
      | some next =>
          obtain ⟨hop, sessionId⟩ := next
          rw [hnext] at hsession
          have hafter := withWorkflowState_workflow hcompletion.workflow_eq result.state
          rw [sessionOf_markDispatched hafter hnone hsession]
          exact executor_of_nextDispatch hnext

theorem sessionOf_congr {task task' : Task} (hworkflow : task.workflow = task'.workflow)
    (hsession : task.metadata.sessionId = task'.metadata.sessionId) :
    sessionOf task = sessionOf task' := by
  rw [sessionOf, sessionOf, hworkflow, hsession]

end Sessions

section Idle

variable {store : Store} {task : Task} {runResult : RunResult} {timestamp : String}
variable {workflow : TaskWorkflow}

theorem completesHop_iff (hworkflow : task.workflow = some workflow) :
    completesHop task runResult timestamp = true ↔
      ∃ hopId result, HopCompletion task runResult timestamp workflow hopId result := by
  simp only [completesHop, hworkflow, Option.any_some, Option.any_eq_true,
    Option.isSome_iff_exists]
  constructor
  · rintro ⟨hopId, hfind, result, heval⟩
    exact ⟨hopId, result, hworkflow, hfind, heval⟩
  · rintro ⟨hopId, result, hcompletion⟩
    exact ⟨hopId, hcompletion.dispatched, result, hcompletion.evaluated⟩

theorem visitSession_workflow_cases (executor : Option SpawnResult)
    (hstored : (store.tasks.get? task.id).isSome)
    (hresult : store.runResults.get? task.id = some runResult)
    (hworkflow : task.workflow = some workflow) :
    (visitSession task executor timestamp).after store = store ∨
      completesHop task runResult timestamp = true := by
  rw [after_visitSession executor hstored hresult hworkflow, completesHop_iff hworkflow]
  rcases handleDAGHopCompletion_cases task runResult timestamp store with
    hrun | hrun | ⟨other, hopId, result, hcompletion⟩
  · left
    rw [completeDAGSession, Command.run_bind_of_some hrun]
    rfl
  · left
    rw [completeDAGSession, Command.run_bind_of_none hrun]
  · obtain rfl := Option.some.inj (hworkflow.symm.trans hcompletion.workflow_eq)
    exact .inr ⟨hopId, result, hcompletion⟩

theorem handleStaleHeartbeat_idle {taskId : String} (agent : Option String)
    (hget : store.tasks.get? taskId = some task) (hstatus : task.status ≠ .inProgress) :
    (executeAction (.staleHeartbeat taskId agent)).after store = store := by
  have hrun : (handleStaleHeartbeat taskId agent).run store = (some (), store) := by
    rw [handleStaleHeartbeat, Command.run_bind_of_some (Store.run_get taskId), hget]
    simp only [ne_eq, hstatus, not_false_eq_true, ↓reduceIte]
    rfl
  exact congrArg Prod.snd hrun

theorem handleCompletionReport_idle {report : CompletionReport}
    (hget : store.tasks.get? report.taskId = some task)
    (hauthorized : checkAuthorization report.fromAgent task = false) :
    (handleCompletionReport report).after store = store := by
  rw [Command.after_eq, handleCompletionReport, Command.run_bind_of_some (Store.run_get _), hget]
  simp only [hauthorized]
  rfl

theorem statusChanged_self (store : Store)
    (id : String) : statusChanged store store id = false := by
  simp [statusChanged]

end Idle

section Ledger

def serials (consumed : List Consumption) : List (Option Nat) :=
  consumed.map fun entry => entry.file.map ResultFile.serial

/-- The ledger fits the store: a result that was written since its task was last started is from
the session the task has, if it has one, and if the result was consumed, the task has none or is
out of progress. -/
structure Sound (store : Store) (ledger : Ledger) : Prop where
  fresh : ∀ id file, ledger.files id = some file → file.serial < ledger.written
  distinct : ∀ id id' file file', ledger.files id = some file → ledger.files id' = some file' →
    file.serial = file'.serial → id = id'
  logged : ∀ entry ∈ ledger.consumed, ∃ file, entry.file = some file ∧
    file.serial < ledger.written ∧ entry.target = some file.writer
  once : (serials ledger.consumed).Nodup
  answered : ∀ id, ledger.answered id = true → ∃ file, ledger.files id = some file ∧
    ∀ task, store.tasks.get? id = some task →
      (∀ session, sessionOf task = some session → session = file.writer) ∧
      (some file.serial ∈ serials ledger.consumed → task.status = .inProgress →
        sessionOf task = none)

variable {store after : Store} {ledger : Ledger}

theorem sound_empty (store : Store) : Sound store Ledger.empty := by
  refine ⟨?_, ?_, ?_, List.nodup_nil, ?_⟩ <;> simp [Ledger.empty]

theorem Sound.serial_lt (hsound : Sound store ledger) {serial : Nat}
    (hmem : some serial ∈ serials ledger.consumed) : serial < ledger.written := by
  obtain ⟨entry, hentry, hserial⟩ := List.mem_map.1 hmem
  obtain ⟨file, hfile, hlt, -⟩ := hsound.logged entry hentry
  rw [hfile, Option.map_some, Option.some.injEq] at hserial
  exact hserial ▸ hlt

theorem Sound.write (hsound : Sound store ledger) (result : RunResult) (session : String)
    (hsession : ∀ task, store.tasks.get? result.taskId = some task →
      sessionOf task = some session) : Sound store (ledger.write result session) := by
  have hold : ∀ id file, (ledger.write result session).files id = some file →
      id = result.taskId ∧ file = ⟨ledger.written, session, result⟩ ∨
        id ≠ result.taskId ∧ ledger.files id = some file := by
    intro id file hfile
    simp only [Ledger.write] at hfile
    split at hfile
    · rename_i heq
      exact .inl ⟨heq, (Option.some.inj hfile).symm⟩
    · rename_i hne
      exact .inr ⟨hne, hfile⟩
  refine ⟨?_, ?_, ?_, hsound.once, ?_⟩
  · intro id file hfile
    rcases hold id file hfile with ⟨-, rfl⟩ | ⟨-, hfile⟩
    · exact Nat.lt_succ_self _
    · exact Nat.lt_succ_of_lt (hsound.fresh id file hfile)
  · intro id id' file file' hfile hfile' hserial
    rcases hold id file hfile with ⟨rfl, rfl⟩ | ⟨-, hfile⟩ <;>
      rcases hold id' file' hfile' with ⟨rfl, rfl⟩ | ⟨-, hfile'⟩
    · rfl
    · exact absurd (hsound.fresh id' file' hfile') (by simp [← hserial])
    · exact absurd (hsound.fresh id file hfile) (by simp [hserial])
    · exact hsound.distinct id id' file file' hfile hfile' hserial
  · intro entry hentry
    obtain ⟨file, hfile, hlt, htarget⟩ := hsound.logged entry hentry
    exact ⟨file, hfile, Nat.lt_succ_of_lt hlt, htarget⟩
  · intro id hanswered
    by_cases heq : id = result.taskId
    · subst heq
      refine ⟨⟨ledger.written, session, result⟩, if_pos rfl, fun task htask => ⟨?_, ?_⟩⟩
      · intro other hother
        exact Option.some.inj (hother.symm.trans (hsession task htask))
      · intro hmem _
        exact absurd (hsound.serial_lt hmem) (by simp)
    · have hbefore : ledger.answered id = true := by
        simpa [Ledger.write, heq] using hanswered
      obtain ⟨file, hfile, hrest⟩ := hsound.answered id hbefore
      exact ⟨file, (if_neg heq).trans hfile, hrest⟩

theorem of_not_restarted {id : String} (hnot : restarted store after id = false) {left : Task}
    (hleft : after.tasks.get? id = some left) : (left.status = .inProgress →
        ∃ task, store.tasks.get? id = some task ∧ task.status = .inProgress) ∧
      ∀ session, sessionOf left = some session →
        ∃ task, store.tasks.get? id = some task ∧ sessionOf task = some session := by
  simp only [restarted, hleft, Option.any_some, Bool.or_eq_false_iff, decide_eq_false_iff_not,
    not_and, not_not, ne_eq] at hnot
  obtain ⟨hstatus, hsession⟩ := hnot
  refine ⟨fun hprogress => ?_, fun session hsome => ?_⟩
  · exact Option.map_eq_some_iff.1 (hstatus hprogress)
  · rw [hsome] at hsession
    exact Option.bind_eq_some_iff.1 (hsession rfl)

/-- The tasks change, and files are consumed.  A task whose file is newly consumed has no session
left, is out of progress, or was started again. -/
theorem Sound.advance (hsound : Sound store ledger) {consumed : List Consumption}
    (hlogged : ∀ entry ∈ consumed, ∃ file, entry.file = some file ∧
      file.serial < ledger.written ∧ entry.target = some file.writer)
    (honce : (serials consumed).Nodup)
    (hspent : ∀ id file, ledger.files id = some file → some file.serial ∈ serials consumed →
      some file.serial ∉ serials ledger.consumed → restarted store after id = false →
      ∀ left, after.tasks.get? id = some left → left.status = .inProgress → sessionOf left = none) :
    Sound after ({ ledger with consumed := consumed }.restart (restarted store after)) := by
  refine ⟨hsound.fresh, hsound.distinct, hlogged, honce, fun id hanswered => ?_⟩
  simp only [Ledger.restart, Bool.and_eq_true, Bool.not_eq_true'] at hanswered
  obtain ⟨hbefore, hnot⟩ := hanswered
  obtain ⟨file, hfile, hrest⟩ := hsound.answered id hbefore
  refine ⟨file, hfile, fun left hleft => ?_⟩
  obtain ⟨hprogress, hsession⟩ := of_not_restarted hnot hleft
  constructor
  · intro session hsome
    obtain ⟨task, htask, hsame⟩ := hsession session hsome
    exact (hrest task htask).1 session hsame
  · intro hmem hleftProgress
    by_cases hold : some file.serial ∈ serials ledger.consumed
    · obtain ⟨task, htask, hstatus⟩ := hprogress hleftProgress
      have hnone := (hrest task htask).2 hold hstatus
      rw [Option.eq_none_iff_forall_ne_some]
      intro session hsome
      obtain ⟨other, hother, hsame⟩ := hsession session hsome
      obtain rfl := Option.some.inj (htask.symm.trans hother)
      simp [hnone] at hsame
    · exact hspent id file hfile hmem hold hnot left hleft hleftProgress

theorem Sound.consume (hsound : Sound store ledger) {task : Task} {file : ResultFile}
    (hfile : ledger.files task.id = some file) (htarget : sessionOf task = some file.writer)
    (hnew : some file.serial ∉ serials ledger.consumed)
    (hspent : restarted store after task.id = false → ∀ left,
      after.tasks.get? task.id = some left → left.status = .inProgress → sessionOf left = none) :
    Sound after ((ledger.consume task).restart (restarted store after)) := by
  have hserials : serials (ledger.consume task).consumed =
      serials ledger.consumed ++ [some file.serial] := by
    simp [serials, Ledger.consume, hfile]
  refine hsound.advance (fun entry hentry => ?_) ?_ fun id other hother hmem hold hnot => ?_
  · rcases List.mem_append.1 hentry with hentry | hentry
    · exact hsound.logged entry hentry
    · obtain rfl := List.mem_singleton.1 hentry
      exact ⟨file, hfile, hsound.fresh _ _ hfile, htarget⟩
  · show (serials (ledger.consume task).consumed).Nodup
    rw [hserials]
    exact hsound.once.append (List.nodup_singleton _) (by simpa using hnew)
  · have hserial : other.serial = file.serial := by
      change some other.serial ∈ serials (ledger.consume task).consumed at hmem
      rw [hserials, List.mem_append] at hmem
      simpa using hmem.resolve_left hold
    obtain rfl := hsound.distinct id task.id other file hother hfile hserial
    exact hspent hnot

theorem Sound.keep (hsound : Sound store ledger) :
    Sound after (ledger.restart (restarted store after)) :=
  hsound.advance hsound.logged hsound.once fun _ _ _ hmem hold => absurd hmem hold

end Ledger

section Steps

variable {audited : AuditedWorld} {step : AuditedOperation} {next : World} {task : Task}

/-- What makes the consumption of a file sound, with the ledger as it is after the step's own
writing. -/
structure SoundConsumption (store after : Store) (ledger : Ledger) (task : Task) : Prop where
  file : ∃ file, ledger.files task.id = some file ∧ sessionOf task = some file.writer ∧
    some file.serial ∉ serials ledger.consumed
  spent : restarted store after task.id = false → ∀ left, after.tasks.get? task.id = some left →
    left.status = .inProgress → sessionOf left = none

theorem file_of_answered {store : Store} {ledger : Ledger} (hsound : Sound store ledger)
    {stored : Task} (hstored : store.tasks.get? task.id = some stored)
    (hstatus : stored.status = .inProgress) (hsame : sessionOf stored = sessionOf task)
    (hanswered : ledger.answered task.id = true) (hsession : (sessionOf task).isSome) :
    ∃ file, ledger.files task.id = some file ∧ sessionOf task = some file.writer ∧
      some file.serial ∉ serials ledger.consumed := by
  obtain ⟨file, hfile, hrest⟩ := hsound.answered task.id hanswered
  obtain ⟨hwriter, hspent⟩ := hrest stored hstored
  obtain ⟨session, hsome⟩ := Option.isSome_iff_exists.1 hsession
  refine ⟨file, hfile, ?_, fun hmem => ?_⟩
  · rw [hsome, hwriter session (hsame.trans hsome)]
  · have hnone := hspent hmem hstatus
    rw [hsame, hsome] at hnone
    cases hnone

theorem spent_of_statusChanged {store after : Store} {id : String}
    (hchanged : statusChanged store after id = true) (hnot : restarted store after id = false)
    {left : Task} (hleft : after.tasks.get? id = some left) : left.status ≠ .inProgress := by
  intro hprogress
  obtain ⟨old, hold, hstatus⟩ := (of_not_restarted hnot hleft).1 hprogress
  simp [statusChanged, hold, hleft, hstatus, hprogress] at hchanged

section

variable (hsound : Sound audited.world.store audited.ledger)
include hsound

theorem soundConsumption_visit {index : Nat} {executor : Option SpawnResult}
    {timestamp session : String}
    (htimely : Timely audited ⟨.visit index executor timestamp, session⟩)
    (hstep : programStep audited.world (.visit index executor timestamp) = some next)
    (hconsumes : consumesResult audited.world next.store (.visit index executor timestamp) = some
      task) : SoundConsumption audited.world.store next.store audited.ledger task := by
  simp only [consumesResult, Option.bind_eq_bind, Option.bind_eq_some_iff,
    Option.ite_none_right_eq_some, Option.some.injEq] at hconsumes
  obtain ⟨visited, hvisited, stored, hstored, runResult, hresult, hcause, rfl⟩ := hconsumes
  simp only [programStep, hvisited, Option.bind_eq_bind, Option.bind_some,
    Option.some.injEq] at hstep
  obtain rfl := hstep
  have hisSome : (audited.world.store.tasks.get? visited.id).isSome := by simp [hstored]
  -- a task with a workflow is acted on only if a hop of it is completed
  have hcompletes : visited.workflow.isSome → completesHop visited runResult timestamp = true := by
    intro hworkflow
    obtain ⟨workflow, hworkflow⟩ := Option.isSome_iff_exists.1 hworkflow
    refine hcause.elim (fun hchanged => ?_) id
    refine (visitSession_workflow_cases executor hisSome hresult hworkflow).resolve_left ?_
    intro hsame
    simp only [hsame, statusChanged_self] at hchanged
    cases hchanged
  have hawaits : Awaits visited := by
    intro workflow hworkflow
    obtain ⟨hopId, result, hcompletion⟩ :=
      (completesHop_iff hworkflow).1 (hcompletes (by simp [hworkflow]))
    simp [hcompletion.dispatched]
  obtain ⟨hprogress, ⟨other, hother, hstatus, hworkflow, hsession⟩, hanswered, hhas, hone, hfresh⟩ :=
    htimely visited hvisited hawaits (by simp [hresult])
  have hsame : sessionOf other = sessionOf visited := sessionOf_congr hworkflow hsession
  refine ⟨file_of_answered hsound hother hstatus hsame hanswered hhas, ?_⟩
  intro hnot left hleft hleftProgress
  cases hcase : visited.workflow with
  | none =>
      have hchanged := hcause.resolve_right (by simp [completesHop, hcase])
      exact absurd hleftProgress (spent_of_statusChanged hchanged hnot hleft)
  | some workflow =>
      obtain ⟨hopId, result, hcompletion⟩ :=
        (completesHop_iff hcase).1 (hcompletes (by simp [hcase]))
      have hended := task_after_visitSession executor hisSome hprogress hresult hcompletion
      obtain rfl := Option.some.inj (hleft.symm.trans hended)
      rw [Option.eq_none_iff_forall_ne_some]
      intro session hsome
      have hexecutor := sessionOf_endedTask executor hone hcompletion hleftProgress hsome
      obtain ⟨old, hold, hkept⟩ := (of_not_restarted hnot hleft).2 session hsome
      obtain rfl := Option.some.inj (hother.symm.trans hold)
      exact hfresh session hexecutor (hsame ▸ hkept)

theorem soundConsumption_staleHeartbeat {taskId session : String} {agent : Option String}
    (htimely : Timely audited ⟨.schedule (.staleHeartbeat taskId agent), session⟩)
    (hstep : programStep audited.world (.schedule (.staleHeartbeat taskId agent)) = some next)
    (hconsumes : consumesResult audited.world next.store (.schedule (.staleHeartbeat taskId
      agent)) = some task) :
    SoundConsumption audited.world.store next.store audited.ledger task := by
  simp only [consumesResult, Option.bind_eq_bind, Option.bind_eq_some_iff,
    Option.ite_none_right_eq_some, Option.some.injEq] at hconsumes
  obtain ⟨stored, hstored, runResult, hresult, hchanged, rfl⟩ := hconsumes
  obtain rfl := Option.some.inj hstep
  obtain rfl := audited.world.store.keyed taskId stored hstored
  have hprogress : stored.status = .inProgress := by
    by_contra hidle
    rw [handleStaleHeartbeat_idle agent hstored hidle, statusChanged_self] at hchanged
    cases hchanged
  obtain ⟨hanswered, hhas⟩ := htimely stored hstored hprogress (by simp [hresult])
  refine ⟨file_of_answered hsound hstored hprogress rfl hanswered hhas, ?_⟩
  exact fun hnot left hleft hleftProgress =>
    absurd hleftProgress (spent_of_statusChanged hchanged hnot hleft)

theorem soundConsumption_report {report : CompletionReport} {session : String}
    (htimely : Timely audited ⟨.report report, session⟩)
    (hstep : programStep audited.world (.report report) = some next)
    (hconsumes : consumesResult audited.world next.store (.report report) = some task) :
    writesResult audited.world.store (.report report) = some report.toResult ∧
      SoundConsumption audited.world.store next.store
        (audited.ledger.write report.toResult session) task := by
  simp only [consumesResult, Option.bind_eq_bind, Option.bind_eq_some_iff,
    Option.ite_none_right_eq_some, Option.some.injEq] at hconsumes
  obtain ⟨stored, hstored, hchanged, rfl⟩ := hconsumes
  obtain rfl := Option.some.inj hstep
  have hid := audited.world.store.keyed report.taskId stored hstored
  have hauthorized : checkAuthorization report.fromAgent stored = true := by
    by_contra hidle
    rw [handleCompletionReport_idle hstored (by simpa using hidle), statusChanged_self] at hchanged
    cases hchanged
  have hwrites : writesResult audited.world.store (.report report) = some report.toResult := by
    simp [writesResult, hstored, hauthorized]
  refine ⟨hwrites, ⟨⟨audited.ledger.written, session, report.toResult⟩, if_pos hid,
    htimely report.toResult hwrites stored hstored, fun hmem => ?_⟩, ?_⟩
  · exact absurd (hsound.serial_lt hmem) (lt_irrefl _)
  · rw [hid]
    exact fun hnot left hleft hleftProgress =>
      absurd hleftProgress (spent_of_statusChanged hchanged hnot hleft)

end

def writtenLedger (audited : AuditedWorld) (step : AuditedOperation) : Ledger :=
  match writesResult audited.world.store step.operation with
  | some result => audited.ledger.write result step.session
  | none => audited.ledger

variable (hsound : Sound audited.world.store audited.ledger) (htimely : Timely audited step)
include hsound htimely

theorem sound_writtenLedger : Sound audited.world.store (writtenLedger audited step) := by
  obtain ⟨operation, session⟩ := step
  unfold writtenLedger
  cases hwrites : writesResult audited.world.store operation with
  | none => exact hsound
  | some result =>
      refine hsound.write result session ?_
      cases operation with
      | report report => exact htimely result hwrites
      | sessionWrites taskId other => exact htimely result hwrites
      | scan | visit | hopTimeout | complete | schedule => cases hwrites

theorem soundConsumption_step (hstep : programStep audited.world step.operation = some next)
    (hconsumes : consumesResult audited.world next.store step.operation = some task) :
    SoundConsumption audited.world.store next.store (writtenLedger audited step) task := by
  obtain ⟨operation, session⟩ := step
  cases operation with
  | visit index executor timestamp =>
      exact soundConsumption_visit hsound htimely hstep hconsumes
  | report report =>
      obtain ⟨hwrites, hconsumption⟩ := soundConsumption_report hsound htimely hstep hconsumes
      simpa only [writtenLedger, hwrites] using hconsumption
  | schedule action =>
      cases action with
      | staleHeartbeat taskId agent =>
          exact soundConsumption_staleHeartbeat hsound htimely hstep hconsumes
      | expireLease | requeue | promote | assign | deadletter | block | runComplete
      | hopDispatch | hopComplete => cases hconsumes
  | scan | hopTimeout | complete | sessionWrites => cases hconsumes

theorem sound_step {after : AuditedWorld} (hstep : auditedStep audited step = some after) :
    Sound after.world.store after.ledger := by
  simp only [auditedStep, Option.bind_eq_bind, Option.bind_eq_some_iff, Option.some.injEq] at hstep
  obtain ⟨next, hnext, rfl⟩ := hstep
  have hwritten := sound_writtenLedger hsound htimely
  cases hconsumes : consumesResult audited.world next.store step.operation with
  | none => exact hwritten.keep
  | some task =>
      obtain ⟨⟨file, hfile, htarget, hnew⟩, hspent⟩ :=
        soundConsumption_step hsound htimely hnext hconsumes
      exact hwritten.consume hfile htarget hnew hspent

end Steps

/-- In every run of timely operations no result is consumed twice, and each for its own run. -/
theorem results_consumed_once {initial : World} {steps : List AuditedOperation}
    {audited : AuditedWorld}
    (hrun : StepSystem.Run auditedStep Timely ⟨initial, Ledger.empty⟩ steps audited) :
    ConsumedOnce audited.ledger.consumed := by
  have hsound := hrun.invariant (fun audited => Sound audited.world.store audited.ledger)
    (fun _ _ _ hsound htimely hstep => sound_step hsound htimely hstep) (sound_empty initial.store)
  refine ⟨hsound.once, fun entry hentry => ?_⟩
  obtain ⟨file, hfile, -, htarget⟩ := hsound.logged entry hentry
  exact ⟨file, hfile, htarget⟩

theorem oneHopInFlight_of_entries {task : Task} {workflow : TaskWorkflow}
    (hworkflow : task.workflow = some workflow)
    (hentries : ∀ entry ∈ workflow.state.hops.entries, ∀ entry' ∈ workflow.state.hops.entries,
      entry.2.status = .dispatched → entry'.2.status = .dispatched → entry.1 = entry'.1) :
    OneHopInFlight task := by
  intro other hother id id' hid hid'
  obtain rfl := Option.some.inj (hworkflow.symm.trans hother)
  obtain ⟨hopState, hget, hstatus⟩ := statusOf_eq_some_iff.1 hid
  obtain ⟨hopState', hget', hstatus'⟩ := statusOf_eq_some_iff.1 hid'
  exact hentries _ (Dict.get?_eq_some_iff.1 hget) _ (Dict.get?_eq_some_iff.1 hget') hstatus hstatus'

section Linear

theorem keyed_empty (id : String) (task : Task)
    (hget : (Dict.empty : Dict String Task).get? id = some task) : task.id = id := by
  simp at hget

def linearWorld : World :=
  { store := Store.put ⟨Dict.empty, Dict.empty, keyed_empty⟩
      { id := "T1"
        status := .inProgress
        workflow := some ⟨linear, initializeWorkflowState linear⟩ }
    scanned := [] }

def implemented : List AuditedOperation :=
  [⟨.schedule (.hopDispatch "T1" "implement" (.success "s1") "t1"), ""⟩,
    ⟨.sessionWrites "T1" ⟨"T1", "swe", .done, ""⟩, "s1"⟩, ⟨.scan, ""⟩,
    ⟨.visit 0 (some (.success "s2")) "t2", ""⟩]

theorem implemented_timely : ∃ audited, StepSystem.Run auditedStep Timely
    ⟨linearWorld, Ledger.empty⟩ implemented audited ∧ audited.ledger.consumed.length = 1 := by
  refine ⟨_, .head ?_ rfl (.head ?_ rfl (.head ?_ rfl (.head ?_ rfl (.refl _)))), ?_⟩
  · intro _ hwrites
    cases hwrites
  · intro _ hwrites task htask
    cases hwrites
    cases htask
    rfl
  · intro _ hwrites
    cases hwrites
  · intro task htask _ _
    cases htask
    refine ⟨rfl, ⟨_, rfl, rfl, rfl, rfl⟩, rfl, rfl, oneHopInFlight_of_entries rfl (by decide), ?_⟩
    rintro session ⟨⟩
    decide
  · decide

theorem implemented_consumed_once : ∃ audited, StepSystem.Run auditedStep Timely
    ⟨linearWorld, Ledger.empty⟩ implemented audited ∧ audited.ledger.consumed.length = 1 ∧
    ConsumedOnce audited.ledger.consumed := by
  obtain ⟨audited, hrun, hlength⟩ := implemented_timely
  exact ⟨audited, hrun, hlength, results_consumed_once hrun⟩

def unreported : List AuditedOperation := [⟨.scan, ""⟩, ⟨.visit 0 none "t3", ""⟩]

theorem result_consumed_twice : ¬∀ (initial : World), initial.scanned = [] →
    ∀ steps audited, StepSystem.FreeRun auditedStep ⟨initial, Ledger.empty⟩ steps audited →
      ConsumedOnce audited.ledger.consumed := by
  intro hall
  obtain ⟨audited, hexec, htwice⟩ : ∃ audited,
      StepSystem.exec auditedStep ⟨linearWorld, Ledger.empty⟩ (implemented ++ unreported) =
        some audited ∧
      ¬(audited.ledger.consumed.map fun entry => entry.file.map ResultFile.serial).Nodup := by
    refine ⟨_, rfl, ?_⟩
    decide
  exact htwice (hall linearWorld rfl _ audited (StepSystem.freeRun_iff_exec.2 hexec)).once

end Linear

end Aof
