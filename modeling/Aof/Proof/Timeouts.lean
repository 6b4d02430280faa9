import Aof.Dispatch.Escalation
import Aof.Proof.PollRun
import Aof.Proof.Validation

/-!
# Timeouts of accepted definitions

The validator and the parser of durations accept the same numerals with a unit and differ on zero:
the parser has no duration for it, so the check passes the hop over.
-/

namespace Aof

section Durations

variable {duration : String} {digits : List Char} {unit : TimeUnit}

theorem durationMatch_of_isTimeout (hduration : IsTimeout duration digits unit) :
    durationMatch duration = some (digits, unit.letter) := by
  obtain ⟨htext, hne, hdigits⟩ := hduration
  have hreverse : duration.toList.reverse = unit.letter :: digits.reverse := by
    rw [htext, List.reverse_append, List.reverse_singleton, List.singleton_append]
  have hunit : unit.letter = 'm' ∨ unit.letter = 'h' ∨ unit.letter = 'd' := by
    cases unit with
    | minutes => exact .inl rfl
    | hours => exact .inr (.inl rfl)
    | days => exact .inr (.inr rfl)
  have hall : digits.reverse.all Char.isDigit := by
    rw [List.all_reverse, List.all_eq_true]
    exact hdigits
  have hnonempty : digits.reverse ≠ [] := by
    rw [ne_eq, List.reverse_eq_nil_iff]
    exact hne
  unfold durationMatch
  rw [hreverse]
  dsimp only
  rw [if_pos ⟨hunit, hnonempty, hall⟩, List.reverse_reverse]

theorem parseDuration_of_isTimeout (hduration : IsTimeout duration digits unit) :
    parseDuration duration =
      if 0 < parseNumeral digits then some (parseNumeral digits * unit.milliseconds) else none := by
  unfold parseDuration
  rw [durationMatch_of_isTimeout hduration]
  by_cases hpos : 0 < parseNumeral digits
  · have hnot : ¬parseNumeral digits ≤ 0 := Nat.not_le.mpr hpos
    dsimp only
    rw [if_pos hpos, if_neg hnot]
    cases unit with
    | minutes => simp [TimeUnit.letter, TimeUnit.milliseconds, Nat.mul_assoc]
    | hours => simp [TimeUnit.letter, TimeUnit.milliseconds, Nat.mul_assoc]
    | days => simp [TimeUnit.letter, TimeUnit.milliseconds, Nat.mul_assoc]
  · dsimp only
    rw [if_neg hpos, if_pos (Nat.not_lt.mp hpos)]

end Durations

section OneTask

variable {clock : Clock} {input : PollInput} {task changed : Task} {hop : Hop}

structure KeepsOtherHops (hopId : String) (task changed : Task) : Prop where
  id : changed.id = task.id
  workflow : changed.workflow.isSome = task.workflow.isSome
  entries : ∀ other, other ≠ hopId → changed.hopState other = task.hopState other

theorem KeepsOtherHops.refl (hopId : String) (task : Task) : KeepsOtherHops hopId task task :=
  ⟨rfl, rfl, fun _ _ => rfl⟩

def alertsFor (clock : Clock) (task : Task) (hop : Hop) : List TimeoutAlert :=
  ((overdue clock task hop).map (timeoutAlert task hop)).toList

theorem alertsFor_congr (hid : changed.id = task.id)
    (hentry : changed.hopState hop.id = task.hopState hop.id) :
    alertsFor clock changed hop = alertsFor clock task hop := by
  unfold alertsFor overdue timeoutAlert
  rw [hid, hentry]

theorem mem_alertsFor {alert : TimeoutAlert} (halert : alert ∈ alertsFor clock task hop) :
    alert.taskId = task.id ∧ alert.hopId = hop.id := by
  obtain ⟨elapsed, -, rfl⟩ := Option.map_eq_some_iff.mp (Option.mem_toList.mp halert)
  exact ⟨rfl, rfl⟩

theorem checkHopTimeout_keeps (input : PollInput) (hop : Hop) (hworkflow : task.workflow.isSome)
    (store : Store) : ∃ changed t, (checkHopTimeout input task hop).run store = (some changed, t) ∧
        KeepsOtherHops hop.id task changed := by
  unfold checkHopTimeout
  split
  swap
  · exact ⟨task, store, rfl, .refl hop.id task⟩
  unfold escalateHopTimeout
  obtain ⟨workflow, hsome⟩ := Option.isSome_iff_exists.mp hworkflow
  rw [hsome]
  dsimp only
  split
  · split
    · exact ⟨task, store, rfl, .refl hop.id task⟩
    · refine ⟨_, _, rfl, rfl, withWorkflowState_isSome task _, ?_⟩
      intro other hother
      unfold Task.hopState
      rw [withWorkflowState_workflow hsome, hsome]
      exact Dict.get?_set_of_ne _ _ hother.symm
  · exact ⟨task, store, rfl, .refl hop.id task⟩

theorem reportHopTimeout_run (clock : Clock) (input : PollInput) (alerts : List TimeoutAlert)
    (hop : Hop) (hworkflow : task.workflow.isSome) (store : Store) : ∃ changed t,
      (reportHopTimeout clock input ⟨task, alerts⟩ hop).run store =
          (some ⟨changed, alerts ++ alertsFor clock task hop⟩, t) ∧
        KeepsOtherHops hop.id task changed := by
  unfold reportHopTimeout alertsFor
  dsimp only
  cases hoverdue : overdue clock task hop with
  | none =>
      refine ⟨task, store, ?_, .refl hop.id task⟩
      rw [Option.map_none, Option.toList_none, List.append_nil]
      rfl
  | some elapsed =>
      obtain ⟨changed, t, hrun, hkeeps⟩ :=
        checkHopTimeout_keeps { input with hopTimedOut := fun _ _ => true } hop hworkflow store
      refine ⟨changed, t, ?_, hkeeps⟩
      dsimp only
      rw [Command.run_bind_of_some hrun]
      rfl

theorem foldlM_reportHopTimeout (clock : Clock) (input : PollInput) (hops : List Hop)
    (alerts : List TimeoutAlert) (hworkflow : task.workflow.isSome) (store : Store) :
    ∃ scan t added,
      (hops.foldlM (reportHopTimeout clock input) ⟨task, alerts⟩).run store = (some scan, t) ∧
        scan.alerts = alerts ++ added ∧ (∀ alert ∈ added, alert.taskId = task.id) ∧
        ((hops.map Hop.id).Nodup → added = hops.flatMap (alertsFor clock task)) := by
  induction hops generalizing task alerts store with
  | nil => exact ⟨_, store, [], rfl, (List.append_nil _).symm, by simp, fun _ => rfl⟩
  | cons hop rest ih =>
      obtain ⟨changed, s, hrun, hkeeps⟩ :=
        reportHopTimeout_run clock input alerts hop hworkflow store
      have hsome : changed.workflow.isSome := hkeeps.workflow.trans hworkflow
      obtain ⟨scan, t, added, hrest, halerts, htask, hexact⟩ :=
        ih (alerts ++ alertsFor clock task hop) hsome s
      refine ⟨scan, t, alertsFor clock task hop ++ added, ?_, ?_, ?_, ?_⟩
      · rw [List.foldlM_cons, Command.run_bind_of_some hrun]
        exact hrest
      · rw [halerts, List.append_assoc]
      · intro alert halert
        cases List.mem_append.mp halert with
        | inl hfirst => exact (mem_alertsFor hfirst).1
        | inr hlater => exact (htask alert hlater).trans hkeeps.id
      · intro hnodup
        rw [List.map_cons, List.nodup_cons] at hnodup
        rw [List.flatMap_cons, hexact hnodup.2]
        congr 1
        apply List.flatMap_congr
        intro other hother
        apply alertsFor_congr hkeeps.id
        apply hkeeps.entries
        intro heq
        exact hnodup.1 (heq ▸ List.mem_map_of_mem hother)

def taskAlerts (clock : Clock) (task : Task) : List TimeoutAlert :=
  ((task.workflow.map fun workflow => workflow.definition.hops).getD []).flatMap
    (alertsFor clock task)

theorem reportTaskTimeouts_run (clock : Clock) (input : PollInput) (alerts : List TimeoutAlert)
    (task : Task) (store : Store) : ∃ t added,
      (reportTaskTimeouts clock input alerts task).run store = (some (alerts ++ added), t) ∧
        (∀ alert ∈ added, alert.taskId = task.id) ∧
        ((∀ workflow, task.workflow = some workflow → DistinctIds workflow.definition) →
          added = taskAlerts clock task) := by
  unfold reportTaskTimeouts taskAlerts
  cases hworkflow : task.workflow with
  | none =>
      refine ⟨store, [], ?_, by simp, fun _ => rfl⟩
      rw [List.append_nil]
      rfl
  | some workflow =>
      have hsome : task.workflow.isSome := by rw [hworkflow, Option.isSome_some]
      obtain ⟨scan, t, added, hrun, halerts, htask, hexact⟩ :=
        foldlM_reportHopTimeout clock input workflow.definition.hops alerts hsome store
      refine ⟨t, added, ?_, htask, fun hids => hexact (hids workflow rfl)⟩
      dsimp only [Option.map_some, Option.getD_some]
      rw [Command.run_bind_of_some hrun, halerts]
      rfl

end OneTask

section AllTasks

variable {clock : Clock} {input : PollInput} {task : Task}

theorem foldlM_reportTaskTimeouts (clock : Clock) (input : PollInput) (tasks : List Task)
    (alerts : List TimeoutAlert) (hnodup : (tasks.map Task.id).Nodup) (store : Store) : ∃ t added,
      (tasks.foldlM (reportTaskTimeouts clock input) alerts).run store =
          (some (alerts ++ added), t) ∧ (∀ alert ∈ added, alert.taskId ∈ tasks.map Task.id) ∧
        ∀ task ∈ tasks,
          (∀ workflow, task.workflow = some workflow → DistinctIds workflow.definition) →
          ∀ alert, alert.taskId = task.id → (alert ∈ added ↔ alert ∈ taskAlerts clock task) := by
  induction tasks generalizing alerts store with
  | nil =>
      refine ⟨store, [], ?_, by simp, by simp⟩
      rw [List.append_nil]
      rfl
  | cons first rest ih =>
      rw [List.map_cons, List.nodup_cons] at hnodup
      obtain ⟨s, own, hrun, hown, hexact⟩ := reportTaskTimeouts_run clock input alerts first store
      obtain ⟨t, later, hrest, hlater, hothers⟩ := ih (alerts ++ own) hnodup.2 s
      refine ⟨t, own ++ later, ?_, ?_, ?_⟩
      · rw [List.foldlM_cons, Command.run_bind_of_some hrun, hrest, List.append_assoc]
      · intro alert halert
        cases List.mem_append.mp halert with
        | inl hfirst => exact hown alert hfirst ▸ List.mem_cons_self
        | inr hafter => exact List.mem_cons_of_mem _ (hlater alert hafter)
      · intro task htask hids alert halert
        rw [List.mem_append]
        cases List.mem_cons.mp htask with
        | inl hfirst =>
            subst hfirst
            have hnot : alert ∉ later := by
              intro hmem
              exact hnodup.1 (halert ▸ hlater alert hmem)
            rw [hexact hids, or_iff_left hnot]
        | inr hafter =>
            have hnot : alert ∉ own := by
              intro hmem
              have hsame : task.id = first.id := halert.symm.trans (hown alert hmem)
              exact hnodup.1 (hsame ▸ List.mem_map_of_mem hafter)
            rw [hothers task hafter hids alert halert, or_iff_right hnot]

def ReportsTimeout (clock : Clock) (input : PollInput) (store : Store) (taskId hopId : String) :
    Prop :=
  ∃ alerts t, (reportHopTimeouts clock input).run store = (some alerts, t) ∧
    ∃ alert ∈ alerts, alert.taskId = taskId ∧ alert.hopId = hopId

theorem exists_mem_taskAlerts {workflow : TaskWorkflow} {hop : Hop}
    (hworkflow : task.workflow = some workflow) (hids : DistinctIds workflow.definition)
    (hhop : hop ∈ workflow.definition.hops) :
    (∃ alert ∈ taskAlerts clock task, alert.hopId = hop.id) ↔ (overdue clock task hop).isSome := by
  unfold taskAlerts
  rw [hworkflow, Option.map_some, Option.getD_some]
  constructor
  · intro hreported
    obtain ⟨alert, halert, hid⟩ := hreported
    obtain ⟨other, hother, hown⟩ := List.mem_flatMap.mp halert
    have hsame : other = hop := hids.eq_of_id_eq hother hhop ((mem_alertsFor hown).2.symm.trans hid)
    subst hsame
    obtain ⟨elapsed, helapsed, -⟩ := Option.map_eq_some_iff.mp (Option.mem_toList.mp hown)
    rw [helapsed, Option.isSome_some]
  · intro hoverdue
    obtain ⟨elapsed, helapsed⟩ := Option.isSome_iff_exists.mp hoverdue
    refine ⟨timeoutAlert task hop elapsed, ?_, rfl⟩
    apply List.mem_flatMap_of_mem hhop
    unfold alertsFor
    rw [helapsed, Option.map_some, Option.toList_some]
    exact List.mem_singleton_self _

theorem reportsTimeout_iff {store : Store} {workflow : TaskWorkflow} {hop : Hop}
    (htask : store.tasks.get? task.id = some task) (hactive : task.status = .inProgress)
    (hworkflow : task.workflow = some workflow) (hids : DistinctIds workflow.definition)
    (hhop : hop ∈ workflow.definition.hops) :
    ReportsTimeout clock input store task.id hop.id ↔ (overdue clock task hop).isSome := by
  have hscanned : task ∈ withStatus .inProgress store.tasks.values :=
    mem_withStatus.mpr ⟨mem_list_iff.mpr htask, hactive⟩
  obtain ⟨t, added, hrun, -, hexact⟩ := foldlM_reportTaskTimeouts clock input
    (withStatus .inProgress store.tasks.values) [] (withStatus_stored store .inProgress).1 store
  have hreturns : (reportHopTimeouts clock input).run store = (some added, t) := hrun
  have hown : ∀ alert, alert.taskId = task.id →
      (alert ∈ added ↔ alert ∈ taskAlerts clock task) := by
    apply hexact task hscanned
    intro other hother
    rw [hworkflow] at hother
    exact Option.some.inj hother ▸ hids
  rw [← exists_mem_taskAlerts hworkflow hids hhop]
  constructor
  · intro hreported
    obtain ⟨alerts, s, hresult, alert, halert, htaskId, hhopId⟩ := hreported
    rw [hreturns] at hresult
    cases hresult
    exact ⟨alert, (hown alert htaskId).mp halert, hhopId⟩
  · intro hreported
    obtain ⟨alert, halert, hhopId⟩ := hreported
    obtain ⟨other, -, hmem⟩ := List.mem_flatMap.mp halert
    have htaskId := (mem_alertsFor hmem).1
    exact ⟨added, t, hreturns, alert, (hown alert htaskId).mpr halert, htaskId, hhopId⟩

end AllTasks

section Accepted

variable {store : Store} {task : Task} {workflow : TaskWorkflow} {hop : Hop} {hopState : HopState}
variable {timeout : String} {start : Int}

theorem overdue_iff {clock : Clock} {digits : List Char} {unit : TimeUnit}
    (hworkflow : task.workflow = some workflow) (htimeout : hop.timeout = some timeout)
    (hentry : workflow.state.hops.get? hop.id = some hopState)
    (hdispatched : hopState.status = .dispatched) (hstart : startTime clock hopState = some start)
    (hduration : IsTimeout timeout digits unit) : (overdue clock task hop).isSome ↔
      0 < parseNumeral digits ∧
        ((parseNumeral digits * unit.milliseconds : Nat) : Int) < clock.now - start := by
  have hstate : task.hopState hop.id = some hopState := by
    unfold Task.hopState
    rw [hworkflow, Option.bind_some, hentry]
  have htruthy : truthy hop.timeout = some timeout := by
    have hne : timeout ≠ "" := by
      intro hempty
      have htext := hduration.1
      rw [hempty] at htext
      simp at htext
    rw [htimeout, truthy, Option.filter_some, if_pos (by simpa using hne)]
  unfold overdue
  rw [hstate]
  dsimp only
  rw [if_neg (by simp [hdispatched]), htruthy, hstart]
  dsimp only
  rw [parseDuration_of_isTimeout hduration]
  by_cases hpos : 0 < parseNumeral digits
  · rw [if_pos hpos]
    dsimp only
    by_cases hlate : ((parseNumeral digits * unit.milliseconds : Nat) : Int) < clock.now - start
    · rw [if_pos hlate]
      exact iff_of_true rfl ⟨hpos, hlate⟩
    · rw [if_neg hlate]
      exact iff_of_false Bool.false_ne_true fun hboth => hlate hboth.2
  · rw [if_neg hpos]
    exact iff_of_false Bool.false_ne_true fun hboth => hpos hboth.1

/-- Every accepted timeout denotes a duration, and a dispatched hop is reported exactly when the
duration has passed, if and only if the number is not zero or no time has passed. -/
theorem timeout_enforced_iff (clock : Clock) (input : PollInput)
    (htask : store.tasks.get? task.id = some task) (hactive : task.status = .inProgress)
    (hworkflow : task.workflow = some workflow)
    (haccepted : validateDAG workflow.definition = []) (hhop : hop ∈ workflow.definition.hops)
    (htimeout : hop.timeout = some timeout)
    (hentry : workflow.state.hops.get? hop.id = some hopState)
    (hdispatched : hopState.status = .dispatched) (hstart : startTime clock hopState = some start) :
    ∃ digits unit, IsTimeout timeout digits unit ∧
      ((ReportsTimeout clock input store task.id hop.id ↔
          ((parseNumeral digits * unit.milliseconds : Nat) : Int) < clock.now - start) ↔
        0 < parseNumeral digits ∨ clock.now ≤ start) := by
  have hvalid := validDefinition_of_validateDAG haccepted
  obtain ⟨digits, unit, hduration⟩ := (hvalid.fields hop hhop).timeout timeout htimeout
  refine ⟨digits, unit, hduration, ?_⟩
  rw [reportsTimeout_iff htask hactive hworkflow hvalid.ids hhop,
    overdue_iff hworkflow htimeout hentry hdispatched hstart hduration]
  by_cases hpos : 0 < parseNumeral digits
  · simp [hpos]
  · have hzero : parseNumeral digits = 0 := by omega
    rw [hzero, Nat.zero_mul, Nat.cast_zero]
    constructor
    · intro hagree
      have hnot : ¬0 < clock.now - start := fun hlate => absurd (hagree.mpr hlate).1 (lt_irrefl 0)
      exact .inr (by omega)
    · intro hcondition
      constructor
      · intro hreported
        exact absurd hreported.1 (lt_irrefl 0)
      · intro hlate
        omega

end Accepted

def timedDefinition (timeout : String) : WorkflowDefinition :=
  ⟨"timed", [{ id := "build", role := "swe", timeout := some timeout }]⟩

def startedHop : HopState := { status := .dispatched, startedAt := some "t0" }

def timedTask (timeout : String) : Task where
  id := "TASK-1"
  status := .inProgress
  workflow := some
    { definition := timedDefinition timeout
      state := { status := .running, hops := Dict.empty.set "build" startedHop } }

def oneHourLater : Clock where
  now := 3600000
  dateMs _ := some 0

theorem half_hour_enforced : ∃ digits unit, IsTimeout "30m" digits unit ∧
    ((ReportsTimeout oneHourLater { config := {} } (Store.ofTasks [timedTask "30m"]) "TASK-1"
          "build" ↔ ((parseNumeral digits * unit.milliseconds : Nat) : Int) < 3600000 - 0) ↔
      0 < parseNumeral digits ∨ (3600000 : Int) ≤ 0) := by
  have htask : (Store.ofTasks [timedTask "30m"]).tasks.get? (timedTask "30m").id =
      some (timedTask "30m") := rfl
  exact timeout_enforced_iff oneHourLater { config := {} } htask rfl rfl (by decide +kernel)
    List.mem_cons_self rfl rfl rfl rfl

/-- No minutes have passed after an hour, as far as the check can tell. -/
theorem zero_minutes_ignored : ¬∀ (clock : Clock) (input : PollInput) (store : Store) (task : Task)
    (workflow : TaskWorkflow) (hop : Hop) (hopState : HopState) (timeout : String) (start : Int)
    (digits : List Char) (unit : TimeUnit), store.tasks.get? task.id = some task →
    task.status = .inProgress → task.workflow = some workflow →
    validateDAG workflow.definition = [] → hop ∈ workflow.definition.hops →
    hop.timeout = some timeout → workflow.state.hops.get? hop.id = some hopState →
    hopState.status = .dispatched → startTime clock hopState = some start →
    IsTimeout timeout digits unit → (ReportsTimeout clock input store task.id hop.id ↔
      ((parseNumeral digits * unit.milliseconds : Nat) : Int) < clock.now - start) := by
  intro hall
  have hduration : IsTimeout "0m" ['0'] .minutes := by
    refine ⟨rfl, by decide, ?_⟩
    intro c hc
    rw [List.mem_singleton.mp hc]
    rfl
  have hworkflow : (timedTask "0m").workflow = some
      { definition := timedDefinition "0m"
        state := { status := .running, hops := Dict.empty.set "build" startedHop } } := rfl
  have haccepted : validateDAG (timedDefinition "0m") = [] := by decide +kernel
  have hagree := hall oneHourLater { config := {} } (Store.ofTasks [timedTask "0m"])
    (timedTask "0m") _ _ startedHop "0m" 0 ['0'] .minutes rfl rfl hworkflow haccepted
    List.mem_cons_self rfl rfl rfl rfl hduration
  have hreported := (reportsTimeout_iff rfl rfl hworkflow
    (validDefinition_of_validateDAG haccepted).ids List.mem_cons_self).mp (hagree.mpr (by decide))
  have hentry : (Dict.empty.set "build" startedHop).get? "build" = some startedHop := rfl
  have hpositive := (overdue_iff hworkflow rfl hentry rfl rfl hduration).mp hreported
  exact absurd hpositive.1 (by decide)

end Aof
