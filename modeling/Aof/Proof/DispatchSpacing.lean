import Aof.Dispatch.Scheduler
import Aof.Proof.PlanSafety

/-!
# The time between dispatches

A plan checks the intervals against the dispatches of earlier polls, for all its assignments at
once.  So dispatches of different polls are apart, and those of one poll need not be.
-/

namespace Aof

namespace DispatchPolicy

def interval (policy : DispatchPolicy) : Nat := policy.config.minDispatchIntervalMs.getD 0

def teamInterval (policy : DispatchPolicy) (team : String) : Nat :=
  (((teamConfigMap policy.teams).get? team).bind TeamDispatchConfig.minIntervalMs).getD 0

/-- The two dispatches keep the interval between dispatches and that of their team. -/
def Apart (policy : DispatchPolicy) (later earlier : Dispatch) : Prop :=
  earlier.time + policy.interval ≤ later.time ∧
    ∀ team, truthy later.team = some team → truthy earlier.team = some team →
      earlier.time + policy.teamInterval team ≤ later.time

def Spaced (policy : DispatchPolicy) (state : DispatchState) : Prop :=
  (state.current ++ state.earlier).Pairwise policy.Apart

/-- A session starts for the first time in its poll, or for the first time for a team with an
interval, which was its team when the poll planned it; and when the dispatch is recorded the task is
still there, with this team. -/
def Unhurried (policy : DispatchPolicy) (state : DispatchState) : DispatchMove → Prop
  | .answer (some (.success _)) =>
      match state.stage with
      | .spawning taskId _ team =>
          (0 < policy.interval → state.current = []) ∧
            ∀ name, truthy team = some name → 0 < policy.teamInterval name →
              (∀ dispatch ∈ state.current, truthy dispatch.team ≠ some name) ∧
              ∀ task ∈ state.readyTasks, task.id = taskId → truthy task.routing.team = some name
      | _ => True
  | .record =>
      match state.stage with
      | .recording taskId _ _ team =>
          (0 < policy.interval → (state.store.tasks.get? taskId).isSome) ∧
            ∀ name, truthy team = some name → 0 < policy.teamInterval name →
              ∃ task, state.store.tasks.get? taskId = some task ∧
                truthy task.routing.team = some name
      | _ => True
  | _ => True

end DispatchPolicy

section Plan

variable {env : DispatchEnv} {readyTasks allTasks : List Task} {plan : DispatchPlan}

def Allowed (env : DispatchEnv) (task : Task) : Prop :=
  ∃ plan, (checkThrottle env.throttle env.now (throttleParams env plan task)).allowed = true

theorem allowed_planReady {tasks : List Task} {id : String} (hsubset : tasks ⊆ readyTasks)
    (hplan : ∀ id ∈ assigned plan.actions, ∃ task ∈ readyTasks, task.id = id ∧ Allowed env task)
    (hid : id ∈ assigned (planReady env allTasks plan tasks).actions) :
    ∃ task ∈ readyTasks, task.id = id ∧ Allowed env task := by
  induction tasks generalizing plan with
  | nil => exact hplan id hid
  | cons task rest ih =>
      have htask : task ∈ readyTasks := hsubset List.mem_cons_self
      have hrest : rest ⊆ readyTasks := fun other hother => hsubset (List.mem_cons_of_mem _ hother)
      cases hvisit : visitReady env allTasks plan task with
      | mk next goesOn =>
          have hnext : ∀ id ∈ assigned next.actions,
              ∃ task ∈ readyTasks, task.id = id ∧ Allowed env task := by
            intro other hother
            cases visitReady_cases hvisit with
            | inl hassigns =>
                obtain ⟨target, rfl, -, hallowed⟩ := hassigns
                simp only [DispatchPlan.assign] at hother
                rw [assigned_append, List.mem_append] at hother
                cases hother with
                | inl hold => exact hplan other hold
                | inr hnew =>
                    have hsame : other = task.id := by simpa [assigned] using hnew
                    exact ⟨task, htask, hsame.symm, plan, hallowed⟩
            | inr hkeeps => exact hplan other (hkeeps.1 ▸ hother)
          unfold planReady at hid
          rw [hvisit] at hid
          cases goesOn with
          | true => exact ih hrest hnext hid
          | false => exact hnext id hid

/-- Every assignment of a plan is one of a ready task that the throttle has allowed. -/
theorem allowed_of_assigned {action : PlannedAction}
    (haction : action ∈ buildDispatchActions env readyTasks allTasks)
    (htype : action.type = .assign) :
    ∃ task ∈ readyTasks, task.id = action.taskId ∧ Allowed env task := by
  cases List.mem_append.mp haction with
  | inl hplanned =>
      have hstart : ∀ id ∈ assigned (initialPlan env.metrics).actions,
          ∃ task ∈ readyTasks, task.id = id ∧ Allowed env task := by
        intro id hid
        cases hid
      apply allowed_planReady (List.Subset.refl readyTasks) hstart
      exact List.mem_map_of_mem (List.mem_filter.mpr ⟨hplanned, by simpa using htype⟩)
  | inr hparent =>
      obtain ⟨parent, -, rfl⟩ := List.mem_map.mp hparent
      cases htype

variable {name : String} {task : Task}

theorem checkElapsed_eq_none {now last interval : Nat}
    (hnone : ThrottleCheckParams.checkElapsed name now last interval = none)
    (hinterval : 0 < interval) (hlast : 0 < last) : last + interval ≤ now := by
  unfold ThrottleCheckParams.checkElapsed at hnone
  dsimp only at hnone
  split at hnone
  · cases hnone
  · rename_i hlate
    omega

theorem Allowed.interval (hallowed : Allowed env task)
    (hinterval : 0 < env.config.minDispatchIntervalMs.getD 0)
    (hlast : 0 < env.throttle.lastDispatchAt) :
    env.throttle.lastDispatchAt + env.config.minDispatchIntervalMs.getD 0 ≤ env.now := by
  obtain ⟨plan, hcheck⟩ := hallowed
  have hnone := (checkThrottle_allowed_iff.mp hcheck).2.2.1
  cases hconfig : env.config.minDispatchIntervalMs with
  | none =>
      rw [hconfig] at hinterval
      cases hinterval
  | some interval =>
      rw [hconfig, Option.getD_some] at hinterval
      have hparam : (throttleParams env plan task).minDispatchIntervalMs = some interval := by
        simp [throttleParams, hconfig, hinterval]
      unfold ThrottleCheckParams.checkInterval at hnone
      rw [hparam] at hnone
      exact checkElapsed_eq_none hnone hinterval hlast

theorem Allowed.teamInterval (hallowed : Allowed env task)
    (hteam : truthy task.routing.team = some name)
    (hinterval : 0 < (((teamConfigMap env.teams).get? name).bind
      TeamDispatchConfig.minIntervalMs).getD 0)
    (hlast : 0 < (env.throttle.lastDispatchByTeam.get? name).getD 0) :
    (env.throttle.lastDispatchByTeam.get? name).getD 0 +
      (((teamConfigMap env.teams).get? name).bind TeamDispatchConfig.minIntervalMs).getD 0 ≤
        env.now := by
  obtain ⟨plan, hcheck⟩ := hallowed
  have hnone := (checkThrottle_allowed_iff.mp hcheck).2.2.2.1
  cases hconfig : ((teamConfigMap env.teams).get? name).bind TeamDispatchConfig.minIntervalMs with
  | none =>
      rw [hconfig] at hinterval
      cases hinterval
  | some interval =>
      rw [hconfig, Option.getD_some] at hinterval
      have hparam : (throttleParams env plan task).teamMinIntervalMs = some interval := by
        simp [throttleParams, hteam, hconfig]
      have hname : truthy (throttleParams env plan task).team = some name := hteam
      unfold ThrottleCheckParams.checkTeamInterval at hnone
      rw [hname, hparam] at hnone
      exact checkElapsed_eq_none hnone hinterval hlast

end Plan

namespace DispatchState

/-- The dispatches that the throttle state accounts for: all but one that is not yet recorded. -/
def recorded (state : DispatchState) : List Dispatch :=
  match state.stage with
  | .recording .. => state.current.tail ++ state.earlier
  | _ => state.current ++ state.earlier

def Open (state : DispatchState) (taskId : String) : Prop :=
  (∃ action ∈ state.plan, action.taskId = taskId) ∨
    ∃ agent team, state.stage = .spawning taskId agent team

end DispatchState

/-- The time of a dispatch for the task is far enough from the dispatches of earlier polls. -/
def Cleared (policy : DispatchPolicy) (state : DispatchState) (taskId : String) : Prop :=
  (∀ dispatch ∈ state.earlier, dispatch.time + policy.interval ≤ state.clock) ∧
    ∃ task ∈ state.readyTasks, task.id = taskId ∧
      ∀ name, truthy task.routing.team = some name → ∀ dispatch ∈ state.earlier,
        truthy dispatch.team = some name → dispatch.time + policy.teamInterval name ≤ state.clock

structure Steady (policy : DispatchPolicy) (state : DispatchState) : Prop where
  spaced : policy.Spaced state
  past : ∀ dispatch ∈ state.current ++ state.earlier, 0 < dispatch.time ∧
    dispatch.time ≤ state.clock
  running : 0 < state.clock
  last : 0 < policy.interval → ∀ dispatch ∈ state.recorded,
    dispatch.time ≤ state.throttle.lastDispatchAt
  lastOfTeam : ∀ name, 0 < policy.teamInterval name → ∀ dispatch ∈ state.recorded,
    truthy dispatch.team = some name →
      dispatch.time ≤ (state.throttle.lastDispatchByTeam.get? name).getD 0
  recording : ∀ taskId agent sessionId team, state.stage = .recording taskId agent sessionId team →
    ∃ dispatch rest, state.current = dispatch :: rest ∧ dispatch.team = team
  cleared : ∀ taskId, state.Open taskId → Cleared policy state taskId

section Steps

variable {policy : DispatchPolicy} {state next : DispatchState}

variable {taskId agent : String} {readyTasks allTasks : List Task} {metrics : DispatchMetrics}
  {team : Option String}

theorem Cleared.wait (hcleared : Cleared policy state taskId) (ms : Nat) :
    Cleared policy { state with clock := state.clock + ms } taskId := by
  obtain ⟨hall, task, htask, hid, hteam⟩ := hcleared
  refine ⟨fun dispatch hdispatch => ?_, task, htask, hid, fun name hname dispatch hmem hsame => ?_⟩
  · exact (hall dispatch hdispatch).trans (Nat.le_add_right _ ms)
  · exact (hteam name hname dispatch hmem hsame).trans (Nat.le_add_right _ ms)

section

variable (hsteady : Steady policy state)
include hsteady

theorem Steady.wait (ms : Nat) :
    Steady policy { state with clock := state.clock + ms } where
  spaced := hsteady.spaced
  past dispatch hdispatch := by
    obtain ⟨hpos, hle⟩ := hsteady.past dispatch hdispatch
    exact ⟨hpos, hle.trans (Nat.le_add_right _ ms)⟩
  running := Nat.add_pos_left hsteady.running ms
  last := hsteady.last
  lastOfTeam := hsteady.lastOfTeam
  recording := hsteady.recording
  cleared taskId hopen := (hsteady.cleared taskId hopen).wait ms

theorem Steady.write (store : Store) : Steady policy { state with store } :=
  { hsteady with }

/-- A plan is made of tasks that are far enough from all dispatches so far. -/
theorem Steady.cleared_planned (hidle : state.stage = .idle) {action : PlannedAction}
    (haction : action ∈ policy.planned state readyTasks allTasks metrics) :
    (∀ dispatch ∈ state.current ++ state.earlier, dispatch.time + policy.interval ≤ state.clock) ∧
    ∃ task ∈ readyTasks, task.id = action.taskId ∧
      ∀ name, truthy task.routing.team = some name → ∀ dispatch ∈ state.current ++ state.earlier,
        truthy dispatch.team = some name →
          dispatch.time + policy.teamInterval name ≤ state.clock := by
  obtain ⟨hmem, htype⟩ := List.mem_filter.mp haction
  obtain ⟨task, htask, hid, hallowed⟩ := allowed_of_assigned hmem (by simpa using htype)
  have hrecorded : state.recorded = state.current ++ state.earlier := by
    unfold DispatchState.recorded
    rw [hidle]
  refine ⟨fun dispatch hdispatch => ?_, task, htask, hid, ?_⟩
  · obtain ⟨hpos, hle⟩ := hsteady.past dispatch hdispatch
    by_cases hinterval : 0 < policy.interval
    · have hlast := hsteady.last hinterval dispatch (hrecorded ▸ hdispatch)
      have hpassed : state.throttle.lastDispatchAt + policy.interval ≤ state.clock :=
        hallowed.interval hinterval (hpos.trans_le hlast)
      omega
    · omega
  · intro name hname dispatch hdispatch hsame
    obtain ⟨hpos, hle⟩ := hsteady.past dispatch hdispatch
    by_cases hinterval : 0 < policy.teamInterval name
    · have hlast := hsteady.lastOfTeam name hinterval dispatch (hrecorded ▸ hdispatch) hsame
      have hpassed : (state.throttle.lastDispatchByTeam.get? name).getD 0 +
          policy.teamInterval name ≤ state.clock :=
        hallowed.teamInterval hname hinterval (hpos.trans_le hlast)
      omega
    · omega

theorem Steady.poll (hpoll : policy.poll state readyTasks allTasks metrics = some next) :
    Steady policy next := by
  unfold DispatchPolicy.poll at hpoll
  split at hpoll
  · rename_i hidle
    obtain rfl := Option.some.inj hpoll
    have hrecorded : state.recorded = state.current ++ state.earlier := by
      unfold DispatchState.recorded
      rw [hidle]
    refine ⟨hsteady.spaced, hsteady.past, hsteady.running, ?_, ?_, ?_, ?_⟩
    · intro hinterval dispatch hdispatch
      simp only [DispatchState.recorded, hidle, List.nil_append] at hdispatch
      exact hsteady.last hinterval dispatch (hrecorded ▸ hdispatch)
    · intro name hinterval dispatch hdispatch
      simp only [DispatchState.recorded, hidle, List.nil_append] at hdispatch
      exact hsteady.lastOfTeam name hinterval dispatch (hrecorded ▸ hdispatch)
    · intro taskId agent sessionId team hstage
      rw [hidle] at hstage
      cases hstage
    · intro taskId hopen
      cases hopen with
      | inl hplanned =>
          obtain ⟨action, haction, rfl⟩ := hplanned
          exact hsteady.cleared_planned hidle haction
      | inr hspawning =>
          obtain ⟨agent, team, hstage⟩ := hspawning
          rw [hidle] at hstage
          cases hstage
  · cases hpoll

theorem Steady.start (hstart : policy.start state = some next) : Steady policy next := by
  unfold DispatchPolicy.start at hstart
  split at hstart
  · rename_i action rest hplan hidle
    have hrecorded : state.recorded = state.current ++ state.earlier := by
      unfold DispatchState.recorded
      rw [hidle]
    have hopen : ∀ taskId, taskId = action.taskId ∨ (∃ a ∈ rest, a.taskId = taskId) →
        Cleared policy state taskId := by
      intro taskId hcases
      apply hsteady.cleared taskId
      refine .inl ?_
      rw [hplan]
      cases hcases with
      | inl hfirst => exact ⟨action, List.mem_cons_self, hfirst.symm⟩
      | inr hlater =>
          obtain ⟨a, ha, hid⟩ := hlater
          exact ⟨a, List.mem_cons_of_mem _ ha, hid⟩
    dsimp only at hstart
    split at hstart
    · obtain rfl := Option.some.inj hstart
      refine ⟨hsteady.spaced, hsteady.past, hsteady.running, ?_, ?_, nofun, ?_⟩
      · intro hinterval dispatch hdispatch
        exact hsteady.last hinterval dispatch (hrecorded ▸ hdispatch)
      · intro name hinterval dispatch hdispatch
        exact hsteady.lastOfTeam name hinterval dispatch (hrecorded ▸ hdispatch)
      · intro taskId hopens
        cases hopens with
        | inl hplanned => exact hopen taskId (.inr hplanned)
        | inr hspawning =>
            obtain ⟨agent, team, hstage⟩ := hspawning
            cases hstage
            exact hopen _ (.inl rfl)
    · obtain rfl := Option.some.inj hstart
      refine ⟨hsteady.spaced, hsteady.past, hsteady.running, hsteady.last, hsteady.lastOfTeam,
        hsteady.recording, ?_⟩
      intro taskId hopens
      cases hopens with
      | inl hplanned => exact hopen taskId (.inr hplanned)
      | inr hspawning =>
          obtain ⟨agent, team, hstage⟩ := hspawning
          rw [hidle] at hstage
          cases hstage
  · cases hstart

theorem Steady.apart {sessionId : String} (hstage : state.stage = .spawning taskId agent team)
    (hguard : policy.Unhurried state (.answer (some (.success sessionId)))) :
    ∀ dispatch ∈ state.current ++ state.earlier,
      policy.Apart ⟨taskId, team, state.clock⟩ dispatch := by
  obtain ⟨hall, task, htask, hid, hofTeam⟩ :=
    hsteady.cleared taskId (.inr ⟨agent, team, hstage⟩)
  simp only [DispatchPolicy.Unhurried, hstage] at hguard
  obtain ⟨hfirst, hteam⟩ := hguard
  intro dispatch hdispatch
  obtain ⟨-, hle⟩ := hsteady.past dispatch hdispatch
  refine ⟨?_, fun name hname hsame => ?_⟩
  · by_cases hinterval : 0 < policy.interval
    · rw [hfirst hinterval] at hdispatch
      exact hall dispatch hdispatch
    · change dispatch.time + policy.interval ≤ state.clock
      omega
  · by_cases hinterval : 0 < policy.teamInterval name
    · obtain ⟨hnone, hplanned⟩ := hteam name hname hinterval
      cases List.mem_append.mp hdispatch with
      | inl hcurrent => exact absurd hsame (hnone dispatch hcurrent)
      | inr hearlier => exact hofTeam name (hplanned task htask hid) dispatch hearlier hsame
    · change dispatch.time + policy.teamInterval name ≤ state.clock
      omega

theorem Steady.giveUp (hstage : state.stage = .spawning taskId agent team) (store : Store) :
    Steady policy { state with store, stage := .idle } := by
  have hrecorded : state.recorded = state.current ++ state.earlier := by
    unfold DispatchState.recorded
    rw [hstage]
  refine ⟨hsteady.spaced, hsteady.past, hsteady.running, ?_, ?_, nofun, ?_⟩
  · intro hinterval dispatch hdispatch
    exact hsteady.last hinterval dispatch (hrecorded ▸ hdispatch)
  · intro name hinterval dispatch hdispatch
    exact hsteady.lastOfTeam name hinterval dispatch (hrecorded ▸ hdispatch)
  · intro id hopen
    apply hsteady.cleared id
    refine .inl (hopen.resolve_right ?_)
    intro hspawning
    obtain ⟨agent', team', hspawn⟩ := hspawning
    cases hspawn

theorem Steady.answer {spawn : Option SpawnResult} (hguard : policy.Unhurried state (.answer spawn))
    (hanswer : DispatchPolicy.answer state spawn = some next) : Steady policy next := by
  unfold DispatchPolicy.answer at hanswer
  split at hanswer
  · rename_i taskId agent team sessionId hstage
    obtain rfl := Option.some.inj hanswer
    have hrecorded : state.recorded = state.current ++ state.earlier := by
      unfold DispatchState.recorded
      rw [hstage]
    have happart := hsteady.apart hstage hguard
    refine ⟨List.pairwise_cons.mpr ⟨happart, hsteady.spaced⟩, ?_, hsteady.running, ?_, ?_, ?_, ?_⟩
    · intro dispatch hdispatch
      cases List.mem_cons.mp hdispatch with
      | inl hnew =>
          rw [hnew]
          exact ⟨hsteady.running, le_rfl⟩
      | inr hold => exact hsteady.past dispatch hold
    · intro hinterval dispatch hdispatch
      exact hsteady.last hinterval dispatch (hrecorded ▸ hdispatch)
    · intro name hinterval dispatch hdispatch
      exact hsteady.lastOfTeam name hinterval dispatch (hrecorded ▸ hdispatch)
    · intro id agent' sessionId' team' hrecording
      cases hrecording
      exact ⟨_, _, rfl, rfl⟩
    · intro id hopen
      apply hsteady.cleared id
      refine .inl (hopen.resolve_right ?_)
      intro hspawning
      obtain ⟨agent', team', hspawn⟩ := hspawning
      cases hspawn
  · rename_i hstage
    obtain rfl := Option.some.inj hanswer
    exact hsteady.giveUp hstage _
  · rename_i hstage
    obtain rfl := Option.some.inj hanswer
    exact hsteady.giveUp hstage state.store
  · cases hanswer

end

theorem le_lastDispatchByTeam {throttle : ThrottleState} {name : String} {now time : Nat}
    (htime : time ≤ now) (hlast : time ≤ (throttle.lastDispatchByTeam.get? name).getD 0) :
    time ≤ ((updateThrottleState throttle team now).lastDispatchByTeam.get? name).getD 0 := by
  unfold updateThrottleState
  dsimp only
  split
  · rw [Dict.get?_set]
    split
    · exact htime
    · exact hlast
  · exact hlast

theorem get?_endAssign_success (taskId agent sessionId : String) (store : Store) :
    ((endAssign taskId agent (.success sessionId)).after store).tasks.get? taskId =
      (store.tasks.get? taskId).map fun task => task.withSession sessionId := by
  unfold endAssign Store.patch Command.after
  change ((Store.get taskId >>= _).run store).2.tasks.get? taskId = _
  rw [Command.run_bind_of_some (Store.run_get taskId)]
  cases hfound : store.tasks.get? taskId with
  | none => exact hfound
  | some task =>
      have hid : (task.withSession sessionId).id = taskId := store.keyed taskId task hfound
      exact (Store.tasks_put store (task.withSession sessionId) taskId).trans (if_pos hid)

theorem Steady.record (hsteady : Steady policy state) (hguard : policy.Unhurried state .record)
    (hrecord : DispatchPolicy.record state = some next) : Steady policy next := by
  unfold DispatchPolicy.record at hrecord
  split at hrecord
  · rename_i taskId agent sessionId team hstage
    obtain rfl := Option.some.inj hrecord
    simp only [DispatchPolicy.Unhurried, hstage] at hguard
    obtain ⟨hthere, hteam⟩ := hguard
    obtain ⟨newest, rest, hcurrent, hnewest⟩ := hsteady.recording _ _ _ _ hstage
    have hrecorded : state.recorded = rest ++ state.earlier := by
      unfold DispatchState.recorded
      rw [hstage, hcurrent, List.tail_cons]
    have hsplit : ∀ dispatch ∈ state.current ++ state.earlier,
        dispatch = newest ∨ dispatch ∈ state.recorded := by
      intro dispatch hdispatch
      rw [hcurrent, List.cons_append] at hdispatch
      rw [hrecorded]
      exact List.mem_cons.mp hdispatch
    have hback := get?_endAssign_success taskId agent sessionId state.store
    refine ⟨hsteady.spaced, hsteady.past, hsteady.running, ?_, ?_, nofun, ?_⟩
    · intro hinterval dispatch hdispatch
      obtain ⟨task, hfound⟩ := Option.isSome_iff_exists.mp (hthere hinterval)
      rw [hfound, Option.map_some] at hback
      dsimp only
      rw [hback]
      exact (hsteady.past dispatch hdispatch).2
    · intro name hinterval dispatch hdispatch hsame
      have hpast := (hsteady.past dispatch hdispatch).2
      dsimp only
      cases hsplit dispatch hdispatch with
      | inl hnew =>
          have hname : truthy team = some name := by rw [← hnewest, ← hnew, hsame]
          obtain ⟨task, hfound, hstored⟩ := hteam name hname hinterval
          have hrouting : truthy (task.withSession sessionId).routing.team = some name := hstored
          rw [hfound, Option.map_some] at hback
          rw [hback]
          dsimp only [updateThrottleState]
          rw [hrouting]
          dsimp only
          rw [Dict.get?_set_self, Option.getD_some]
          exact hpast
      | inr hold =>
          have hlast := hsteady.lastOfTeam name hinterval dispatch hold hsame
          split
          · exact le_lastDispatchByTeam hpast hlast
          · exact hlast
    · intro id hopen
      apply hsteady.cleared id
      refine .inl (hopen.resolve_right ?_)
      intro hspawning
      obtain ⟨agent', team', hspawn⟩ := hspawning
      cases hspawn
  · cases hrecord

theorem Steady.step {move : DispatchMove} (hsteady : Steady policy state)
    (hguard : policy.Unhurried state move) (hstep : policy.step state move = some next) :
    Steady policy next := by
  cases move with
  | wait ms =>
      obtain rfl := Option.some.inj hstep
      exact hsteady.wait ms
  | write store =>
      obtain rfl := Option.some.inj hstep
      exact hsteady.write store
  | poll readyTasks allTasks metrics => exact hsteady.poll hstep
  | start => exact hsteady.start hstep
  | answer spawn => exact hsteady.answer hguard hstep
  | record => exact hsteady.record hguard hstep

end Steps

def firstPoll (store : Store) (clock : Nat) : DispatchState := { store, clock }

theorem steady_firstPoll (policy : DispatchPolicy) (store : Store) {clock : Nat}
    (hclock : 0 < clock) : Steady policy (firstPoll store clock) where
  spaced := List.Pairwise.nil
  past dispatch hdispatch := by cases hdispatch
  running := hclock
  last _ dispatch hdispatch := by cases hdispatch
  lastOfTeam _ _ dispatch hdispatch := by cases hdispatch
  recording := nofun
  cleared taskId hopen := by
    cases hopen with
    | inl hplanned =>
        obtain ⟨action, haction, -⟩ := hplanned
        cases haction
    | inr hspawning =>
        obtain ⟨agent, team, hstage⟩ := hspawning
        cases hstage

def fiveSeconds : DispatchPolicy where
  config := { minDispatchIntervalMs := some 5000 }

def readyPair : List Task := [readyFor "A" "swe", readyFor "B" "swe"]

def noneInProgress : DispatchMetrics where
  currentInProgress := 0
  blockedBySubtasks := []
  circularDeps := []
  occupiedResources := .empty
  inProgressTasks := []

def dispatchNext (sessionId : String) : List DispatchMove :=
  [.start, .answer (some (.success sessionId)), .record]

def twoPolls : List DispatchMove :=
  .poll (readyPair.take 1) readyPair noneInProgress :: dispatchNext "s1" ++
    .wait 5000 :: .poll (readyPair.drop 1) readyPair noneInProgress :: dispatchNext "s2"

def firstOfPoll (state : DispatchState) : DispatchMove → Bool
  | .answer (some (.success _)) => state.current.isEmpty
  | .record =>
      match state.stage with
      | .recording taskId .. => (state.store.tasks.get? taskId).isSome
      | _ => true
  | _ => true

theorem unhurried_of_firstOfPoll (state : DispatchState) (move : DispatchMove)
    (htest : firstOfPoll state move = true) : fiveSeconds.Unhurried state move := by
  have hteams : ∀ name, ¬0 < fiveSeconds.teamInterval name := fun _ => lt_irrefl 0
  cases move with
  | answer spawn =>
      match spawn with
      | some (.success sessionId) =>
          unfold DispatchPolicy.Unhurried
          dsimp only
          split
          · refine ⟨fun _ => List.isEmpty_iff.mp htest, ?_⟩
            intro name _ hinterval
            exact absurd hinterval (hteams name)
          · trivial
      | some (.failure _) => trivial
      | none => trivial
  | record =>
      unfold DispatchPolicy.Unhurried
      dsimp only
      split
      · rename_i hstage
        simp only [firstOfPoll, hstage] at htest
        refine ⟨fun _ => htest, ?_⟩
        intro name _ hinterval
        exact absurd hinterval (hteams name)
      · trivial
  | wait ms => trivial
  | write store => trivial
  | poll readyTasks allTasks metrics => trivial
  | start => trivial

end Aof
