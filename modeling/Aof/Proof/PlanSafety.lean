import Aof.Dispatch.TaskDispatcher

/-!
# The plan keeps the limits

The assignments that a poll plans for the ready tasks stay within the limit on all tasks in
progress, within that of each team and within that of one poll, and every assigned task has passed
all the gates.
-/

namespace Aof

def assigned (actions : List PlannedAction) : List String :=
  (actions.filter fun action => action.type = .assign).map PlannedAction.taskId

def teamLimit (teams : Option (List OrgTeam)) (team : String) : Option Nat :=
  ((teamConfigMap teams).get? team).bind TeamDispatchConfig.maxConcurrent

def ofTeam (team : String) (tasks : List Task) : List Task :=
  tasks.filter fun task => task.routing.team = some team

/-- A task that may be assigned: it passes every gate that does not count dispatches. -/
structure Admissible (env : DispatchEnv) (allTasks : List Task) (task : Task) : Prop where
  dependencies : ∀ depId ∈ task.dependsOn, ∃ dep ∈ allTasks, dep.id = depId ∧ dep.status = .done
  unleased : Store.leaseActive task.lease env.now = false
  resource : resourceOccupied env.metrics task = false
  subtasks : task.id ∉ env.metrics.blockedBySubtasks
  acyclic : task.id ∉ env.metrics.circularDeps
  routed : (routingTarget env.teams task.routing).isSome

/-- The chosen tasks stay within every limit, and each may be assigned. -/
structure SafePlan (env : DispatchEnv) (readyTasks allTasks chosen : List Task) : Prop where
  concurrency : env.metrics.currentInProgress + chosen.length ≤
    max env.metrics.currentInProgress env.config.maxDispatches
  team : ∀ team limit, teamLimit env.teams team = some limit →
    (ofTeam team env.metrics.inProgressTasks).length + (ofTeam team chosen).length ≤
      max (ofTeam team env.metrics.inProgressTasks).length limit
  perPoll : chosen.length ≤ env.config.perPoll
  once : (chosen.map Task.id).Nodup
  ready : chosen.Sublist readyTasks
  admissible : ∀ task ∈ chosen, Admissible env allTasks task

variable {allTasks : List Task} {task : Task} {team : String}

theorem unresolvedDeps_eq_nil (hnil : unresolvedDeps allTasks task = []) :
    ∀ depId ∈ task.dependsOn, ∃ dep ∈ allTasks, dep.id = depId ∧ dep.status = .done := by
  intro depId hdepId
  have hresolved := (List.filter_eq_nil_iff.1 hnil) depId hdepId
  simp only [Bool.not_eq_true', Bool.not_eq_false, Option.any_eq_true, decide_eq_true_eq]
    at hresolved
  obtain ⟨dep, hfind, hdone⟩ := hresolved
  exact ⟨dep, List.mem_of_find?_eq_some hfind, by simpa using List.find?_some hfind, hdone⟩

theorem passesGates_iff {env : DispatchEnv} :
    passesGates env allTasks task = true ↔ unresolvedDeps allTasks task = [] ∧
      Store.leaseActive task.lease env.now = false ∧ resourceOccupied env.metrics task = false := by
  simp [passesGates, and_assoc]

section Throttle

variable {state : ThrottleState} {now : Nat} {params : ThrottleCheckParams}

/-- An answer of a check, if there is one, is a refusal. -/
def Refuses (answer : Option ThrottleCheckResult) : Prop :=
  ∀ check, answer = some check → check.allowed = false

theorem Refuses.orElse {first second : Option ThrottleCheckResult} (hfirst : Refuses first)
    (hsecond : Refuses second) : Refuses (first <|> second) := by
  cases first with
  | none => simpa using hsecond
  | some check => exact fun other hother => hfirst other (by simpa using hother)

theorem Refuses.allowed_iff {answer : Option ThrottleCheckResult} (hrefuses : Refuses answer) :
    (answer.getD { allowed := true }).allowed = true ↔ answer = none := by
  cases answer with
  | none => simp
  | some check => simp [hrefuses check rfl]

theorem refuses_checkElapsed (name : String) (now last interval : Nat) :
    Refuses (ThrottleCheckParams.checkElapsed name now last interval) := by
  intro check hcheck
  simp only [ThrottleCheckParams.checkElapsed] at hcheck
  split at hcheck
  · exact (Option.some.inj hcheck) ▸ rfl
  · cases hcheck

theorem refuses_checkConcurrency : Refuses params.checkConcurrency := by
  intro check hcheck
  simp only [ThrottleCheckParams.checkConcurrency] at hcheck
  split at hcheck
  · exact (Option.some.inj hcheck) ▸ rfl
  · cases hcheck

theorem refuses_checkTeamConcurrency : Refuses params.checkTeamConcurrency := by
  intro check hcheck
  simp only [ThrottleCheckParams.checkTeamConcurrency, Option.bind_eq_bind,
    Option.bind_eq_some_iff] at hcheck
  obtain ⟨team, -, running, -, limit, -, hcheck⟩ := hcheck
  split at hcheck
  · exact (Option.some.inj hcheck) ▸ rfl
  · cases hcheck

theorem refuses_checkInterval : Refuses (params.checkInterval state now) := by
  intro check hcheck
  simp only [ThrottleCheckParams.checkInterval, Option.bind_eq_bind,
    Option.bind_eq_some_iff] at hcheck
  obtain ⟨interval, -, hcheck⟩ := hcheck
  exact refuses_checkElapsed _ _ _ _ check hcheck

theorem refuses_checkTeamInterval : Refuses (params.checkTeamInterval state now) := by
  intro check hcheck
  simp only [ThrottleCheckParams.checkTeamInterval, Option.bind_eq_bind,
    Option.bind_eq_some_iff] at hcheck
  obtain ⟨team, -, interval, -, hcheck⟩ := hcheck
  exact refuses_checkElapsed _ _ _ _ check hcheck

theorem refuses_checkPollCycle : Refuses params.checkPollCycle := by
  intro check hcheck
  unfold ThrottleCheckParams.checkPollCycle at hcheck
  split at hcheck
  · exact (Option.some.inj hcheck) ▸ rfl
  · cases hcheck

theorem checkThrottle_allowed_iff : (checkThrottle state now params).allowed = true ↔
    params.checkConcurrency = none ∧ params.checkTeamConcurrency = none ∧
      params.checkInterval state now = none ∧ params.checkTeamInterval state now = none ∧
      params.checkPollCycle = none := by
  rw [checkThrottle, Refuses.allowed_iff]
  · simp only [Option.orElse_eq_orElse, Option.orElse_eq_or, Option.or_eq_none_iff]
  · apply Refuses.orElse refuses_checkConcurrency
    apply Refuses.orElse refuses_checkTeamConcurrency
    apply Refuses.orElse refuses_checkInterval
    exact Refuses.orElse refuses_checkTeamInterval refuses_checkPollCycle

theorem checkThrottle_allowed (hallowed : (checkThrottle state now params).allowed = true) :
    params.currentInProgress + params.pendingDispatches < params.maxDispatches ∧
      params.dispatchesThisPoll < params.maxDispatchesPerPoll ∧
      ∀ team running limit, truthy params.team = some team →
        params.teamInProgress = some running → params.teamMaxConcurrent = some limit →
        running < limit := by
  obtain ⟨hconcurrency, hteam, -, -, hcycle⟩ := checkThrottle_allowed_iff.1 hallowed
  refine ⟨?_, ?_, fun team running limit hname hrunning hlimit => ?_⟩
  · simp only [ThrottleCheckParams.checkConcurrency] at hconcurrency
    split at hconcurrency
    · cases hconcurrency
    · omega
  · unfold ThrottleCheckParams.checkPollCycle at hcycle
    split at hcycle
    · cases hcycle
    · omega
  · simp only [ThrottleCheckParams.checkTeamConcurrency, hname, hrunning, hlimit,
      Option.bind_eq_bind, Option.bind_some] at hteam
    split at hteam
    · cases hteam
    · omega

end Throttle

theorem truthy_eq_some {text : Option String} {value : String} :
    truthy text = some value ↔ text = some value ∧ value ≠ "" := by
  simp [truthy, Option.filter_eq_some_iff]

theorem teamConfigMap_named {teams : Option (List OrgTeam)} {config : TeamDispatchConfig}
    (hget : (teamConfigMap teams).get? team = some config) : team ≠ "" := by
  have hnamed : (teamConfigMap teams).get? team = some config → team ≠ "" := by
    unfold teamConfigMap
    apply List.foldlRecOn (motive := fun configs : Dict String TeamDispatchConfig =>
      configs.get? team = some config → team ≠ "")
    · exact fun h => by cases h
    · intro configs hconfigs other _
      split
      · rw [Dict.get?_set]
        split
        · rename_i heq
          exact fun _ => heq ▸ other.named
        · exact hconfigs
      · exact hconfigs
  exact hnamed hget

theorem get?_countTeam {counts : Dict String Nat} {name : Option String} (hteam : team ≠ "") :
    ((countTeam counts name).get? team).getD 0 =
      (counts.get? team).getD 0 + if name = some team then 1 else 0 := by
  unfold countTeam
  split
  · rename_i other hname
    obtain ⟨rfl, -⟩ := truthy_eq_some.1 hname
    rw [Dict.get?_set]
    by_cases heq : other = team
    · simp [heq]
    · simp [heq]
  · rename_i hname
    have hne : name ≠ some team := by
      rintro rfl
      simp [truthy, hteam] at hname
    simp [hne]

theorem get?_inProgressByTeam (tasks : List Task) (hteam : team ≠ "") :
    ((inProgressByTeam tasks).get? team).getD 0 = (ofTeam team tasks).length := by
  have hcount : ∀ (list : List Task) (counts : Dict String Nat),
      ((list.foldl (fun counts task => countTeam counts task.routing.team) counts).get? team).getD
        0 = (counts.get? team).getD 0 + (ofTeam team list).length := by
    intro list
    induction list with
    | nil => exact fun _ => rfl
    | cons task rest ih =>
        intro counts
        rw [List.foldl_cons, ih, get?_countTeam hteam, ofTeam, ofTeam, List.filter_cons]
        by_cases heq : task.routing.team = some team
        · simp [heq]
          omega
        · simp [heq]
  rw [inProgressByTeam, hcount tasks .empty]
  simp

section Loop

variable {env : DispatchEnv} {readyTasks allTasks chosen seen : List Task}
variable {plan next : DispatchPlan} {task : Task} {goesOn : Bool}

/-- The plan so far assigns the chosen ones of the tasks seen so far, and counts them. -/
structure Planned (env : DispatchEnv) (allTasks seen chosen : List Task) (plan : DispatchPlan) :
    Prop where
  assigned : assigned plan.actions = chosen.map Task.id
  pending : plan.pendingDispatches = chosen.length
  thisPoll : plan.dispatchesThisPoll = chosen.length
  byTeam : ∀ team, team ≠ "" → (plan.inProgressByTeam.get? team).getD 0 =
    (ofTeam team env.metrics.inProgressTasks).length + (ofTeam team chosen).length
  concurrency : env.metrics.currentInProgress + chosen.length ≤
    max env.metrics.currentInProgress env.config.maxDispatches
  team : ∀ team limit, teamLimit env.teams team = some limit →
    (ofTeam team env.metrics.inProgressTasks).length + (ofTeam team chosen).length ≤
      max (ofTeam team env.metrics.inProgressTasks).length limit
  perPoll : chosen.length ≤ env.config.perPoll
  ready : chosen.Sublist seen
  admissible : ∀ task ∈ chosen, Admissible env allTasks task

theorem assigned_append (left right : List PlannedAction) :
    assigned (left ++ right) = assigned left ++ assigned right := by
  simp [assigned]

theorem visitReady_cases (hvisit : visitReady env allTasks plan task = (next, goesOn)) :
    (∃ target, next = plan.assign env.config.dryRun task target ∧ Admissible env allTasks task ∧
      (checkThrottle env.throttle env.now (throttleParams env plan task)).allowed = true) ∨
    assigned next.actions = assigned plan.actions ∧
      next.pendingDispatches = plan.pendingDispatches ∧
      next.dispatchesThisPoll = plan.dispatchesThisPoll ∧
      next.inProgressByTeam = plan.inProgressByTeam := by
  have hpush : ∀ action : PlannedAction, action.type ≠ .assign →
      assigned (plan.push action).actions = assigned plan.actions := by
    intro action haction
    simp [DispatchPlan.push, assigned, haction]
  unfold visitReady at hvisit
  split at hvisit
  · obtain ⟨rfl, -⟩ := Prod.mk.inj hvisit
    exact .inr ⟨rfl, rfl, rfl, rfl⟩
  · rename_i hsubtasks
    split at hvisit
    · obtain ⟨rfl, -⟩ := Prod.mk.inj hvisit
      exact .inr ⟨hpush _ (by simp), rfl, rfl, rfl⟩
    · rename_i hacyclic
      split at hvisit
      · obtain ⟨rfl, -⟩ := Prod.mk.inj hvisit
        exact .inr ⟨rfl, rfl, rfl, rfl⟩
      · rename_i hgates
        simp only at hvisit
        split at hvisit
        · obtain ⟨rfl, -⟩ := Prod.mk.inj hvisit
          exact .inr ⟨rfl, rfl, rfl, rfl⟩
        · rename_i hallowed
          split at hvisit
          · rename_i target htarget
            obtain ⟨rfl, -⟩ := Prod.mk.inj hvisit
            obtain ⟨hdeps, hlease, hresource⟩ := passesGates_iff.1 (by simpa using hgates)
            refine .inl ⟨target, rfl, ⟨unresolvedDeps_eq_nil hdeps, hlease, hresource, hsubtasks,
              hacyclic, by simp [htarget]⟩, by simpa using hallowed⟩
          · obtain ⟨rfl, -⟩ := Prod.mk.inj hvisit
            exact .inr ⟨hpush _ (by simp), rfl, rfl, rfl⟩

theorem teamMaxConcurrent_of_teamLimit {team : String} {limit : Nat} (plan : DispatchPlan)
    (hlimit : teamLimit env.teams team = some limit) (hteam : task.routing.team = some team) :
    truthy task.routing.team = some team ∧
      (throttleParams env plan task).teamMaxConcurrent = some limit := by
  obtain ⟨config, hget, -⟩ := Option.bind_eq_some_iff.1 hlimit
  have htruthy : truthy task.routing.team = some team :=
    truthy_eq_some.2 ⟨hteam, teamConfigMap_named hget⟩
  refine ⟨htruthy, ?_⟩
  simp only [throttleParams, htruthy, Option.bind_some]
  exact hlimit

theorem Planned.assign (hplanned : Planned env allTasks seen chosen plan)
    (hdryRun : env.config.dryRun = false) (hadmissible : Admissible env allTasks task)
    (hallowed : (checkThrottle env.throttle env.now (throttleParams env plan task)).allowed = true)
    (target : String) : Planned env allTasks (seen ++ [task]) (chosen ++ [task])
      (plan.assign env.config.dryRun task target) := by
  obtain ⟨hconcurrency, hperPoll, hteam⟩ := checkThrottle_allowed hallowed
  have hpending : (throttleParams env plan task).pendingDispatches = chosen.length :=
    hplanned.pending
  have hthisPoll : (throttleParams env plan task).dispatchesThisPoll = chosen.length :=
    hplanned.thisPoll
  have hcount : ∀ team, (ofTeam team (chosen ++ [task])).length =
      (ofTeam team chosen).length + if task.routing.team = some team then 1 else 0 := by
    intro team
    rw [ofTeam, List.filter_append, List.length_append]
    by_cases heq : task.routing.team = some team <;> simp [ofTeam, heq]
  constructor
  · simp only [DispatchPlan.assign, assigned_append, hplanned.assigned, List.map_append]
    rfl
  · simp [DispatchPlan.assign, hplanned.pending]
  · simp [DispatchPlan.assign, hplanned.thisPoll]
  · intro team hname
    simp only [DispatchPlan.assign, hdryRun, Bool.false_eq_true, ↓reduceIte]
    rw [get?_countTeam hname, hplanned.byTeam team hname, hcount team]
    omega
  · rw [hpending] at hconcurrency
    have hlimit : (throttleParams env plan task).maxDispatches = env.config.maxDispatches := rfl
    have hrunning : (throttleParams env plan task).currentInProgress =
        env.metrics.currentInProgress := rfl
    rw [List.length_append, List.length_singleton]
    omega
  · intro team limit hlimit
    rw [hcount team]
    by_cases heq : task.routing.team = some team
    · obtain ⟨htruthy, hmax⟩ := teamMaxConcurrent_of_teamLimit plan hlimit heq
      have hrunning : (throttleParams env plan task).teamInProgress =
          some ((plan.inProgressByTeam.get? team).getD 0) := by
        simp [throttleParams, htruthy]
      have hlt := hteam team _ limit htruthy hrunning hmax
      rw [hplanned.byTeam team (truthy_eq_some.1 htruthy).2] at hlt
      rw [if_pos heq]
      omega
    · rw [if_neg heq]
      exact hplanned.team team limit hlimit
  · rw [hthisPoll] at hperPoll
    have hlimit : (throttleParams env plan task).maxDispatchesPerPoll = env.config.perPoll := rfl
    rw [List.length_append, List.length_singleton]
    omega
  · exact hplanned.ready.append (List.Sublist.refl [task])
  · intro other hother
    rcases List.mem_append.1 hother with hold | hnew
    · exact hplanned.admissible other hold
    · exact List.mem_singleton.1 hnew ▸ hadmissible

theorem Planned.visit (hplanned : Planned env allTasks seen chosen plan)
    (hdryRun : env.config.dryRun = false)
    (hvisit : visitReady env allTasks plan task = (next, goesOn)) :
    ∃ chosen', Planned env allTasks (seen ++ [task]) chosen' next := by
  rcases visitReady_cases hvisit with ⟨target, rfl, hadmissible, hallowed⟩ |
    ⟨hassigned, hpending, hthisPoll, hbyTeam⟩
  · exact ⟨_, hplanned.assign hdryRun hadmissible hallowed target⟩
  · refine ⟨chosen, hassigned.trans hplanned.assigned, hpending.trans hplanned.pending,
      hthisPoll.trans hplanned.thisPoll, ?_, hplanned.concurrency, hplanned.team,
      hplanned.perPoll, hplanned.ready.trans (List.sublist_append_left seen [task]),
      hplanned.admissible⟩
    rw [hbyTeam]
    exact hplanned.byTeam

theorem Planned.planReady (rest : List Task) (hplanned : Planned env allTasks seen chosen plan)
    (hdryRun : env.config.dryRun = false) :
    ∃ chosen', Planned env allTasks (seen ++ rest) chosen' (planReady env allTasks plan rest) := by
  induction rest generalizing seen chosen plan with
  | nil => exact ⟨chosen, by simpa [Aof.planReady] using hplanned⟩
  | cons task rest ih =>
      cases hvisit : visitReady env allTasks plan task with
      | mk next goesOn =>
          obtain ⟨chosen', hnext⟩ := hplanned.visit hdryRun hvisit
          cases goesOn with
          | true =>
              obtain ⟨last, hlast⟩ := ih hnext
              refine ⟨last, ?_⟩
              simpa [Aof.planReady, hvisit] using hlast
          | false =>
              refine ⟨chosen', ?_⟩
              have hstop : Aof.planReady env allTasks plan (task :: rest) = next := by
                simp [Aof.planReady, hvisit]
              rw [hstop]
              exact { hnext with
                ready := hnext.ready.trans (by simp) }

theorem planned_initialPlan (env : DispatchEnv) (allTasks : List Task) :
    Planned env allTasks [] [] (initialPlan env.metrics) where
  assigned := rfl
  pending := rfl
  thisPoll := rfl
  byTeam team hteam := by
    rw [initialPlan, get?_inProgressByTeam _ hteam]
    rfl
  concurrency := le_max_left _ _
  team _ _ _ := le_max_left _ _
  perPoll := Nat.zero_le _
  ready := List.Sublist.refl []
  admissible _ hmem := by cases hmem

end Loop

/-- Outside a dry run, the assignments that a poll plans are those of a safe choice of the ready
tasks. -/
theorem plan_safe (env : DispatchEnv) {allTasks : List Task} (hids : (allTasks.map Task.id).Nodup)
    (hdryRun : env.config.dryRun = false) : ∃ chosen, assigned (buildDispatchActions env
        (allTasks.filter fun task => task.status = .ready) allTasks) = chosen.map Task.id ∧
      SafePlan env (allTasks.filter fun task => task.status = .ready) allTasks chosen := by
  obtain ⟨chosen, hplanned⟩ := (planned_initialPlan env allTasks).planReady
    (allTasks.filter fun task => task.status = .ready) hdryRun
  refine ⟨chosen, ?_, hplanned.concurrency, hplanned.team, hplanned.perPoll, ?_,
    by simpa using hplanned.ready, hplanned.admissible⟩
  · have hparents : assigned (blockParents env.metrics allTasks) = [] := by
      simp [assigned, blockParents, List.filter_map, Function.comp_def]
    rw [buildDispatchActions, assigned_append, hparents, List.append_nil, hplanned.assigned]
  · have hsub : (chosen.map Task.id).Sublist (allTasks.map Task.id) :=
      (hplanned.ready.trans List.filter_sublist).map Task.id
    exact hids.sublist hsub

def crowded : DispatchEnv :=
  { config := { maxConcurrentDispatches := some 2 }
    metrics :=
      { currentInProgress := 1
        blockedBySubtasks := []
        circularDeps := []
        occupiedResources := .empty
        inProgressTasks := [] }
    teams := none
    throttle := {}
    now := 0 }

def readyFor (id agent : String) : Task :=
  { id, status := .ready, routing := { agent := some agent } }

theorem crowded_safe : ∃ chosen,
    assigned (buildDispatchActions crowded ([readyFor "a" "swe", readyFor "b" "swe"].filter
        fun task => task.status = .ready) [readyFor "a" "swe", readyFor "b" "swe"]) =
      chosen.map Task.id ∧
    SafePlan crowded ([readyFor "a" "swe", readyFor "b" "swe"].filter fun task =>
      task.status = .ready) [readyFor "a" "swe", readyFor "b" "swe"] chosen :=
  plan_safe crowded (by decide) rfl

end Aof
