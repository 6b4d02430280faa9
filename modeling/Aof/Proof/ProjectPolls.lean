import Aof.Proof.Resources

/-!
# The limit across projects

The poll of a store counts the tasks at work of that store only.  The total of all stores stays
within the limit as long as what a poll may start fits into what the other stores leave.
-/

namespace Aof

def inProgressCount (store : Store) : Nat := (withStatus .inProgress store.tasks.values).length

def total (stores : List Store) : Nat := (stores.map inProgressCount).sum

def NothingStarted (before after : List Store) : Prop :=
  ∀ (index : Nat) (old store : Store), before[index]? = some old → after[index]? = some store →
    Starts [] [] (fun _ => True) old store

/-- The most that a poll may put to work: candidates up to the store's own room, and the reviews. -/
def PollInput.demand (input : PollInput) (store : Store) : Nat :=
  min (input.candidates store.tasks.values).length
      (input.config.maxDispatches - inProgressCount store) + input.reviews.length

/-- A poll that is no dry run finds its store full, or may start no more than fits into the total of
all stores. -/
def HasRoom (config : DispatchConfig) (stores : List Store) (turn : ProjectPoll) : Prop :=
  ∀ store, stores[turn.index]? = some store → config.dryRun = true ∨
    config.maxDispatches ≤ inProgressCount store ∨
    (turn.input.withConfig config).demand store ≤ config.maxDispatches - total stores

variable {stores : List Store} {index : Nat} {old store : Store} {input : PollInput}

theorem total_set (hold : stores[index]? = some old) (store : Store) :
    total (stores.set index store) + inProgressCount old =
      total stores + inProgressCount store := by
  induction stores generalizing index with
  | nil => cases hold
  | cons first rest ih =>
      cases index with
      | zero =>
          obtain rfl := Option.some.inj hold
          simp only [List.set_cons_zero, total, List.map_cons, List.sum_cons]
          omega
      | succ index =>
          have hrest := ih (show rest[index]? = some old from hold)
          simp only [List.set_cons_succ, total, List.map_cons, List.sum_cons] at hrest ⊢
          omega

theorem inProgressCount_le {started created : List String} {free : String → Prop}
    {before after : Store} (hstarts : Starts started created free before after) :
    inProgressCount after ≤ inProgressCount before + started.length + created.length := by
  have hnodup : ((withStatus .inProgress after.tasks.values).map Task.id).Nodup :=
    (nodup_list after).sublist (List.filter_sublist.map _)
  have hsubset : (withStatus .inProgress after.tasks.values).map Task.id ⊆
      (withStatus .inProgress before.tasks.values).map Task.id ++ started ++ created := by
    intro id hid
    obtain ⟨task, htask, rfl⟩ := List.mem_map.mp hid
    obtain ⟨hmem, hstatus⟩ := mem_withStatus.mp htask
    have h := hstarts task.id
    rw [mem_list_iff.mp hmem] at h
    simp only [List.append_assoc, List.mem_append]
    generalize hbefore : before.tasks.get? task.id = old at h
    cases h with
    | created _ hstarted => exact .inr (hstarted hstatus)
    | @kept old _ _ hstarted _ =>
        refine (hstarted hstatus).imp (fun hwork => ?_) .inl
        have hold := before.keyed task.id old hbefore
        rw [← hold] at hbefore ⊢
        exact List.mem_map_of_mem (mem_withStatus.mpr ⟨mem_list_iff.mpr hbefore, hwork⟩)
  have hlength := (hnodup.subperm hsubset).length_le
  simp only [List.length_append, List.length_map] at hlength
  exact hlength

theorem executeInOrder_none {actions : List SchedulerAction}
    (hnone : ∀ action ∈ actions, action.assigns = []) {next : Store} {executed : Nat}
    (hrun : (executeInOrder actions).run store = (some executed, next)) : executed = 0 := by
  induction actions generalizing store executed next with
  | nil =>
      obtain ⟨rfl, -⟩ : 0 = executed ∧ store = next := by simpa [executeInOrder] using hrun
      rfl
  | cons action rest ih =>
      have hidle : executes store action = false := by
        have hassigns := hnone action List.mem_cons_self
        cases action with
        | assign taskId agent allTasks spawn now ttlMs => cases hassigns
        | _ => rfl
      rw [executeInOrder, Command.run_bind_of_some (Command.run_read store)] at hrun
      match haction : (executeAction action).run store with
      | (none, middle) =>
          rw [Command.run_bind_of_none haction] at hrun
          cases hrun
      | (some (), middle) =>
          rw [Command.run_bind_of_some haction] at hrun
          match hrest : (executeInOrder rest).run middle with
          | (none, last) =>
              rw [Command.run_bind_of_none hrest] at hrun
              cases hrun
          | (some count, last) =>
              rw [Command.run_bind_of_some hrest, hidle] at hrun
              obtain ⟨rfl, -⟩ : count = executed ∧ last = next := by simpa using hrun
              exact ih (fun other hother => hnone other (List.mem_cons_of_mem _ hother)) hrest

theorem starts_eq_nil_of_full (hfull : input.config.maxDispatches ≤ inProgressCount store) :
    input.starts store.tasks.values = [] := by
  unfold PollInput.starts
  split
  · rfl
  · rename_i hdryRun
    obtain ⟨chosen, hassigned, hsafe, -⟩ := exists_chosen input store (Bool.not_eq_true _ ▸ hdryRun)
    have hconcurrency := hsafe.concurrency
    simp only [PollInput.dispatchEnv, dispatchMetrics] at hconcurrency
    unfold inProgressCount at hfull
    have hnone : chosen.length = 0 := by omega
    rw [hassigned, List.length_eq_zero_iff.mp hnone, List.map_nil]

theorem starts_poll_of_full (hfull : input.config.maxDispatches ≤ inProgressCount store) :
    Command.Relates (Starts [] [] fun _ => True) (poll input) store := by
  have hnone := starts_eq_nil_of_full hfull
  unfold poll
  refine starts_list ?_
  refine (starts_checkHopTimeouts input).bind fun _ t _ => ?_
  have hactions : Command.Relates (Starts (input.starts store.tasks.values) [] fun _ => True)
      (executeActions input (plannedActions input store.tasks.values)) t :=
    starts_executeActions input store.tasks.values
  rw [hnone] at hactions
  refine hactions.bind fun executed u hexecuted => ?_
  obtain rfl : executed = 0 := by
    unfold executeActions at hexecuted
    split at hexecuted
    · obtain ⟨rfl, -⟩ : 0 = executed ∧ t = u := by simpa using hexecuted
      rfl
    · rename_i hdryRun
      refine executeInOrder_none (fun action haction => ?_) hexecuted
      rw [PollInput.starts, if_neg hdryRun] at hnone
      apply List.eq_nil_iff_forall_not_mem.mpr
      intro id hid
      have hassigned := assigns_plannedActions haction hid
      rw [hnone] at hassigned
      exact List.not_mem_nil hassigned
  refine (starts_dispatchReadyHops input _).bind fun _ v _ => ?_
  refine (starts_currentInProgress _ 0).bind fun inProgress w hcount => ?_
  obtain ⟨rfl, -⟩ : inProgressCount store = inProgress ∧ v = w := by
    simpa [currentInProgress, inProgressCount] using hcount
  apply Command.Relates.forM
  intro review _ s
  unfold evaluateMurmurTrigger
  rw [if_pos (.inl hfull)]
  exact .pure () s

theorem starts_length_le (input : PollInput) (store : Store) :
    (input.starts store.tasks.values).length ≤ min (input.candidates store.tasks.values).length
        (input.config.maxDispatches - inProgressCount store) := by
  unfold PollInput.starts
  split
  · exact Nat.zero_le _
  · rename_i hdryRun
    obtain ⟨chosen, hassigned, hsafe, hsub⟩ :=
      exists_chosen input store (Bool.not_eq_true _ ▸ hdryRun)
    have hconcurrency := hsafe.concurrency
    have hlength := hsub.length_le
    simp only [PollInput.dispatchEnv, dispatchMetrics] at hconcurrency
    rw [hassigned, List.length_map, inProgressCount]
    omega

theorem creates_length_le (input : PollInput) : input.creates.length ≤ input.reviews.length := by
  unfold PollInput.creates
  split
  · exact Nat.zero_le _
  · rw [List.length_map]

theorem starts_poll_of_demand (hnone : input.demand store = 0) :
    Command.Relates (Starts [] [] fun _ => True) (poll input) store := by
  have hstarts := starts_poll input store
  unfold PollInput.demand at hnone
  have hlength := starts_length_le input store
  have hcreates := creates_length_le input
  have hstartsNil : input.starts store.tasks.values = [] :=
    List.length_eq_zero_iff.mp (by omega)
  have hcreatesNil : input.creates = [] := List.length_eq_zero_iff.mp (by omega)
  rwa [hstartsNil, hcreatesNil] at hstarts

theorem starts_poll_of_dryRun (hdryRun : input.config.dryRun = true) :
    Command.Relates (Starts [] [] fun _ => True) (poll input) store := by
  have hstarts := starts_poll input store
  rwa [PollInput.starts, PollInput.creates, if_pos hdryRun, if_pos hdryRun] at hstarts

theorem nothingStarted_set (hold : stores[index]? = some old)
    (hstarts : Starts [] [] (fun _ => True) old store) :
    NothingStarted stores (stores.set index store) := by
  intro i before after hbefore hafter
  by_cases hindex : index = i
  · subst hindex
    have hlt : index < stores.length := (List.getElem?_eq_some_iff.mp hold).1
    rw [List.getElem?_set_self hlt, Option.some.injEq] at hafter
    rw [hold, Option.some.injEq] at hbefore
    exact hbefore ▸ hafter ▸ hstarts
  · rw [List.getElem?_set_ne hindex, hbefore, Option.some.injEq] at hafter
    exact hafter ▸ refl_of (Starts _ _ _) before

theorem total_pollProject {config : DispatchConfig} {next : List Store} {turn : ProjectPoll}
    (hroom : HasRoom config stores turn) (hstep : pollProject config stores turn = some next) :
    total next ≤ max (total stores) config.maxDispatches ∧
      (config.maxDispatches ≤ total stores → NothingStarted stores next) := by
  obtain ⟨old, hold, hnext⟩ := Option.bind_eq_some_iff.mp hstep
  obtain rfl := Option.some.inj hnext
  have hcount := total_set hold ((poll (turn.input.withConfig config)).after old)
  have hidle : Starts [] [] (fun _ => True) old ((poll (turn.input.withConfig config)).after old) →
      total (stores.set turn.index ((poll (turn.input.withConfig config)).after old)) ≤
          max (total stores) config.maxDispatches ∧
        (config.maxDispatches ≤ total stores → NothingStarted stores
          (stores.set turn.index ((poll (turn.input.withConfig config)).after old))) := by
    intro hstarts
    have hle := inProgressCount_le hstarts
    simp only [List.length_nil, Nat.add_zero] at hle
    exact ⟨by omega, fun _ => nothingStarted_set hold hstarts⟩
  rcases hroom old hold with hdryRun | hfull | hdemand
  · exact hidle (starts_poll_of_dryRun hdryRun)
  · exact hidle (starts_poll_of_full hfull)
  · constructor
    · have hle := inProgressCount_le (starts_poll (turn.input.withConfig config) old)
      have hstarts := starts_length_le (turn.input.withConfig config) old
      have hcreates := creates_length_le (turn.input.withConfig config)
      rw [← Command.after_eq] at hle
      simp only [PollInput.demand] at hdemand
      omega
    · intro hlimit
      apply nothingStarted_set hold
      apply starts_poll_of_demand
      omega

/-- In every run of polls that find room, the total stays within the limit or its first value, and a
poll that comes next starts nothing if the limit is reached. -/
theorem projects_bounded {config : DispatchConfig} {stores reached : List Store}
    {turns : List ProjectPoll}
    (hrun : StepSystem.Run (pollProject config) (HasRoom config) stores turns reached) :
    total reached ≤ max (total stores) config.maxDispatches ∧
      ∀ turn next, HasRoom config reached turn → pollProject config reached turn = some next →
        config.maxDispatches ≤ total reached → NothingStarted reached next := by
  constructor
  · apply hrun.invariant fun reached => total reached ≤ max (total stores) config.maxDispatches
    · intro middle turn next hbound hroom hstep
      have hnext := (total_pollProject hroom hstep).1
      omega
    · exact le_max_left _ _
  · exact fun turn next hroom hstep => (total_pollProject hroom hstep).2

def projectWith (task : Task) : Store where
  tasks := ⟨[(task.id, task)], List.nodup_singleton _⟩
  runResults := .empty
  keyed := by
    intro id other hget
    have hmem := Dict.get?_eq_some_iff.mp hget
    obtain ⟨rfl, rfl⟩ := Prod.mk.inj (List.mem_singleton.mp hmem)
    rfl

def twoProjects : List Store :=
  [projectWith (readyFor "A" "swe"), projectWith (readyFor "B" "swe")]

def limitOf (limit : Nat) : DispatchConfig := { maxConcurrentDispatches := some limit }

/-- Each poll finds its own store empty, and two tasks are at work where one is allowed. -/
theorem limit_exceeded : total (pollAllProjects (limitOf 1) [spawning, spawning] twoProjects) = 2 ∧
    max (total twoProjects) (limitOf 1).maxDispatches = 1 := by
  constructor <;> rfl

theorem limit_kept : ∃ reached,
    StepSystem.Run (pollProject (limitOf 2)) (HasRoom (limitOf 2)) twoProjects
      (cycle [spawning, spawning] 0) reached ∧ total reached = 2 ∧
    (total reached ≤ max (total twoProjects) (limitOf 2).maxDispatches ∧
      ∀ turn next, HasRoom (limitOf 2) reached turn →
        pollProject (limitOf 2) reached turn = some next →
        (limitOf 2).maxDispatches ≤ total reached → NothingStarted reached next) := by
  have hfirst : HasRoom (limitOf 2) twoProjects ⟨0, spawning⟩ := by
    intro store hstore
    obtain rfl := Option.some.inj hstore
    exact .inr (.inr (Nat.le_of_ble_eq_true rfl))
  have hsecond : HasRoom (limitOf 2)
      [(poll (spawning.withConfig (limitOf 2))).after (projectWith (readyFor "A" "swe")),
        projectWith (readyFor "B" "swe")] ⟨1, spawning⟩ := by
    intro store hstore
    obtain rfl := Option.some.inj hstore
    exact .inr (.inr (Nat.le_of_ble_eq_true rfl))
  have hrun : StepSystem.Run (pollProject (limitOf 2)) (HasRoom (limitOf 2)) twoProjects
      (cycle [spawning, spawning] 0) _ := .head hfirst rfl (.head hsecond rfl (.refl _))
  exact ⟨_, hrun, rfl, projects_bounded hrun⟩

end Aof
