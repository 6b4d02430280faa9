import Aof.Openclaw.ChatDeliveryPoller

/-!
# The slots of the wakes

A wake claims the slot of its session, and gives it back on each path on which nothing throws
outside a `try`.  So a slot is taken exactly while its wake is under way.
-/

namespace Aof

namespace ChatDeliveryPoller

open StepSystem

def State.underWay (state : State) : List String := state.wakes.filterMap Wake.sessionKey?

/-- Outside the `try` of the run no function of the runtime throws. -/
def Undisturbed (_ : State) : Step → Prop
  | .request _ runtime =>
      runtime.mainKeyConfig.isThrow = false ∧ runtime.heartbeatConfig.isThrow = false ∧
        runtime.runConfig.isThrow = false ∧ runtime.resolveAgentWorkspaceDir.isThrow = false
  | .prepared _ preparation =>
      preparation.ensureAgentWorkspace.isThrow = false ∧
        preparation.resolveAgentDir.isThrow = false ∧
        preparation.resolveSessionFilePath.isThrow = false
  | _ => True

/-- Two wakes under way have different sessions, and each has its slot. -/
structure Claimed (state : State) : Prop where
  nodup : state.underWay.Nodup
  claimed : ∀ sessionKey ∈ state.underWay, sessionKey ∈ state.inFlightEmbeddedWakes

/-- No slot is taken without a wake, and no request ends without a posted result. -/
structure Unblocked (state : State) : Prop where
  held : ∀ sessionKey ∈ state.inFlightEmbeddedWakes, sessionKey ∈ state.underWay
  posted : ∀ dispatch ∈ state.dispatches, dispatch ≠ .finished false

theorem mem_release {inFlight : List String} {sessionKey other : String} :
    other ∈ release inFlight sessionKey ↔ other ∈ inFlight ∧ other ≠ sessionKey := by
  simp [release]

theorem set_split {α : Type} {items : List α} {index : Nat} {old : α}
    (hold : items[index]? = some old) : ∃ front back, items = front ++ old :: back ∧
      ∀ new, items.set index new = front ++ new :: back := by
  obtain ⟨hlt, hget⟩ := List.getElem?_eq_some_iff.mp hold
  refine ⟨items.take index, items.drop (index + 1), ?_, fun new => ?_⟩
  · rw [← hget, List.getElem_cons_drop, List.take_append_drop]
  · exact List.set_eq_take_append_cons_drop.trans (if_pos hlt)

section Slots

variable (inFlight : List String) (sessionKey : String)

variable {inFlight sessionKey} in
theorem release_claimed (hnew : sessionKey ∉ inFlight) :
    release (inFlight ++ [sessionKey]) sessionKey = inFlight := by
  rw [release, List.filter_append, List.filter_eq_self.mpr]
  · simp
  · intro other hother
    simpa using ne_of_mem_of_not_mem hother hnew

theorem wakeViaEmbeddedRun_cases (runtime : Runtime) :
    wakeViaEmbeddedRun inFlight sessionKey runtime = (inFlight, none) ∨
    (sessionKey ∉ inFlight ∧ wakeViaEmbeddedRun inFlight sessionKey runtime =
      (inFlight ++ [sessionKey], some (.preparing sessionKey))) ∨
    ((runtime.runConfig.isThrow = true ∨ runtime.resolveAgentWorkspaceDir.isThrow = true) ∧
      wakeViaEmbeddedRun inFlight sessionKey runtime = (inFlight ++ [sessionKey], none)) := by
  unfold wakeViaEmbeddedRun
  split
  · exact Or.inl rfl
  rename_i hnew
  dsimp only
  split
  · exact Or.inl (by rw [release_claimed hnew])
  split
  · rename_i hthrow
    exact Or.inr (Or.inr ⟨Or.inl hthrow, rfl⟩)
  split
  · exact Or.inl (by rw [release_claimed hnew])
  split
  · rename_i hthrow
    exact Or.inr (Or.inr ⟨Or.inr hthrow, rfl⟩)
  split
  · exact Or.inl (by rw [release_claimed hnew])
  · exact Or.inr (Or.inl ⟨hnew, rfl⟩)

theorem prepare_cases (preparation : Preparation) :
    prepare inFlight sessionKey preparation = (inFlight, .running sessionKey) ∨
    prepare inFlight sessionKey preparation = (release inFlight sessionKey, .ended) ∨
    ((preparation.ensureAgentWorkspace.isThrow = true ∨ preparation.resolveAgentDir.isThrow = true ∨
      preparation.resolveSessionFilePath.isThrow = true) ∧
        prepare inFlight sessionKey preparation = (inFlight, .ended)) := by
  unfold prepare
  split
  · rename_i hthrow
    simp only [Bool.or_eq_true, or_assoc] at hthrow
    exact Or.inr (Or.inr ⟨hthrow, rfl⟩)
  split
  · exact Or.inr (Or.inl rfl)
  · exact Or.inl rfl

end Slots

theorem injectSessionWakeUp_ne_none {runtime : Runtime}
    (hmain : runtime.mainKeyConfig.isThrow = false)
    (hheartbeat : runtime.heartbeatConfig.isThrow = false) (req : ChatDeliveryRequest) :
    injectSessionWakeUp req runtime ≠ none := by
  unfold injectSessionWakeUp
  rw [hmain, hheartbeat]
  split
  · exact Option.some_ne_none _
  split
  · exact Option.some_ne_none _
  · exact Option.some_ne_none _
  · dsimp only
    split
    · rename_i hthrow
      exact absurd hthrow Bool.false_ne_true
    split
    · exact Option.some_ne_none _
    split
    · exact Option.some_ne_none _
    split
    · exact Option.some_ne_none _
    · exact Option.some_ne_none _

/-- A turn leaves slots and wakes alone, starts a wake, or ends one. -/
inductive SlotChange (state next : State) : Prop where
  | same (hslots : next.inFlightEmbeddedWakes = state.inFlightEmbeddedWakes)
      (hwakes : next.underWay = state.underWay)
  | claimed (sessionKey : String) (hnew : sessionKey ∉ state.inFlightEmbeddedWakes)
      (hslots : next.inFlightEmbeddedWakes = state.inFlightEmbeddedWakes ++ [sessionKey])
      (hwakes : next.underWay = state.underWay ++ [sessionKey])
  | released (sessionKey : String) (front back : List String)
      (hslots : next.inFlightEmbeddedWakes = release state.inFlightEmbeddedWakes sessionKey)
      (hbefore : state.underWay = front ++ sessionKey :: back)
      (hwakes : next.underWay = front ++ back)

/-- A throw may keep a slot that no wake needs. -/
structure Leak (state next : State) : Prop where
  slots : ∀ sessionKey ∈ state.inFlightEmbeddedWakes, sessionKey ∈ next.inFlightEmbeddedWakes
  wakes : next.underWay.Sublist state.underWay

section Steps

variable {state next : State} {label : Step}

theorem underWay_set {wakes : List Wake} {index : Nat} {sessionKey : String} {old : Wake}
    (hold : wakes[index]? = some old) (hkey : old.sessionKey? = some sessionKey) :
    (∀ new : Wake, new.sessionKey? = some sessionKey →
      (wakes.set index new).filterMap Wake.sessionKey? = wakes.filterMap Wake.sessionKey?) ∧
    ∃ front back, wakes.filterMap Wake.sessionKey? = front ++ sessionKey :: back ∧
      (wakes.set index .ended).filterMap Wake.sessionKey? = front ++ back := by
  obtain ⟨front, back, rfl, hset⟩ := set_split hold
  constructor
  · intro new hnew
    rw [hset, List.filterMap_append, List.filterMap_append, List.filterMap_cons_some hnew,
      List.filterMap_cons_some hkey]
  · refine ⟨front.filterMap Wake.sessionKey?, back.filterMap Wake.sessionKey?, ?_, ?_⟩
    · rw [List.filterMap_append, List.filterMap_cons_some hkey]
    · rw [hset, List.filterMap_append, List.filterMap_cons_none rfl]

theorem slots_step (hstep : step state label = some next) :
    SlotChange state next ∨ (¬Undisturbed state label ∧ Leak state next) := by
  cases label with
  | request req runtime =>
      rw [← Option.some.inj hstep, dispatchAndAck]
      split
      · exact Or.inl (.same rfl rfl)
      · exact Or.inl (.same rfl rfl)
      · rename_i sessionKey _
        obtain hskip | ⟨hnew, hclaim⟩ | ⟨hthrow, hleak⟩ :=
          wakeViaEmbeddedRun_cases state.inFlightEmbeddedWakes sessionKey runtime
        · rw [hskip]
          exact Or.inl (.same rfl (by simp [State.underWay]))
        · rw [hclaim]
          refine Or.inl (.claimed sessionKey hnew rfl ?_)
          simp [State.underWay, Wake.sessionKey?]
        · rw [hleak]
          refine Or.inr ⟨fun hquiet => ?_, ⟨fun other hother => List.mem_append_left _ hother, ?_⟩⟩
          · rcases hthrow with hrun | hdir
            · rw [hquiet.2.2.1] at hrun
              exact absurd hrun Bool.false_ne_true
            · rw [hquiet.2.2.2] at hdir
              exact absurd hdir Bool.false_ne_true
          · simp [State.underWay]
  | sent index error =>
      unfold step at hstep
      dsimp only at hstep
      split at hstep
      · rw [← Option.some.inj hstep]
        exact Or.inl (.same rfl rfl)
      · cases hstep
  | posted index error =>
      unfold step at hstep
      dsimp only at hstep
      split at hstep
      · rw [← Option.some.inj hstep]
        exact Or.inl (.same rfl rfl)
      · cases hstep
  | prepared index preparation =>
      unfold step at hstep
      dsimp only at hstep
      split at hstep
      · rename_i sessionKey hwake
        obtain ⟨hkeep, front, back, hbefore, hended⟩ := underWay_set hwake rfl
        obtain hrun | hend | ⟨hthrow, hleak⟩ :=
          prepare_cases state.inFlightEmbeddedWakes sessionKey preparation
        · rw [← Option.some.inj hstep, hrun]
          exact Or.inl (.same rfl (hkeep _ rfl))
        · rw [← Option.some.inj hstep, hend]
          exact Or.inl (.released sessionKey front back rfl hbefore hended)
        · rw [← Option.some.inj hstep, hleak]
          refine Or.inr ⟨fun hquiet => ?_, ⟨fun _ hother => hother, ?_⟩⟩
          · rcases hthrow with hensure | hdir | hfile
            · exact absurd (hquiet.1.symm.trans hensure) Bool.false_ne_true
            · exact absurd (hquiet.2.1.symm.trans hdir) Bool.false_ne_true
            · exact absurd (hquiet.2.2.symm.trans hfile) Bool.false_ne_true
          · change ((state.wakes.set index .ended).filterMap Wake.sessionKey?).Sublist
              (state.wakes.filterMap Wake.sessionKey?)
            rw [hended, hbefore]
            exact (List.Sublist.refl front).append (List.sublist_cons_self sessionKey back)
      · cases hstep
  | ran index =>
      unfold step at hstep
      dsimp only at hstep
      split at hstep
      · rename_i sessionKey hwake
        obtain ⟨-, front, back, hbefore, hended⟩ := underWay_set hwake rfl
        rw [← Option.some.inj hstep]
        exact Or.inl (.released sessionKey front back rfl hbefore hended)
      · cases hstep

theorem claimed_step (hclaimed : Claimed state) (hstep : step state label = some next) :
    Claimed next := by
  obtain hchange | ⟨-, hslots, hwakes⟩ := slots_step hstep
  · cases hchange with
    | same hslots hwakes =>
        exact ⟨hwakes ▸ hclaimed.nodup, by rw [hslots, hwakes]; exact hclaimed.claimed⟩
    | claimed sessionKey hnew hslots hwakes =>
        constructor
        · rw [hwakes, List.nodup_append_comm, List.singleton_append, List.nodup_cons]
          exact ⟨fun hmem => hnew (hclaimed.claimed _ hmem), hclaimed.nodup⟩
        · rw [hwakes, hslots]
          intro other hother
          rcases List.mem_append.mp hother with hold | hlast
          · exact List.mem_append_left _ (hclaimed.claimed other hold)
          · exact List.mem_append_right _ hlast
    | released sessionKey front back hslots hbefore hwakes =>
        have hnodup := hclaimed.nodup
        rw [hbefore, List.nodup_middle, List.nodup_cons] at hnodup
        constructor
        · rw [hwakes]
          exact hnodup.2
        · rw [hwakes, hslots]
          intro other hother
          refine mem_release.mpr ⟨hclaimed.claimed other ?_, ?_⟩
          · rw [hbefore, List.mem_append, List.mem_cons]
            rcases List.mem_append.mp hother with hfront | hback
            · exact Or.inl hfront
            · exact Or.inr (Or.inr hback)
          · rintro rfl
            exact hnodup.1 hother
  · exact ⟨hwakes.nodup hclaimed.nodup, fun other hother =>
      hslots other (hclaimed.claimed other (hwakes.subset hother))⟩

theorem unblocked_step (hunblocked : Unblocked state) (hquiet : Undisturbed state label)
    (hstep : step state label = some next) : Unblocked next := by
  constructor
  · obtain hchange | ⟨hthrow, -⟩ := slots_step hstep
    · cases hchange with
      | same hslots hwakes =>
          rw [hslots, hwakes]
          exact hunblocked.held
      | claimed sessionKey hnew hslots hwakes =>
          rw [hslots, hwakes]
          intro other hother
          rcases List.mem_append.mp hother with hold | hlast
          · exact List.mem_append_left _ (hunblocked.held other hold)
          · exact List.mem_append_right _ hlast
      | released sessionKey front back hslots hbefore hwakes =>
          rw [hslots, hwakes]
          intro other hother
          obtain ⟨hheld, hne⟩ := mem_release.mp hother
          have hmem := hunblocked.held other hheld
          rw [hbefore, List.mem_append, List.mem_cons] at hmem
          rw [List.mem_append]
          rcases hmem with hfront | heq | hback
          · exact Or.inl hfront
          · exact absurd heq hne
          · exact Or.inr hback
    · exact absurd hquiet hthrow
  · have hset : ∀ (index : Nat) (new : Dispatch), new ≠ .finished false →
        ∀ dispatch ∈ state.dispatches.set index new, dispatch ≠ .finished false := by
      intro index new hnew dispatch hdispatch
      rcases List.mem_or_eq_of_mem_set hdispatch with hold | heq
      · exact hunblocked.posted dispatch hold
      · exact heq ▸ hnew
    cases label with
    | request req runtime =>
        have hreturns := injectSessionWakeUp_ne_none hquiet.1 hquiet.2.1 req
        have happend : ∀ dispatch ∈ state.dispatches ++ [Dispatch.sending req.id],
            dispatch ≠ .finished false := by
          rw [List.forall_mem_append, List.forall_mem_singleton]
          exact ⟨hunblocked.posted, Dispatch.noConfusion⟩
        rw [← Option.some.inj hstep, dispatchAndAck]
        split
        · rename_i hnone
          exact absurd hnone hreturns
        · exact happend
        · exact happend
    | sent index error =>
        unfold step at hstep
        dsimp only at hstep
        split at hstep
        · rw [← Option.some.inj hstep]
          exact hset _ _ Dispatch.noConfusion
        · cases hstep
    | posted index error =>
        unfold step at hstep
        dsimp only at hstep
        split at hstep
        · rename_i id posted _
          rw [← Option.some.inj hstep]
          apply hset
          rcases posted with _ | message
          · rcases error with _ | error
            · exact fun heq => absurd (Dispatch.finished.inj heq) Bool.true_eq_false.mp
            · exact Dispatch.noConfusion
          · exact fun heq => absurd (Dispatch.finished.inj heq) Bool.true_eq_false.mp
        · cases hstep
    | prepared index preparation =>
        unfold step at hstep
        dsimp only at hstep
        split at hstep
        · rw [← Option.some.inj hstep]
          exact hunblocked.posted
        · cases hstep
    | ran index =>
        unfold step at hstep
        dsimp only at hstep
        split at hstep
        · rw [← Option.some.inj hstep]
          exact hunblocked.posted
        · cases hstep

end Steps

theorem one_run_each {labels : List Step} {state : State}
    (hrun : FreeRun step {} labels state) : state.underWay.Nodup :=
  (hrun.invariant Claimed (fun _ _ _ hclaimed _ hstep => claimed_step hclaimed hstep)
    ⟨List.nodup_nil, List.forall_mem_nil _⟩).nodup

/-- In every run in which nothing throws outside the `try` of a run, no two wakes of one session are
under way, a wake is skipped only while another one of its session is, and no request ends without a
posted result. -/
theorem wakes_unblocked {labels : List Step} {state : State}
    (hrun : Run step Undisturbed {} labels state) : state.underWay.Nodup ∧
    (∀ (req : ChatDeliveryRequest) (runtime : Runtime) (sessionKey : String),
      injectSessionWakeUp req runtime = some (some sessionKey) →
      sessionKey ∈ state.inFlightEmbeddedWakes →
        ∃ wake ∈ state.wakes, wake.sessionKey? = some sessionKey) ∧
    ∀ dispatch ∈ state.dispatches, dispatch ≠ .finished false := by
  have hunblocked := hrun.invariant Unblocked
    (fun _ _ _ hunblocked hquiet hstep => unblocked_step hunblocked hquiet hstep)
    ⟨List.forall_mem_nil _, List.forall_mem_nil _⟩
  refine ⟨one_run_each hrun.free, fun req runtime sessionKey _ hskipped => ?_, hunblocked.posted⟩
  exact List.mem_filterMap.mp (hunblocked.held sessionKey hskipped)

def mainRequest : ChatDeliveryRequest := { id := "d-1", sessionKey := some "agent:swe:main" }

def idleRuntime : Runtime where
  mainKeyConfig := .returns (.obj [])
  heartbeatConfig := .returns (.obj [])
  runConfig := .returns (.obj [])
  resolveAgentWorkspaceDir := .returns "/agents/swe"

def brokenRuntime : Runtime := { idleRuntime with resolveAgentWorkspaceDir := .throws }

def configlessRuntime : Runtime := { idleRuntime with mainKeyConfig := .throws }

/-- A second request is skipped while the run of the first one is under way. -/
theorem skipped_while_running : ∃ state : State,
    "agent:swe:main" ∈ state.inFlightEmbeddedWakes ∧ state.underWay.Nodup ∧
      ∃ wake ∈ state.wakes, wake.sessionKey? = some "agent:swe:main" := by
  have hrun : ∃ state, exec step {} [.request mainRequest idleRuntime, .prepared 0 {},
      .request mainRequest idleRuntime] = some state ∧
        "agent:swe:main" ∈ state.inFlightEmbeddedWakes := ⟨_, rfl, by decide +kernel⟩
  obtain ⟨state, hexec, hslot⟩ := hrun
  have hquiet : ∀ label ∈ [Step.request mainRequest idleRuntime, .prepared 0 {},
      .request mainRequest idleRuntime], Undisturbed {} label := by
    rw [List.forall_mem_cons, List.forall_mem_cons, List.forall_mem_singleton]
    exact ⟨⟨rfl, rfl, rfl, rfl⟩, ⟨rfl, rfl, rfl⟩, ⟨rfl, rfl, rfl, rfl⟩⟩
  have hguarded : Run step Undisturbed {} _ state :=
    ((freeRun_iff_exec.mpr hexec).restrict hquiet).mono fun _ _ hok => hok.2
  obtain ⟨hnodup, hskipped, -⟩ := wakes_unblocked hguarded
  have htarget : injectSessionWakeUp mainRequest idleRuntime = some (some "agent:swe:main") := by
    decide +kernel
  exact ⟨state, hslot, hnodup, hskipped _ _ _ htarget hslot⟩

/-- If the workspace cannot be resolved, the next request of the session is skipped although nothing
runs; and if the config cannot be loaded, no result is posted. -/
theorem blocked_by_throw : (∃ state, FreeRun step {} [.request mainRequest brokenRuntime] state ∧
      injectSessionWakeUp mainRequest idleRuntime = some (some "agent:swe:main") ∧
      "agent:swe:main" ∈ state.inFlightEmbeddedWakes ∧ state.wakes = []) ∧
    ∃ state, FreeRun step {} [.request mainRequest configlessRuntime] state ∧
      state.dispatches = [.finished false] := by
  constructor
  · exact ⟨_, freeRun_iff_exec.mpr rfl, by decide +kernel, by decide +kernel, by decide +kernel⟩
  · exact ⟨_, freeRun_iff_exec.mpr rfl, by decide +kernel⟩

end ChatDeliveryPoller

end Aof
