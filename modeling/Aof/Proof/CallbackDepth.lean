import Aof.Dispatch.CallbackDelivery

/-!
# The depth of callbacks

A session is one level deeper than the task it is told about.  Two of the three entry points stop at
the limit.
-/

namespace Aof.CallbackDelivery

open Interleaving (Pool Turn Assertion)

inductive Moves (answer : Answer) (shared : Shared) : Process → Shared × Process → Prop
  | stop {process : Process} (hprocess : process.delivery = none) :
      Moves answer shared process (shared, .finished)
  | begin {call : Call} {task : CallbackTask} (hadmits : call.admits task = true) :
      Moves answer shared (.started call) (shared, .listing call task)
  | list (call : Call) (task : CallbackTask) :
      Moves answer shared (.listing call task) (shared, .delivering call task
        (call.candidates answer.now (shared.subscriptions call.taskId)))
  | skip {call : Call} {task : CallbackTask} {sub : TaskSubscription}
      {rest : List TaskSubscription} :
      Moves answer shared (.delivering call task (sub :: rest))
        (shared, .delivering call task rest)
  | spawnCompletion {call : Call} {task : CallbackTask} {sub : TaskSubscription}
      {rest : List TaskSubscription} :
      Moves answer shared (.delivering call task (sub :: rest))
        (spawn { shared with env := some (task.depth + 1) } { call, task, sub, rest })
  | spawnAll {call : Call} {task : CallbackTask} {sub : TaskSubscription}
      {rest : List TaskSubscription} (latest : Nat) (hall : sub.granularity = .all) :
      Moves answer shared (.delivering call task (sub :: rest))
        (spawn shared { call, task, sub, rest, latest := some latest })
  | succeed (delivery : Delivery) (rescued : Bool) :
      Moves answer shared (.awaiting delivery)
        (shared.record (.succeeded delivery.call.taskId delivery.sub.id),
          .updating delivery (successFields delivery answer.now) rescued)
  | fail {delivery : Delivery} (message : String) (rescued : Bool) :
      Moves answer shared (.awaiting delivery)
        (shared, .updating delivery (failureFields delivery.sub answer.now message) rescued)
  | abandon {delivery : Delivery} (hall : delivery.sub.granularity ≠ .completion ∨
      delivery.call.entry = .deliverAllGranularityCallbacks) :
      Moves answer shared (.awaiting delivery) (settle shared delivery)
  | read {delivery : Delivery} {fields : SubscriptionFields} {rescued : Bool} :
      Moves answer shared (.updating delivery fields rescued)
        (shared, .writing delivery fields (shared.subscriptions delivery.call.taskId))
  | miss {delivery : Delivery} {fields : SubscriptionFields} {rescued : Bool}
      {after : Shared × Process}
      (hmissing : findSubscription (shared.subscriptions delivery.call.taskId) delivery.sub.id =
        none)
      (hafter : after = settle shared delivery ∨
        ∃ message, after = (shared, .updating delivery
          (failureFields delivery.sub answer.now message) false)) :
      Moves answer shared (.updating delivery fields rescued) after
  | write (delivery : Delivery) (fields : SubscriptionFields) (read : List TaskSubscription) :
      Moves answer shared (.writing delivery fields read)
        (settle (shared.write delivery fields read) delivery)
  | leave (call : Call) (task : CallbackTask) (rest : List TaskSubscription) :
      Moves answer shared (.leaving call task rest)
        ({ shared with env := none }, .delivering call task rest)

theorem moves_answered (answer : Answer) (shared : Shared) (delivery : Delivery) :
    Moves answer shared (.awaiting delivery) (answered answer shared delivery) := by
  unfold answered
  split
  · exact .succeed delivery _
  · split
    · rename_i hentry
      exact .abandon (.inr hentry)
    · exact .fail _ _
  · dsimp only
    split
    · exact .fail _ _
    · rename_i hall
      exact .abandon (.inl fun h => hall (decide_eq_true h))

variable {answer : Answer} {shared : Shared} {process : Process} {after : Shared × Process}
  {delivery : Delivery}

theorem moves_advance (hadvance : advance answer shared process = some after) :
    Moves answer shared process after := by
  cases process with
  | started call =>
      simp only [advance] at hadvance
      split at hadvance
      · exact Option.some.inj hadvance ▸ .stop rfl
      · rw [← Option.some.inj hadvance]
        split
        · rename_i hadmits
          exact .begin hadmits
        · exact .stop rfl
  | listing call task => exact Option.some.inj hadvance ▸ .list call task
  | delivering call task subs =>
      cases subs with
      | nil => exact Option.some.inj hadvance ▸ .stop rfl
      | cons sub rest =>
          simp only [advance] at hadvance
          split at hadvance
          · exact Option.some.inj hadvance ▸ .spawnCompletion
          · rename_i hall
            split at hadvance
            · exact Option.some.inj hadvance ▸ .skip
            · exact Option.some.inj hadvance ▸ .spawnAll _ hall
  | awaiting delivery => exact Option.some.inj hadvance ▸ moves_answered answer shared delivery
  | updating delivery fields rescued =>
      simp only [advance] at hadvance
      split at hadvance
      · exact Option.some.inj hadvance ▸ .read
      · rename_i hmissing
        split at hadvance
        · exact .miss hmissing (.inr ⟨_, (Option.some.inj hadvance).symm⟩)
        · exact .miss hmissing (.inl (Option.some.inj hadvance).symm)
  | writing delivery fields read =>
      exact Option.some.inj hadvance ▸ .write delivery fields read
  | leaving call task rest => exact Option.some.inj hadvance ▸ .leave call task rest
  | finished => cases hadvance

def NoDeepRetry (pool : Pool Shared Process) (turn : Turn Answer) : Prop :=
  ∀ call task, pool.processes[turn.index]? = some (.listing call task) →
    call.entry = .retryPendingDeliveries → MAX_CALLBACK_DEPTH ≤ task.depth →
    call.candidates turn.event.now (pool.shared.subscriptions call.taskId) = []

/-- Neither the context nor the environment of the session goes beyond the limit. -/
structure Session.Bounded (session : Session) : Prop where
  context : session.callbackDepth ≤ MAX_CALLBACK_DEPTH
  env : ∀ depth, session.env = some depth → depth ≤ MAX_CALLBACK_DEPTH

def Process.Shallow : Process → Prop
  | .started _ | .finished => True
  | .listing call task =>
      call.entry ≠ .retryPendingDeliveries → task.depth < MAX_CALLBACK_DEPTH
  | .delivering _ task subs => subs ≠ [] → task.depth < MAX_CALLBACK_DEPTH
  | .awaiting delivery | .updating delivery _ _ | .writing delivery _ _ =>
      delivery.task.depth < MAX_CALLBACK_DEPTH
  | .leaving _ task _ => task.depth < MAX_CALLBACK_DEPTH

structure Shared.Shallow (shared : Shared) : Prop where
  env : ∀ depth, shared.env = some depth → depth ≤ MAX_CALLBACK_DEPTH
  sessions : ∀ session, .spawned session ∈ shared.history → session.Bounded

def shallow : Assertion Shared Process where
  global := Shared.Shallow
  waiting _ process := process.Shallow
  apart _ _ := True

theorem Shared.Shallow.record {event : Event} (hshallow : shared.Shallow)
    (hevent : ∀ session, event = .spawned session → session.Bounded) :
    (shared.record event).Shallow := by
  refine ⟨hshallow.env, fun session hmem => ?_⟩
  rcases List.mem_append.mp hmem with hold | hnew
  · exact hshallow.sessions session hold
  · exact hevent session (List.mem_singleton.mp hnew).symm

theorem shallow_spawn (hshallow : shared.Shallow)
    (hdepth : delivery.task.depth < MAX_CALLBACK_DEPTH) : (spawn shared delivery).1.Shallow := by
  apply hshallow.record
  intro session hsession
  obtain rfl := Event.spawned.inj hsession
  exact ⟨hdepth, hshallow.env⟩

theorem shallow_settle (hshallow : shared.Shallow)
    (hdepth : delivery.task.depth < MAX_CALLBACK_DEPTH) :
    (settle shared delivery).1.Shallow ∧ (settle shared delivery).2.Shallow := by
  refine ⟨hshallow.record nofun, ?_⟩
  unfold settle
  cases delivery.sub.granularity with
  | completion => exact hdepth
  | all => exact fun _ => hdepth

theorem depth_of_admits {call : Call} {task : CallbackTask} (hadmits : call.admits task = true)
    (hentry : call.entry ≠ .retryPendingDeliveries) : task.depth < MAX_CALLBACK_DEPTH := by
  unfold Call.admits at hadmits
  split at hadmits
  · exact (of_decide_eq_true hadmits).2
  · exact of_decide_eq_true hadmits
  · rename_i hretry
    exact absurd hretry hentry

theorem shallow_moves (hshallow : shared.Shallow) (hprocess : process.Shallow)
    (hguard : ∀ call task, process = .listing call task →
      call.entry = .retryPendingDeliveries → MAX_CALLBACK_DEPTH ≤ task.depth →
      call.candidates answer.now (shared.subscriptions call.taskId) = [])
    (hmoves : Moves answer shared process after) : after.1.Shallow ∧ after.2.Shallow := by
  cases hmoves with
  | stop => exact ⟨hshallow, trivial⟩
  | begin hadmits => exact ⟨hshallow, depth_of_admits hadmits⟩
  | list call task =>
      refine ⟨hshallow, fun hcandidates => ?_⟩
      by_cases hentry : call.entry = .retryPendingDeliveries
      · apply Nat.lt_of_not_le
        exact fun hdeep => hcandidates (hguard call task rfl hentry hdeep)
      · exact hprocess hentry
  | skip => exact ⟨hshallow, fun _ => hprocess (List.cons_ne_nil _ _)⟩
  | spawnCompletion =>
      rename_i call task sub rest
      have hdepth : task.depth < MAX_CALLBACK_DEPTH := hprocess (List.cons_ne_nil sub rest)
      refine ⟨shallow_spawn ⟨?_, hshallow.sessions⟩ hdepth, hdepth⟩
      intro depth henv
      rw [← Option.some.inj henv]
      exact hdepth
  | spawnAll latest hall =>
      have hdepth := hprocess (List.cons_ne_nil _ _)
      exact ⟨shallow_spawn hshallow hdepth, hdepth⟩
  | succeed delivery rescued => exact ⟨hshallow.record nofun, hprocess⟩
  | fail message rescued => exact ⟨hshallow, hprocess⟩
  | abandon hall => exact shallow_settle hshallow hprocess
  | read => exact ⟨hshallow, hprocess⟩
  | miss hmissing hafter =>
      rcases hafter with rfl | ⟨message, rfl⟩
      · exact shallow_settle hshallow hprocess
      · exact ⟨hshallow, hprocess⟩
  | write delivery fields read =>
      exact shallow_settle ⟨hshallow.env, hshallow.sessions⟩ hprocess
  | leave call task rest => exact ⟨⟨nofun, hshallow.sessions⟩, fun _ => hprocess⟩

theorem preserves_shallow : Interleaving.Preserves advance NoDeepRetry shallow where
  symm := fun _ => trivial
  others := fun hholds _ _ _ _ hother => ⟨hholds.waiting _ _ hother, trivial⟩
  own := by
    intro pool turn process after next hholds hguard hprocess hadvance
    apply shallow_moves hholds.global (hholds.waiting _ _ hprocess) ?_ (moves_advance hadvance)
    rintro call task rfl
    exact hguard call task hprocess

def begins (tasks : String → Option CallbackTask)
    (subscriptions : String → List TaskSubscription) (calls : List Call) : Pool Shared Process :=
  ⟨{ tasks, subscriptions }, calls.map .started⟩

/-- No session goes beyond the limit, as long as no retry for a task at the limit finds a
subscription that is due. -/
theorem callbackDepth_bounded {tasks : String → Option CallbackTask}
    {subscriptions : String → List TaskSubscription} {calls : List Call}
    {turns : List (Turn Answer)} {pool : Pool Shared Process}
    (hrun : Interleaving.Runs advance NoDeepRetry (begins tasks subscriptions calls) turns pool)
    {session : Session} (hspawned : .spawned session ∈ pool.shared.history) : session.Bounded := by
  have hinit : shallow.Holds (begins tasks subscriptions calls) := by
    refine ⟨⟨nofun, fun session hmem => absurd hmem List.not_mem_nil⟩, ?_, fun _ _ _ _ _ _ _ =>
      trivial⟩
    intro index process hprocess
    obtain ⟨call, -, rfl⟩ := List.mem_map.mp (List.mem_of_getElem? hprocess)
    trivial
  exact (preserves_shallow.run hrun hinit).global.sessions session hspawned

def finishedAt (depth : Nat) : String → Option CallbackTask :=
  fun _ => some { status := .done, callbackDepth := some depth }

def subscribed : String → List TaskSubscription :=
  fun _ => [{ id := "S", subscriberId := "swe", granularity := .completion }]

def sessions (shared : Shared) : List Session :=
  shared.history.filterMap fun event =>
    match event with
    | .spawned session => some session
    | _ => none

theorem mem_sessions {session : Session} :
    session ∈ sessions shared ↔ .spawned session ∈ shared.history := by
  simp only [sessions, List.mem_filterMap]
  constructor
  · rintro ⟨event, hmem, hevent⟩
    cases event with
    | spawned other => exact Option.some.inj hevent ▸ hmem
    | succeeded => cases hevent
    | settled => cases hevent
  · exact fun hmem => ⟨_, hmem, rfl⟩

/-- A retry spawns a session for a task at the limit. -/
theorem retry_exceeds_depth : ∃ tasks subscriptions calls turns pool,
    StepSystem.FreeRun (Interleaving.step advance) (begins tasks subscriptions calls) turns pool ∧
      ∃ session, .spawned session ∈ pool.shared.history ∧
        MAX_CALLBACK_DEPTH < session.callbackDepth := by
  have hexec : (StepSystem.exec (Interleaving.step advance)
      (begins (finishedAt 3) subscribed [⟨.retryPendingDeliveries, "A"⟩])
      (List.replicate 3 ⟨0, {}⟩)).any (fun pool =>
        (sessions pool.shared).any fun session => MAX_CALLBACK_DEPTH < session.callbackDepth) =
        true := by rfl
  obtain ⟨pool, hpool, htest⟩ := (Option.any_eq_true _ _).mp hexec
  obtain ⟨session, hmem, hdeep⟩ := List.any_eq_true.mp htest
  exact ⟨_, _, _, _, pool, StepSystem.freeRun_iff_exec.mpr hpool, session, mem_sessions.mp hmem,
    of_decide_eq_true hdeep⟩

def noDeepRetry (pool : Pool Shared Process) (turn : Turn Answer) : Bool :=
  match pool.processes[turn.index]? with
  | some (.listing _ task) => task.depth < MAX_CALLBACK_DEPTH
  | _ => true

theorem noDeepRetry_of_test {pool : Pool Shared Process} {turn : Turn Answer}
    (htest : noDeepRetry pool turn = true) : NoDeepRetry pool turn := by
  intro call task hlisting _ hdeep
  rw [noDeepRetry, hlisting] at htest
  exact absurd (of_decide_eq_true htest) (Nat.not_lt.mpr hdeep)

/-- One level below the limit, a failed delivery is tried again with the deepest session. -/
theorem deepest_retry : ∃ turns pool session,
    Interleaving.Runs advance NoDeepRetry (begins (finishedAt 2) subscribed
      [⟨.deliverCallbacks, "A"⟩, ⟨.retryPendingDeliveries, "A"⟩]) turns pool ∧
    .spawned session ∈ pool.shared.history ∧ session.callbackDepth = MAX_CALLBACK_DEPTH ∧
    session.Bounded := by
  have hexec : (StepSystem.exec (StepSystem.checked (Interleaving.step advance) noDeepRetry)
      (begins (finishedAt 2) subscribed
        [⟨.deliverCallbacks, "A"⟩, ⟨.retryPendingDeliveries, "A"⟩])
      (List.replicate 7 ⟨0, { spawn := .throws "offline" }⟩ ++
        List.replicate 3 ⟨1, { now := 60000 }⟩)).any (fun pool =>
          (sessions pool.shared).any fun session =>
            session.callbackDepth = MAX_CALLBACK_DEPTH) = true := by rfl
  obtain ⟨pool, hpool, htest⟩ := (Option.any_eq_true _ _).mp hexec
  obtain ⟨session, hmem, hdeepest⟩ := List.any_eq_true.mp htest
  have hrun := StepSystem.Run.of_exec (fun _ _ h => noDeepRetry_of_test h) hpool
  exact ⟨_, pool, session, hrun, mem_sessions.mp hmem, of_decide_eq_true hdeepest,
    callbackDepth_bounded hrun (mem_sessions.mp hmem)⟩

end Aof.CallbackDelivery
