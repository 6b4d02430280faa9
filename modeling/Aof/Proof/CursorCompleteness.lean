import Aof.Proof.CallbackOnce

/-!
# The cursor leaves no gap

The batches that a subscription is told make up a beginning of the task's log, if no event is logged
with a time that the cursor has reached, or will reach when the delivery in flight succeeds.
-/

namespace Aof.CallbackDelivery

open StepSystem

def Process.pending (taskId subscriptionId : String) : Process → Option Nat
  | .updating delivery fields _ | .writing delivery fields _ =>
      if delivery.call.taskId = taskId ∧ delivery.sub.id = subscriptionId then
        fields.lastDeliveredAt
      else none
  | _ => none

def storedCursor (shared : Shared) (taskId subscriptionId : String) : Option Nat :=
  (findSubscription (shared.subscriptions taskId) subscriptionId).bind fun sub =>
    sub.lastDeliveredAt

/-- The cursor of the subscription, once the update in progress is made. -/
def Deliveries.cursor (state : Deliveries) (taskId subscriptionId : String) : Nat :=
  ((state.process.pending taskId subscriptionId).or
    (storedCursor state.shared taskId subscriptionId)).getD 0

/-- An event of the task is logged with a time that is none before the others' and after the cursor;
and when the session of a delivery has been started, the events that are not in its batch are later
than those that are. -/
structure OnTime (taskId subscriptionId : String) (state : Deliveries) (move : Move) : Prop where
  append : ∀ event, move = .append taskId event →
    (∀ earlier ∈ state.log taskId, earlier.timestamp ≤ event.timestamp) ∧
      state.cursor taskId subscriptionId < event.timestamp
  answer : ∀ delivery latest now, state.process = .awaiting delivery →
    delivery.Of taskId subscriptionId → delivery.latest = some latest →
    move = .turn now .success →
    ∀ event ∈ newEvents delivery.sub (state.log taskId), event ∉ state.reading →
      latest < event.1.timestamp

theorem ids_updateSubscription (file : List TaskSubscription) (subscriptionId : String)
    (fields : SubscriptionFields) :
    (updateSubscription file subscriptionId fields).map (fun sub => sub.id) =
      file.map fun sub => sub.id := by
  induction file with
  | nil => rfl
  | cons sub rest ih =>
      rw [updateSubscription]
      split
      · rfl
      · rw [List.map_cons, List.map_cons, ih]

theorem find_of_mem {file : List TaskSubscription} {sub : TaskSubscription}
    (hids : (file.map fun sub => sub.id).Nodup) (hmem : sub ∈ file) :
    findSubscription file sub.id = some sub := by
  induction file with
  | nil => cases hmem
  | cons other rest ih =>
      rw [List.map_cons, List.nodup_cons] at hids
      rw [findSubscription]
      cases List.mem_cons.mp hmem with
      | inl heq =>
          subst heq
          exact List.find?_cons_of_pos (decide_eq_true rfl)
      | inr hrest =>
          have hne : other.id ≠ sub.id := by
            intro hid
            exact hids.1 (hid ▸ List.mem_map_of_mem hrest)
          rw [List.find?_cons_of_neg (by simpa using hne)]
          exact ih hids.2 hrest

structure Current (subscriptionId : String) (file subs : List TaskSubscription) : Prop where
  ids : (subs.map fun sub => sub.id).Nodup
  current : ∀ sub ∈ subs, sub.id = subscriptionId → findSubscription file subscriptionId = some sub

section Current

variable {subscriptionId : String} {file subs rest : List TaskSubscription}
  {sub : TaskSubscription}

theorem Current.tail (hcurrent : Current subscriptionId file (sub :: rest)) :
    Current subscriptionId file rest where
  ids := (List.nodup_cons.mp hcurrent.ids).2
  current other hmem := hcurrent.current other (List.mem_cons_of_mem _ hmem)

variable {file' : List TaskSubscription}

theorem Current.tail_of_eq (hcurrent : Current subscriptionId file (sub :: rest))
    (hid : sub.id = subscriptionId) :
    Current subscriptionId file' rest where
  ids := (List.nodup_cons.mp hcurrent.ids).2
  current other hmem hother := by
    have hfresh : sub.id ∉ rest.map fun sub => sub.id := (List.nodup_cons.mp hcurrent.ids).1
    rw [hid, ← hother] at hfresh
    exact absurd (List.mem_map_of_mem hmem) hfresh

theorem Current.congr (hcurrent : Current subscriptionId file subs)
    (hfind : findSubscription file' subscriptionId = findSubscription file subscriptionId) :
    Current subscriptionId file' subs where
  ids := hcurrent.ids
  current other hmem hother := hfind.trans (hcurrent.current other hmem hother)

theorem current_candidates (hids : (file.map fun sub => sub.id).Nodup) (call : Call) (now : Nat) :
    Current subscriptionId file (call.candidates now file) where
  ids := hids.sublist (List.filter_sublist.map _)
  current _ hmem hother := hother ▸ find_of_mem hids (List.mem_filter.mp hmem).1

end Current

def Process.queue : Process → Option (Call × List TaskSubscription)
  | .delivering call _ subs | .leaving call _ subs => some (call, subs)
  | .awaiting delivery | .updating delivery _ _ | .writing delivery _ _ =>
      some (delivery.call, delivery.sub :: delivery.rest)
  | _ => none

/-- The batch in flight goes on where the log was left, and the cursor will move to its end. -/
structure ReadsOn (log : List LoggedTransition) (told reading : List (LoggedTransition × Nat))
    (delivery : Delivery) (latest : Nat) : Prop where
  ends : delivery.latest = some latest
  onward : told ++ reading <+: log.zipIdx
  within : ∀ event ∈ reading, event.1.timestamp ≤ latest
  forward : delivery.sub.lastDeliveredAt.getD 0 ≤ latest

/-- What an awaited delivery of the subscription will make of its cursor. -/
def Deliveries.InFlight (state : Deliveries) (taskId subscriptionId : String) : Process → Prop
  | .awaiting delivery => delivery.Of taskId subscriptionId →
      match delivery.sub.granularity with
      | .completion => delivery.latest = none
      | .all => ∃ latest, ReadsOn (state.log taskId) (state.batchesOf taskId subscriptionId).flatten
          state.reading delivery latest
  | .writing delivery _ read => state.shared.subscriptions delivery.call.taskId = read
  | _ => True

structure Tracks (taskId subscriptionId : String) (state : Deliveries) : Prop where
  covers : Cursor.Covers LoggedTransition.timestamp (state.log taskId)
    (state.cursor taskId subscriptionId) (state.batchesOf taskId subscriptionId).flatten
  found : (findSubscription (state.shared.subscriptions taskId) subscriptionId).isSome = true
  ids : ((state.shared.subscriptions taskId).map fun sub => sub.id).Nodup
  queue : ∀ call subs, state.process.queue = some (call, subs) → call.taskId = taskId →
    Current subscriptionId (state.shared.subscriptions taskId) subs
  inFlight : state.InFlight taskId subscriptionId state.process

section Tracks

variable {taskId subscriptionId : String} {state : Deliveries}

variable {next : Deliveries} {sub : TaskSubscription} {latest now : Nat} {call : Call}
  {task : CallbackTask} {delivery : Delivery} {fields : SubscriptionFields} {rescued : Bool}
  {answer : SpawnAnswer} {after : Shared × Process}

theorem Tracks.quiet (htracks : Tracks taskId subscriptionId state) (hlog : next.log = state.log)
    (hbatches : next.batchesOf taskId subscriptionId = state.batchesOf taskId subscriptionId)
    (hfiles : next.shared.subscriptions = state.shared.subscriptions)
    (hpending : next.process.pending taskId subscriptionId =
      state.process.pending taskId subscriptionId)
    (hqueue : ∀ call subs, next.process.queue = some (call, subs) → call.taskId = taskId →
      Current subscriptionId (state.shared.subscriptions taskId) subs)
    (hinFlight : next.InFlight taskId subscriptionId next.process) :
    Tracks taskId subscriptionId next := by
  have hcursor : next.cursor taskId subscriptionId = state.cursor taskId subscriptionId := by
    rw [Deliveries.cursor, Deliveries.cursor, hpending, storedCursor, storedCursor, hfiles]
  constructor
  · rw [hlog, hcursor, hbatches]
    exact htracks.covers
  · rw [hfiles]
    exact htracks.found
  · rw [hfiles]
    exact htracks.ids
  · rw [hfiles]
    exact hqueue
  · exact hinFlight

theorem latest_of_newEvents {log : List LoggedTransition}
    (hlatest : latestTransition sub (log.map LoggedTransition.timestamp) = some latest) :
    (∀ event ∈ newEvents sub log, event.1.timestamp ≤ latest) ∧
      sub.lastDeliveredAt.getD 0 ≤ latest := by
  rw [latestTransition, List.max?_eq_some_iff] at hlatest
  obtain ⟨hmem, hmax⟩ := hlatest
  constructor
  · intro event hevent
    obtain ⟨hlogged, hlater⟩ := Cursor.mem_unread.mp hevent
    apply hmax
    apply List.mem_filter.mpr
    refine ⟨List.mem_map_of_mem (List.fst_mem_of_mem_zipIdx hlogged), decide_eq_true hlater⟩
  · exact le_of_lt (of_decide_eq_true (List.mem_filter.mp hmem).2)

theorem cursor_of_pending_none (hpending : state.process.pending taskId subscriptionId = none)
    (hfound : findSubscription (state.shared.subscriptions taskId) subscriptionId = some sub) :
    state.cursor taskId subscriptionId = sub.lastDeliveredAt.getD 0 := by
  rw [Deliveries.cursor, hpending, Option.none_or, storedCursor, hfound, Option.bind_some]

theorem readsOn_newEvents (htracks : Tracks taskId subscriptionId state) {call : Call}
    {task : CallbackTask} {sub : TaskSubscription} {rest : List TaskSubscription} {latest : Nat}
    (hprocess : state.process = .delivering call task (sub :: rest))
    (hof : call.taskId = taskId ∧ sub.id = subscriptionId) (hlatest : latestTransition sub
      ((state.log call.taskId).map LoggedTransition.timestamp) = some latest) :
    ReadsOn (state.log taskId) (state.batchesOf taskId subscriptionId).flatten
      (newEvents sub (state.log call.taskId))
      { call, task, sub, rest, latest := some latest } latest := by
  obtain ⟨htask, hid⟩ := hof
  have hcurrent := htracks.queue call (sub :: rest) (hprocess ▸ rfl) htask
  have hcursor : state.cursor taskId subscriptionId = sub.lastDeliveredAt.getD 0 :=
    cursor_of_pending_none (hprocess ▸ rfl) (hcurrent.current sub List.mem_cons_self hid)
  obtain ⟨hwithin, hforward⟩ := latest_of_newEvents hlatest
  have hwhole : (state.batchesOf taskId subscriptionId).flatten ++
      newEvents sub (state.log call.taskId) = (state.log taskId).zipIdx := by
    rw [newEvents, ← hcursor, htask, htracks.covers.taken_append_unread]
  exact ⟨rfl, hwhole ▸ List.prefix_refl _, hwithin, hforward⟩

theorem pending_updating (hnone : fields.lastDeliveredAt = none) :
    (Process.updating delivery fields rescued).pending taskId subscriptionId = none := by
  rw [Process.pending, hnone]
  split <;> rfl

theorem failureFields_cursor (sub : TaskSubscription) (now : Nat) (message : String) :
    (failureFields sub now message).lastDeliveredAt = none := by
  rw [failureFields]
  split <;> rfl

theorem successFields_cursor (delivery : Delivery) (now : Nat) :
    (successFields delivery now).lastDeliveredAt = delivery.latest := by
  rw [successFields]
  split <;> rfl

theorem settle_cases (shared : Shared) (delivery : Delivery) :
    (settle shared delivery).1.subscriptions = shared.subscriptions ∧
      (settle shared delivery).2.pending taskId subscriptionId = none ∧
      (settle shared delivery).2.queue = some (delivery.call, delivery.rest) ∧
      ∀ state : Deliveries, state.InFlight taskId subscriptionId (settle shared delivery).2 := by
  rw [settle]
  cases delivery.sub.granularity with
  | completion => exact ⟨rfl, rfl, rfl, fun _ => trivial⟩
  | all => exact ⟨rfl, rfl, rfl, fun _ => trivial⟩

theorem inFlight_completion (hcompletion : delivery.sub.granularity = .completion)
    (hlatest : delivery.latest = none) :
    state.InFlight taskId subscriptionId (.awaiting delivery) := by
  intro _
  simp only [hcompletion]
  exact hlatest

theorem inFlight_all {delivery : Delivery} {latest : Nat} (hall : delivery.sub.granularity = .all)
    (hreads : delivery.Of taskId subscriptionId → ReadsOn (state.log taskId)
      (state.batchesOf taskId subscriptionId).flatten state.reading delivery latest) :
    state.InFlight taskId subscriptionId (.awaiting delivery) := by
  intro hof
  simp only [hall]
  exact ⟨latest, hreads hof⟩

def Deliveries.turned (state : Deliveries) (spawn : SpawnAnswer) (after : Shared × Process) :
    Deliveries :=
  { state with
    shared := after.1
    process := after.2
    reading := state.nextReading
    batches := state.nextBatches spawn }

theorem nextBatches_eq
    (hquiet : ∀ delivery, state.process = .awaiting delivery → answer ≠ .success) :
    state.nextBatches answer = state.batches := by
  unfold Deliveries.nextBatches
  split
  · rename_i delivery hprocess
    exact absurd rfl (hquiet delivery hprocess)
  · rfl

theorem batchesOf_turned (hbatches : state.nextBatches answer = state.batches) :
    (state.turned answer after).batchesOf taskId subscriptionId =
      state.batchesOf taskId subscriptionId := by
  simp only [Deliveries.batchesOf, Deliveries.turned, hbatches]

theorem batchesOf_succeed (after : Shared × Process)
    (hprocess : state.process = .awaiting delivery) (hall : delivery.sub.granularity = .all)
    (hof : delivery.Of taskId subscriptionId) :
    (state.turned .success after).batchesOf taskId subscriptionId =
      state.batchesOf taskId subscriptionId ++ [state.reading] := by
  obtain ⟨rfl, rfl⟩ := hof
  simp [Deliveries.batchesOf, Deliveries.turned, Deliveries.nextBatches, hprocess, hall]

theorem batchesOf_succeed_of_not (after : Shared × Process)
    (hprocess : state.process = .awaiting delivery)
    (hother : ¬(delivery.sub.granularity = .all ∧ delivery.Of taskId subscriptionId)) :
    (state.turned .success after).batchesOf taskId subscriptionId =
      state.batchesOf taskId subscriptionId := by
  by_cases hall : delivery.sub.granularity = .all
  · have hne : ¬(delivery.call.taskId = taskId ∧ delivery.sub.id = subscriptionId) :=
      fun hof => hother ⟨hall, hof⟩
    simp [Deliveries.batchesOf, Deliveries.turned, Deliveries.nextBatches, hprocess, hall, hne]
  · simp [Deliveries.batchesOf, Deliveries.turned, Deliveries.nextBatches, hprocess, hall]

variable (htracks : Tracks taskId subscriptionId state)
include htracks

theorem Tracks.rest
    (hqueue : state.process.queue = some (delivery.call, delivery.sub :: delivery.rest)) :
    ∀ call subs, some (delivery.call, delivery.rest) = some (call, subs) → call.taskId = taskId →
      Current subscriptionId (state.shared.subscriptions taskId) subs := by
  intro call subs heq htask
  obtain ⟨rfl, rfl⟩ := Prod.mk.inj (Option.some.inj heq)
  exact (htracks.queue _ _ hqueue htask).tail

theorem tracks_pass (hbatches : state.nextBatches answer = state.batches)
    (hpending : state.process.pending taskId subscriptionId = none)
    (hfiles : after.1.subscriptions = state.shared.subscriptions)
    (hafter : after.2.pending taskId subscriptionId = none)
    (hqueue : ∀ call subs, after.2.queue = some (call, subs) → call.taskId = taskId → Current
      subscriptionId (state.shared.subscriptions taskId) subs)
    (hinFlight : (state.turned answer after).InFlight taskId subscriptionId after.2) :
    Tracks taskId subscriptionId (state.turned answer after) :=
  htracks.quiet rfl (batchesOf_turned hbatches) hfiles (hafter.trans hpending.symm) hqueue
    hinFlight

section

variable (hqueue : state.process.queue = some (delivery.call, delivery.sub :: delivery.rest))
  (hpending : state.process.pending taskId subscriptionId = none)
  (hbatches : state.nextBatches answer = state.batches)
include hqueue hpending hbatches

theorem tracks_settle :
    Tracks taskId subscriptionId (state.turned answer (settle state.shared delivery)) := by
  obtain ⟨hfiles, hafter, hrest, hinFlight⟩ := settle_cases state.shared delivery
  refine tracks_pass htracks hbatches hpending hfiles hafter ?_ (hinFlight _)
  rw [hrest]
  exact htracks.rest hqueue

theorem tracks_fail {message : String} : Tracks taskId subscriptionId (state.turned answer
      (state.shared, .updating delivery (failureFields delivery.sub now message) rescued)) := by
  refine tracks_pass htracks hbatches hpending rfl ?_ ?_ trivial
  · exact pending_updating (failureFields_cursor delivery.sub now message)
  · intro call subs heq
    exact htracks.queue call subs (hqueue.trans heq)

end

theorem tracks_write {read : List TaskSubscription}
    (hprocess : state.process = .writing delivery fields read) : Tracks taskId subscriptionId
      (state.turned answer (settle (state.shared.write delivery fields read) delivery)) := by
  obtain ⟨hfiles, hafter, hrest, hinFlight⟩ :=
    settle_cases (state.shared.write delivery fields read) delivery
  have hread : state.shared.subscriptions delivery.call.taskId = read := by
    have hinFlight := htracks.inFlight
    rw [hprocess] at hinFlight
    exact hinFlight
  have hqueue : state.process.queue = some (delivery.call, delivery.sub :: delivery.rest) :=
    hprocess ▸ rfl
  have hbatches : state.nextBatches answer = state.batches :=
    nextBatches_eq fun other hother => by
      rw [hprocess] at hother
      cases hother
  have hstored : storedCursor (settle (state.shared.write delivery fields read) delivery).1 taskId
      subscriptionId = (state.process.pending taskId subscriptionId).or
        (storedCursor state.shared taskId subscriptionId) := by
    rw [storedCursor, hfiles, storedCursor, hprocess]
    by_cases hof : delivery.Of taskId subscriptionId
    · obtain ⟨sub, hsub⟩ := Option.isSome_iff_exists.mp htracks.found
      have hpending : (Process.writing delivery fields read).pending taskId subscriptionId =
          fields.lastDeliveredAt := if_pos hof
      rw [find_write hread hof, hsub, hpending]
      rfl
    · have hpending : (Process.writing delivery fields read).pending taskId subscriptionId =
          none := if_neg hof
      rw [find_write_of_not hread hof, hpending, Option.none_or]
  have hcursor : (state.turned answer (settle (state.shared.write delivery fields read)
      delivery)).cursor taskId subscriptionId = state.cursor taskId subscriptionId := by
    rw [Deliveries.cursor, Deliveries.cursor, ← hstored]
    simp only [Deliveries.turned]
    rw [hafter, Option.none_or]
  constructor
  · rw [hcursor, batchesOf_turned hbatches]
    exact htracks.covers
  · rw [Deliveries.turned]
    simp only [hfiles]
    by_cases hof : delivery.Of taskId subscriptionId
    · rw [find_write hread hof, Option.isSome_map]
      exact htracks.found
    · rw [find_write_of_not hread hof]
      exact htracks.found
  · rw [Deliveries.turned]
    simp only [hfiles]
    by_cases htask : taskId = delivery.call.taskId
    · subst htask
      simp only [Shared.write, Function.update_self]
      rw [ids_updateSubscription, ← hread]
      exact htracks.ids
    · simp only [Shared.write, Function.update_of_ne htask]
      exact htracks.ids
  · intro call subs hcall htask
    obtain ⟨rfl, rfl⟩ := Prod.mk.inj (Option.some.inj (hrest.symm.trans hcall))
    have hcurrent := htracks.queue _ _ hqueue htask
    simp only [Deliveries.turned, hfiles]
    by_cases hof : delivery.Of taskId subscriptionId
    · exact hcurrent.tail_of_eq hof.2
    · exact hcurrent.tail.congr (find_write_of_not hread hof)
  · exact hinFlight _

theorem tracks_succeed (hprocess : state.process = .awaiting delivery)
    (honTime : OnTime taskId subscriptionId state (.turn now .success)) :
    Tracks taskId subscriptionId (state.turned .success
      (state.shared.record (.succeeded delivery.call.taskId delivery.sub.id),
        .updating delivery (successFields delivery now) rescued)) := by
  have hqueue : state.process.queue = some (delivery.call, delivery.sub :: delivery.rest) :=
    hprocess ▸ rfl
  have hpending : state.process.pending taskId subscriptionId = none := hprocess ▸ rfl
  have hinFlight := htracks.inFlight
  rw [hprocess] at hinFlight
  have hrest : ∀ call subs, some (delivery.call, delivery.sub :: delivery.rest) =
      some (call, subs) → call.taskId = taskId →
      Current subscriptionId (state.shared.subscriptions taskId) subs :=
    fun call subs heq => htracks.queue call subs (hqueue.trans heq)
  by_cases htells : delivery.sub.granularity = .all ∧ delivery.Of taskId subscriptionId
  · obtain ⟨hall, hof⟩ := htells
    have hreads := hinFlight hof
    simp only [hall] at hreads
    obtain ⟨latest, hreads⟩ := hreads
    have hcurrent := htracks.queue _ _ hqueue hof.1
    have hcursor : state.cursor taskId subscriptionId = delivery.sub.lastDeliveredAt.getD 0 :=
      cursor_of_pending_none hpending (hcurrent.current delivery.sub List.mem_cons_self hof.2)
    have hmoved : (Process.updating delivery (successFields delivery now) rescued).pending taskId
        subscriptionId = some latest :=
      (if_pos hof).trans ((successFields_cursor delivery now).trans hreads.ends)
    refine ⟨?_, htracks.found, htracks.ids, hrest, trivial⟩
    rw [batchesOf_succeed _ hprocess hall hof, List.flatten_append, List.flatten_singleton]
    simp only [Deliveries.cursor, Deliveries.turned]
    rw [hmoved]
    apply htracks.covers.advance hreads.onward hreads.within
    · rw [hcursor]
      exact hreads.forward
    · intro event hevent hnot
      rw [hcursor] at hevent
      exact honTime.answer delivery latest now hprocess hof hreads.ends rfl event hevent hnot
  · refine htracks.quiet (by rfl) (batchesOf_succeed_of_not _ hprocess htells) (by rfl) ?_ hrest
      trivial
    rw [hpending]
    by_cases hof : delivery.Of taskId subscriptionId
    · apply pending_updating
      rw [successFields_cursor]
      have hknown := hinFlight hof
      cases hgranularity : delivery.sub.granularity with
      | completion =>
          simp only [hgranularity] at hknown
          exact hknown
      | all => exact absurd ⟨hgranularity, hof⟩ htells
    · exact if_neg hof

theorem tracks_deliver {rest : List TaskSubscription}
    (hprocess : state.process = .delivering call task (sub :: rest))
    (hbatches : state.nextBatches answer = state.batches)
    (hadvance : advance (state.answer now answer) state.shared state.process = some after) :
    Tracks taskId subscriptionId (state.turned answer after) := by
  have hpending : state.process.pending taskId subscriptionId = none := hprocess ▸ rfl
  have hqueue := htracks.queue
  rw [hprocess] at hadvance hqueue
  simp only [advance] at hadvance
  split at hadvance
  · rename_i hcompletion
    obtain rfl := Option.some.inj hadvance
    exact tracks_pass htracks hbatches hpending rfl rfl hqueue (inFlight_completion hcompletion rfl)
  · rename_i hall
    split at hadvance
    · obtain rfl := Option.some.inj hadvance
      refine tracks_pass htracks hbatches hpending rfl rfl ?_ trivial
      intro other subs hother htask
      obtain ⟨rfl, rfl⟩ := Prod.mk.inj (Option.some.inj hother)
      exact (hqueue _ _ rfl htask).tail
    · rename_i latest hlatest
      obtain rfl := Option.some.inj hadvance
      apply tracks_pass htracks hbatches hpending rfl rfl hqueue
      apply inFlight_all hall
      intro hof
      rw [batchesOf_turned hbatches]
      rw [Deliveries.answer, hprocess] at hlatest
      simp only [Deliveries.turned, Deliveries.nextReading, hprocess]
      exact readsOn_newEvents htracks hprocess hof hlatest

theorem tracks_answered (hprocess : state.process = .awaiting delivery)
    (honTime : OnTime taskId subscriptionId state (.turn now answer)) : Tracks taskId subscriptionId
      (state.turned answer (answered (state.answer now answer) state.shared delivery)) := by
  have hqueue : state.process.queue = some (delivery.call, delivery.sub :: delivery.rest) :=
    hprocess ▸ rfl
  have hpending : state.process.pending taskId subscriptionId = none := hprocess ▸ rfl
  cases answer with
  | success => exact tracks_succeed htracks hprocess honTime
  | failure error =>
      have hbatches : state.nextBatches (.failure error) = state.batches :=
        nextBatches_eq fun _ _ => nofun
      simp only [answered, Deliveries.answer]
      split
      · exact tracks_settle htracks hqueue hpending hbatches
      · exact tracks_fail htracks hqueue hpending hbatches
  | throws message =>
      have hbatches : state.nextBatches (.throws message) = state.batches :=
        nextBatches_eq fun _ _ => nofun
      simp only [answered, Deliveries.answer]
      split
      · exact tracks_fail htracks hqueue hpending hbatches
      · exact tracks_settle htracks hqueue hpending hbatches

theorem tracks_update {delivery : Delivery} {fields : SubscriptionFields} {rescued : Bool}
    {now : Nat} {answer : SpawnAnswer} {after : Shared × Process}
    (hprocess : state.process = .updating delivery fields rescued)
    (hbatches : state.nextBatches answer = state.batches)
    (hmoves : Moves (state.answer now answer) state.shared (.updating delivery fields rescued)
      after) : Tracks taskId subscriptionId (state.turned answer after) := by
  have hqueue : state.process.queue = some (delivery.call, delivery.sub :: delivery.rest) :=
    hprocess ▸ rfl
  cases hmoves with
  | stop hnone => cases hnone
  | read =>
      refine htracks.quiet (by rfl) (batchesOf_turned hbatches) (by rfl) ?_ ?_ (by rfl)
      · rw [hprocess]
        rfl
      · intro call subs heq
        exact htracks.queue call subs (hqueue.trans heq)
  | miss hmissing hafter =>
      have hother : ¬delivery.Of taskId subscriptionId := by
        rintro ⟨rfl, rfl⟩
        have hfound := htracks.found
        rw [hmissing] at hfound
        cases hfound
      have hpending : state.process.pending taskId subscriptionId = none := by
        rw [hprocess]
        exact if_neg hother
      cases hafter with
      | inl hsettled =>
          subst hsettled
          exact tracks_settle htracks hqueue hpending hbatches
      | inr hfailed =>
          obtain ⟨message, rfl⟩ := hfailed
          exact tracks_fail htracks hqueue hpending hbatches

theorem tracks_turn (honTime : OnTime taskId subscriptionId state (.turn now answer))
    (hadvance : advance (state.answer now answer) state.shared state.process = some after) :
    Tracks taskId subscriptionId (state.turned answer after) := by
  by_cases hawaiting : ∃ delivery, state.process = .awaiting delivery
  · obtain ⟨delivery, hprocess⟩ := hawaiting
    rw [hprocess] at hadvance
    obtain rfl := Option.some.inj hadvance
    exact tracks_answered htracks hprocess honTime
  have hbatches : state.nextBatches answer = state.batches :=
    nextBatches_eq fun delivery hprocess => absurd ⟨delivery, hprocess⟩ hawaiting
  have hmoves := moves_advance hadvance
  cases hprocess : state.process with
  | started call =>
      have hpending : state.process.pending taskId subscriptionId = none := hprocess ▸ rfl
      rw [hprocess] at hmoves
      cases hmoves with
      | stop => exact tracks_pass htracks hbatches hpending rfl rfl nofun trivial
      | begin => exact tracks_pass htracks hbatches hpending rfl rfl nofun trivial
  | listing call task =>
      have hpending : state.process.pending taskId subscriptionId = none := hprocess ▸ rfl
      rw [hprocess] at hmoves
      cases hmoves with
      | stop => exact tracks_pass htracks hbatches hpending rfl rfl nofun trivial
      | list =>
          refine tracks_pass htracks hbatches hpending rfl rfl ?_ trivial
          intro other subs heq htask
          obtain ⟨rfl, rfl⟩ := Prod.mk.inj (Option.some.inj heq)
          rw [htask]
          exact current_candidates htracks.ids call _
  | delivering call task subs =>
      cases subs with
      | nil =>
          rw [hprocess] at hadvance
          obtain rfl := Option.some.inj hadvance
          exact tracks_pass htracks hbatches (hprocess ▸ rfl) rfl rfl nofun trivial
      | cons sub rest => exact tracks_deliver htracks hprocess hbatches hadvance
  | awaiting delivery => exact absurd ⟨delivery, hprocess⟩ hawaiting
  | updating delivery fields rescued =>
      rw [hprocess] at hmoves
      exact tracks_update htracks hprocess hbatches hmoves
  | writing delivery fields read =>
      rw [hprocess] at hadvance
      obtain rfl := Option.some.inj hadvance
      exact tracks_write htracks hprocess
  | leaving call task rest =>
      rw [hprocess] at hadvance
      obtain rfl := Option.some.inj hadvance
      refine tracks_pass htracks hbatches (hprocess ▸ rfl) rfl rfl ?_ trivial
      intro other subs heq
      apply htracks.queue other subs
      rw [hprocess]
      exact heq
  | finished =>
      rw [hprocess] at hadvance
      cases hadvance

theorem tracks_append {event : LoggedTransition}
    (hlate : ∀ earlier ∈ state.log taskId, earlier.timestamp ≤ event.timestamp)
    (hahead : state.cursor taskId subscriptionId < event.timestamp) : Tracks taskId subscriptionId
      { state with log := Function.update state.log taskId (state.log taskId ++ [event]) } := by
  refine ⟨?_, htracks.found, htracks.ids, htracks.queue, ?_⟩
  · simp only [Function.update_self]
    exact htracks.covers.append hlate hahead
  · have hinFlight := htracks.inFlight
    cases hprocess : state.process with
    | awaiting delivery =>
        rw [hprocess] at hinFlight
        cases hgranularity : delivery.sub.granularity with
        | completion =>
            intro hof
            have hlatest := hinFlight hof
            simp only [hgranularity] at hlatest ⊢
            exact hlatest
        | all =>
            intro hof
            have hreads := hinFlight hof
            simp only [hgranularity] at hreads ⊢
            obtain ⟨latest, hreads⟩ := hreads
            refine ⟨latest, hreads.ends, ?_, hreads.within, hreads.forward⟩
            simp only [Function.update_self, List.zipIdx_append]
            exact hreads.onward.trans (List.prefix_append _ _)
    | writing delivery fields read =>
        rw [hprocess] at hinFlight
        exact hinFlight
    | started | listing | delivering | updating | leaving | finished => trivial

theorem tracks_append_of_ne {other : String} (hother : taskId ≠ other) (event : LoggedTransition) :
    Tracks taskId subscriptionId
      { state with log := Function.update state.log other (state.log other ++ [event]) } := by
  have hlog : Function.update state.log other (state.log other ++ [event]) taskId =
      state.log taskId := Function.update_of_ne hother ..
  refine ⟨?_, htracks.found, htracks.ids, htracks.queue, ?_⟩
  · simp only [hlog]
    exact htracks.covers
  · have hinFlight := htracks.inFlight
    cases hprocess : state.process with
    | awaiting delivery =>
        rw [hprocess] at hinFlight
        simp only [Deliveries.InFlight, hlog] at hinFlight ⊢
        exact hinFlight
    | writing delivery fields read =>
        rw [hprocess] at hinFlight
        exact hinFlight
    | started | listing | delivering | updating | leaving | finished => trivial

theorem tracks_step {move : Move} (honTime : OnTime taskId subscriptionId state move)
    (hstep : state.step move = some next) : Tracks taskId subscriptionId next := by
  cases move with
  | call call =>
      rw [Deliveries.step] at hstep
      split at hstep
      · rename_i hprocess
        obtain rfl := Option.some.inj hstep
        refine htracks.quiet (by rfl) (by rfl) (by rfl) ?_ nofun trivial
        rw [hprocess]
        rfl
      · cases hstep
  | append other event =>
      obtain rfl := Option.some.inj hstep
      by_cases hother : taskId = other
      · subst hother
        obtain ⟨hlate, hahead⟩ := honTime.append event rfl
        exact tracks_append htracks hlate hahead
      · exact tracks_append_of_ne htracks hother event
  | change tasks =>
      obtain rfl := Option.some.inj hstep
      exact ⟨htracks.covers, htracks.found, htracks.ids, htracks.queue, htracks.inFlight⟩
  | turn now answer =>
      rw [Deliveries.step, Option.map_eq_some_iff] at hstep
      obtain ⟨after, hadvance, rfl⟩ := hstep
      exact tracks_turn htracks honTime hadvance

end Tracks

def Deliveries.begins (tasks : String → Option CallbackTask)
    (subscriptions : String → List TaskSubscription) (log : String → List LoggedTransition) :
    Deliveries where
  shared := { tasks, subscriptions }
  log := log

/-- A subscription without a cursor, in a file whose ids differ, and a log in the order of its
times. -/
structure Subscribes (taskId subscriptionId : String)
    (subscriptions : String → List TaskSubscription) (log : String → List LoggedTransition) :
    Prop where
  created : ∃ sub, findSubscription (subscriptions taskId) subscriptionId = some sub ∧
    sub.lastDeliveredAt = none
  ids : ((subscriptions taskId).map fun sub => sub.id).Nodup
  sorted : (log taskId).Pairwise fun a b => a.timestamp ≤ b.timestamp
  positive : ∀ event ∈ log taskId, 0 < event.timestamp

/-- If every event is logged in time, the batches of the subscription leave no gap. -/
theorem deliveries_gapless {taskId subscriptionId : String}
    {tasks : String → Option CallbackTask} {subscriptions : String → List TaskSubscription}
    {log : String → List LoggedTransition} {moves : List Move} {state : Deliveries}
    (hsubscribes : Subscribes taskId subscriptionId subscriptions log)
    (hrun : Run Deliveries.step (OnTime taskId subscriptionId)
      (.begins tasks subscriptions log) moves state) :
    Cursor.Gapless (state.log taskId) (state.batchesOf taskId subscriptionId) := by
  obtain ⟨sub, hsub, hnew⟩ := hsubscribes.created
  have hcursor : (Deliveries.begins tasks subscriptions log).cursor taskId subscriptionId =
      sub.lastDeliveredAt.getD 0 := cursor_of_pending_none rfl hsub
  have hinit : Tracks taskId subscriptionId (.begins tasks subscriptions log) := by
    refine ⟨?_, ?_, hsubscribes.ids, nofun, trivial⟩
    · apply Cursor.covers_nil hsubscribes.sorted
      rw [hcursor, hnew]
      exact hsubscribes.positive
    · rw [Deliveries.begins, hsub]
      rfl
  have htracks := hrun.invariant (Tracks taskId subscriptionId)
    (fun _ _ _ htracks honTime hstep => tracks_step htracks honTime hstep) hinit
  exact Cursor.gapless_of_prefix htracks.covers.beginning

def subscribedToAll : String → List TaskSubscription :=
  fun _ => [{ id := "S", subscriberId := "swe", granularity := .all }]

def transitionAt (timestamp : Nat) : LoggedTransition := ⟨"ready", "in-progress", timestamp⟩

def wholeCall (spawn : SpawnAnswer) (turns : Nat) : List Move :=
  .call ⟨.deliverAllGranularityCallbacks, "A"⟩ :: List.replicate turns (.turn 0 spawn)

/-- The second event is logged in the millisecond of the first one, which has been told. -/
def sameMillisecond : List Move :=
  .append "A" (transitionAt 5) :: wholeCall .success 7 ++
    [.append "A" (transitionAt 5), .append "A" (transitionAt 6)] ++ wholeCall .success 7

def toldTogether : List Move :=
  .append "A" (transitionAt 5) :: wholeCall (.failure none) 5 ++
    [.append "A" (transitionAt 5)] ++ wholeCall .success 7 ++
    [.append "A" (transitionAt 6)] ++ wholeCall .success 7

def onTime (taskId subscriptionId : String) (state : Deliveries) : Move → Bool
  | .append other event =>
      other ≠ taskId ||
        ((state.log taskId).all fun earlier => decide (earlier.timestamp ≤ event.timestamp)) &&
          decide (state.cursor taskId subscriptionId < event.timestamp)
  | .turn _ .success =>
      match state.process with
      | .awaiting delivery =>
          (newEvents delivery.sub (state.log taskId)).all fun event =>
            decide (event ∈ state.reading) ||
              delivery.latest.all fun latest => decide (latest < event.1.timestamp)
      | _ => true
  | _ => true

theorem onTime_of_test {taskId subscriptionId : String} {state : Deliveries} {move : Move}
    (htest : onTime taskId subscriptionId state move = true) :
    OnTime taskId subscriptionId state move := by
  constructor
  · rintro event rfl
    simpa [onTime] using htest
  · rintro delivery latest now hprocess - hlatest rfl event hevent hnot
    simp only [onTime, hprocess, hlatest, List.all_eq_true, Option.all_some, Bool.or_eq_true,
      decide_eq_true_iff] at htest
    exact (htest event hevent).resolve_left hnot

theorem subscribes_to_all : Subscribes "A" "S" subscribedToAll fun _ => [] :=
  ⟨⟨_, rfl, rfl⟩, List.nodup_singleton _, .nil, nofun⟩

theorem told_after_failure : ∃ state : Deliveries, state.batchesOf "A" "S" =
      [[(transitionAt 5, 0), (transitionAt 5, 1)], [(transitionAt 6, 2)]] ∧
    Cursor.Gapless (state.log "A") (state.batchesOf "A" "S") := by
  have hexec : (exec (checked Deliveries.step (onTime "A" "S"))
      (.begins (finishedAt 0) subscribedToAll fun _ => []) toldTogether).any (fun state =>
        state.batchesOf "A" "S" =
          [[(transitionAt 5, 0), (transitionAt 5, 1)], [(transitionAt 6, 2)]]) = true := by
    decide +kernel
  obtain ⟨state, hstate, hbatches⟩ := (Option.any_eq_true _ _).mp hexec
  have hrun := Run.of_exec (fun _ _ h => onTime_of_test h) hstate
  exact ⟨state, of_decide_eq_true hbatches, deliveries_gapless subscribes_to_all hrun⟩

/-- The second event is in no batch. -/
theorem transition_skipped :
    ¬ ∀ (tasks : String → Option CallbackTask) (subscriptions : String → List TaskSubscription)
      (log : String → List LoggedTransition) (moves : List Move) (state : Deliveries)
      (taskId subscriptionId : String), Subscribes taskId subscriptionId subscriptions log →
      FreeRun Deliveries.step (.begins tasks subscriptions log) moves state →
        Cursor.Gapless (state.log taskId) (state.batchesOf taskId subscriptionId) := by
  intro hclaim
  have hexec : (exec Deliveries.step (.begins (finishedAt 0) subscribedToAll fun _ => [])
      sameMillisecond).any (fun state =>
        state.batchesOf "A" "S" = [[(transitionAt 5, 0)], [(transitionAt 6, 2)]] ∧
          state.log "A" = [transitionAt 5, transitionAt 5, transitionAt 6]) = true := by
    decide +kernel
  obtain ⟨state, hstate, hresult⟩ := (Option.any_eq_true _ _).mp hexec
  obtain ⟨hbatches, hlog⟩ := of_decide_eq_true hresult
  have hgapless := hclaim _ _ _ _ state "A" "S" subscribes_to_all (freeRun_iff_exec.mpr hstate)
  rw [hbatches, hlog] at hgapless
  have hskipped := hgapless.complete (transitionAt 5, 1) (by decide) (transitionAt 6, 2)
    (by decide) (by decide)
  exact absurd hskipped (by decide)

end Aof.CallbackDelivery
