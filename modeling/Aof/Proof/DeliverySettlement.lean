import Aof.Openclaw.ChatDelivery

/-!
# Chat deliveries are settled once

A request waits until it is handed out or settled, its claim lasts until it is settled, and so do
its waiter and the timer.  So the order in which timers, claims and results come does not matter.
-/

namespace Aof

open StepSystem

namespace DeliveryRecord

@[simp]
def queuedId : DeliveryRecord → Option String
  | queued id => some id
  | _ => none

@[simp]
def claimedId : DeliveryRecord → Option String
  | claimed id => some id
  | _ => none

@[simp]
def handedId : DeliveryRecord → Option String
  | claimed id | taken id => some id
  | _ => none

@[simp]
def settledId : DeliveryRecord → Option String
  | settled id _ => some id
  | _ => none

end DeliveryRecord

namespace ChatDeliveryQueue

variable (queue : ChatDeliveryQueue)

def queuedIds : List String := queue.history.filterMap DeliveryRecord.queuedId

def claimedIds : List String := queue.history.filterMap DeliveryRecord.claimedId

def handedIds : List String := queue.history.filterMap DeliveryRecord.handedId

def settledIds : List String := queue.history.filterMap DeliveryRecord.settledId

end ChatDeliveryQueue

/-- A timer of the request has fired, or its result was posted. -/
def DeliveryEvent.answers (id : String) : DeliveryEvent → Bool
  | .timeout other | .deliverResult other _ => other = id
  | _ => false

def DeliveryEvent.enqueues : DeliveryEvent → Option (String × Option JsNumber)
  | .enqueueAndAwait request timeoutMs => some (request.id, timeoutMs)
  | _ => none

/-- Each request is settled once it is answered, and only then; it is handed out once at most, and
not after it is settled; and nothing is left of it. -/
structure SettledOnce (events : List DeliveryEvent) (queue : ChatDeliveryQueue) : Prop where
  once : ∀ id,
    queue.settledIds.count id = if events.any (DeliveryEvent.answers id) then 1 else 0
  timed : ∀ request timeoutMs, .enqueueAndAwait request timeoutMs ∈ events →
    request.id ∉ queue.settledIds →
      queue.timers.get? request.id = ChatDeliveryQueue.armedTimeout timeoutMs
  handed : ∀ id, queue.handedIds.count id ≤ 1
  timely : queue.history.Pairwise fun earlier later =>
    ∀ id, earlier.settledId = some id → later.handedId ≠ some id
  gone : ∀ id ∈ queue.settledIds, id ∉ queue.pending.keys ∧ id ∉ queue.claimed ∧
    id ∉ queue.waiters.keys ∧ id ∉ queue.timers.keys

namespace ChatDeliveryQueue

structure Tracked (queue : ChatDeliveryQueue) : Prop where
  distinct : queue.queuedIds.Nodup
  pending : queue.pending.keys =
    queue.queuedIds.filter fun id => id ∉ queue.handedIds ∧ id ∉ queue.settledIds
  claimed : ∀ id, id ∈ queue.claimed ↔ id ∈ queue.handedIds ∧ id ∉ queue.settledIds
  waiters : ∀ id, queue.waiters.has id = true ↔ id ∈ queue.queuedIds ∧ id ∉ queue.settledIds
  timers : ∀ id, queue.timers.get? id = (queue.waiters.get? id).bind Waiter.timer
  handed : queue.handedIds.Nodup ∧ queue.handedIds ⊆ queue.queuedIds
  settled : queue.settledIds.Nodup ∧ queue.settledIds ⊆ queue.queuedIds
  ordered : (queue.claimedIds ++ queue.pending.keys).Sublist queue.queuedIds
  timely : queue.history.Pairwise fun earlier later =>
    ∀ id, earlier.settledId = some id → later.handedId ≠ some id

section Record

variable {queue : ChatDeliveryQueue} {entry : DeliveryRecord} {id : String}

section

variable (queue : ChatDeliveryQueue) (entry : DeliveryRecord)

@[simp]
theorem queuedIds_record :
    (queue.record entry).queuedIds = queue.queuedIds ++ entry.queuedId.toList := by
  rw [queuedIds, record, List.filterMap_append, List.filterMap_cons]
  cases entry.queuedId <;> rfl

@[simp]
theorem claimedIds_record :
    (queue.record entry).claimedIds = queue.claimedIds ++ entry.claimedId.toList := by
  rw [claimedIds, record, List.filterMap_append, List.filterMap_cons]
  cases entry.claimedId <;> rfl

@[simp]
theorem handedIds_record :
    (queue.record entry).handedIds = queue.handedIds ++ entry.handedId.toList := by
  rw [handedIds, record, List.filterMap_append, List.filterMap_cons]
  cases entry.handedId <;> rfl

@[simp]
theorem settledIds_record :
    (queue.record entry).settledIds = queue.settledIds ++ entry.settledId.toList := by
  rw [settledIds, record, List.filterMap_append, List.filterMap_cons]
  cases entry.settledId <;> rfl

@[simp]
theorem pending_record :
    (queue.record entry).pending = queue.pending := rfl

@[simp]
theorem waiters_record :
    (queue.record entry).waiters = queue.waiters := rfl

@[simp]
theorem timers_record :
    (queue.record entry).timers = queue.timers := rfl

end

theorem timely_record (htimely : queue.history.Pairwise fun earlier later =>
      ∀ id, earlier.settledId = some id → later.handedId ≠ some id)
    (hentry : ∀ id ∈ queue.settledIds, entry.handedId ≠ some id) :
    (queue.record entry).history.Pairwise fun earlier later =>
      ∀ id, earlier.settledId = some id → later.handedId ≠ some id := by
  apply List.pairwise_append.mpr ⟨htimely, List.pairwise_singleton _ _, _⟩
  intro earlier hearlier later hlater id hsettled
  rw [List.mem_singleton.mp hlater]
  exact hentry id (List.mem_filterMap.mpr ⟨earlier, hearlier, hsettled⟩)

theorem mem_ids_of_mem (hid : id ∈ queue.queuedIds ∨ id ∈ queue.handedIds ∨
    id ∈ queue.settledIds) : id ∈ queue.history.map DeliveryRecord.id := by
  rw [queuedIds, handedIds, settledIds, List.mem_filterMap, List.mem_filterMap,
    List.mem_filterMap] at hid
  obtain ⟨entry, hentry, hsome⟩ | ⟨entry, hentry, hsome⟩ | ⟨entry, hentry, hsome⟩ := hid <;>
  · apply List.mem_map.mpr ⟨entry, hentry, _⟩
    cases entry <;> cases hsome <;> rfl

end Record

section Steps

variable {queue : ChatDeliveryQueue} {id : String}

theorem Tracked.mem_pending (hqueue : Tracked queue) : id ∈ queue.pending.keys ↔
      id ∈ queue.queuedIds ∧ id ∉ queue.handedIds ∧ id ∉ queue.settledIds := by
  rw [hqueue.pending, List.mem_filter, decide_eq_true_eq]

theorem get?_arm (timers : Dict String JsNumber) (id other : String) (timer : Option JsNumber) :
    (arm timers id timer).get? other =
      if id = other then timer.or (timers.get? other) else timers.get? other := by
  cases timer with
  | none => simp [arm]
  | some bound => simp [arm, Dict.get?_set]

variable (hqueue : Tracked queue)
include hqueue

theorem Tracked.not_waiting (hid : id ∉ queue.queuedIds) : queue.waiters.get? id = none := by
  apply Option.isNone_iff_eq_none.mp
  rw [Option.isNone_iff_eq_none, ← Option.not_isSome_iff_eq_none]
  exact fun hsome => hid ((hqueue.waiters id).mp hsome).1

theorem tracked_enqueueAndAwait {request : ChatDeliveryRequest}
    (hfresh : request.id ∉ queue.history.map DeliveryRecord.id) (timeoutMs : Option JsNumber) :
    Tracked (queue.enqueueAndAwait request timeoutMs) := by
  have hqueued : request.id ∉ queue.queuedIds := fun h => hfresh (mem_ids_of_mem (.inl h))
  have hhanded : request.id ∉ queue.handedIds := fun h => hfresh (mem_ids_of_mem (.inr (.inl h)))
  have hsettled : request.id ∉ queue.settledIds :=
    fun h => hfresh (mem_ids_of_mem (.inr (.inr h)))
  have hkeys : (queue.enqueueAndAwait request timeoutMs).pending.keys =
      queue.pending.keys ++ [request.id] := by
    rw [enqueueAndAwait, pending_record, Dict.keys_set,
      if_neg fun h => hqueued (hqueue.mem_pending.mp h).1]
  have hids : (queue.enqueueAndAwait request timeoutMs).queuedIds =
      queue.queuedIds ++ [request.id] := queuedIds_record _ _
  have hhandedIds : (queue.enqueueAndAwait request timeoutMs).handedIds = queue.handedIds := by
    rw [enqueueAndAwait, handedIds_record]
    exact List.append_nil _
  have hsettledIds : (queue.enqueueAndAwait request timeoutMs).settledIds = queue.settledIds := by
    rw [enqueueAndAwait, settledIds_record]
    exact List.append_nil _
  have hclaimedIds : (queue.enqueueAndAwait request timeoutMs).claimedIds = queue.claimedIds := by
    rw [enqueueAndAwait, claimedIds_record]
    exact List.append_nil _
  refine ⟨?_, ?_, ?_, ?_, ?_, ?_, ?_, ?_, ?_⟩
  · rw [hids]
    exact hqueue.distinct.append (List.nodup_singleton _) (by simpa using hqueued)
  · rw [hkeys, hids, hhandedIds, hsettledIds, List.filter_append, ← hqueue.pending]
    simp [hhanded, hsettled]
  · intro id
    rw [hhandedIds, hsettledIds]
    exact hqueue.claimed id
  · intro id
    rw [hids, hsettledIds, enqueueAndAwait, waiters_record, Dict.has_set, Bool.or_eq_true,
      hqueue.waiters, decide_eq_true_eq, List.mem_append, List.mem_singleton]
    constructor
    · rintro (rfl | hold)
      · exact ⟨.inr rfl, hsettled⟩
      · exact ⟨.inl hold.1, hold.2⟩
    · rintro ⟨hid | rfl, hnot⟩
      · exact .inr ⟨hid, hnot⟩
      · exact .inl rfl
  · intro id
    rw [enqueueAndAwait, timers_record, waiters_record, get?_arm, Dict.get?_set]
    split
    · rename_i hid
      rw [hqueue.timers, hqueue.not_waiting (hid ▸ hqueued)]
      exact Option.or_none
    · exact hqueue.timers id
  · rw [hids, hhandedIds]
    exact ⟨hqueue.handed.1, List.Subset.trans hqueue.handed.2 (List.subset_append_left _ _)⟩
  · rw [hids, hsettledIds]
    exact ⟨hqueue.settled.1, List.Subset.trans hqueue.settled.2 (List.subset_append_left _ _)⟩
  · rw [hkeys, hids, hclaimedIds, ← List.append_assoc]
    exact hqueue.ordered.append_right _
  · exact timely_record hqueue.timely fun _ _ h => by cases h

theorem tracked_take (hwaits : id ∈ queue.pending.keys) {entry : DeliveryRecord}
    (hqueued : entry.queuedId = none) (hhanded : entry.handedId = some id)
    (hsettled : entry.settledId = none)
    (hordered : (queue.claimedIds ++ entry.claimedId.toList ++ queue.pending.keys.filter (· ≠
      id)).Sublist queue.queuedIds) : Tracked ((queue.take id).record entry) := by
  obtain ⟨hid, hnotHanded, hnotSettled⟩ := hqueue.mem_pending.mp hwaits
  have hids : ((queue.take id).record entry).queuedIds = queue.queuedIds := by
    rw [queuedIds_record, hqueued]
    exact List.append_nil _
  have hhandedIds : ((queue.take id).record entry).handedIds = queue.handedIds ++ [id] := by
    rw [handedIds_record, hhanded]
    rfl
  have hsettledIds : ((queue.take id).record entry).settledIds = queue.settledIds := by
    rw [settledIds_record, hsettled]
    exact List.append_nil _
  have hkeys : ((queue.take id).record entry).pending.keys =
      queue.pending.keys.filter fun other => other ≠ id := Dict.keys_erase _ _
  refine ⟨?_, ?_, ?_, ?_, ?_, ?_, ?_, ?_, ?_⟩
  · rw [hids]
    exact hqueue.distinct
  · rw [hkeys, hqueue.pending, hids, hhandedIds, hsettledIds, List.filter_filter]
    apply List.filter_congr
    intro other _
    by_cases hother : other = id <;> simp [hother]
  · intro other
    have hclaimed := hqueue.claimed other
    rw [hhandedIds, hsettledIds]
    by_cases hother : other = id
    · simp [hother, take, record, hnotSettled]
    · simpa [hother, take, record] using hclaimed
  · intro other
    rw [hids, hsettledIds]
    exact hqueue.waiters other
  · exact hqueue.timers
  · rw [hids, hhandedIds]
    refine ⟨hqueue.handed.1.append (List.nodup_singleton _) (by simpa using hnotHanded), ?_⟩
    exact List.append_subset.mpr ⟨hqueue.handed.2, List.cons_subset.mpr ⟨hid, List.nil_subset _⟩⟩
  · rw [hids, hsettledIds]
    exact hqueue.settled
  · rw [hids, hkeys, claimedIds_record]
    exact hordered
  · apply timely_record hqueue.timely
    intro other hother hsame
    obtain rfl := Option.some.inj (hhanded.symm.trans hsame)
    exact hnotSettled hother

theorem tracked_settle (hid : id ∈ queue.queuedIds) (hopen : id ∉ queue.settledIds)
    {pending : Dict String ChatDeliveryRequest}
    (hpending : pending.keys = queue.pending.keys.filter fun other => other ≠ id)
    {timers : Dict String JsNumber}
    (htimers : ∀ other, timers.get? other = if other = id then none else queue.timers.get? other)
    (outcome : DeliveryOutcome) : Tracked ({ queue with pending, timers }.settle id outcome) := by
  have hids : ({ queue with pending, timers }.settle id outcome).queuedIds = queue.queuedIds := by
    rw [settle, queuedIds_record]
    exact List.append_nil _
  have hhandedIds : ({ queue with pending, timers }.settle id outcome).handedIds =
      queue.handedIds := by
    rw [settle, handedIds_record]
    exact List.append_nil _
  have hclaimedIds : ({ queue with pending, timers }.settle id outcome).claimedIds =
      queue.claimedIds := by
    rw [settle, claimedIds_record]
    exact List.append_nil _
  have hsettledIds : ({ queue with pending, timers }.settle id outcome).settledIds =
      queue.settledIds ++ [id] := settledIds_record _ _
  refine ⟨?_, ?_, ?_, ?_, ?_, ?_, ?_, ?_, ?_⟩
  · rw [hids]
    exact hqueue.distinct
  · rw [hids, hhandedIds, hsettledIds]
    apply hpending.trans
    rw [hqueue.pending, List.filter_filter]
    apply List.filter_congr
    intro other _
    by_cases hother : other = id <;> simp [hother]
  · intro other
    have hclaimed := hqueue.claimed other
    rw [hhandedIds, hsettledIds]
    by_cases hother : other = id
    · simp [hother, settle, record]
    · simpa [hother, settle, record] using hclaimed
  · intro other
    have hwaiters := hqueue.waiters other
    rw [hids, hsettledIds, settle, waiters_record, Dict.has_erase, Bool.and_eq_true, hwaiters]
    simp [and_assoc]
  · intro other
    rw [settle, timers_record, waiters_record, Dict.get?_erase]
    apply (htimers other).trans
    split
    · rfl
    · exact hqueue.timers other
  · rw [hids, hhandedIds]
    exact hqueue.handed
  · rw [hids, hsettledIds]
    refine ⟨hqueue.settled.1.append (List.nodup_singleton _) (by simpa using hopen), ?_⟩
    exact List.append_subset.mpr ⟨hqueue.settled.2, List.cons_subset.mpr ⟨hid, List.nil_subset _⟩⟩
  · rw [hids, hclaimedIds]
    apply List.Sublist.trans _ hqueue.ordered
    apply List.Sublist.append_left
    rw [settle, pending_record, hpending]
    exact List.filter_sublist
  · exact timely_record hqueue.timely fun _ _ h => by cases h

theorem Tracked.claim_eq : queue.claim = (queue.pending.entries.head?.map Prod.snd,
      (queue.pending.keys.head?.map fun id => (queue.take id).record (.claimed id)).getD queue) := by
  rw [claim, Dict.keys]
  cases hentries : queue.pending.entries with
  | nil => rfl
  | cons entry rest =>
      have hwaits : entry.1 ∈ queue.pending.keys := by
        rw [Dict.keys, hentries]
        exact List.mem_cons_self
      have hfree : entry.1 ∉ queue.claimed := fun hclaimed =>
        (hqueue.mem_pending.mp hwaits).2.1 ((hqueue.claimed _).mp hclaimed).1
      have hfind : (entry :: rest).find? (fun entry => entry.1 ∉ queue.claimed) = some entry :=
        List.find?_cons_of_pos (decide_eq_true hfree)
      rw [hfind]
      rfl

theorem tracked_claim : Tracked queue.claim.2 := by
  rw [hqueue.claim_eq]
  cases hkeys : queue.pending.keys with
  | nil => exact hqueue
  | cons id rest =>
      have hnodup : (id :: rest).Nodup := hkeys ▸ queue.pending.nodup
      have hrest : rest.filter (· ≠ id) = rest := by
        apply List.filter_eq_self.mpr
        intro other hother
        exact decide_eq_true fun heq => (List.nodup_cons.mp hnodup).1 (heq ▸ hother)
      apply tracked_take hqueue (hkeys ▸ List.mem_cons_self) rfl rfl rfl
      have hordered := hqueue.ordered
      rw [hkeys] at hordered
      rw [hkeys, List.filter_cons_of_neg (by simp), hrest]
      simpa using hordered

theorem tracked_tryClaim (id : String) : Tracked (queue.tryClaim id).2 := by
  unfold tryClaim
  split
  · rename_i hwaits
    apply tracked_take hqueue (Dict.has_iff.mp hwaits) rfl rfl rfl
    apply List.Sublist.trans _ hqueue.ordered
    rw [show queue.claimedIds ++ (DeliveryRecord.taken id).claimedId.toList = queue.claimedIds from
      List.append_nil _]
    exact List.filter_sublist.append_left _
  · exact hqueue

variable {bound : JsNumber}

section

variable (htimer : queue.timers.get? id = some bound)
include htimer

theorem Tracked.open_of_timer : queue.waiters.has id = true := by
  rw [hqueue.timers, Option.bind_eq_some_iff] at htimer
  obtain ⟨waiter, hwaiter, -⟩ := htimer
  exact Option.isSome_iff_exists.mpr ⟨waiter, hwaiter⟩

theorem Tracked.timeout_eq :
    queue.timeout id bound =
      { queue with
        pending := queue.pending.erase id
        timers := queue.timers.erase id }.settle id (.timedOut bound) :=
  if_pos (hqueue.open_of_timer htimer)

theorem tracked_timeout : Tracked (queue.timeout id bound) := by
  obtain ⟨hid, hopen⟩ := (hqueue.waiters id).mp (hqueue.open_of_timer htimer)
  rw [hqueue.timeout_eq htimer]
  exact tracked_settle hqueue hid hopen (Dict.keys_erase _ _) (Dict.get?_erase _ _) _

end

theorem Tracked.get?_cleared {waiter : Waiter} (hwaiter : queue.waiters.get? id = some waiter)
    (other : String) :
    (if waiter.timer.isSome then queue.timers.erase id else queue.timers).get? other =
      if other = id then none else queue.timers.get? other := by
  split
  · exact Dict.get?_erase _ _ _
  · rename_i hnone
    split
    · rename_i hother
      rw [hother, hqueue.timers, hwaiter]
      exact Option.not_isSome_iff_eq_none.mp hnone
    · rfl

theorem tracked_deliverResult (hhanded : id ∈ queue.handedIds) (result : ChatDeliveryResultPost) :
    Tracked (queue.deliverResult id result) := by
  unfold deliverResult
  split
  · exact hqueue
  · rename_i waiter hwaiter
    have hhas : queue.waiters.has id = true := Option.isSome_iff_exists.mpr ⟨waiter, hwaiter⟩
    obtain ⟨hid, hopen⟩ := (hqueue.waiters id).mp hhas
    apply tracked_settle hqueue hid hopen _ (hqueue.get?_cleared hwaiter)
    -- what was handed out does not wait any more
    apply (List.filter_eq_self.mpr _).symm
    intro other hother
    apply decide_eq_true
    rintro rfl
    exact (hqueue.mem_pending.mp hother).2.1 hhanded

end Steps

structure Effect (queue : ChatDeliveryQueue) (event : DeliveryEvent) (next : ChatDeliveryQueue) :
    Prop where
  queued : next.queuedIds = queue.queuedIds ++ (event.enqueues.map Prod.fst).toList
  settled : ∀ id, id ∈ next.settledIds ↔ id ∈ queue.settledIds ∨ event.answers id = true
  known : ∀ id, event.answers id = true → id ∈ queue.queuedIds
  timers : ∀ id ∉ next.settledIds, next.timers.get? id =
    match event.enqueues.filter fun enqueued => enqueued.1 = id with
    | some enqueued => armedTimeout enqueued.2
    | none => queue.timers.get? id

section Effects

variable {queue next : ChatDeliveryQueue} {event : DeliveryEvent} {id : String}

def Posted (queue : ChatDeliveryQueue) : DeliveryEvent → Prop
  | .deliverResult id _ => id ∈ queue.handedIds
  | _ => True

theorem tracked_step (hqueue : Tracked queue) (hposted : Posted queue event)
    (hstep : deliveryStep queue event = some next) : Tracked next := by
  cases event with
  | enqueueAndAwait request timeoutMs =>
      rw [deliveryStep, Option.ite_none_left_eq_some] at hstep
      exact Option.some.inj hstep.2 ▸ tracked_enqueueAndAwait hqueue hstep.1 timeoutMs
  | claim => exact Option.some.inj hstep ▸ tracked_claim hqueue
  | tryClaim id => exact Option.some.inj hstep ▸ tracked_tryClaim hqueue id
  | timeout id =>
      obtain ⟨bound, htimer, rfl⟩ := Option.map_eq_some_iff.mp hstep
      exact tracked_timeout hqueue htimer
  | deliverResult id result =>
      exact Option.some.inj hstep ▸ tracked_deliverResult hqueue hposted result

theorem effect_of_same (henqueues : event.enqueues = none)
    (hanswers : ∀ id, event.answers id = false) (hqueued : next.queuedIds = queue.queuedIds)
    (hsettled : next.settledIds = queue.settledIds) (htimers : next.timers = queue.timers) :
    Effect queue event next := by
  refine ⟨?_, ?_, ?_, ?_⟩
  · rw [hqueued, henqueues]
    exact (List.append_nil _).symm
  · intro id
    rw [hsettled, hanswers id]
    exact (or_iff_left Bool.false_ne_true).symm
  · intro id hid
    exact absurd hid (by rw [hanswers id]; exact Bool.false_ne_true)
  · intro id _
    rw [htimers, henqueues]
    rfl

theorem effect_take {entry : DeliveryRecord} (henqueues : event.enqueues = none)
    (hanswers : ∀ id, event.answers id = false) (hqueued : entry.queuedId = none)
    (hsettled : entry.settledId = none) : Effect queue event ((queue.take id).record entry) := by
  refine effect_of_same henqueues hanswers ?_ ?_ rfl
  · rw [queuedIds_record, hqueued]
    exact List.append_nil _
  · rw [settledIds_record, hsettled]
    exact List.append_nil _

theorem effect_settle (hevent : ∀ other, event.answers other = decide (id = other))
    (henqueues : event.enqueues = none) (hid : id ∈ queue.queuedIds)
    {pending : Dict String ChatDeliveryRequest} {timers : Dict String JsNumber}
    (htimers : ∀ other, timers.get? other = if other = id then none else queue.timers.get? other)
    (outcome : DeliveryOutcome) :
    Effect queue event ({ queue with pending, timers }.settle id outcome) := by
  have hsettledIds : ({ queue with pending, timers }.settle id outcome).settledIds =
      queue.settledIds ++ [id] := settledIds_record _ _
  refine ⟨?_, ?_, ?_, ?_⟩
  · rw [settle, queuedIds_record, henqueues]
    rfl
  · intro other
    rw [hsettledIds, hevent, List.mem_append, List.mem_singleton, decide_eq_true_eq, eq_comm]
  · intro other hother
    rw [hevent] at hother
    exact of_decide_eq_true hother ▸ hid
  · intro other hother
    rw [hsettledIds, List.mem_append, List.mem_singleton, not_or] at hother
    rw [henqueues]
    exact (htimers other).trans (if_neg hother.2)

theorem effect_late (hqueue : Tracked queue) (hhanded : id ∈ queue.handedIds)
    (hlate : queue.waiters.get? id = none) (result : ChatDeliveryResultPost) :
    Effect queue (.deliverResult id result) queue := by
  have hid : id ∈ queue.queuedIds := hqueue.handed.2 hhanded
  have hclosed : id ∈ queue.settledIds := by
    by_contra hopen
    have hhas : queue.waiters.has id = true := (hqueue.waiters id).mpr ⟨hid, hopen⟩
    rw [Dict.has, hlate] at hhas
    exact Bool.false_ne_true hhas
  refine ⟨(List.append_nil _).symm, ?_, ?_, fun _ _ => rfl⟩
  · intro other
    constructor
    · exact .inl
    · rintro (hother | hother)
      · exact hother
      · exact of_decide_eq_true hother ▸ hclosed
  · intro other hother
    exact of_decide_eq_true hother ▸ hid

theorem effect_step (hqueue : Tracked queue) (hposted : Posted queue event)
    (hstep : deliveryStep queue event = some next) : Effect queue event next := by
  cases event with
  | enqueueAndAwait request timeoutMs =>
      rw [deliveryStep, Option.ite_none_left_eq_some] at hstep
      obtain rfl := Option.some.inj hstep.2
      have hsettledIds : (queue.enqueueAndAwait request timeoutMs).settledIds =
          queue.settledIds := by
        rw [enqueueAndAwait, settledIds_record]
        exact List.append_nil _
      refine ⟨queuedIds_record _ _, ?_, ?_, ?_⟩
      · intro id
        rw [hsettledIds]
        exact (or_iff_left Bool.false_ne_true).symm
      · intro id hid
        cases hid
      · intro id _
        rw [enqueueAndAwait, timers_record, get?_arm, DeliveryEvent.enqueues, Option.filter_some]
        by_cases hid : request.id = id
        · have hnew : request.id ∉ queue.queuedIds :=
            fun h => hstep.1 (mem_ids_of_mem (.inl h))
          rw [if_pos hid, if_pos (decide_eq_true hid), ← hid, hqueue.timers,
            hqueue.not_waiting hnew]
          exact Option.or_none
        · rw [if_neg hid, if_neg (by simpa using hid)]
  | claim =>
      obtain rfl := Option.some.inj hstep
      unfold claim
      split
      · exact effect_take rfl (fun _ => rfl) rfl rfl
      · exact effect_of_same rfl (fun _ => rfl) rfl rfl rfl
  | tryClaim id =>
      obtain rfl := Option.some.inj hstep
      unfold tryClaim
      split
      · exact effect_take rfl (fun _ => rfl) rfl rfl
      · exact effect_of_same rfl (fun _ => rfl) rfl rfl rfl
  | timeout id =>
      obtain ⟨bound, htimer, rfl⟩ := Option.map_eq_some_iff.mp hstep
      have hid := ((hqueue.waiters id).mp (hqueue.open_of_timer htimer)).1
      rw [hqueue.timeout_eq htimer]
      exact effect_settle (fun _ => rfl) rfl hid (Dict.get?_erase _ _) _
  | deliverResult id result =>
      obtain rfl := Option.some.inj hstep
      unfold deliverResult
      split
      · rename_i hlate
        exact effect_late hqueue hposted hlate result
      · rename_i waiter hwaiter
        have hhas : queue.waiters.has id = true := Option.isSome_iff_exists.mpr ⟨waiter, hwaiter⟩
        have hid := ((hqueue.waiters id).mp hhas).1
        exact effect_settle (fun _ => rfl) rfl hid (hqueue.get?_cleared hwaiter) _

structure Traced (events : List DeliveryEvent) (queue : ChatDeliveryQueue) : Prop where
  tracked : Tracked queue
  queued : queue.queuedIds = (events.filterMap DeliveryEvent.enqueues).map Prod.fst
  settled : ∀ id, id ∈ queue.settledIds ↔ events.any (DeliveryEvent.answers id) = true
  timers : ∀ enqueued ∈ events.filterMap DeliveryEvent.enqueues,
    enqueued.1 ∉ queue.settledIds → queue.timers.get? enqueued.1 = armedTimeout enqueued.2

theorem traced_empty : Traced [] {} := by
  refine ⟨⟨List.nodup_nil, rfl, ?_, ?_, ?_, ?_, ?_, List.Sublist.refl _, .nil⟩, rfl, ?_, ?_⟩
  · simp [handedIds]
  · simp [queuedIds, Dict.has]
  · exact fun _ => rfl
  · exact ⟨List.nodup_nil, List.nil_subset _⟩
  · exact ⟨List.nodup_nil, List.nil_subset _⟩
  · simp [settledIds]
  · simp

variable {events : List DeliveryEvent}

theorem traced_step (htraced : Traced events queue) (hposted : Posted queue event)
    (hstep : deliveryStep queue event = some next) :
    Traced (events ++ [event]) next := by
  have htracked := tracked_step htraced.tracked hposted hstep
  have heffect := effect_step htraced.tracked hposted hstep
  have hbrought : (events ++ [event]).filterMap DeliveryEvent.enqueues =
      events.filterMap DeliveryEvent.enqueues ++ event.enqueues.toList := by
    rw [List.filterMap_append, List.filterMap_cons]
    cases event.enqueues <;> rfl
  refine ⟨htracked, ?_, ?_, ?_⟩
  · rw [heffect.queued, htraced.queued, hbrought, List.map_append, Option.toList_map]
  · intro id
    rw [heffect.settled, htraced.settled, List.any_append, List.any_cons, List.any_nil,
      Bool.or_false, Bool.or_eq_true]
  · intro enqueued hmem hopen
    rw [heffect.timers _ hopen]
    rw [hbrought, List.mem_append] at hmem
    have hdistinct := heffect.queued ▸ htracked.distinct
    cases hevent : event.enqueues with
    | none =>
        rw [hevent] at hmem
        have hold : enqueued ∈ events.filterMap DeliveryEvent.enqueues := by simpa using hmem
        exact htraced.timers enqueued hold fun h => hopen ((heffect.settled _).mpr (.inl h))
    | some brought =>
        rw [hevent] at hmem hdistinct
        obtain hold | hnew := hmem
        · have hid : enqueued.1 ∈ queue.queuedIds := by
            rw [htraced.queued]
            exact List.mem_map_of_mem hold
          have hother : brought.1 ≠ enqueued.1 := fun heq =>
            (List.nodup_append.mp hdistinct).2.2 _ hid _ List.mem_cons_self heq.symm
          rw [Option.filter_some, if_neg (by simpa using hother)]
          exact htraced.timers enqueued hold fun h => hopen ((heffect.settled _).mpr (.inl h))
        · obtain rfl : enqueued = brought := by simpa using hnew
          rw [Option.filter_some, if_pos (decide_eq_true rfl)]

theorem Traced.settledOnce (htraced : Traced events queue) : SettledOnce events queue := by
  have htracked := htraced.tracked
  refine ⟨?_, ?_, ?_, htracked.timely, ?_⟩
  · intro id
    rw [htracked.settled.1.count]
    exact if_congr (htraced.settled id) rfl rfl
  · intro request timeoutMs hmem hopen
    exact htraced.timers (request.id, timeoutMs) (List.mem_filterMap.mpr ⟨_, hmem, rfl⟩) hopen
  · intro id
    exact List.nodup_iff_count_le_one.mp htracked.handed.1 id
  · intro id hid
    have hwaiter : id ∉ queue.waiters.keys := by
      rw [← Dict.has_iff, htracked.waiters]
      exact fun h => h.2 hid
    refine ⟨?_, ?_, hwaiter, ?_⟩
    · rw [htracked.mem_pending]
      exact fun h => h.2.2 hid
    · rw [htracked.claimed]
      exact fun h => h.2 hid
    · rw [Dict.mem_keys_iff]
      rintro ⟨bound, htimer⟩
      exact hwaiter (Dict.has_iff.mp (htracked.open_of_timer htimer))

end Effects

def waitingIds (queue : ChatDeliveryQueue) : List String :=
  queue.queuedIds.filter fun id => id ∉ queue.handedIds ∧ id ∉ queue.settledIds

theorem Tracked.handedIds_claim {queue : ChatDeliveryQueue} (hqueue : Tracked queue) :
    queue.claim.2.handedIds = queue.handedIds ++ queue.waitingIds.head?.toList := by
  rw [waitingIds, ← hqueue.pending, hqueue.claim_eq]
  cases queue.pending.keys.head? with
  | none => exact (List.append_nil _).symm
  | some id => exact handedIds_record _ _

end ChatDeliveryQueue

/-- In every run in which results are posted for requests that were handed out, each request is
settled once, and a claim hands out the oldest that waits. -/
theorem deliveries_settle_once {events : List DeliveryEvent} {queue : ChatDeliveryQueue}
    (hrun : Run deliveryStep ChatDeliveryQueue.Posted {} events queue) : SettledOnce events queue ∧
      queue.claimedIds.Sublist queue.queuedIds ∧
        queue.claim.2.handedIds = queue.handedIds ++ queue.waitingIds.head?.toList := by
  have htraced := hrun.invariant_trace ChatDeliveryQueue.Traced
    (fun _ _ _ _ => ChatDeliveryQueue.traced_step) ChatDeliveryQueue.traced_empty
  have hordered := htraced.tracked.ordered
  exact ⟨htraced.settledOnce, (List.sublist_append_left _ _).trans hordered,
    htraced.tracked.handedIds_claim⟩

instance (queue : ChatDeliveryQueue) (event : DeliveryEvent) : Decidable (queue.Posted event) :=
  match event with
  | .deliverResult id _ => inferInstanceAs (Decidable (id ∈ queue.handedIds))
  | .enqueueAndAwait _ _ | .claim | .tryClaim _ | .timeout _ => .isTrue trivial

def doneRequest (id : String) : ChatDeliveryRequest := ⟨id, "sub-1", "TASK-1", "done", "done", []⟩

def deliveredAndTimedOut : List DeliveryEvent :=
  [.enqueueAndAwait (doneRequest "a") none,
    .enqueueAndAwait (doneRequest "b") (some (.finite 50)), .claim, .tryClaim "b",
    .deliverResult "a" { success := true }, .timeout "b", .deliverResult "b" { success := true }]

theorem delivered_and_timed_out : ∃ queue,
    Run deliveryStep ChatDeliveryQueue.Posted {} deliveredAndTimedOut queue ∧
      queue.settledIds = ["a", "b"] ∧ SettledOnce deliveredAndTimedOut queue := by
  have hexec : (exec (checked deliveryStep fun queue event => decide (queue.Posted event)) {}
      deliveredAndTimedOut).any (fun queue => queue.settledIds = ["a", "b"]) = true := by
    decide +kernel
  obtain ⟨queue, hqueue, hboth⟩ := (Option.any_eq_true _ _).mp hexec
  have hrun := Run.of_exec (fun _ _ h => of_decide_eq_true h) hqueue
  exact ⟨queue, hrun, of_decide_eq_true hboth, (deliveries_settle_once hrun).1⟩

def takenByName : List DeliveryEvent :=
  [.enqueueAndAwait (doneRequest "a") none, .enqueueAndAwait (doneRequest "b") none,
    .tryClaim "b", .claim]

theorem taken_out_of_order : ∃ queue,
    Run deliveryStep ChatDeliveryQueue.Posted {} takenByName queue ∧
      ¬ queue.handedIds.Sublist queue.queuedIds := by
  have hexec : (exec (checked deliveryStep fun queue event => decide (queue.Posted event)) {}
      takenByName).any (fun queue => ¬ queue.handedIds.Sublist queue.queuedIds) = true := by
    decide +kernel
  obtain ⟨queue, hqueue, hdisordered⟩ := (Option.any_eq_true _ _).mp hexec
  exact ⟨queue, Run.of_exec (fun _ _ h => of_decide_eq_true h) hqueue,
    of_decide_eq_true hdisordered⟩

end Aof
