import Aof.Ipc.SpawnQueue

/-!
# Handing over spawn requests

The requests that were handed out, followed by those that wait in the queue, are the ones that were
queued, in their order.  A request is handed to a waiting poll at once, so that a poll never waits
beside a request.
-/

namespace Aof

open StepSystem

namespace SpawnRecord

@[simp]
def queuedId : SpawnRecord → Option String
  | queued id => some id
  | _ => none

@[simp]
def handedId : SpawnRecord → Option String
  | handed id _ => some id
  | _ => none

@[simp]
def completes (id : String) : SpawnRecord → Bool
  | completed other _ => other = id
  | _ => false

/-- The request of a session that was force-completed is handed out. -/
def Zombie (earlier later : SpawnRecord) : Prop :=
  ∃ id poll, earlier = .forced id ∧ later = .handed id poll

end SpawnRecord

section Record

variable (history : List SpawnRecord)

def queuedIds : List String := history.filterMap SpawnRecord.queuedId

def handedIds : List String := history.filterMap SpawnRecord.handedId

def completions (id : String) : Nat := history.countP (SpawnRecord.completes id)

/-- A request is handed out once, in its turn, and its callback is called once. -/
structure HandedOver : Prop where
  once : ∀ id, (handedIds history).count id ≤ 1
  ordered : handedIds history <+: queuedIds history
  completed : ∀ id, completions history id ≤ 1

def NoZombie : Prop := history.Pairwise fun earlier later => ¬earlier.Zombie later

end Record

section Append

variable (bridge : SpawnBridge) (entry : SpawnRecord)

theorem history_record : (bridge.record entry).history = bridge.history ++ [entry] := rfl

@[simp]
theorem queue_record : (bridge.record entry).queue = bridge.queue := rfl

@[simp]
theorem callbacks_record : (bridge.record entry).callbacks = bridge.callbacks := rfl

@[simp]
theorem queuedIds_record : queuedIds (bridge.record entry).history =
      queuedIds bridge.history ++ entry.queuedId.toList := by
  rw [queuedIds, history_record, List.filterMap_append, List.filterMap_cons]
  cases entry.queuedId <;> rfl

@[simp]
theorem handedIds_record : handedIds (bridge.record entry).history =
      handedIds bridge.history ++ entry.handedId.toList := by
  rw [handedIds, history_record, List.filterMap_append, List.filterMap_cons]
  cases entry.handedId <;> rfl

@[simp]
theorem completions_record (id : String) : completions (bridge.record entry).history id =
      completions bridge.history id + (entry.completes id).toNat := by
  rw [completions, history_record, List.countP_append, List.countP_singleton]
  cases entry.completes id <;> rfl

end Append

structure Handover (bridge : SpawnBridge) : Prop where
  fifo : handedIds bridge.history ++ bridge.queue.pending.keys = queuedIds bridge.history
  distinct : (queuedIds bridge.history).Nodup
  keyed : ∀ id request, bridge.queue.pending.get? id = some request → request.id = id
  claimed : ∀ id ∈ bridge.queue.claimed, id ∈ handedIds bridge.history
  idle : bridge.listeners = [] ∨ bridge.queue.pending.keys = []
  known : ∀ id, bridge.callbacks.has id = true → id ∈ queuedIds bridge.history
  fired : ∀ id, completions bridge.history id + (bridge.callbacks.has id).toNat ≤ 1

structure Unforced (bridge : SpawnBridge) : Prop where
  waiting : ∀ id ∈ bridge.queue.pending.keys, .forced id ∉ bridge.history
  clean : NoZombie bridge.history

variable {bridge : SpawnBridge} {id : String} {poll : Nat} {request : SpawnRequest}

theorem mem_queuedIds {history : List SpawnRecord} :
    id ∈ queuedIds history ↔ .queued id ∈ history := by
  rw [queuedIds, List.mem_filterMap]
  constructor
  · rintro ⟨entry, hentry, hid⟩
    cases entry with
    | queued other =>
        obtain rfl := Option.some.inj hid
        exact hentry
    | _ => cases hid
  · intro hqueued
    exact ⟨.queued id, hqueued, rfl⟩

theorem Handover.handedOver (hbridge : Handover bridge) : HandedOver bridge.history where
  once id := by
    have hnodup : (handedIds bridge.history).Nodup := by
      have hall := hbridge.distinct
      rw [← hbridge.fifo] at hall
      exact hall.of_append_left
    exact List.nodup_iff_count_le_one.mp hnodup id
  ordered := ⟨_, hbridge.fifo⟩
  completed id := le_trans (Nat.le_add_right _ _) (hbridge.fired id)

theorem Handover.not_handed (hbridge : Handover bridge)
    (hwaits : id ∈ bridge.queue.pending.keys) : id ∉ handedIds bridge.history := by
  have hall := hbridge.distinct
  rw [← hbridge.fifo] at hall
  intro hhanded
  exact (List.nodup_append.mp hall).2.2 id hhanded id hwaits rfl

theorem Handover.unclaimed (hbridge : Handover bridge)
    (hwaits : id ∈ bridge.queue.pending.keys) : id ∉ bridge.queue.claimed :=
  fun hclaimed => hbridge.not_handed hwaits (hbridge.claimed id hclaimed)

theorem onEnqueue_of_gone (hgone : bridge.queue.pending.has request.id = false) (poll : Nat) :
    bridge.onEnqueue request poll = bridge := by
  unfold SpawnBridge.onEnqueue SpawnQueue.tryClaim
  rw [hgone]
  split <;> rfl

theorem foldl_onEnqueue_of_gone (hgone : bridge.queue.pending.has request.id = false)
    (polls : List Nat) : polls.foldl (SpawnBridge.onEnqueue request) bridge = bridge := by
  induction polls with
  | nil => rfl
  | cons poll rest ih => rw [List.foldl_cons, onEnqueue_of_gone hgone, ih]

theorem has_take (queue : SpawnQueue) (id : String) : (queue.take id).pending.has id = false := by
  rw [SpawnQueue.take, Dict.has_erase]
  simp

theorem enqueue_of_none (hnone : bridge.listeners = []) (request : SpawnRequest) :
    bridge.enqueue request =
      { bridge with queue := bridge.queue.put request }.record (.queued request.id) := by
  obtain ⟨queue, listeners, active, callbacks, history⟩ := bridge
  obtain rfl : listeners = [] := hnone
  rfl

theorem has_put (queue : SpawnQueue) (request : SpawnRequest) :
    (queue.put request).pending.has request.id = true := by
  rw [SpawnQueue.put, Dict.has_set]
  simp

theorem enqueue_of_cons {rest : List Nat} (hpolls : bridge.listeners = poll :: rest)
    (request : SpawnRequest) :
    bridge.enqueue request =
      ({ bridge with
        queue := (bridge.queue.put request).take request.id
        listeners := rest }.record (.queued request.id)).record (.handed request.id poll) := by
  obtain ⟨queue, listeners, active, callbacks, history⟩ := bridge
  obtain rfl : listeners = poll :: rest := hpolls
  have hfirst : SpawnBridge.onEnqueue request
      (({ queue := queue.put request
          listeners := poll :: rest
          active, callbacks, history } : SpawnBridge).record (.queued request.id)) poll =
      (({ queue := (queue.put request).take request.id
          listeners := rest
          active, callbacks, history } : SpawnBridge).record (.queued request.id)).record
            (.handed request.id poll) := by
    simp only [SpawnBridge.onEnqueue, SpawnBridge.record, SpawnQueue.tryClaim, List.mem_cons,
      true_or, ↓reduceIte, has_put, List.erase_cons_head]
  calc SpawnBridge.enqueue ⟨queue, poll :: rest, active, callbacks, history⟩ request
      = rest.foldl (SpawnBridge.onEnqueue request) (SpawnBridge.onEnqueue request
          (({ queue := queue.put request
              listeners := poll :: rest
              active, callbacks, history } : SpawnBridge).record (.queued request.id)) poll) := rfl
    _ = rest.foldl (SpawnBridge.onEnqueue request) _ := by rw [hfirst]
    _ = _ := foldl_onEnqueue_of_gone (has_take _ _) rest

theorem claim_cases (hbridge : Handover bridge) :
    (bridge.queue.claim = none ∧ bridge.queue.pending.keys = []) ∨
      ∃ request rest, bridge.queue.pending.keys = request.id :: rest ∧
        bridge.queue.claim = some (request, bridge.queue.take request.id) := by
  cases hentries : bridge.queue.pending.entries with
  | nil =>
      refine .inl ⟨?_, ?_⟩
      · rw [SpawnQueue.claim, hentries]
        rfl
      · rw [Dict.keys, hentries]
        rfl
  | cons entry rest =>
      have hkeys : bridge.queue.pending.keys = entry.1 :: rest.map Prod.fst := by
        rw [Dict.keys, hentries]
        rfl
      have hid : entry.2.id = entry.1 := by
        apply hbridge.keyed
        rw [Dict.get?_eq_some_iff, hentries]
        exact List.mem_cons_self
      refine .inr ⟨entry.2, rest.map Prod.fst, by rw [hid, hkeys], ?_⟩
      have hfree : entry.1 ∉ bridge.queue.claimed := by
        apply hbridge.unclaimed
        rw [hkeys]
        exact List.mem_cons_self
      rw [SpawnQueue.claim, hentries, List.find?_cons_of_pos (by simpa using hfree), hid]
      rfl

variable {queue : SpawnQueue} {next : SpawnBridge} {entry : SpawnRecord}

theorem keys_take_head {rest : List String} (hkeys : queue.pending.keys = id :: rest) :
    (queue.take id).pending.keys = rest := by
  have hnodup : (id :: rest).Nodup := by
    rw [← hkeys]
    exact queue.pending.nodup
  rw [SpawnQueue.take, Dict.keys_erase, hkeys, List.filter_cons_of_neg (by simp)]
  apply List.filter_eq_self.mpr
  intro other hother
  rw [decide_eq_true_iff]
  rintro rfl
  exact (List.nodup_cons.mp hnodup).1 hother

theorem get?_take {other : String} {request : SpawnRequest}
    (hget : (queue.take id).pending.get? other = some request) :
    queue.pending.get? other = some request := by
  rw [SpawnQueue.take, Dict.get?_eq_some_iff] at hget
  exact Dict.get?_eq_some_iff.mpr (List.mem_of_mem_filter hget)

theorem handover_enqueue (hbridge : Handover bridge)
    (hfresh : request.id ∉ bridge.history.map SpawnRecord.id) :
    Handover (bridge.enqueue request) := by
  have hnew : request.id ∉ queuedIds bridge.history := by
    rw [mem_queuedIds]
    intro hqueued
    exact hfresh (List.mem_map.mpr ⟨_, hqueued, rfl⟩)
  have hdistinct : (queuedIds bridge.history ++ [request.id]).Nodup := by
    rw [← List.concat_eq_append]
    exact List.Nodup.concat hnew hbridge.distinct
  have hkeys : (bridge.queue.put request).pending.keys =
      bridge.queue.pending.keys ++ [request.id] := by
    rw [SpawnQueue.put, Dict.keys_set, if_neg]
    intro hmem
    apply hnew
    rw [← hbridge.fifo]
    exact List.mem_append_right _ hmem
  have hkeyed : ∀ id found, (bridge.queue.put request).pending.get? id = some found →
      found.id = id := by
    intro id found hget
    rw [SpawnQueue.put, Dict.get?_set] at hget
    split at hget
    · rename_i hid
      rw [← Option.some.inj hget, hid]
    · exact hbridge.keyed id found hget
  have hknown : ∀ id, bridge.callbacks.has id = true →
      id ∈ queuedIds bridge.history ++ [request.id] :=
    fun id hhas => List.mem_append_left _ (hbridge.known id hhas)
  cases hlisteners : bridge.listeners with
  | nil =>
      rw [enqueue_of_none hlisteners]
      exact {
        fifo := by
          simp [hkeys, ← hbridge.fifo]
        distinct := by
          simpa using hdistinct
        keyed := hkeyed
        claimed := fun id hid => by
          simpa using hbridge.claimed id hid
        idle := .inl hlisteners
        known := fun id hhas => by
          simpa using hknown id hhas
        fired := fun id => by
          simpa using hbridge.fired id }
  | cons poll rest =>
      have hempty : bridge.queue.pending.keys = [] := by
        apply hbridge.idle.resolve_left
        rw [hlisteners]
        exact List.cons_ne_nil _ _
      rw [hempty, List.nil_append] at hkeys
      have htaken : ((bridge.queue.put request).take request.id).pending.keys = [] :=
        keys_take_head hkeys
      have hfifo := hbridge.fifo
      rw [hempty, List.append_nil] at hfifo
      rw [enqueue_of_cons hlisteners]
      exact {
        fifo := by
          simp [htaken, hfifo]
        distinct := by
          simpa using hdistinct
        keyed := fun id found hget => hkeyed id found (get?_take hget)
        claimed := fun id hid => by
          have htaken : id = request.id ∨ id ∈ handedIds bridge.history :=
            (List.mem_cons.mp hid).imp_right (hbridge.claimed id)
          simpa [or_comm] using htaken
        idle := .inr htaken
        known := fun id hhas => by
          simpa using hknown id hhas
        fired := fun id => by
          simpa using hbridge.fired id }

section

variable (bridge : SpawnBridge) (request : SpawnRequest)

theorem callbacks_enqueue : (bridge.enqueue request).callbacks = bridge.callbacks := by
  cases hlisteners : bridge.listeners with
  | nil => rw [enqueue_of_none hlisteners, callbacks_record]
  | cons poll rest => rw [enqueue_of_cons hlisteners, callbacks_record, callbacks_record]

theorem completions_enqueue (id : String) :
    completions (bridge.enqueue request).history id = completions bridge.history id := by
  cases hlisteners : bridge.listeners with
  | nil => rw [enqueue_of_none hlisteners]; simp
  | cons poll rest => rw [enqueue_of_cons hlisteners]; simp

theorem queued_enqueue : request.id ∈ queuedIds (bridge.enqueue request).history := by
  cases hlisteners : bridge.listeners with
  | nil => rw [enqueue_of_none hlisteners]; simp
  | cons poll rest => rw [enqueue_of_cons hlisteners]; simp

end

theorem completions_of_fresh (hfresh : id ∉ bridge.history.map SpawnRecord.id) :
    completions bridge.history id = 0 := by
  apply List.countP_eq_zero.mpr
  intro entry hentry hcompletes
  apply hfresh
  cases entry with
  | completed other outcome =>
      obtain rfl : other = id := of_decide_eq_true hcompletes
      exact List.mem_map.mpr ⟨_, hentry, rfl⟩
  | _ => cases hcompletes

section

variable (hbridge : Handover bridge)
include hbridge

theorem handover_spawnSession (hfresh : id ∉ bridge.history.map SpawnRecord.id)
    (context : TaskContext) (opts : SpawnOptions) :
    Handover (bridge.spawnSession id context opts).2 := by
  unfold SpawnBridge.spawnSession
  split
  · exact hbridge
  · have hqueued : Handover (bridge.enqueue (context.request id opts)) :=
      handover_enqueue hbridge hfresh
    exact { hqueued with
      known := fun other hother => by
        rw [Dict.has_set, Bool.or_eq_true, decide_eq_true_iff] at hother
        rcases hother with rfl | hold
        · exact queued_enqueue bridge (context.request id opts)
        · exact hqueued.known other hold
      fired := fun other => by
        rw [Dict.has_set, completions_enqueue, callbacks_enqueue]
        by_cases hother : id = other
        · subst hother
          rw [completions_of_fresh hfresh]
          simp
        · simpa [hother] using hbridge.fired other }

theorem handover_wait (poll : Nat) : Handover (bridge.handleSpawnWait poll) := by
  unfold SpawnBridge.handleSpawnWait
  rcases claim_cases hbridge with ⟨hnone, hempty⟩ | ⟨request, rest, hkeys, hclaim⟩
  · rw [hnone]
    exact { hbridge with idle := .inr hempty }
  · rw [hclaim]
    have hrest := keys_take_head hkeys
    exact {
      fifo := by
        simp [hrest, ← hbridge.fifo, hkeys]
      distinct := by
        simpa using hbridge.distinct
      keyed := fun id found hget => hbridge.keyed id found (get?_take hget)
      claimed := fun id hid => by
        have htaken : id = request.id ∨ id ∈ handedIds bridge.history :=
          (List.mem_cons.mp hid).imp_right (hbridge.claimed id)
        simpa [or_comm] using htaken
      idle := by
        left
        apply hbridge.idle.resolve_right
        rw [hkeys]
        exact List.cons_ne_nil _ _
      known := fun id hhas => by
        simpa using hbridge.known id hhas
      fired := fun id => by
        simpa using hbridge.fired id }

theorem handover_unlisten (poll : Nat) (active : List Nat) :
    Handover { bridge with active, listeners := bridge.listeners.erase poll } :=
  { hbridge with
    idle := hbridge.idle.imp_left fun hnone => by
      show bridge.listeners.erase poll = []
      rw [hnone]
      rfl }

theorem handover_complete (id : String) (outcome : String → AgentRunOutcome) :
    Handover (bridge.complete id outcome) := by
  unfold SpawnBridge.complete
  cases hget : bridge.callbacks.get? id with
  | none => exact hbridge
  | some entry =>
      have hhas : bridge.callbacks.has id = true := by
        rw [Dict.has, hget]
        rfl
      have hkept : ∀ other, (bridge.callbacks.erase id).has other = true →
          bridge.callbacks.has other = true := by
        intro other hother
        rw [Dict.has_erase, Bool.and_eq_true] at hother
        exact hother.1
      have hfired : ∀ other, completions bridge.history other +
          (if other = id then 1 else 0) + ((bridge.callbacks.erase id).has other).toNat ≤ 1 := by
        intro other
        have hone := hbridge.fired other
        rw [Dict.has_erase]
        by_cases hother : other = id
        · subst hother
          rw [hhas] at hone
          simpa using hone
        · simpa [hother] using hone
      dsimp only
      split
      · exact {
          fifo := by
            simpa using hbridge.fifo
          distinct := by
            simpa using hbridge.distinct
          keyed := hbridge.keyed
          claimed := fun other hother => by
            simpa using hbridge.claimed other hother
          idle := hbridge.idle
          known := fun other hother => by
            simpa using hbridge.known other (hkept other hother)
          fired := fun other => by
            have hcalled :
                ((SpawnRecord.completed id (outcome entry.taskId)).completes other).toNat =
                  if other = id then 1 else 0 := by
              by_cases hother : other = id <;> simp [hother, Ne.symm]
            rw [completions_record, hcalled]
            exact hfired other }
      · exact { hbridge with
          known := fun other hother => hbridge.known other (hkept other hother)
          fired := fun other => by
            refine le_trans ?_ (hfired other)
            exact Nat.add_le_add_right (Nat.le_add_right _ _) _ }

theorem handover_forced (id : String) :
    Handover (bridge.record (.forced id)) where
  fifo := by
    simpa using hbridge.fifo
  distinct := by
    simpa using hbridge.distinct
  keyed := hbridge.keyed
  claimed other hother := by
    simpa using hbridge.claimed other hother
  idle := hbridge.idle
  known other hother := by
    simpa using hbridge.known other hother
  fired other := by
    simpa using hbridge.fired other

end

variable {event : SpawnEvent}

theorem handover_step (hstep : spawnStep bridge event = some next) (hbridge : Handover bridge) :
    Handover next := by
  cases event with
  | spawnSession id context opts =>
      obtain ⟨hfresh, hnext⟩ := Option.ite_none_left_eq_some.mp hstep
      obtain rfl := Option.some.inj hnext
      exact handover_spawnSession hbridge hfresh context opts
  | wait poll =>
      obtain ⟨-, hnext⟩ := Option.ite_none_left_eq_some.mp hstep
      obtain rfl := Option.some.inj hnext
      exact handover_wait hbridge poll
  | keepalive poll =>
      obtain rfl := Option.some.inj hstep
      exact handover_unlisten hbridge poll bridge.active
  | close poll =>
      obtain rfl := Option.some.inj hstep
      exact handover_unlisten hbridge poll _
  | deliverResult spawnId result =>
      obtain rfl := Option.some.inj hstep
      exact handover_complete hbridge spawnId _
  | forceCompleteSession sessionId =>
      obtain rfl := Option.some.inj hstep
      exact handover_complete (handover_forced hbridge sessionId) sessionId _

theorem NoZombie.record (hclean : NoZombie bridge.history)
    (hentry : ∀ id, entry.handedId = some id → .forced id ∉ bridge.history) :
    NoZombie (bridge.record entry).history := by
  rw [NoZombie, history_record, List.pairwise_append]
  refine ⟨hclean, List.pairwise_singleton _ _, fun earlier hearlier later hlater => ?_⟩
  obtain rfl := List.mem_singleton.mp hlater
  rintro ⟨id, poll, rfl, rfl⟩
  exact hentry id rfl hearlier

/-- A session is force-completed only when its request no longer waits. -/
def SpawnEvent.timely (bridge : SpawnBridge) : SpawnEvent → Bool
  | .forceCompleteSession sessionId => !bridge.queue.pending.has sessionId
  | _ => true

theorem forced_notMem_record (hforced : .forced id ∉ bridge.history) (hentry : entry ≠ .forced id) :
    .forced id ∉ (bridge.record entry).history := by
  rw [history_record, List.mem_append, List.mem_singleton]
  exact fun h => h.elim hforced (Ne.symm hentry)

theorem unforced_enqueue (hbridge : Unforced bridge)
    (hfresh : request.id ∉ bridge.history.map SpawnRecord.id) :
    Unforced (bridge.enqueue request) := by
  have hunforced : SpawnRecord.forced request.id ∉ bridge.history :=
    fun hforced => hfresh (List.mem_map.mpr ⟨_, hforced, rfl⟩)
  have hwaiting : ∀ id ∈ (bridge.queue.put request).pending.keys, .forced id ∉ bridge.history := by
    intro id hid
    rw [SpawnQueue.put, Dict.keys_set] at hid
    split at hid
    · exact hbridge.waiting id hid
    · rcases List.mem_append.mp hid with hold | hnew
      · exact hbridge.waiting id hold
      · obtain rfl := List.mem_singleton.mp hnew
        exact hunforced
  have hqueued : NoZombie ({ bridge with queue := bridge.queue.put request }.record
      (.queued request.id)).history := hbridge.clean.record fun _ h => nomatch h
  cases hlisteners : bridge.listeners with
  | nil =>
      rw [enqueue_of_none hlisteners]
      refine ⟨fun id hid => forced_notMem_record (hwaiting id hid) nofun, hqueued⟩
  | cons poll rest =>
      rw [enqueue_of_cons hlisteners]
      refine ⟨fun id hid => ?_, ?_⟩
      · have hput : id ∈ (bridge.queue.put request).pending.keys := by
          rw [queue_record, queue_record, SpawnQueue.take, Dict.keys_erase] at hid
          exact List.mem_of_mem_filter hid
        exact forced_notMem_record (forced_notMem_record (hwaiting id hput) nofun) nofun
      · apply NoZombie.record hqueued
        intro id hid
        obtain rfl := Option.some.inj hid
        exact forced_notMem_record hunforced nofun

theorem unforced_wait (hhandover : Handover bridge) (hbridge : Unforced bridge) (poll : Nat) :
    Unforced (bridge.handleSpawnWait poll) := by
  unfold SpawnBridge.handleSpawnWait
  rcases claim_cases hhandover with ⟨hnone, -⟩ | ⟨request, rest, hkeys, hclaim⟩
  · rw [hnone]
    exact ⟨hbridge.waiting, hbridge.clean⟩
  · rw [hclaim]
    refine ⟨fun id hid => ?_, ?_⟩
    · rw [queue_record, keys_take_head hkeys] at hid
      refine forced_notMem_record (hbridge.waiting id ?_) nofun
      rw [hkeys]
      exact List.mem_cons_of_mem _ hid
    · apply NoZombie.record hbridge.clean
      intro id hid
      obtain rfl := Option.some.inj hid
      apply hbridge.waiting
      rw [hkeys]
      exact List.mem_cons_self

theorem unforced_complete (hbridge : Unforced bridge) (id : String)
    (outcome : String → AgentRunOutcome) : Unforced (bridge.complete id outcome) := by
  unfold SpawnBridge.complete
  cases bridge.callbacks.get? id with
  | none => exact hbridge
  | some entry =>
      dsimp only
      split
      · refine ⟨fun other hother => ?_, ?_⟩
        · exact forced_notMem_record (hbridge.waiting other hother) nofun
        · exact NoZombie.record hbridge.clean fun _ h => nomatch h
      · exact ⟨hbridge.waiting, hbridge.clean⟩

theorem unforced_step (htimely : event.timely bridge = true)
    (hstep : spawnStep bridge event = some next) (hhandover : Handover bridge)
    (hbridge : Unforced bridge) : Unforced next := by
  cases event with
  | spawnSession id context opts =>
      obtain ⟨hfresh, hnext⟩ := Option.ite_none_left_eq_some.mp hstep
      obtain rfl := Option.some.inj hnext
      unfold SpawnBridge.spawnSession
      split
      · exact hbridge
      · have hqueued : Unforced (bridge.enqueue (context.request id opts)) :=
          unforced_enqueue hbridge hfresh
        exact ⟨hqueued.waiting, hqueued.clean⟩
  | wait poll =>
      obtain ⟨-, hnext⟩ := Option.ite_none_left_eq_some.mp hstep
      obtain rfl := Option.some.inj hnext
      exact unforced_wait hhandover hbridge poll
  | keepalive poll =>
      obtain rfl := Option.some.inj hstep
      exact ⟨hbridge.waiting, hbridge.clean⟩
  | close poll =>
      obtain rfl := Option.some.inj hstep
      exact ⟨hbridge.waiting, hbridge.clean⟩
  | deliverResult spawnId result =>
      obtain rfl := Option.some.inj hstep
      exact unforced_complete hbridge spawnId _
  | forceCompleteSession sessionId =>
      obtain rfl := Option.some.inj hstep
      have hgone : sessionId ∉ bridge.queue.pending.keys := by
        rw [← Dict.has_iff, Bool.not_eq_true]
        simpa [SpawnEvent.timely] using htimely
      refine unforced_complete ⟨fun id hid => ?_, ?_⟩ sessionId _
      · apply forced_notMem_record (hbridge.waiting id hid)
        intro hsame
        obtain rfl : sessionId = id := SpawnRecord.forced.inj hsame
        exact hgone hid
      · exact NoZombie.record hbridge.clean fun _ h => nomatch h

theorem handover_initial : Handover {} where
  fifo := rfl
  distinct := List.nodup_nil
  keyed _ _ h := nomatch h
  claimed _ h := nomatch h
  idle := .inl rfl
  known _ h := nomatch h
  fired _ := Nat.zero_le 1

/-- Every request is handed to one poll at most, in its turn, and its callback is called once at
most; if sessions are force-completed only when their requests no longer wait, no request is handed
out afterwards. -/
theorem spawns_handed_over {events : List SpawnEvent} {finish : SpawnBridge}
    (hrun : Run spawnStep (fun bridge event => event.timely bridge = true) {} events finish) :
    HandedOver finish.history ∧ NoZombie finish.history := by
  have hboth : Handover finish ∧ Unforced finish := by
    apply hrun.invariant (fun bridge : SpawnBridge => Handover bridge ∧ Unforced bridge)
    · intro bridge event next hinv htimely hstep
      exact ⟨handover_step hstep hinv.1, unforced_step htimely hstep hinv.1 hinv.2⟩
    · exact ⟨handover_initial, fun _ h => (nomatch h), List.Pairwise.nil⟩
  exact ⟨hboth.1.handedOver, hboth.2.clean⟩

def twoSpawns : List SpawnEvent :=
  [.wait 0, .spawnSession "a" { taskId := "T", agent := "swe" } {},
    .spawnSession "b" { taskId := "U", agent := "swe" } {}, .wait 1,
    .deliverResult "a" { sessionId := "s", success := true, aborted := false, durationMs := 1 },
    .forceCompleteSession "b"]

theorem two_spawns_handed_over : ∃ finish,
    Run spawnStep (fun (bridge : SpawnBridge) (event : SpawnEvent) => event.timely bridge = true)
      {} twoSpawns finish ∧ HandedOver finish.history ∧ NoZombie finish.history := by
  have hexec : (exec (checked spawnStep fun (bridge : SpawnBridge) (event : SpawnEvent) =>
      event.timely bridge) {} twoSpawns).isSome = true := by decide +kernel
  obtain ⟨finish, hfinish⟩ := Option.isSome_iff_exists.mp hexec
  have hrun : Run spawnStep
      (fun (bridge : SpawnBridge) (event : SpawnEvent) => event.timely bridge = true)
      {} twoSpawns finish := Run.of_exec (fun _ _ h => h) hfinish
  exact ⟨finish, hrun, spawns_handed_over hrun⟩

def forcedWhileWaiting : List SpawnEvent :=
  [.wait 0, .spawnSession "a" { taskId := "T", agent := "swe" } {},
    .spawnSession "b" { taskId := "U", agent := "swe" } {}, .forceCompleteSession "b", .wait 1]

instance (earlier later : SpawnRecord) : Decidable (earlier.Zombie later) :=
  match earlier, later with
  | .forced id, .handed other poll =>
      if h : id = other then .isTrue ⟨id, poll, rfl, h ▸ rfl⟩
      else .isFalse fun ⟨_, _, hforced, hhanded⟩ =>
        h ((SpawnRecord.forced.inj hforced).trans (SpawnRecord.handed.inj hhanded).1.symm)
  | .queued _, _ | .handed .., _ | .completed .., _ => .isFalse nofun
  | .forced _, .queued _ | .forced _, .completed .. | .forced _, .forced _ => .isFalse nofun

theorem forced_handed_out :
    ¬ ∀ (events : List SpawnEvent) (finish : SpawnBridge), FreeRun spawnStep {} events finish →
      HandedOver finish.history ∧ NoZombie finish.history := by
  intro hclaim
  have hexec : (exec spawnStep {} forcedWhileWaiting).any (fun finish =>
      ¬finish.history.Pairwise fun earlier later => ¬earlier.Zombie later) = true := by
    decide +kernel
  obtain ⟨finish, hfinish, hzombie⟩ := (Option.any_eq_true _ _).mp hexec
  exact of_decide_eq_true hzombie (hclaim _ finish (freeRun_iff_exec.mpr hfinish)).2

end Aof
